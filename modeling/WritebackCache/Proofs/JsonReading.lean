import WritebackCache.Proofs.JsonTokens

/-! Reading a text that spells a value gives that value. Each part of the text becomes tokens that take the
reader over the part, whatever containers are open around it, and leave it behind the value they spell. -/

namespace WritebackCache.Json

open Token Reading

/-- Tokens of one value, wherever a value may come. -/
def TakesValue (v : Json) (ts : List Token) : Prop :=
  ∀ around more, readAll (.value around) (ts ++ more) = readAll (.complete v around) more

/-- Tokens of the items of an array, up to its end. -/
def TakesItems (vs : List Json) (ts : List Token) : Prop :=
  ∀ items around more, readAll (.value (.array items :: around)) (ts ++ .closeArray :: more) =
    readAll (.complete (.array (items.reverse ++ vs)) around) more

def TakesMember (m : Option String × Json) (ts : List Token) : Prop :=
  ∃ us, ts = .text m.1 :: .colon :: us ∧ TakesValue m.2 us

/-- Tokens of the members of an object, up to its end. -/
def TakesMembers (ms : List (Option String × Json)) (ts : List Token) : Prop :=
  (∃ key us, ts = .text key :: us) ∧
  ∀ members around more, readAll (.nextKey members around) (ts ++ .closeObject :: more) =
    readAll (.complete (.object (members.reverse ++ ms)) around) more

/-- Tokens of a part of a text. -/
def Part.Takes : Part → List Token → Prop
  | .value v, ts => TakesValue v ts
  | .element v, ts => TakesValue v ts
  | .elements vs, ts => TakesItems vs ts
  | .member m, ts => TakesMember m ts
  | .members ms, ts => TakesMembers ms ts

/-! ## Containers -/

theorem TakesValue.single {v : Json} {t : Token}
    (h : ∀ around, startValue around t = some (.complete v around)) : TakesValue v [t] := by
  intro around more
  simp [readAll, Reading.step, h]

theorem TakesItems.last {v : Json} {ts : List Token} (h : TakesValue v ts) : TakesItems [v] ts := by
  intro items around more
  rw [h]
  simp [readAll, Reading.step, afterValue]

theorem TakesItems.next {v : Json} {vs : List Json} {ts us : List Token} (h : TakesValue v ts)
    (hs : TakesItems vs us) : TakesItems (v :: vs) (ts ++ .comma :: us) := by
  intro items around more
  rw [List.append_assoc, h, List.cons_append]
  have := hs (v :: items) around more
  simpa [readAll, Reading.step, afterValue] using this

/-- Tokens of items do not start with the end of the array, so it makes no difference that the array could
be empty. -/
theorem TakesItems.firstItem {vs : List Json} {ts : List Token} (h : TakesItems vs ts)
    (around : List Frame) (more : List Token) :
    readAll (.firstItem around) (ts ++ more) = readAll (.value (.array [] :: around)) (ts ++ more) := by
  have hread := h [] [] []
  cases ts with
  | nil => simp [readAll, Reading.step, startValue] at hread
  | cons t ts => cases t <;> first | rfl | simp [readAll, Reading.step, startValue] at hread

theorem TakesValue.array {vs : List Json} {ts : List Token} (h : TakesItems vs ts) :
    TakesValue (.array vs) (.openArray :: (ts ++ [.closeArray])) := by
  intro around more
  have hopen : readAll (.value around) (.openArray :: (ts ++ .closeArray :: more)) =
      readAll (.firstItem around) (ts ++ .closeArray :: more) := rfl
  rw [List.cons_append, List.append_assoc, List.singleton_append, hopen, h.firstItem, h]
  rfl

theorem TakesMembers.last {m : Option String × Json} {ts : List Token} (h : TakesMember m ts) :
    TakesMembers [m] ts := by
  obtain ⟨us, rfl, hv⟩ := h
  refine ⟨⟨_, _, rfl⟩, fun members around more => ?_⟩
  have := hv (.object members m.1 :: around) (.closeObject :: more)
  simpa [readAll, Reading.step, afterValue] using this

theorem TakesMembers.next {m : Option String × Json} {ms : List (Option String × Json)}
    {ts us : List Token} (h : TakesMember m ts) (hs : TakesMembers ms us) :
    TakesMembers (m :: ms) (ts ++ .comma :: us) := by
  obtain ⟨vs, rfl, hv⟩ := h
  refine ⟨⟨_, _, rfl⟩, fun members around more => ?_⟩
  have hvalue := hv (.object members m.1 :: around) (.comma :: (us ++ .closeObject :: more))
  have hrest := hs.2 (m :: members) around more
  simpa [readAll, Reading.step, afterValue, hrest] using hvalue

theorem TakesValue.object {ms : List (Option String × Json)} {ts : List Token} (h : TakesMembers ms ts) :
    TakesValue (.object ms) (.openObject :: (ts ++ [.closeObject])) := by
  obtain ⟨⟨key, us, rfl⟩, hread⟩ := h
  intro around more
  rw [List.cons_append, List.append_assoc, List.singleton_append]
  exact hread [] around more

/-! ## Texts -/

/-- Each part of a text becomes tokens of that part. -/
theorem Written.takes {p : Part} {cs : List Char} (h : Written p cs) : ∃ ts, Reads cs ts ∧ p.Takes ts := by
  induction h with
  | nullWord => exact ⟨_, .word rfl rfl, .single fun _ => rfl⟩
  | trueWord => exact ⟨_, .word rfl rfl, .single fun _ => rfl⟩
  | falseWord => exact ⟨_, .word rfl rfl, .single fun _ => rfl⟩
  | number hn => exact ⟨_, .number hn, .single fun _ => rfl⟩
  | text hs => exact ⟨_, (Closed.quoted hs).reads, .single fun _ => rfl⟩
  | emptyArray hspace =>
    refine ⟨[.openArray, .closeArray], ?_, fun _ _ => rfl⟩
    exact (Closed.mark rfl).append ((Closed.space hspace).append (Closed.mark rfl).reads)
  | emptyObject hspace =>
    refine ⟨[.openObject, .closeObject], ?_, fun _ _ => rfl⟩
    exact (Closed.mark rfl).append ((Closed.space hspace).append (Closed.mark rfl).reads)
  | array _ ih =>
    obtain ⟨ts, hreads, hts⟩ := ih
    refine ⟨_, ?_, .array hts⟩
    exact (Closed.mark rfl).append
      (hreads.append (Closed.mark rfl).reads fun _ _ => .cons rfl rfl _)
  | object _ ih =>
    obtain ⟨ts, hreads, hts⟩ := ih
    refine ⟨_, ?_, .object hts⟩
    exact (Closed.mark rfl).append
      (hreads.append (Closed.mark rfl).reads fun _ _ => .cons rfl rfl _)
  | element hfront _ hback ih =>
    obtain ⟨ts, hreads, hts⟩ := ih
    have hread := (Closed.space hfront).append
      (hreads.append (Closed.space hback).reads fun _ => Stops.space hback)
    rw [List.nil_append, List.append_nil] at hread
    exact ⟨ts, hread, hts⟩
  | lastElement _ ih =>
    obtain ⟨ts, hreads, hts⟩ := ih
    exact ⟨ts, hreads, .last hts⟩
  | nextElement _ _ ih ih' =>
    obtain ⟨ts, hreads, hts⟩ := ih
    obtain ⟨us, hreads', hus⟩ := ih'
    refine ⟨_, ?_, .next hts hus⟩
    exact hreads.append ((Closed.mark rfl).append hreads') fun _ _ => .cons rfl rfl _
  | member hfront hkey hback _ ih =>
    obtain ⟨ts, hreads, hts⟩ := ih
    refine ⟨_, ?_, ts, rfl, hts⟩
    exact (Closed.space hfront).append ((Closed.quoted hkey).append
      ((Closed.space hback).append ((Closed.mark rfl).append hreads)))
  | lastMember _ ih =>
    obtain ⟨ts, hreads, hts⟩ := ih
    exact ⟨ts, hreads, .last hts⟩
  | nextMember _ _ ih ih' =>
    obtain ⟨ts, hreads, hts⟩ := ih
    obtain ⟨us, hreads', hus⟩ := ih'
    refine ⟨_, ?_, .next hts hus⟩
    exact hreads.append ((Closed.mark rfl).append hreads') fun _ _ => .cons rfl rfl _

/-- A text that spells a value is read as that value. -/
theorem parse_of_spells {text : String} {v : Json} (h : Spells text v) : parse text = some v := by
  obtain ⟨ts, hreads, hts⟩ := Written.takes h
  have hread : readAll (.value []) ts = some (.complete v []) := by simpa [readAll] using hts [] []
  rw [parse, hreads.ofChars, Option.bind_some, ofTokens, hread]
  rfl

end WritebackCache.Json
