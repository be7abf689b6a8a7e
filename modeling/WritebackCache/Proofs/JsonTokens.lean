import WritebackCache.Json.Reader
import WritebackCache.Proofs.JsonGrammar

/-! The tokens of a text of JSON. A word or a number lasts as long as letters, or characters of numbers,
come; the grammar puts a blank, a comma, a bracket or the end of the text behind it. A token of any other
kind carries its own end. -/

namespace WritebackCache.Json.Token

/-! ## Texts of tokens -/

/-- Neither a word nor a number goes on here. -/
def Stops (rest : List Char) : Prop := ∀ c ∈ rest.head?, c.isAlpha = false ∧ inNumber c = false

/-- The tokens of a text, if neither a word nor a number goes on behind it. -/
def Reads (cs : List Char) (ts : List Token) : Prop :=
  ∀ rest, Stops rest → readFrom .between (cs ++ rest) = (readFrom .between rest).map (ts ++ ·)

/-- The tokens of a text that carries its own end. -/
def Closed (cs : List Char) (ts : List Token) : Prop :=
  ∀ rest, readFrom .between (cs ++ rest) = (readFrom .between rest).map (ts ++ ·)

theorem Closed.reads {cs : List Char} {ts : List Token} (h : Closed cs ts) : Reads cs ts :=
  fun rest _ => h rest

theorem map_append_append (found : Option (List Token)) (ts ts' : List Token) :
    (found.map (ts' ++ ·)).map (ts ++ ·) = found.map (ts ++ ts' ++ ·) := by
  simp [Function.comp_def]

theorem Closed.append {cs cs' : List Char} {ts ts' : List Token} (h : Closed cs ts)
    (h' : Reads cs' ts') : Reads (cs ++ cs') (ts ++ ts') := by
  intro rest hrest
  rw [List.append_assoc, h, h' rest hrest, map_append_append]

/-- A word or a number may stand in front of what stops it. -/
theorem Reads.append {cs cs' : List Char} {ts ts' : List Token} (h : Reads cs ts)
    (h' : Reads cs' ts') (stops : ∀ rest, Stops rest → Stops (cs' ++ rest)) :
    Reads (cs ++ cs') (ts ++ ts') := by
  intro rest hrest
  rw [List.append_assoc, h _ (stops rest hrest), h' rest hrest, map_append_append]

theorem Reads.ofChars {cs : List Char} {ts : List Token} (h : Reads cs ts) : ofChars cs = some ts := by
  have := h [] (by simp [Stops])
  simpa [Token.ofChars, readFrom, finish] using this

/-! ## Blanks and marks -/

theorem readFrom_silent {mode next : Mode} {c : Char} (h : step mode c = some (next, []))
    (cs : List Char) : readFrom mode (c :: cs) = readFrom next cs := by
  simp [readFrom, h]

theorem readFrom_token {mode next : Mode} {c : Char} {t : Token} (h : step mode c = some (next, [t]))
    (cs : List Char) : readFrom mode (c :: cs) = (readFrom next cs).map (t :: ·) := by
  simp [readFrom, h]

/-- One character that is a token. -/
theorem Closed.mark {c : Char} {t : Token} (h : step .between c = some (.between, [t])) :
    Closed [c] [t] :=
  fun rest => readFrom_token h rest

theorem Stops.cons {c : Char} (alpha : c.isAlpha = false) (number : inNumber c = false)
    (rest : List Char) : Stops (c :: rest) := by
  intro d hd
  obtain rfl := Option.some.inj hd
  exact ⟨alpha, number⟩

theorem Closed.space {space : List Char} (h : IsSpace space) : Closed space [] := by
  induction space with
  | nil => exact fun _ => by simp
  | cons c space ih =>
    obtain ⟨hc, hspace⟩ := List.forall_mem_cons.mp h
    intro rest
    have blank : step .between c = some (.between, []) := by
      rcases hc with rfl | rfl | rfl | rfl <;> rfl
    rw [List.cons_append, readFrom_silent blank, ih hspace rest]

theorem Stops.space {space rest : List Char} (h : IsSpace space) (hrest : Stops rest) :
    Stops (space ++ rest) := by
  cases space with
  | nil => exact hrest
  | cons c space =>
    rcases h c List.mem_cons_self with rfl | rfl | rfl | rfl <;> exact .cons rfl rfl _

/-! ## Words and numbers -/

/-- What cannot belong to a token ends it. -/
theorem readFrom_ended {mode : Mode} {t : Token} (hfinish : finish mode = some [t]) {rest : List Char}
    (hstep : ∀ c ∈ rest.head?, step mode c = endBefore (some t) c) :
    readFrom mode rest = (readFrom .between rest).map (t :: ·) := by
  cases rest with
  | nil => rw [readFrom, hfinish, readFrom, finish, Option.map_some]
  | cons c rest =>
    have hbetween : step .between c = start c := rfl
    rw [readFrom, readFrom, hstep c rfl, hbetween, endBefore, Option.bind_some]
    cases start c with
    | none => rfl
    | some made => simp [Function.comp_def]

/-- A token that lasts as long as characters come that belong to it. -/
theorem Reads.run (mode : List Char → Mode) (belongs : Char → Bool) {c : Char} {cs : List Char}
    {t : Token} (opens : start c = some (mode [c], []))
    (goesOn : ∀ seen d, belongs d = true → step (mode seen) d = some (mode (d :: seen), []))
    (hcs : ∀ d ∈ cs, belongs d = true) (hfinish : finish (mode (c :: cs).reverse) = some [t])
    (ends : ∀ rest, Stops rest → ∀ d ∈ rest.head?, step (mode (c :: cs).reverse) d = endBefore (some t) d) :
    Reads (c :: cs) [t] := by
  have run : ∀ seen rest, readFrom (mode seen) (cs ++ rest) = readFrom (mode (cs.reverse ++ seen)) rest := by
    clear hfinish ends
    induction cs with
    | nil => exact fun _ _ => rfl
    | cons d cs ih =>
      obtain ⟨hd, hcs⟩ := List.forall_mem_cons.mp hcs
      intro seen rest
      rw [List.cons_append, readFrom_silent (goesOn seen d hd), ih hcs]
      simp
  intro rest hrest
  have hstart : step .between c = some (mode [c], []) := opens
  rw [List.cons_append, readFrom_silent hstart, run, ← List.reverse_cons]
  exact readFrom_ended hfinish (ends rest hrest)

theorem isBlank_eq_true_iff {c : Char} : isBlank c = true ↔ c = ' ' ∨ c = '\t' ∨ c = '\n' ∨ c = '\r' := by
  simp [isBlank, or_assoc]

theorem Reads.word {c : Char} {cs : List Char} {t : Token} (letters : (c :: cs).all Char.isAlpha = true)
    (h : word? (c :: cs) = some t) : Reads (c :: cs) [t] := by
  obtain ⟨hc, hcs⟩ := List.forall_mem_cons.mp (List.all_eq_true.mp letters)
  refine .run .word Char.isAlpha ?_ ?_ hcs ?_ ?_
  · have notBlank : isBlank c = false := by
      rw [← Bool.not_eq_true, isBlank_eq_true_iff]
      rintro (rfl | rfl | rfl | rfl) <;> simp at hc
    simp [start, notBlank, hc]
  · intro seen d hd
    simp [step, hd]
  · simp [finish, h]
  · intro rest hrest d hd
    simp [step, (hrest d hd).1, h]

/-! ## Numbers -/

theorem isDigits_iff {cs : List Char} : isDigits cs = true ↔ cs ≠ [] ∧ ∀ d ∈ cs, d.isDigit = true := by
  simp [isDigits]

theorem inNumber_of_isDigit {c : Char} (h : c.isDigit = true) : inNumber c = true := by
  simp [inNumber, h]

/-- Behind the mark of an exponent comes a sign, or digits. -/
theorem isExponent_of_grammar {cs : List Char} (h : IsExponent cs) : isExponent cs = true := by
  cases h with
  | none => rfl
  | @digits mark sign cs hmark hsign ne hcs =>
    have hdigits : isDigits cs = true := isDigits_iff.mpr ⟨ne, hcs⟩
    rcases hsign with rfl | rfl | rfl
    · rw [List.nil_append, isExponent]
      · simp [hmark, hdigits]
      · rintro _ rfl
        exact absurd (hcs '+' List.mem_cons_self) (by decide)
      · rintro _ rfl
        exact absurd (hcs '-' List.mem_cons_self) (by decide)
    · simp [isExponent, hmark, hdigits]
    · simp [isExponent, hmark, hdigits]

/-- Digits last up to the exponent. -/
theorem span_exponent {ds cs : List Char} (hds : ∀ d ∈ ds, d.isDigit = true) (h : IsExponent cs) :
    (ds ++ cs).takeWhile Char.isDigit = ds ∧ (ds ++ cs).dropWhile Char.isDigit = cs := by
  have hcs : cs.takeWhile Char.isDigit = [] ∧ cs.dropWhile Char.isDigit = cs := by
    cases h with
    | none => exact ⟨rfl, rfl⟩
    | digits hmark _ _ _ => rcases hmark with rfl | rfl <;> simp
  rw [List.takeWhile_append_of_pos hds, List.dropWhile_append_of_pos hds, hcs.1, hcs.2]
  simp

theorem isTail_of_grammar {fraction exponent : List Char} (hf : IsFraction fraction)
    (he : IsExponent exponent) : isTail (fraction ++ exponent) = true := by
  cases hf with
  | none =>
    rw [List.nil_append, isTail]
    · exact isExponent_of_grammar he
    · -- no exponent starts with a point
      rintro cs rfl
      cases he with
      | digits hmark => simp at hmark
  | digits ne hcs =>
    obtain ⟨htake, hdrop⟩ := span_exponent hcs he
    simp [isTail, htake, hdrop, isDigits_iff.mpr ⟨ne, hcs⟩, isExponent_of_grammar he]

theorem isMagnitude_of_grammar {whole fraction exponent : List Char} (hw : IsWhole whole)
    (hf : IsFraction fraction) (he : IsExponent exponent) :
    isMagnitude (whole ++ (fraction ++ exponent)) = true := by
  have htail := isTail_of_grammar hf he
  cases hw with
  | zero => simpa [isMagnitude] using htail
  | @digits c cs hc ne hcs =>
    have hdrop : (cs ++ (fraction ++ exponent)).dropWhile Char.isDigit = fraction ++ exponent := by
      rw [List.dropWhile_append_of_pos hcs]
      cases hf with
      | none => exact (@span_exponent [] _ (by simp) he).2
      | digits => simp
    rw [List.cons_append, isMagnitude]
    · simp [hc, hdrop, htail]
    · exact ne

theorem digits_of_isWhole {cs : List Char} (h : IsWhole cs) :
    ∃ c ds, cs = c :: ds ∧ ∀ d ∈ c :: ds, d.isDigit = true := by
  cases h with
  | zero => exact ⟨_, _, rfl, by simp⟩
  | digits hc _ hcs => exact ⟨_, _, rfl, List.forall_mem_cons.mpr ⟨hc, hcs⟩⟩

theorem isNumber_of_grammar {cs : List Char} (h : IsNumber cs) : isNumber cs = true := by
  obtain ⟨hsign, hw, hf, he⟩ := h
  have hmagnitude := isMagnitude_of_grammar hw hf he
  rcases hsign with rfl | rfl
  · obtain ⟨c, ds, rfl, hdigits⟩ := digits_of_isWhole hw
    rw [List.nil_append, isNumber]
    · exact hmagnitude
    · rintro _ ⟨⟩
      exact absurd (hdigits '-' List.mem_cons_self) (by decide)
  · exact hmagnitude

theorem inNumber_of_grammar {cs : List Char} (h : IsNumber cs) : ∀ c ∈ cs, inNumber c = true := by
  have digits : ∀ {ds : List Char}, (∀ d ∈ ds, d.isDigit = true) → ∀ d ∈ ds, inNumber d = true :=
    fun hds d hd => inNumber_of_isDigit (hds d hd)
  obtain ⟨hsign, hw, hf, he⟩ := h
  simp only [List.forall_mem_append]
  refine ⟨?_, ?_, ?_, ?_⟩
  · rcases hsign with rfl | rfl <;> simp [inNumber]
  · obtain ⟨c, ds, rfl, hdigits⟩ := digits_of_isWhole hw
    exact digits hdigits
  · cases hf with
    | none => simp
    | digits _ hds => exact List.forall_mem_cons.mpr ⟨rfl, digits hds⟩
  · cases he with
    | none => simp
    | digits hmark hsign _ hds =>
      refine List.forall_mem_cons.mpr ⟨?_, List.forall_mem_append.mpr ⟨?_, digits hds⟩⟩
      · rcases hmark with rfl | rfl <;> rfl
      · rcases hsign with rfl | rfl | rfl <;> simp [inNumber]

/-- A number starts with a digit or a minus sign. -/
theorem start_of_grammar {cs : List Char} (h : IsNumber cs) :
    ∃ c ds, cs = c :: ds ∧ start c = some (.number [c], []) := by
  obtain ⟨hsign, hw, -, -⟩ := h
  rcases hsign with rfl | rfl
  · obtain ⟨c, ds, rfl, hdigits⟩ := digits_of_isWhole hw
    refine ⟨c, _, rfl, ?_⟩
    obtain ⟨d, hd, hc⟩ := Numeral.isDigit_ten_iff.mpr (hdigits c List.mem_cons_self)
    interval_cases d <;> rcases hc with rfl | rfl <;> rfl
  · exact ⟨'-', _, rfl, rfl⟩

theorem Reads.number {cs : List Char} (h : IsNumber cs) : Reads cs [.number cs] := by
  obtain ⟨c, ds, rfl, hstart⟩ := start_of_grammar h
  have hnumber : number? (c :: ds) = some (.number (c :: ds)) := if_pos (isNumber_of_grammar h)
  refine .run .number inNumber hstart ?_
    (List.forall_mem_cons.mp (inNumber_of_grammar h)).2 ?_ ?_
  · intro seen d hd
    simp [step, hd]
  · simp [finish, hnumber]
  · intro rest hrest d hd
    simp [step, (hrest d hd).2, hnumber]

/-! ## Strings -/

theorem escaped?_of_mem {c : Char} {unit : Nat} (h : (c, unit) ∈ escapes) :
    escaped? c = some unit ∧ c ≠ 'u' := by
  simp only [escapes, List.mem_cons, Prod.mk.injEq, List.not_mem_nil, or_false] at h
  rcases h with h | h | h | h | h | h | h | h <;> obtain ⟨rfl, rfl⟩ := h <;> exact ⟨rfl, by decide⟩

/-- Four digits behind the mark are a unit. -/
theorem readFrom_unicode {a b c d : Char} {i j k l : Nat} (ha : Numeral.IsDigit 16 a i)
    (hb : Numeral.IsDigit 16 b j) (hc : Numeral.IsDigit 16 c k) (hd : Numeral.IsDigit 16 d l)
    (seen : List Nat) (rest : List Char) :
    readFrom (.escape seen) ('u' :: a :: b :: c :: d :: rest) =
      readFrom (.string ((16 * (16 * (16 * i + j) + k) + l) :: seen)) rest := by
  have value : ∀ {c n}, Numeral.IsDigit 16 c n → Numeral.digit? 16 c = some n :=
    fun h => (Numeral.digit?_eq_some_iff (Nat.le_refl _)).mpr h
  have digit : ∀ {c n} (left v : Nat), Numeral.IsDigit 16 c n →
      step (.unicode seen (left + 1) v) c = some (.unicode seen left (16 * v + n), []) :=
    fun _ _ h => by simp [step, value h]
  have last : ∀ v, step (.unicode seen 0 v) d = some (.string ((16 * v + l) :: seen), []) :=
    fun _ => by simp [step, value hd]
  have mark : step (.escape seen) 'u' = some (.unicode seen 3 0, []) := rfl
  rw [readFrom_silent mark, readFrom_silent (digit 2 0 ha), readFrom_silent (digit 1 _ hb),
    readFrom_silent (digit 0 _ hc), readFrom_silent (last _)]
  simp

/-- The units of a string are collected up to its end. -/
theorem readFrom_units {units : List Nat} {cs : List Char} (h : SpellsUnits units cs) (seen : List Nat)
    (rest : List Char) : readFrom (.string seen) (cs ++ '"' :: rest) =
      (readFrom .between rest).map (string (units.reverse ++ seen) :: ·) := by
  induction h generalizing seen with
  | nil => exact readFrom_token rfl rest
  | @plain c units cs hplain _ ih =>
    obtain ⟨⟨quote, slash⟩, visible⟩ : (c ≠ '"' ∧ c ≠ '\\') ∧ 0x20 ≤ c.toNat := by
      simpa [isPlain] using hplain
    have hstep : step (.string seen) c = some (.string (c.toNat :: seen), []) := by
      simp [step, quote, slash, Nat.not_lt.mpr visible]
    rw [List.cons_append, readFrom_silent hstep, ih]
    simp
  | @escape c unit units cs hmem _ ih =>
    obtain ⟨hescaped, notU⟩ := escaped?_of_mem hmem
    have hslash : step (.string seen) '\\' = some (.escape seen, []) := rfl
    have hstep : step (.escape seen) c = some (.string (unit :: seen), []) := by
      simp [step, hescaped, notU]
    rw [List.cons_append, readFrom_silent hslash, List.cons_append, readFrom_silent hstep, ih]
    simp
  | unicode ha hb hc hd _ ih =>
    have hslash : step (.string seen) '\\' = some (.escape seen, []) := rfl
    rw [List.cons_append, readFrom_silent hslash]
    simp only [List.cons_append]
    rw [readFrom_unicode ha hb hc hd, ih]
    simp

theorem units_lt {units : List Nat} {cs : List Char} (h : SpellsUnits units cs) :
    ∀ u ∈ units, u < 0x110000 := by
  induction h with
  | nil => simp
  | @plain c units cs _ _ ih =>
    have valid : c.toNat.isValidChar := c.valid
    unfold Nat.isValidChar at valid
    exact List.forall_mem_cons.mpr ⟨by omega, ih⟩
  | escape hmem _ ih =>
    have : ∀ e ∈ escapes, e.2 < 0x110000 := by decide
    exact List.forall_mem_cons.mpr ⟨this _ hmem, ih⟩
  | unicode ha hb hc hd _ ih =>
    have := ha.1
    have := hb.1
    have := hc.1
    have := hd.1
    exact List.forall_mem_cons.mpr ⟨by omega, ih⟩

theorem toNat_ofNat {n : Nat} (h : n.isValidChar) : (Char.ofNat n).toNat = n := by
  rw [Char.ofNat, dif_pos h]
  rfl

/-- A code point that is no half of a pair is decoded alone. -/
theorem decode?_char {unit : Nat} (h : unit.isValidChar) (units : List Nat) :
    decode? (unit :: units) = (decode? units).map (Char.ofNat unit :: ·) := by
  unfold Nat.isValidChar at h
  have high : ¬(0xd800 ≤ unit ∧ unit < 0xdc00) := by omega
  have low : ¬(0xdc00 ≤ unit ∧ unit < 0xe000) := by omega
  cases units <;> simp only [decode?, if_neg high, if_neg low]

theorem decode?_of_encodes {units : List Nat} {cs : List Char} (h : Encodes units cs) :
    decode? units = some cs := by
  induction h with
  | nil => rfl
  | @char c units cs _ ih =>
    have valid : c.toNat.isValidChar := c.valid
    rw [decode?_char valid, ih, Char.ofNat_toNat, Option.map_some]
  | pair high high' low low' hc _ ih =>
    simp [decode?, high, high', low, low', ih, ← hc]

/-- Only units that are characters, or pairs of halves, can be decoded. -/
theorem encodes_of_decode? {units : List Nat} {cs : List Char} (small : ∀ u ∈ units, u < 0x110000)
    (h : decode? units = some cs) : Encodes units cs := by
  fun_induction decode? units generalizing cs with
  | case1 =>
    obtain rfl := Option.some.inj h
    exact .nil
  | case2 high hhigh low rest hlow ih =>
    obtain ⟨cs, hcs, rfl⟩ := Option.map_eq_some_iff.mp h
    simp only [List.forall_mem_cons] at small
    refine .pair hhigh.1 hhigh.2 hlow.1 hlow.2 ?_ (ih small.2.2 hcs)
    exact toNat_ofNat (.inr (by omega))
  | case3 | case4 | case5 =>
    -- half of a pair without its other half
    cases h
  | case6 unit rest high low ih =>
    obtain ⟨cs, hcs, rfl⟩ := Option.map_eq_some_iff.mp h
    obtain ⟨hunit, hrest⟩ := List.forall_mem_cons.mp small
    have valid : unit.isValidChar := by
      unfold Nat.isValidChar
      omega
    have := Encodes.char (c := Char.ofNat unit) (ih hrest hcs)
    rwa [toNat_ofNat valid] at this

theorem Closed.quoted {content : Option String} {cs : List Char} (h : IsString content cs) :
    Closed cs [.text content] := by
  have closed : ∀ {units cs}, SpellsUnits units cs → Closed ('"' :: (cs ++ ['"'])) [string units.reverse] := by
    intro units cs hunits rest
    have := readFrom_units hunits [] rest
    have quote : step .between '"' = some (.string [], []) := rfl
    rw [List.cons_append, readFrom_silent quote, List.append_assoc]
    simpa using this
  cases h with
  | text hunits henc =>
    simpa [string, decode?_of_encodes henc] using closed hunits
  | broken hunits hbroken =>
    have : decode? _ = none := Option.eq_none_iff_forall_ne_some.mpr fun cs hcs =>
      hbroken cs (encodes_of_decode? (units_lt hunits) hcs)
    simpa [string, this] using closed hunits

end WritebackCache.Json.Token
