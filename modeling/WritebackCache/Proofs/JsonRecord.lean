import WritebackCache.Json.Record
import WritebackCache.Proofs.JsonLibrary
import WritebackCache.Proofs.JsonReading

/-! The library that the program runs with keeps to what such libraries document. -/

namespace WritebackCache.Json

/-! ## Records -/

theorem field?_of_once {members : List (Option String × Json)} {name : String}
    (once : members.countP (fun m => m.1 = some name) < 2) :
    field? members name = some (member? members name) := by
  rw [field?, filter_of_once once]
  cases member? members name <;> rfl

theorem field?_of_twice {members : List (Option String × Json)} {name : String}
    (twice : 2 ≤ members.countP fun m => m.1 = some name) : field? members name = none := by
  rw [List.countP_eq_length_filter] at twice
  rw [field?]
  split
  · next hnil => simp [hnil] at twice
  · next hone => simp [hone] at twice
  · rfl

theorem mapM_some {names : List String} {read : String → Option (Option Json)}
    {value : String → Option Json} (h : ∀ name ∈ names, read name = some (value name)) :
    names.mapM read = some (names.map value) := by
  induction names with
  | nil => rfl
  | cons name names ih =>
    obtain ⟨hname, hnames⟩ := List.forall_mem_cons.mp h
    simp [hname, ih hnames]

theorem mapM_none {names : List String} {read : String → Option (Option Json)} {name : String}
    (hname : name ∈ names) (h : read name = none) : names.mapM read = none := by
  induction names with
  | nil => cases hname
  | cons first names ih =>
    rw [List.mapM_cons]
    rcases List.mem_cons.mp hname with rfl | hname
    · rw [h]
      rfl
    · rw [ih hname]
      exact Option.bind_fun_none _

theorem record?_of_once {names : List String} {members : List (Option String × Json)}
    (named : ∀ m ∈ members, m.1 ≠ none) (once : ¬ Repeats names (.object members)) :
    record? names (.object members) = some (names.map (member? members)) := by
  have all : members.all (·.1.isSome) = true :=
    List.all_eq_true.mpr fun m hm => Option.isSome_iff_ne_none.mpr (named m hm)
  rw [record?, if_pos all]
  exact mapM_some fun name hname => field?_of_once (Nat.lt_of_not_le fun twice =>
    once ⟨members, name, rfl, hname, twice⟩)

theorem record?_of_repeats {names : List String} {v : Json} (h : Repeats names v) :
    record? names v = none := by
  obtain ⟨members, name, rfl, hname, twice⟩ := h
  rw [record?, mapM_none hname (field?_of_twice twice), ite_self]

/-! ## Values -/

theorem word?_eq_some_iff {v : Json} {n : UInt64} : word? v = some n ↔ IsWord n v := by
  constructor
  · intro h
    cases v with
    | number spelling =>
      obtain ⟨m, hm, h⟩ := Option.bind_eq_some_iff.mp h
      rw [Option.ite_none_right_eq_some] at h
      obtain ⟨hlt, rfl⟩ : m < UInt64.size ∧ UInt64.ofNat m = n := by simpa using h
      refine ⟨spelling, rfl, ?_⟩
      rw [UInt64.toNat_ofNat_of_lt' hlt]
      exact (Numeral.natural?_eq_some_iff (by decide)).mp hm
    | _ => cases h
  · rintro ⟨digits, rfl, h⟩
    have hnatural := (Numeral.natural?_eq_some_iff (by decide)).mpr h
    simp [word?, hnatural, n.toNat_lt_size]

theorem choice?_of_isChoice {α : Type} {spellings : List (String × α)} {word : String} {a : α} {v : Json}
    (distinct : (spellings.map Prod.fst).Nodup) (hword : (word, a) ∈ spellings) (hv : IsChoice word v) :
    choice? spellings v = some a := by
  have hlookup : spellings.lookup word = some a := by
    induction spellings with
    | nil => cases hword
    | cons first rest ih =>
      obtain ⟨fresh, distinct⟩ := List.nodup_cons.mp distinct
      rcases List.mem_cons.mp hword with rfl | hword
      · exact List.lookup_cons_self
      · have hne : (word == first.1) = false :=
          beq_false_of_ne fun h => fresh (h ▸ List.mem_map_of_mem hword)
        rw [List.lookup_cons, hne]
        exact ih distinct hword
  rcases hv with rfl | rfl <;> exact hlookup

/-! ## Declarations -/

theorem assemble_eq_fill {β α : Type} (fields : Fields Shape β α) (make : β) (found : List (Option Json)) :
    fields.assemble make found = library.fill fields make found := by
  induction fields generalizing found with
  | none => cases found <;> rfl
  | field name shape default rest ih =>
    cases found with
    | nil => rfl
    | cons value more =>
      cases value with
      | none => exact ih (make default) more
      | some v =>
        show ((shape.read v).bind _) = (shape.read v).bind _
        exact congrArg _ (funext fun x => ih (make x) more)

theorem library_documented : library.Documented where
  parses := parse_of_spells
  words := word?_eq_some_iff
  choices := choice?_of_isChoice
  objects := by
    intro β α make fields members named once
    show (record? fields.names _).bind _ = _
    rw [record?_of_once named once]
    exact assemble_eq_fill fields make _
  repeated := by
    intro β α make fields v twice
    show (record? fields.names v).bind _ = none
    rw [record?_of_repeats twice, Option.bind_none]
  nameless := by
    intro β α make fields members x hx
    show (record? fields.names (.object members)).bind _ = none
    have unnamed : members.all (·.1.isSome) = false := List.all_eq_false.mpr ⟨_, hx, by simp⟩
    simp [record?, unnamed]
  arrays := by
    intro β α make fields items short
    show (record? fields.names (.array items)).bind _ = _
    rw [record?, if_pos short]
    exact assemble_eq_fill fields make _
  overlong := by
    intro β α make fields items long
    show (record? fields.names (.array items)).bind _ = none
    rw [record?, if_neg (Nat.not_le_of_lt long), Option.bind_none]

end WritebackCache.Json
