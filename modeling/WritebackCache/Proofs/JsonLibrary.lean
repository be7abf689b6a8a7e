import WritebackCache.Json.Shape
import WritebackCache.Proofs.JsonGrammar

/-! What is known of a library that reads JSON. It reads a text as the value that the grammar gives it. Of
an object it takes each field of a record from the member of that name, of an array from the item at its
place; a field that is not there has its default, a field that is there twice is an error, and so are an
item too many and a name that spells no text. So the order of the members makes no difference, nor do
others among them, and one field that is refused spoils its record. -/

namespace WritebackCache.Json

/-- A field of this name is declared to have this shape. -/
inductive Fields.Has {σ : Type → Type 1} : {β α γ : Type} → Fields σ β α → String → σ γ → Prop
  | head {γ β α name} {shape : σ γ} {default} {rest : Fields σ β α} :
    (Fields.field name shape default rest).Has name shape
  | tail {δ γ β α name other} {shape : σ γ} {own : σ δ} {default} {rest : Fields σ β α} :
    rest.Has name shape → (Fields.field other own default rest).Has name shape

theorem Fields.Has.mem_names {σ : Type → Type 1} {β α γ : Type} {fields : Fields σ β α} {name : String}
    {shape : σ γ} (h : fields.Has name shape) : name ∈ fields.names := by
  induction h with
  | head => exact List.mem_cons_self
  | tail _ ih => exact List.mem_cons_of_mem _ ih

/-- The digits of a number that fits a word. -/
def IsWord (n : UInt64) (v : Json) : Prop := ∃ digits, v = .number digits ∧ Numeral.Spells 10 digits n.toNat

/-- A word, alone or as the name of a member that holds nothing. -/
def IsChoice (word : String) (v : Json) : Prop := v = .text (some word) ∨ v = .object [(some word, .null)]

/-- The members that mention those fields that have a value. -/
def mentions (fields : List (String × Option Json)) : List (Option String × Json) :=
  fields.filterMap fun field => field.2.map fun v => (some field.1, v)

/-- An object that mentions each field that has a value, once. The members are in any order; others may
be among them, whose names spell texts and are no fields. -/
def IsRecord (fields : List (String × Option Json)) (v : Json) : Prop :=
  ∃ members others, v = .object members ∧ members.Perm (mentions fields ++ others) ∧
    ∀ m ∈ others, ∃ name, m.1 = some name ∧ name ∉ fields.map Prod.fst

/-- What a record holds for a field: a member of an object, or the item of an array at the place of the
field. -/
def Holds (names : List String) (v : Json) (name : String) (x : Json) : Prop :=
  (∃ members, v = .object members ∧ (some name, x) ∈ members) ∨
    ∃ items, v = .array items ∧ (name, x) ∈ names.zip items

/-- An object that has a field twice. -/
def Repeats (names : List String) (v : Json) : Prop :=
  ∃ members name, v = .object members ∧ name ∈ names ∧ 2 ≤ members.countP fun m => m.1 = some name

/-- The value of the first member of a name. -/
def member? (members : List (Option String × Json)) (name : String) : Option Json :=
  (members.find? fun m => m.1 = some name).map Prod.snd

/-- What a library documents. Names are asked for as texts, so one that spells none is an error; the values
of members that are passed over are not asked for anything. -/
structure Library.Documented (lib : Library) : Prop where
  parses {text : String} {v : Json} : Spells text v → lib.parse text = some v
  words {n : UInt64} {v : Json} : lib.read .word v = some n ↔ IsWord n v
  choices {α : Type} {spellings : List (String × α)} {word : String} {a : α} {v : Json} :
    (spellings.map Prod.fst).Nodup → (word, a) ∈ spellings → IsChoice word v →
    lib.read (.choice spellings) v = some a
  objects {β α : Type} {make : β} {fields : Fields Shape β α} {members : List (Option String × Json)} :
    (∀ m ∈ members, m.1 ≠ none) → ¬ Repeats fields.names (.object members) →
    lib.read (.record make fields) (.object members) =
      lib.fill fields make (fields.names.map (member? members))
  repeated {β α : Type} {make : β} {fields : Fields Shape β α} {v : Json} :
    Repeats fields.names v → lib.read (.record make fields) v = none
  nameless {β α : Type} {make : β} {fields : Fields Shape β α}
    {members : List (Option String × Json)} {x : Json} : (none, x) ∈ members →
    lib.read (.record make fields) (.object members) = none
  /-- The fields without an item are the last ones. -/
  arrays {β α : Type} {make : β} {fields : Fields Shape β α} {items : List Json} :
    items.length ≤ fields.names.length → lib.read (.record make fields) (.array items) =
      lib.fill fields make (items.map some ++ List.replicate (fields.names.length - items.length) none)
  overlong {β α : Type} {make : β} {fields : Fields Shape β α} {items : List Json} :
    fields.names.length < items.length → lib.read (.record make fields) (.array items) = none

/-- A field that is not mentioned is read like one that mentions nothing. -/
theorem Library.take_of_rel {lib : Library} {σ α : Type} {Writes : σ → Json → Prop} {given : Option σ}
    {found : Option Json} (hrel : Option.Rel Writes given found) {shape : Shape α} (value : σ → α)
    (h : ∀ s v, Writes s v → lib.read shape v = some (value s)) (empty : σ) :
    lib.take shape (value empty) found = some (value (given.getD empty)) := by
  cases hrel with
  | none => rfl
  | some hs => exact h _ _ hs

theorem Library.Documented.take_word {lib : Library} (doc : lib.Documented) {given : Option UInt64}
    {found : Option Json} (h : Option.Rel IsWord given found) (default : UInt64) :
    lib.take .word default found = some (given.getD default) :=
  lib.take_of_rel h id (fun _ _ => doc.words.mpr) default

/-! ## Records that are read -/

theorem mem_mentions {fields : List (String × Option Json)} {m : Option String × Json}
    (h : m ∈ mentions fields) : ∃ name, m.1 = some name ∧ name ∈ fields.map Prod.fst := by
  obtain ⟨field, hfield, hm⟩ := List.mem_filterMap.mp h
  obtain ⟨v, -, rfl⟩ := Option.map_eq_some_iff.mp hm
  exact ⟨field.1, rfl, List.mem_map_of_mem hfield⟩

theorem filter_other {members : List (Option String × Json)} {P : String → Prop}
    (h : ∀ m ∈ members, ∃ name, m.1 = some name ∧ P name) {name : String} (hname : ¬ P name) :
    members.filter (fun m => m.1 = some name) = [] := by
  rw [List.filter_eq_nil_iff]
  intro m hm hsame
  obtain ⟨other, hother, hP⟩ := h m hm
  obtain rfl : name = other := Option.some.inj ((of_decide_eq_true hsame).symm.trans hother)
  exact hname hP

/-- Fields have different names, so one of them has one member at most. -/
theorem filter_mentions {fields : List (String × Option Json)} (distinct : (fields.map Prod.fst).Nodup)
    {name : String} {value : Option Json} (h : (name, value) ∈ fields) :
    (mentions fields).filter (fun m => m.1 = some name) = (value.map fun v => (some name, v)).toList := by
  induction fields with
  | nil => cases h
  | cons field fields ih =>
    rw [List.map_cons, List.nodup_cons] at distinct
    have hsplit : mentions (field :: fields) =
        (field.2.map fun v => (some field.1, v)).toList ++ mentions fields := by
      rw [mentions, List.filterMap_cons]
      cases field.2 <;> rfl
    rw [hsplit, List.filter_append]
    rcases List.mem_cons.mp h with rfl | h
    · rw [filter_other (fun _ => mem_mentions) distinct.1]
      cases value <;> simp
    · have hne : field.1 ≠ name := by
        rintro rfl
        exact distinct.1 (List.mem_map.mpr ⟨_, h, rfl⟩)
      rw [ih distinct.2 h]
      cases field.2 <;> simp [hne]

/-- The members that give a field, in whatever order members stand and whatever others are there. -/
theorem filter_of_perm {fields : List (String × Option Json)} (distinct : (fields.map Prod.fst).Nodup)
    {members others : List (Option String × Json)} (hperm : members.Perm (mentions fields ++ others))
    (hothers : ∀ m ∈ others, ∃ name, m.1 = some name ∧ name ∉ fields.map Prod.fst)
    {name : String} {value : Option Json} (h : (name, value) ∈ fields) :
    members.filter (fun m => m.1 = some name) = (value.map fun v => (some name, v)).toList := by
  have hnone : others.filter (fun m => m.1 = some name) = [] :=
    filter_other hothers (not_not_intro (List.mem_map.mpr ⟨_, h, rfl⟩))
  have hfilter := hperm.filter fun m => m.1 = some name
  rw [List.filter_append, filter_mentions distinct h, hnone, List.append_nil] at hfilter
  cases value with
  | none => exact List.perm_nil.mp hfilter
  | some v => exact List.perm_singleton.mp hfilter

theorem member?_eq_head? (members : List (Option String × Json)) (name : String) :
    member? members name = (members.filter fun m => m.1 = some name).head?.map Prod.snd := by
  rw [member?, List.head?_filter]

namespace Library.Documented

variable {lib : Library} (doc : lib.Documented) {β α : Type} {fields : Fields Shape β α} {v : Json}

include doc

/-- Neither the order of the members nor the others among them make a difference. -/
theorem read_of_isRecord {found : List (String × Option Json)} (names : found.map Prod.fst = fields.names)
    (distinct : fields.names.Nodup) (h : IsRecord found v) (make : β) :
    lib.read (.record make fields) v = lib.fill fields make (found.map Prod.snd) := by
  obtain ⟨members, others, rfl, hperm, hothers⟩ := h
  rw [← names] at distinct
  have given : ∀ field ∈ found, members.filter (fun m => m.1 = some field.1) =
      (field.2.map fun v => (some field.1, v)).toList := fun _ => filter_of_perm distinct hperm hothers
  have named : ∀ m ∈ members, m.1 ≠ none := by
    intro m hm
    rcases List.mem_append.mp (hperm.mem_iff.mp hm) with hm | hm
    · obtain ⟨name, hname, -⟩ := mem_mentions hm
      simp [hname]
    · obtain ⟨name, hname, -⟩ := hothers m hm
      simp [hname]
  have once : ¬ Repeats fields.names (.object members) := by
    rintro ⟨_, name, hmembers, hname, twice⟩
    cases hmembers
    rw [← names] at hname
    obtain ⟨field, hfield, rfl⟩ := List.mem_map.mp hname
    rw [List.countP_eq_length_filter, given field hfield] at twice
    cases hvalue : field.2 <;> simp [hvalue] at twice
  have values : fields.names.map (member? members) = found.map Prod.snd := by
    rw [← names, List.map_map]
    refine List.map_congr_left fun field hfield => ?_
    rw [Function.comp_apply, member?_eq_head?, given field hfield]
    cases field.2 <;> rfl
  rw [doc.objects named once, values]

end Library.Documented

/-! ## Records that are refused -/

/-- One field that is refused is enough. -/
theorem Library.fill_eq_none {lib : Library} {β α γ : Type} {fields : Fields Shape β α} {name : String}
    {shape : Shape γ} (h : fields.Has name shape) (distinct : fields.names.Nodup) {x : Json}
    (refused : lib.read shape x = none) {found : List (Option Json)}
    (hx : (name, some x) ∈ fields.names.zip found) (make : β) : lib.fill fields make found = none := by
  induction h generalizing found with
  | head =>
    obtain ⟨fresh, -⟩ := List.nodup_cons.mp distinct
    cases found with
    | nil => cases hx
    | cons value more =>
      rcases List.mem_cons.mp hx with hhead | htail
      · obtain ⟨-, rfl⟩ := Prod.mk.inj hhead
        simp only [fill, take, refused, Option.bind_none]
      · exact absurd (List.of_mem_zip htail).1 fresh
  | tail hrest ih =>
    obtain ⟨fresh, distinct⟩ := List.nodup_cons.mp distinct
    cases found with
    | nil => cases hx
    | cons value more =>
      have htail : _ ∈ List.zip _ more := (List.mem_cons.mp hx).resolve_left fun hhead => fresh <| by
        obtain ⟨rfl, -⟩ := Prod.mk.inj hhead
        exact hrest.mem_names
      simp only [fill, ih distinct refused htail, Option.bind_fun_none]

/-- A name that is not there several times is there once if its field has a value, and else not at all. -/
theorem filter_of_once {members : List (Option String × Json)} {name : String}
    (once : members.countP (fun m => m.1 = some name) < 2) :
    members.filter (fun m => m.1 = some name) =
      ((member? members name).map fun v => (some name, v)).toList := by
  rw [List.countP_eq_length_filter] at once
  rw [member?_eq_head?]
  cases hmembers : members.filter fun m => m.1 = some name with
  | nil => rfl
  | cons m rest =>
    have hm : m ∈ members.filter fun m => m.1 = some name := by
      rw [hmembers]
      exact List.mem_cons_self
    have same : m.1 = some name := by simpa using (List.mem_filter.mp hm).2
    rw [hmembers, List.length_cons] at once
    obtain rfl : rest = [] := List.eq_nil_of_length_eq_zero (by omega)
    rw [← same]
    rfl

theorem member?_of_mem {members : List (Option String × Json)} {name : String} {x : Json}
    (h : (some name, x) ∈ members) (once : members.countP (fun m => m.1 = some name) < 2) :
    member? members name = some x := by
  have hfilter : (some name, x) ∈ members.filter fun m => m.1 = some name :=
    List.mem_filter.mpr ⟨h, by simp⟩
  rw [filter_of_once once, Option.mem_toList] at hfilter
  obtain ⟨v, hv, hx⟩ := Option.map_eq_some_iff.mp hfilter
  rw [hv, (Prod.mk.inj hx).2]

theorem mem_zip_items {names : List String} {items : List Json} {name : String} {x : Json}
    (h : (name, x) ∈ names.zip items) (n : Nat) :
    (name, some x) ∈ names.zip (items.map some ++ List.replicate n none) := by
  obtain ⟨i, hi⟩ := List.mem_iff_getElem?.mp h
  obtain ⟨hat, hitem⟩ := List.getElem?_zip_eq_some.mp hi
  have hitem' : (items.map some ++ List.replicate n none)[i]? = some (some x) := by
    rw [List.getElem?_append_left (by simpa using (List.getElem?_eq_some_iff.mp hitem).1)]
    simp [hitem]
  exact List.mem_iff_getElem?.mpr ⟨i, List.getElem?_zip_eq_some.mpr ⟨hat, hitem'⟩⟩

/-- A record that holds for a field what is refused is refused. -/
theorem Library.Documented.read_of_holds {lib : Library} (doc : lib.Documented) {β α γ : Type}
    {fields : Fields Shape β α} {name : String} {shape : Shape γ} {v x : Json}
    (h : fields.Has name shape) (distinct : fields.names.Nodup) (hx : Holds fields.names v name x)
    (refused : lib.read shape x = none) (make : β) : lib.read (.record make fields) v = none := by
  rcases hx with ⟨members, rfl, hmem⟩ | ⟨items, rfl, hmem⟩
  · by_cases unnamed : ∃ m ∈ members, m.1 = none
    · obtain ⟨⟨_, y⟩, hy, rfl⟩ := unnamed
      exact doc.nameless hy
    · by_cases twice : Repeats fields.names (.object members)
      · exact doc.repeated twice
      · have once : members.countP (fun m => m.1 = some name) < 2 :=
          Nat.lt_of_not_le fun more => twice ⟨members, name, rfl, h.mem_names, more⟩
        obtain ⟨i, hi⟩ := List.mem_iff_getElem?.mp h.mem_names
        have given : (name, some x) ∈ fields.names.zip (fields.names.map (member? members)) :=
          List.mem_iff_getElem?.mpr ⟨i, List.getElem?_zip_eq_some.mpr
            ⟨hi, by rw [List.getElem?_map, hi, Option.map_some, member?_of_mem hmem once]⟩⟩
        rw [doc.objects (fun m hm h => unnamed ⟨m, hm, h⟩) twice]
        exact Library.fill_eq_none h distinct refused given make
  · rcases Nat.lt_or_ge fields.names.length items.length with long | short
    · exact doc.overlong long
    · rw [doc.arrays short]
      exact Library.fill_eq_none h distinct refused (mem_zip_items hmem _) make

end WritebackCache.Json
