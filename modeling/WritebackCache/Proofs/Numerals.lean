import Mathlib.Data.List.Induction
import Mathlib.Tactic.IntervalCases
import WritebackCache.Text.Blank
import WritebackCache.Text.Numeral

/-! Numerals as they are written and as they are read. A numeral is a digit, or a numeral with a digit
behind it; letters may be small or capital. What a reader takes for a number is exactly that, but for a
plus sign in front, which it overlooks. In a byte string the plus sign may stand for the first of two
digits. What is written by the standard digits, in either case, is such a numeral. -/

namespace WritebackCache.Numeral

/-- The digit of a value below the radix, as a small or as a capital letter. -/
def IsDigit (radix : Nat) (c : Char) (d : Nat) : Prop :=
  d < radix ∧ (c = Nat.digitChar d ∨ c = (Nat.digitChar d).toUpper)

/-- The digits of a number, the most significant first. -/
inductive Spells (radix : Nat) : List Char → Nat → Prop
  | digit {c d} : IsDigit radix c d → Spells radix [c] d
  | snoc {cs n c d} : Spells radix cs n → IsDigit radix c d → Spells radix (cs ++ [c]) (radix * n + d)

/-- What may stand in front of the digits of a number: nothing, or a plus sign for a lax reader. -/
def IsSign (lax : Bool) (sign : List Char) : Prop := sign = [] ∨ (lax = true ∧ sign = ['+'])

/-- Two digits for each byte. A lax reader takes a plus sign for the first of them. -/
inductive SpellsBytes (lax : Bool) : List Char → List UInt8 → Prop
  | nil : SpellsBytes lax [] []
  | pair {a b high low cs bytes} : IsDigit 16 a high → IsDigit 16 b low → SpellsBytes lax cs bytes →
      SpellsBytes lax (a :: b :: cs) (.ofNat (16 * high + low) :: bytes)
  | signed {b low cs bytes} : lax = true → IsDigit 16 b low → SpellsBytes lax cs bytes →
      SpellsBytes lax ('+' :: b :: cs) (.ofNat low :: bytes)

/-! ## Digits -/

theorem IsDigit.weaken {radix : Nat} (small : radix ≤ 16) {c : Char} {d : Nat} (h : IsDigit radix c d) :
    IsDigit 16 c d :=
  ⟨Nat.lt_of_lt_of_le h.1 small, h.2⟩

theorem IsDigit.value {c : Char} {d : Nat} (h : IsDigit 16 c d) : digitValue? c = some d := by
  obtain ⟨hd, hc⟩ := h
  interval_cases d <;> rcases hc with rfl | rfl <;> rfl

theorem isDigit_of_value {c : Char} {d : Nat} (h : digitValue? c = some d) : IsDigit 16 c d := by
  have hchar : c = Char.ofNat c.toNat := (Char.ofNat_toNat c).symm
  unfold digitValue? at h
  split at h
  · next hc =>
    have hlow : 48 ≤ c.toNat := hc.1
    have hhigh : c.toNat ≤ 57 := hc.2
    obtain rfl := Option.some.inj h
    rw [hchar]
    interval_cases c.toNat <;> exact ⟨by decide, .inl rfl⟩
  · split at h
    · next hc =>
      have hlow : 97 ≤ c.toNat := hc.1
      have hhigh : c.toNat ≤ 102 := hc.2
      obtain rfl := Option.some.inj h
      rw [hchar]
      interval_cases c.toNat <;> exact ⟨by decide, .inl rfl⟩
    · split at h
      · next hc =>
        have hlow : 65 ≤ c.toNat := hc.1
        have hhigh : c.toNat ≤ 70 := hc.2
        obtain rfl := Option.some.inj h
        rw [hchar]
        interval_cases c.toNat <;> exact ⟨by decide, .inr rfl⟩
      · cases h

/-- No digit is blank or begins a comment, and none is a sign or the mark of a radix. -/
theorem IsDigit.plain {c : Char} {d : Nat} (h : IsDigit 16 c d) :
    Text.isBlank c = false ∧ c ≠ '#' ∧ c ≠ '+' ∧ c ≠ 'x' ∧ c ≠ 'X' := by
  obtain ⟨hd, hc⟩ := h
  interval_cases d <;> rcases hc with rfl | rfl <;> decide

/-- The decimal digits are the ten characters of that name. -/
theorem isDigit_ten_iff {c : Char} : (∃ d, IsDigit 10 c d) ↔ c.isDigit = true := by
  constructor
  · rintro ⟨d, hd, hc⟩
    interval_cases d <;> rcases hc with rfl | rfl <;> rfl
  · intro h
    have hrange : '0' ≤ c ∧ c ≤ '9' := by simpa [Char.isDigit, Char.le_def] using h
    have hvalue : digitValue? c = some (c.toNat - '0'.toNat) := if_pos hrange
    have hhigh : c.toNat ≤ 57 := hrange.2
    have hten : c.toNat - '0'.toNat < 10 := by
      have : '0'.toNat = 48 := rfl
      omega
    exact ⟨_, hten, (isDigit_of_value hvalue).2⟩

section Radix

variable {radix : Nat} (small : radix ≤ 16)
include small

theorem digit?_eq_some_iff {c : Char} {d : Nat} : digit? radix c = some d ↔ IsDigit radix c d := by
  rw [digit?, Option.filter_eq_some_iff, decide_eq_true_iff]
  constructor
  · rintro ⟨hvalue, hlt⟩
    exact ⟨hlt, (isDigit_of_value hvalue).2⟩
  · intro h
    exact ⟨(h.weaken small).value, h.1⟩

/-! ## Numbers -/

omit small in
theorem extend?_append (v : Nat) (xs ys : List Char) :
    extend? radix v (xs ++ ys) = (extend? radix v xs).bind fun w => extend? radix w ys := by
  induction xs generalizing v with
  | nil => rfl
  | cons c xs ih =>
    rw [List.cons_append, extend?, extend?]
    cases digit? radix c with
    | none => rfl
    | some d => exact ih _

omit small in
theorem Spells.ne_nil {cs : List Char} {n : Nat} (h : Spells radix cs n) : cs ≠ [] := by
  cases h <;> simp

omit small in
theorem natural?_eq_extend? {cs : List Char} (ne : cs ≠ []) : natural? radix cs = extend? radix 0 cs := by
  cases cs with
  | nil => exact (ne rfl).elim
  | cons c cs => rfl

theorem extend?_spelled {cs : List Char} {n : Nat} (h : Spells radix cs n) :
    extend? radix 0 cs = some n := by
  induction h with
  | digit hd => simp [extend?, (digit?_eq_some_iff small).mpr hd]
  | snoc _ hd ih => simp [extend?_append, ih, extend?, (digit?_eq_some_iff small).mpr hd]

theorem spells_of_extend? {cs : List Char} (ne : cs ≠ []) {n : Nat} (h : extend? radix 0 cs = some n) :
    Spells radix cs n := by
  induction cs using List.reverseRecOn generalizing n with
  | nil => exact (ne rfl).elim
  | append_singleton cs c ih =>
    rw [extend?_append] at h
    obtain ⟨m, hm, h⟩ := Option.bind_eq_some_iff.mp h
    obtain ⟨d, hd, h⟩ := Option.bind_eq_some_iff.mp h
    obtain rfl := Option.some.inj h
    have hdigit := (digit?_eq_some_iff small).mp hd
    by_cases hcs : cs = []
    · subst hcs
      obtain rfl := Option.some.inj hm
      simpa using Spells.digit hdigit
    · exact .snoc (ih hcs hm) hdigit

theorem natural?_eq_some_iff {cs : List Char} {n : Nat} :
    natural? radix cs = some n ↔ Spells radix cs n := by
  constructor
  · intro h
    have ne : cs ≠ [] := by
      rintro rfl
      cases h
    rw [natural?_eq_extend? ne] at h
    exact spells_of_extend? small ne h
  · intro h
    rw [natural?_eq_extend? h.ne_nil, extend?_spelled small h]

/-- The characters of a numeral are digits. -/
theorem Spells.digits {cs : List Char} {n : Nat} (h : Spells radix cs n) :
    ∀ c ∈ cs, ∃ d, IsDigit 16 c d := by
  induction h with
  | digit hd =>
    intro c hc
    obtain rfl := List.mem_singleton.mp hc
    exact ⟨_, hd.weaken small⟩
  | snoc _ hd ih =>
    intro c hc
    rcases List.mem_append.mp hc with hc | hc
    · exact ih c hc
    · obtain rfl := List.mem_singleton.mp hc
      exact ⟨_, hd.weaken small⟩

theorem unsigned?_of_spelled {cs : List Char} {n : Nat} (h : Spells radix cs n) :
    unsigned? radix cs = natural? radix cs := by
  unfold unsigned?
  split
  · -- a digit in front is no plus sign
    obtain ⟨d, hd⟩ := h.digits small '+' List.mem_cons_self
    exact (hd.plain.2.2.1 rfl).elim
  · rfl

/-- A number with at most one plus sign in front of its digits. -/
theorem unsigned?_eq_some_iff {cs : List Char} {n : Nat} : unsigned? radix cs = some n ↔
    ∃ sign digits, IsSign true sign ∧ cs = sign ++ digits ∧ Spells radix digits n := by
  constructor
  · intro h
    unfold unsigned? at h
    split at h
    · next digits =>
      exact ⟨['+'], digits, .inr ⟨rfl, rfl⟩, rfl, (natural?_eq_some_iff small).mp h⟩
    · exact ⟨[], cs, .inl rfl, rfl, (natural?_eq_some_iff small).mp h⟩
  · rintro ⟨sign, digits, hsign, rfl, h⟩
    rcases hsign with rfl | ⟨-, rfl⟩
    · rw [List.nil_append, unsigned?_of_spelled small h]
      exact (natural?_eq_some_iff small).mpr h
    · exact (natural?_eq_some_iff small).mpr h

theorem word?_eq_some_iff {cs : List Char} {v : UInt64} : word? radix cs = some v ↔
    ∃ sign digits, IsSign true sign ∧ cs = sign ++ digits ∧ Spells radix digits v.toNat := by
  rw [word?, Option.bind_eq_some_iff]
  simp only [unsigned?_eq_some_iff small, Option.ite_none_right_eq_some, Option.some.injEq]
  constructor
  · rintro ⟨n, ⟨sign, digits, hsign, hcs, h⟩, hlt, rfl⟩
    exact ⟨sign, digits, hsign, hcs, by rwa [UInt64.toNat_ofNat_of_lt' hlt]⟩
  · rintro ⟨sign, digits, hsign, hcs, h⟩
    exact ⟨v.toNat, ⟨sign, digits, hsign, hcs, h⟩, v.toNat_lt_size, UInt64.ofNat_toNat⟩

end Radix

/-! ## Bytes -/

theorem spells_pair {a b : Char} {high low : Nat} (ha : IsDigit 16 a high) (hb : IsDigit 16 b low) :
    Spells 16 [a, b] (16 * high + low) :=
  .snoc (.digit ha) hb

/-- A number of one digit is that digit, one of two digits the two in order. -/
theorem Spells.digit_or_pair {radix : Nat} {cs : List Char} {n : Nat} (h : Spells radix cs n)
    (short : cs.length ≤ 2) :
    (∃ c, cs = [c] ∧ IsDigit radix c n) ∨
      ∃ a b high low, cs = [a, b] ∧ IsDigit radix a high ∧ IsDigit radix b low ∧
        n = radix * high + low := by
  cases h with
  | digit h => exact .inl ⟨_, rfl, h⟩
  | snoc h hlow =>
    right
    cases h with
    | digit hhigh => exact ⟨_, _, _, _, rfl, hhigh, hlow, rfl⟩
    | snoc h _ =>
      have hpos := List.length_pos_iff.mpr h.ne_nil
      simp only [List.length_append, List.length_singleton] at short
      omega

theorem bytes?_of_spelled {cs : List Char} {bytes : List UInt8} (h : SpellsBytes true cs bytes) :
    bytes? cs = some bytes := by
  induction h with
  | nil => rfl
  | @pair a b high low cs bytes ha hb _ ih =>
    have hpair : unsigned? 16 [a, b] = some (16 * high + low) :=
      (unsigned?_eq_some_iff (Nat.le_refl _)).mpr ⟨[], [a, b], .inl rfl, rfl, spells_pair ha hb⟩
    simp [bytes?, hpair, ih]
  | @signed b low cs bytes _ hb _ ih =>
    have hpair : unsigned? 16 ['+', b] = some low :=
      (unsigned?_eq_some_iff (Nat.le_refl _)).mpr ⟨['+'], [b], .inr ⟨rfl, rfl⟩, rfl, .digit hb⟩
    simp [bytes?, hpair, ih]

theorem spelled_of_bytes? {cs : List Char} {bytes : List UInt8} (h : bytes? cs = some bytes) :
    SpellsBytes true cs bytes := by
  fun_induction bytes? cs generalizing bytes with
  | case1 =>
    obtain rfl := Option.some.inj h
    exact .nil
  | case2 => cases h
  | case3 a b cs ih =>
    obtain ⟨n, hn, h⟩ := Option.bind_eq_some_iff.mp h
    obtain ⟨rest, hrest, rfl⟩ := Option.map_eq_some_iff.mp h
    obtain ⟨sign, digits, hsign, hab, hdigits⟩ := (unsigned?_eq_some_iff (Nat.le_refl _)).mp hn
    rcases hsign with rfl | ⟨-, rfl⟩
    · rw [List.nil_append] at hab
      subst hab
      rcases hdigits.digit_or_pair (Nat.le_refl _) with ⟨c, hc, _⟩ | ⟨_, _, _, _, hc, ha, hb, rfl⟩
      · cases hc
      · cases hc
        exact .pair ha hb (ih hrest)
    · obtain ⟨rfl, rfl⟩ := List.cons.inj hab
      rcases hdigits.digit_or_pair (by simp) with ⟨c, hc, hb⟩ | ⟨_, _, _, _, hc, _⟩
      · cases hc
        exact .signed rfl hb (ih hrest)
      · cases hc

theorem bytes?_eq_some_iff {cs : List Char} {bytes : List UInt8} :
    bytes? cs = some bytes ↔ SpellsBytes true cs bytes :=
  ⟨spelled_of_bytes?, bytes?_of_spelled⟩

/-! ## Numerals without a sign -/

theorem IsSign.strict {sign : List Char} (h : IsSign false sign) : sign = [] := by
  rcases h with h | ⟨h, _⟩
  · exact h
  · cases h

theorem not_mem_spelled {radix : Nat} (small : radix ≤ 16) {digits : List Char} {n : Nat}
    (h : Spells radix digits n) : '+' ∉ digits := by
  intro hmem
  obtain ⟨d, hd⟩ := h.digits small _ hmem
  exact hd.plain.2.2.1 rfl

theorem spellsBytes_strict_iff {cs : List Char} {bytes : List UInt8} :
    SpellsBytes false cs bytes ↔ SpellsBytes true cs bytes ∧ '+' ∉ cs := by
  constructor
  · intro h
    induction h with
    | nil => exact ⟨.nil, by simp⟩
    | pair ha hb _ ih =>
      refine ⟨.pair ha hb ih.1, ?_⟩
      simp only [List.mem_cons, not_or]
      exact ⟨ha.plain.2.2.1.symm, hb.plain.2.2.1.symm, ih.2⟩
    | signed hlax => cases hlax
  · rintro ⟨h, hplus⟩
    induction h with
    | nil => exact .nil
    | pair ha hb _ ih =>
      simp only [List.mem_cons, not_or] at hplus
      exact .pair ha hb (ih hplus.2.2)
    | signed => exact (hplus (by simp)).elim

/-! ## Writing -/

/-- A letter as a capital, if that is wanted. -/
def recase (upper : Bool) (c : Char) : Char := if upper then c.toUpper else c

theorem isDigit_recase (upper : Bool) {radix d : Nat} (h : d < radix) :
    IsDigit radix (recase upper (Nat.digitChar d)) d := by
  refine ⟨h, ?_⟩
  cases upper
  · exact .inl rfl
  · exact .inr rfl

/-- The standard digits of a number spell it, each letter in either case. -/
theorem spells_toDigits (caps : Nat → Bool) {radix : Nat} (two : 1 < radix) (n : Nat) :
    Spells radix ((Nat.toDigits radix n).mapIdx fun i => recase (caps i)) n := by
  induction n using Nat.strongRecOn with
  | ind n ih =>
    rcases Nat.lt_or_ge n radix with h | h
    · rw [Nat.toDigits_of_lt_base h]
      exact .digit (isDigit_recase _ h)
    · have hpos : 0 < n / radix := Nat.div_pos h (by omega)
      have hlast : n % radix < radix := Nat.mod_lt _ (by omega)
      have hdigits := Nat.toDigits_append_toDigits two hpos hlast
      rw [Nat.div_add_mod, Nat.toDigits_of_lt_base hlast] at hdigits
      rw [← hdigits, List.mapIdx_concat]
      have hn := Spells.snoc (ih _ (Nat.div_lt_self (by omega) two))
        (isDigit_recase (caps (Nat.toDigits radix (n / radix)).length) hlast)
      rwa [Nat.div_add_mod] at hn

theorem spells_toDigits_plain {radix : Nat} (two : 1 < radix) (n : Nat) :
    Spells radix (Nat.toDigits radix n) n := by
  have h := spells_toDigits (fun _ => false) two n
  simpa [recase, List.mapIdx_eq_zipIdx_map] using h

/-- So do the two digits of each byte. -/
theorem spells_ofByte (lax : Bool) (caps : Nat → Bool) (bytes : List UInt8) :
    SpellsBytes lax ((bytes.flatMap ofByte).mapIdx fun i => recase (caps i)) bytes := by
  induction bytes generalizing caps with
  | nil => exact .nil
  | cons b bytes ih =>
    have hb : b.toNat < 256 := b.toNat_lt_size
    have hpair := SpellsBytes.pair (isDigit_recase (caps 0) (show b.toNat / 16 < 16 by omega))
      (isDigit_recase (caps 1) (show b.toNat % 16 < 16 by omega)) (ih fun i => caps (i + 2))
    rw [Nat.div_add_mod, UInt8.ofNat_toNat] at hpair
    simpa [ofByte, List.mapIdx_cons] using hpair

end WritebackCache.Numeral
