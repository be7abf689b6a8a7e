import WritebackCache.Replacement

/-! The choice of the least recently used policy. The scan of a set keeps the first of the oldest lines
among those it has passed, so what it ends with is the first of the oldest lines of the set. It is asked
for only when every line holds a block; else the first line that holds none is taken. Nothing but whether
a line holds a block and when it was used last enters into the choice. -/

namespace WritebackCache

/-- What the policy sees of a line. -/
def Line.usage (l : Line) : Bool × Nat := (l.valid, l.lastUse)

namespace Replacement

/-- The first line that holds no block. -/
structure FirstFree (lines : List Line) (way : Nat) (l : Line) : Prop where
  there : lines[way]? = some l
  free : l.valid = false
  earlier : ∀ {k m}, k < way → lines[k]? = some m → m.valid = true

/-- The line used least recently, the first of several. -/
structure Oldest (lines : List Line) (way : Nat) (l : Line) : Prop where
  there : lines[way]? = some l
  earlier : ∀ {k m}, k < way → lines[k]? = some m → l.lastUse < m.lastUse
  later : ∀ {k m}, way < k → lines[k]? = some m → l.lastUse ≤ m.lastUse

variable {lines : List Line} {way : Nat} {l x : Line}

theorem FirstFree.unique {way' : Nat} {l' : Line} (h : FirstFree lines way l)
    (h' : FirstFree lines way' l') : way = way' := by
  rcases Nat.lt_trichotomy way way' with hlt | he | hlt
  · have hvalid := h'.earlier hlt h.there
    rw [h.free] at hvalid
    cases hvalid
  · exact he
  · have hvalid := h.earlier hlt h'.there
    rw [h'.free] at hvalid
    cases hvalid

theorem Oldest.unique {way' : Nat} {l' : Line} (h : Oldest lines way l)
    (h' : Oldest lines way' l') : way = way' := by
  rcases Nat.lt_trichotomy way way' with hlt | he | hlt
  · have := h.later hlt h'.there
    have := h'.earlier hlt h.there
    omega
  · exact he
  · have := h'.later hlt h.there
    have := h.earlier hlt h'.there
    omega

theorem Oldest.lt (h : Oldest lines way l) : way < lines.length :=
  (List.getElem?_eq_some_iff.mp h.there).1

theorem Oldest.le (h : Oldest lines way l) : ∀ m ∈ lines, l.lastUse ≤ m.lastUse := by
  intro m hm
  obtain ⟨k, hk⟩ := List.getElem?_of_mem hm
  rcases Nat.lt_trichotomy k way with hlt | rfl | hlt
  · exact Nat.le_of_lt (h.earlier hlt hk)
  · obtain rfl := Option.some.inj (hk.symm.trans h.there)
    exact Nat.le_refl _
  · exact h.later hlt hk

/-! ## The scan -/

theorem oldest_singleton (l : Line) : Oldest [l] 0 l where
  there := rfl
  earlier hk _ := (Nat.not_lt_zero _ hk).elim
  later hk hm := by
    have hlt := (List.getElem?_eq_some_iff.mp hm).1
    simp only [List.length_singleton] at hlt
    omega

/-- A line that was used before the oldest one so far is the oldest one from there on. -/
theorem Oldest.replace (h : Oldest lines way l) (hx : x.lastUse < l.lastUse) :
    Oldest (lines ++ [x]) lines.length x where
  there := by simp
  earlier {k m} hk hm := by
    rw [List.getElem?_append_left hk] at hm
    exact Nat.lt_of_lt_of_le hx (h.le m (List.mem_of_getElem? hm))
  later {k m} hk hm := by
    have hlt := (List.getElem?_eq_some_iff.mp hm).1
    simp only [List.length_append, List.length_singleton] at hlt
    omega

/-- Any other line leaves it the oldest one. -/
theorem Oldest.keep (h : Oldest lines way l) (hx : l.lastUse ≤ x.lastUse) :
    Oldest (lines ++ [x]) way l where
  there := (List.getElem?_append_left h.lt).trans h.there
  earlier {k m} hk hm := by
    rw [List.getElem?_append_left (Nat.lt_trans hk h.lt)] at hm
    exact h.earlier hk hm
  later {k m} hk hm := by
    rcases List.mem_append.mp (List.mem_of_getElem? hm) with hmem | hmem
    · exact h.le m hmem
    · rw [List.mem_singleton.mp hmem]
      exact hx

/-- The scan goes on from the oldest of the lines passed to the oldest of all. -/
theorem Oldest.scan (h : Oldest lines way l) (rest : List Line) :
    ∃ k, Oldest (lines ++ rest) (oldest way l.lastUse lines.length rest) k := by
  induction rest generalizing lines way l with
  | nil => exact ⟨l, by rwa [List.append_nil]⟩
  | cons x rest ih =>
    have hlength : lines.length + 1 = (lines ++ [x]).length := by simp
    rw [List.append_cons, oldest, hlength]
    split
    · next hlt => exact ih (h.replace hlt)
    · next hge => exact ih (h.keep (Nat.le_of_not_lt hge))

/-! ## The choice -/

/-- A line that holds nothing is taken as long as there is one. -/
theorem victim_free (h : ∃ l ∈ lines, l.valid = false) : ∃ l, FirstFree lines (victim lines) l := by
  unfold victim
  cases hf : lines.findIdx? (!·.valid) with
  | none =>
    obtain ⟨l, hl, hv⟩ := h
    have := List.findIdx?_eq_none_iff.mp hf l hl
    rw [hv] at this
    cases this
  | some way =>
    obtain ⟨hlt, hv, hbefore⟩ := List.findIdx?_eq_some_iff_getElem.mp hf
    refine ⟨lines[way], List.getElem?_eq_getElem hlt, by simpa using hv, ?_⟩
    intro k m hk hm
    obtain ⟨_, rfl⟩ := List.getElem?_eq_some_iff.mp hm
    simpa using hbefore k hk

/-- Among lines that all hold something the one used least recently is taken. -/
theorem victim_full (ne : lines ≠ []) (h : ∀ l ∈ lines, l.valid = true) :
    ∃ l, Oldest lines (victim lines) l := by
  have hf : lines.findIdx? (!·.valid) = none :=
    List.findIdx?_eq_none_iff.mpr fun l hl => by rw [h l hl]; rfl
  unfold victim
  rw [hf]
  cases lines with
  | nil => exact (ne rfl).elim
  | cons l rest => exact (oldest_singleton l).scan rest

theorem victim_lt (ne : lines ≠ []) : victim lines < lines.length := by
  by_cases h : ∃ l ∈ lines, l.valid = false
  · obtain ⟨_, hl⟩ := victim_free h
    exact (List.getElem?_eq_some_iff.mp hl.there).1
  · have hall : ∀ l ∈ lines, l.valid = true := fun l hl =>
      eq_true_of_ne_false fun hv => h ⟨l, hl, hv⟩
    obtain ⟨_, hl⟩ := victim_full ne hall
    exact hl.lt

theorem oldest_congr {xs ys : List Line} (h : xs.map Line.usage = ys.map Line.usage)
    (best stamp way : Nat) : oldest best stamp way xs = oldest best stamp way ys := by
  induction xs generalizing ys best stamp way with
  | nil =>
    obtain rfl := List.map_eq_nil_iff.mp h.symm
    rfl
  | cons x xs ih =>
    obtain ⟨y, ys, rfl, hy, hys⟩ := List.map_eq_cons_iff.mp h.symm
    have hstamp : y.lastUse = x.lastUse := congrArg Prod.snd hy
    rw [oldest, oldest, hstamp]
    split
    · exact ih hys.symm _ _ _
    · exact ih hys.symm _ _ _

/-- Lines that look the same to the policy are treated the same. -/
theorem victim_congr {xs ys : List Line} (h : xs.map Line.usage = ys.map Line.usage) :
    victim xs = victim ys := by
  have hfree : ∀ zs : List Line,
      zs.findIdx? (!·.valid) = (zs.map Line.usage).findIdx? (!·.1) := fun zs => by
    rw [List.findIdx?_map]
    rfl
  unfold victim
  rw [hfree, hfree, h]
  cases (ys.map Line.usage).findIdx? (!·.1) with
  | some way => rfl
  | none =>
    cases xs with
    | nil =>
      obtain rfl := List.map_eq_nil_iff.mp h.symm
      rfl
    | cons x xs =>
      obtain ⟨y, ys, rfl, hy, hys⟩ := List.map_eq_cons_iff.mp h.symm
      have hstamp : y.lastUse = x.lastUse := congrArg Prod.snd hy
      simp only [hstamp]
      exact oldest_congr hys.symm _ _ _

/-- The least recently used policy takes a way of the set. It is the first way that holds nothing if there
is one, and if all hold something it is the one way that was used before all ways in front of it and not
after any way behind it. Neither how often it was asked nor marks, tags and data have a part in it. -/
theorem lru_takes_least (asked : Nat) (ne : lines ≠ []) :
    lru asked lines < lines.length ∧
    ((∃ l ∈ lines, l.valid = false) →
      ∀ way, (∃ l, FirstFree lines way l) ↔ way = lru asked lines) ∧
    ((∀ l ∈ lines, l.valid = true) →
      ∀ way, (∃ l, Oldest lines way l) ↔ way = lru asked lines) ∧
    ∀ often others, others.map Line.usage = lines.map Line.usage →
      lru often others = lru asked lines := by
  refine ⟨victim_lt ne, ?free, ?full, fun _ _ same => victim_congr same⟩
  case free =>
    intro some_free way
    obtain ⟨l, hl⟩ := victim_free some_free
    constructor
    · rintro ⟨_, h⟩
      exact h.unique hl
    · rintro rfl
      exact ⟨l, hl⟩
  case full =>
    intro all_valid way
    obtain ⟨l, hl⟩ := victim_full ne all_valid
    constructor
    · rintro ⟨_, h⟩
      exact h.unique hl
    · rintro rfl
      exact ⟨l, hl⟩

/-- Two lines share the least stamp, and the first of them is taken. -/
theorem lru_takes_least_tied :
    let lines := [5, 3, 4, 3].map fun stamp => { Line.fresh with valid := true, lastUse := stamp }
    lines ≠ [] ∧ (∀ l ∈ lines, l.valid = true) ∧ lru 0 lines < 4 ∧ lru 0 lines = 1 ∧
      (∀ way, (∃ l, Oldest lines way l) ↔ way = 1) ∧
      lru 9 (lines.map fun l => { l with dirty := true, tag := ⟨7⟩ }) = 1 := by
  intro lines
  have ne : lines ≠ [] := by decide
  have all_valid : ∀ l ∈ lines, l.valid = true := by decide
  have first : lru 0 lines = 1 := by decide
  obtain ⟨inRange, -, oldest, blind⟩ := lru_takes_least 0 ne
  rw [first] at oldest blind
  exact ⟨ne, all_valid, inRange, first, oldest all_valid, blind 9 _ (by decide)⟩

end Replacement

end WritebackCache
