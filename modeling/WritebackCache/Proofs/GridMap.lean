import WritebackCache.Grid

/-! The grid as a partial map from blocks to lines. A line is replaced at its own coordinates and
nowhere else, because a row and a way determine the place of a line. In a keyed grid every valid line
lies in the set of its tag, and no set holds a tag twice; then a lookup finds the one line of a block,
and a replaced line changes the map at two blocks only: the one it holds now and the one it held before.
In a sound grid, moreover, no two valid lines share a stamp. -/

namespace WritebackCache.Grid

/-- The coordinates of a line of the grid. -/
def Has (g : Grid) (set way : Nat) : Prop := set < g.sets ∧ way < g.ways

theorem index_lt {g : Grid} {set way : Nat} (h : g.Has set way) :
    set * g.ways + way < g.lines.size := by
  have hle : (set + 1) * g.ways ≤ g.sets * g.ways := Nat.mul_le_mul_right _ h.1
  rw [Nat.succ_mul] at hle
  rw [g.size_lines]
  exact Nat.lt_of_lt_of_le (Nat.add_lt_add_left h.2 _) hle

theorem index_inj {ways s w s' w' : Nat} (hw : w < ways) (hw' : w' < ways)
    (h : s * ways + w = s' * ways + w') : s = s' ∧ w = w' := by
  have hpos : 0 < ways := by omega
  have hdiv : ∀ a b, b < ways → (a * ways + b) / ways = a := by
    intro a b hb
    rw [Nat.mul_comm, Nat.mul_add_div hpos, Nat.div_eq_of_lt hb, Nat.add_zero]
  have hs : s = s' := by rw [← hdiv s w hw, h, hdiv s' w' hw']
  subst hs
  exact ⟨rfl, by omega⟩

theorem setOf_lt (g : Grid) (b : BlockNumber) : g.setOf b < g.sets := Nat.mod_lt _ g.sets_pos

theorem has_setOf {g : Grid} {way : Nat} (h : way < g.ways) (b : BlockNumber) :
    g.Has (g.setOf b) way := ⟨g.setOf_lt b, h⟩

theorem cell_put {g : Grid} {set way s w : Nat} (l : Line) (h : g.Has set way) (hw : w < g.ways) :
    (g.put set way l).cell s w = if s = set ∧ w = way then l else g.cell s w := by
  have hlt := index_lt h
  simp only [cell, put, Array.getD_eq_getD_getElem?, Array.getElem?_setIfInBounds, hlt, if_true]
  by_cases he : s = set ∧ w = way
  · obtain ⟨rfl, rfl⟩ := he
    simp
  · have hne : set * g.ways + way ≠ s * g.ways + w := by
      intro hi
      obtain ⟨rfl, rfl⟩ := index_inj h.2 hw hi
      exact he ⟨rfl, rfl⟩
    rw [if_neg hne, if_neg he]

theorem cell_put_self {g : Grid} {set way : Nat} (l : Line) (h : g.Has set way) :
    (g.put set way l).cell set way = l := by
  rw [cell_put l h h.2, if_pos ⟨rfl, rfl⟩]

theorem put_put (g : Grid) (set way : Nat) (k l : Line) :
    (g.put set way k).put set way l = g.put set way l := by
  simp only [put, Array.setIfInBounds_setIfInBounds]

theorem put_cell {g : Grid} {set way : Nat} (h : g.Has set way) :
    g.put set way (g.cell set way) = g := by
  have hlt := index_lt h
  have hlines : g.lines.setIfInBounds (set * g.ways + way) (g.cell set way) = g.lines := by
    apply Array.ext Array.size_setIfInBounds
    intro i hi hi'
    rw [Array.getElem_setIfInBounds]
    split
    · next he =>
      subst he
      simp only [cell, Array.getD_eq_getD_getElem?, Array.getElem?_eq_getElem hlt, Option.getD_some]
    · rfl
  cases g
  simp only [put, mk.injEq, true_and]
  exact hlines

/-- Bytes that end within the block are laid over a line, which is marked dirty only if it is valid. -/
theorem write_eq {g : Grid} {set way offset : Nat} {bytes : List UInt8} {dirty : Bool}
    (has : g.Has set way) (valid : dirty = true → (g.cell set way).valid = true)
    (fits : offset + bytes.length ≤ blockSize) :
    g.write set way offset bytes dirty = .ok (g.put set way
      { g.cell set way with
        data := (g.cell set way).data.patch offset bytes
        dirty := (g.cell set way).dirty || dirty }) := by
  have hdirty : ¬ (dirty && !(g.cell set way).valid) = true := by
    cases dirty with
    | false => simp
    | true => simp [valid rfl]
  have hword : ¬ UInt64.size ≤ offset + bytes.length :=
    Nat.not_le_of_lt (Nat.lt_of_le_of_lt fits (by decide))
  simp only [write, within, if_pos (show _ ∧ _ from has), if_neg hdirty, if_neg hword,
    if_neg (Nat.not_lt_of_le fits)]

/-! ## Keyed grids -/

/-- Every valid line lies in the set of its tag, and no set holds a tag twice. -/
structure Keyed (g : Grid) : Prop where
  home : ∀ {s w}, g.Has s w → (g.cell s w).valid = true → g.setOf (g.cell s w).tag = s
  once : ∀ {s w w'}, g.Has s w → g.Has s w' → (g.cell s w).valid = true →
    (g.cell s w').valid = true → (g.cell s w).tag = (g.cell s w').tag → w = w'

theorem holds_iff {l : Line} {b : BlockNumber} : l.holds b = true ↔ l.valid = true ∧ l.tag = b := by
  simp [Line.holds]

theorem length_row (g : Grid) (set : Nat) : (g.row set).length = g.ways := by simp [row]

theorem getElem_row (g : Grid) (set : Nat) {way : Nat} (h : way < (g.row set).length) :
    (g.row set)[way] = g.cell set way := by simp [row]

/-- A lookup that finds nothing: no way of the set holds the block. -/
theorem lookup_eq_none_iff {g : Grid} {b : BlockNumber} :
    g.lookup b = none ↔ ∀ w, w < g.ways → (g.cell (g.setOf b) w).holds b = false := by
  simp [lookup, row]

/-- A lookup that finds a way finds the block in it. -/
theorem holds_of_lookup {g : Grid} {b : BlockNumber} {way : Nat} (h : g.lookup b = some way) :
    way < g.ways ∧ (g.cell (g.setOf b) way).holds b = true := by
  obtain ⟨hlt, hh, _⟩ := List.findIdx?_eq_some_iff_getElem.mp h
  rw [getElem_row] at hh
  exact ⟨by rwa [length_row] at hlt, hh⟩

theorem Keyed.lookup_eq_some_iff {g : Grid} (h : g.Keyed) {b : BlockNumber} {way : Nat} :
    g.lookup b = some way ↔ way < g.ways ∧ (g.cell (g.setOf b) way).holds b = true := by
  constructor
  · exact holds_of_lookup
  · rintro ⟨hw, hh⟩
    cases hl : g.lookup b with
    | none => rw [lookup_eq_none_iff.mp hl way hw] at hh; cases hh
    | some v =>
      obtain ⟨hv, hh'⟩ := holds_of_lookup hl
      obtain ⟨hval, htag⟩ := holds_iff.mp hh
      obtain ⟨hval', htag'⟩ := holds_iff.mp hh'
      rw [h.once (has_setOf hv b) (has_setOf hw b) hval' hval (htag'.trans htag.symm)]

/-- What a line must bring along to be put at its coordinates: the block it holds, if any, is one of that
set which no other way of the set holds. -/
structure Lodges (g : Grid) (set way : Nat) (l : Line) : Prop where
  coords : g.Has set way
  home : l.valid = true → g.setOf l.tag = set
  alone : l.valid = true → ∀ w, w < g.ways → w ≠ way → (g.cell set w).holds l.tag = false

/-- A line may be replaced by another that holds the same block, or none. -/
theorem Keyed.lodges {g : Grid} (h : g.Keyed) {set way : Nat} {l : Line} (hc : g.Has set way)
    (hv : l.valid = (g.cell set way).valid) (ht : l.tag = (g.cell set way).tag) :
    g.Lodges set way l := by
  refine ⟨hc, ?_, ?_⟩ <;> rw [hv, ht] <;> intro valid
  · exact h.home hc valid
  · intro w hw hne
    refine Bool.eq_false_iff.mpr fun hh => hne ?_
    obtain ⟨valid', htag⟩ := holds_iff.mp hh
    exact h.once ⟨hc.1, hw⟩ hc valid' valid htag

/-- A replaced line keeps the grid keyed. -/
theorem Keyed.put {g : Grid} (h : g.Keyed) {set way : Nat} {l : Line} (hf : g.Lodges set way l) :
    (g.put set way l).Keyed where
  home := by
    intro s w hc
    rw [cell_put l hf.coords hc.2]
    split
    · next he => intro hv; exact (hf.home hv).trans he.1.symm
    · exact h.home hc
  once := by
    intro s w w' hc hc'
    rw [cell_put l hf.coords hc.2, cell_put l hf.coords hc'.2]
    split <;> split
    · next he he' => intro _ _ _; rw [he.2, he'.2]
    · next he he' =>
      intro hl hv ht
      have := hf.alone hl w' hc'.2 fun e => he' ⟨he.1, e⟩
      rw [← he.1, ht, holds_iff.mpr ⟨hv, rfl⟩] at this
      cases this
    · next he he' =>
      intro hv hl ht
      have := hf.alone hl w hc.2 fun e => he ⟨he'.1, e⟩
      rw [← he'.1, ← ht, holds_iff.mpr ⟨hv, rfl⟩] at this
      cases this
    · exact h.once hc hc'

/-- After the replacement a lookup finds the new line under its block, and nothing under the block that
the old line held, if that is another one. -/
theorem Keyed.lookup_put {g : Grid} (h : g.Keyed) {set way : Nat} {l : Line}
    (hf : g.Lodges set way l) (b : BlockNumber) : (g.put set way l).lookup b =
      if l.holds b then some way else if (g.cell set way).holds b then none else g.lookup b := by
  have hset : (g.put set way l).setOf b = g.setOf b := rfl
  split
  · next hnew =>
    obtain ⟨hv, rfl⟩ := holds_iff.mp hnew
    refine (h.put hf).lookup_eq_some_iff.mpr ⟨hf.coords.2, ?_⟩
    rw [hset, hf.home hv, cell_put_self l hf.coords]
    exact hnew
  · next hnew =>
    have hnew := Bool.eq_false_iff.mpr hnew
    split
    · next hold =>
      obtain ⟨hv, rfl⟩ := holds_iff.mp hold
      have hhome := h.home hf.coords hv
      refine lookup_eq_none_iff.mpr fun w hw => ?_
      rw [hset, hhome, cell_put l hf.coords hw]
      split
      · exact hnew
      · next hne =>
        refine Bool.eq_false_iff.mpr fun hh => hne ⟨rfl, ?_⟩
        obtain ⟨hv', ht'⟩ := holds_iff.mp hh
        exact h.once ⟨hf.coords.1, hw⟩ hf.coords hv' hv ht'
    · next hold =>
      have hsame : ∀ w, w < g.ways →
          ((g.put set way l).cell (g.setOf b) w).holds b = (g.cell (g.setOf b) w).holds b := by
        intro w hw
        rw [cell_put l hf.coords hw]
        split
        · next he =>
          obtain ⟨hset', rfl⟩ := he
          rw [hnew, hset']
          exact (Bool.eq_false_iff.mpr hold).symm
        · rfl
      refine Option.ext fun w => ?_
      rw [(h.put hf).lookup_eq_some_iff, h.lookup_eq_some_iff, hset]
      exact and_congr_right fun hw => by rw [hsame w hw]

/-! ## Sound grids -/

structure Sound (g : Grid) : Prop where
  home : ∀ {s w}, g.Has s w → (g.cell s w).valid = true → g.setOf (g.cell s w).tag = s
  inSpace : ∀ {s w}, g.Has s w → (g.cell s w).valid = true → (g.cell s w).tag.InSpace
  once : ∀ {s w w'}, g.Has s w → g.Has s w' → (g.cell s w).valid = true →
    (g.cell s w').valid = true → (g.cell s w).tag = (g.cell s w').tag → w = w'
  dirty_valid : ∀ {s w}, g.Has s w → (g.cell s w).dirty = true → (g.cell s w).valid = true
  lastUse_le : ∀ {s w}, g.Has s w → (g.cell s w).valid = true → (g.cell s w).lastUse ≤ g.clock
  stamps : ∀ {s w s' w'}, g.Has s w → g.Has s' w' → (g.cell s w).valid = true →
    (g.cell s' w').valid = true → (g.cell s w).lastUse = (g.cell s' w').lastUse → s = s' ∧ w = w'

theorem Sound.keyed {g : Grid} (h : g.Sound) : g.Keyed := ⟨h.home, h.once⟩

theorem Sound.inSpace_of_cell {g : Grid} (h : g.Sound) {s w : Nat} {l : Line} (hc : g.Has s w)
    (hl : g.cell s w = l) (hv : l.valid = true) : l.tag.InSpace := by
  subst hl
  exact h.inSpace hc hv

/-- A grid of one set of fresh lines. -/
def oneSet (ways : Nat) (ways_pos : 0 < ways) : Grid :=
  ⟨1, ways, 0, Array.replicate ways .fresh, Nat.one_pos, ways_pos, by simp⟩

theorem build_eq_ok {sets ways : Nat} {g : Grid} :
    build sets ways = .ok g ↔
      sets * ways < UInt64.size ∧ sets * ways ≤ maxLines ∧ ∃ (hs : 0 < sets) (hw : 0 < ways),
        g = ⟨sets, ways, 0, Array.replicate (sets * ways) .fresh, hs, hw, Array.size_replicate⟩ := by
  unfold build
  split
  case isTrue pos =>
    split
    case isTrue wraps => exact ⟨nofun, fun h => absurd h.1 (Nat.not_lt.mpr wraps)⟩
    case isFalse inWord =>
      split
      case isTrue tooMany => exact ⟨nofun, fun h => absurd h.2.1 (Nat.not_le.mpr tooMany)⟩
      case isFalse fits =>
        rw [Except.ok.injEq]
        exact ⟨fun h => ⟨Nat.not_le.mp inWord, Nat.not_lt.mp fits, pos.1, pos.2, h.symm⟩,
          fun ⟨_, _, _, _, h⟩ => h.symm⟩
  case isFalse empty => exact ⟨nofun, fun ⟨_, _, hs, hw, _⟩ => absurd ⟨hs, hw⟩ empty⟩

theorem cell_build {sets ways : Nat} {g : Grid} (h : build sets ways = .ok g) (s w : Nat) :
    g.cell s w = .fresh := by
  obtain ⟨-, -, hs, hw, rfl⟩ := build_eq_ok.mp h
  simp only [cell, Array.getD_eq_getD_getElem?, Array.getElem?_replicate]
  split <;> rfl

theorem dims_of_build {sets ways : Nat} {g : Grid} (h : build sets ways = .ok g) :
    g.sets = sets ∧ g.ways = ways := by
  obtain ⟨-, -, hs, hw, rfl⟩ := build_eq_ok.mp h
  exact ⟨rfl, rfl⟩

theorem clock_of_build {sets ways : Nat} {g : Grid} (h : build sets ways = .ok g) : g.clock = 0 := by
  obtain ⟨-, -, hs, hw, rfl⟩ := build_eq_ok.mp h
  rfl

theorem sound_of_build {sets ways : Nat} {g : Grid} (h : build sets ways = .ok g) : g.Sound := by
  have hv : ∀ s w, (g.cell s w).valid = false := fun s w => by rw [cell_build h]; rfl
  have hd : ∀ s w, (g.cell s w).dirty = false := fun s w => by rw [cell_build h]; rfl
  constructor <;> intros <;> simp_all

/-- The line that holds a block. -/
def find (g : Grid) (b : BlockNumber) : Option Line := (g.lookup b).map (g.cell (g.setOf b))

theorem Sound.find_eq_some_iff {g : Grid} (h : g.Sound) {b : BlockNumber} {l : Line} :
    g.find b = some l ↔ ∃ w, w < g.ways ∧ (g.cell (g.setOf b) w).holds b = true ∧
      g.cell (g.setOf b) w = l := by
  simp only [find, Option.map_eq_some_iff, h.keyed.lookup_eq_some_iff, and_assoc]

theorem find_eq_none_iff {g : Grid} {b : BlockNumber} :
    g.find b = none ↔ ∀ w, w < g.ways → (g.cell (g.setOf b) w).holds b = false := by
  rw [← lookup_eq_none_iff, find, Option.map_eq_none_iff]

/-- Every valid line is the one found under its own tag. -/
theorem Sound.find_tag {g : Grid} (h : g.Sound) {s w : Nat} (hc : g.Has s w)
    (hv : (g.cell s w).valid = true) : g.find (g.cell s w).tag = some (g.cell s w) := by
  refine h.find_eq_some_iff.mpr ⟨w, hc.2, ?_, ?_⟩ <;> rw [h.home hc hv]
  exact holds_iff.mpr ⟨hv, rfl⟩

/-! ## Replacing one line -/

/-- What a line must bring along to be put at its coordinates: it holds a block of that set which no
other way of the set holds. -/
structure Fits (g : Grid) (set way : Nat) (l : Line) : Prop where
  coords : g.Has set way
  valid : l.valid = true
  home : g.setOf l.tag = set
  inSpace : l.tag.InSpace
  alone : ∀ w, w < g.ways → w ≠ way → (g.cell set w).holds l.tag = false

theorem Fits.lodges {g : Grid} {set way : Nat} {l : Line} (h : g.Fits set way l) :
    g.Lodges set way l :=
  ⟨h.coords, fun _ => h.home, fun _ => h.alone⟩

/-- A replaced line keeps the grid sound if no other line bears its stamp. -/
theorem Sound.put {g : Grid} (h : g.Sound) {set way : Nat} {l : Line} (hf : g.Fits set way l)
    (hle : l.lastUse ≤ g.clock)
    (hst : ∀ {s w}, g.Has s w → (g.cell s w).valid = true → (g.cell s w).lastUse = l.lastUse →
      s = set ∧ w = way) : (g.put set way l).Sound where
  home := (h.keyed.put hf.lodges).home
  inSpace := by
    intro s w hc
    rw [cell_put l hf.coords hc.2]
    split
    · intro _; exact hf.inSpace
    · exact h.inSpace hc
  once := (h.keyed.put hf.lodges).once
  dirty_valid := by
    intro s w hc
    rw [cell_put l hf.coords hc.2]
    split
    · intro _; exact hf.valid
    · exact h.dirty_valid hc
  lastUse_le := by
    intro s w hc
    rw [cell_put l hf.coords hc.2]
    split
    · intro _; exact hle
    · exact h.lastUse_le hc
  stamps := by
    intro s w s' w' hc hc'
    rw [cell_put l hf.coords hc.2, cell_put l hf.coords hc'.2]
    split <;> split
    · next he he' => intro _ _ _; exact ⟨he.1.trans he'.1.symm, he.2.trans he'.2.symm⟩
    · next he he' =>
      intro _ hv hl
      exact (he' (hst hc' hv hl.symm)).elim
    · next he he' =>
      intro hv _ hl
      exact (he (hst hc hv hl)).elim
    · exact h.stamps hc hc'

/-- After the replacement the map holds the new line under its tag, and nothing under the tag that the
old line had, if that is another one. -/
theorem Sound.find_put {g : Grid} (h : g.Sound) {set way : Nat} {l : Line} (hf : g.Fits set way l)
    (b : BlockNumber) : (g.put set way l).find b =
      if b = l.tag then some l else if (g.cell set way).holds b then none else g.find b := by
  have hset : (g.put set way l).setOf b = g.setOf b := rfl
  have hnew : l.holds b = true ↔ b = l.tag := by
    rw [holds_iff, eq_comm (a := b), and_iff_right hf.valid]
  rw [find, h.keyed.lookup_put hf.lodges, hset]
  simp only [hnew]
  split
  · next he =>
    subst he
    rw [Option.map_some, hf.home, cell_put_self l hf.coords]
  · split
    · rfl
    · next hold =>
      refine Option.map_congr fun w hw => ?_
      obtain ⟨hlt, hh⟩ := holds_of_lookup hw
      rw [cell_put l hf.coords hlt, if_neg]
      rintro ⟨hs, rfl⟩
      rw [hs] at hh
      exact hold hh

/-- The grid after a line was used: the line at the coordinates is replaced and bears the next stamp. -/
def use (g : Grid) (set way : Nat) (l : Line) : Grid :=
  { g with clock := g.clock + 1 }.put set way { l with lastUse := g.clock + 1 }

theorem Sound.tick {g : Grid} (h : g.Sound) : Sound { g with clock := g.clock + 1 } :=
  ⟨h.home, h.inSpace, h.once, h.dirty_valid, fun hc hv => Nat.le_succ_of_le (h.lastUse_le hc hv),
    h.stamps⟩

theorem Sound.use {g : Grid} (h : g.Sound) {set way : Nat} {l : Line} (hf : g.Fits set way l) :
    (g.use set way l).Sound := by
  have hf' : Fits { g with clock := g.clock + 1 } set way { l with lastUse := g.clock + 1 } :=
    ⟨hf.coords, hf.valid, hf.home, hf.inSpace, hf.alone⟩
  refine h.tick.put hf' (Nat.le_refl _) ?_
  intro s w hc hv hl
  have hl' : (g.cell s w).lastUse = g.clock + 1 := hl
  have := h.lastUse_le hc hv
  omega

theorem Sound.find_use {g : Grid} (h : g.Sound) {set way : Nat} {l : Line} (hf : g.Fits set way l)
    (b : BlockNumber) : (g.use set way l).find b =
      if b = l.tag then some { l with lastUse := g.clock + 1 }
      else if (g.cell set way).holds b then none else g.find b :=
  h.tick.find_put (l := { l with lastUse := g.clock + 1 })
    ⟨hf.coords, hf.valid, hf.home, hf.inSpace, hf.alone⟩ b

theorem cell_use {g : Grid} {set way s w : Nat} (l : Line) (h : g.Has set way) (hw : w < g.ways) :
    (g.use set way l).cell s w =
      if s = set ∧ w = way then { l with lastUse := g.clock + 1 } else g.cell s w :=
  cell_put (g := { g with clock := g.clock + 1 }) _ h hw

theorem cell_use_self {g : Grid} {set way : Nat} (l : Line) (h : g.Has set way) :
    (g.use set way l).cell set way = { l with lastUse := g.clock + 1 } :=
  cell_put_self (g := { g with clock := g.clock + 1 }) _ h

theorem has_use {g : Grid} {set way s w : Nat} {l : Line} : (g.use set way l).Has s w ↔ g.Has s w :=
  Iff.rfl

theorem use_put (g : Grid) (set way : Nat) (k l : Line) :
    (g.use set way k).put set way { l with lastUse := g.clock + 1 } = g.use set way l :=
  put_put { g with clock := g.clock + 1 } set way _ _

theorem put_use (g : Grid) (set way : Nat) (k l : Line) :
    (g.put set way k).use set way l = g.use set way l :=
  put_put { g with clock := g.clock + 1 } set way _ _

/-- A line that holds a block may be replaced by another that holds it. -/
theorem Sound.fits_of_holds {g : Grid} (h : g.Sound) {way : Nat} {b : BlockNumber} {l : Line}
    (hw : way < g.ways) (hh : (g.cell (g.setOf b) way).holds b = true) (hv : l.valid = true)
    (ht : l.tag = b) : g.Fits (g.setOf b) way l := by
  obtain ⟨hv', ht'⟩ := holds_iff.mp hh
  have hc := has_setOf hw b
  have hlodges := h.keyed.lodges hc (hv.trans hv'.symm) (ht.trans ht'.symm)
  exact ⟨hc, hv, hlodges.home hv, by rw [ht, ← ht']; exact h.inSpace hc hv', hlodges.alone hv⟩

/-- A block that no line holds may be filled into any way of its set. -/
theorem fits_of_lookup {g : Grid} {way : Nat} {b : BlockNumber} {l : Line} (hw : way < g.ways)
    (hn : g.lookup b = none) (hb : b.InSpace) (hv : l.valid = true) (ht : l.tag = b) :
    g.Fits (g.setOf b) way l :=
  ⟨has_setOf hw b, hv, by rw [ht], by rwa [ht], fun w hw' _ => by
    rw [ht]; exact lookup_eq_none_iff.mp hn w hw'⟩

end WritebackCache.Grid
