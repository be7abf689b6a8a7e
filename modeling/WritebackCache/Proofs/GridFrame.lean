import Mathlib.Data.List.Nodup
import WritebackCache.Proofs.GridMap

/-! The frame of the grid. Each of the four ways to change a grid replaces the line at its coordinates by
one that depends on that line only, and leaves all others as they are. A grid to which blocks came only by
installing them into a way of their set, while no other way held them, stays keyed whatever else is done
to its lines. So it is a partial map from blocks to lines, and installing a block changes the map at two
blocks only. -/

namespace WritebackCache.Grid

/-- The line of a way, in the set of the block, holds the block. -/
def HeldAt (g : Grid) (b : BlockNumber) (way : Nat) : Prop :=
  ∃ l, g.line (g.setOf b) way = .ok l ∧ l.valid = true ∧ l.tag = b

/-- A change of one line. -/
inductive Change
  | install (block : BlockNumber) (data : Block) (dirty : Bool)
  | write (offset : Nat) (bytes : List UInt8) (dirty : Bool)
  | clean
  | touch

namespace Change

def perform (g : Grid) (set way : Nat) : Change → Except Fault Grid
  | install block data dirty => g.install set way block data dirty
  | write offset bytes dirty => g.write set way offset bytes dirty
  | clean => g.clean set way
  | touch => g.touch set way

/-- A block is installed only into its set, and while no other way of the set holds it. -/
def Allowed (g : Grid) (set way : Nat) : Change → Prop
  | install block _ _ => g.setOf block = set ∧ ∀ w, w ≠ way → ¬ g.HeldAt block w
  | _ => True

/-- The line that takes the place of another; `stamp` is the next one of the grid's clock. -/
def line (stamp : Nat) (l : Line) : Change → Line
  | install block data dirty => ⟨true, dirty, block, l.lastUse, data⟩
  | write offset bytes dirty =>
    { l with data := l.data.patch offset bytes, dirty := l.dirty || dirty }
  | clean => { l with dirty := false }
  | touch => { l with lastUse := stamp }

end Change

/-- The grids that allowed changes make of a grid. -/
inductive Becomes (start : Grid) : Grid → Prop
  | start : Becomes start start
  | change {g g' : Grid} {set way : Nat} {c : Change} :
      Becomes start g → c.Allowed g set way → c.perform g set way = .ok g' → Becomes start g'

/-! ## Replacing one line -/

theorem within_eq_ok {α : Type} {g : Grid} {set way : Nat} {k : Line → Except Fault α} {a : α} :
    g.within set way k = .ok a ↔ g.Has set way ∧ k (g.cell set way) = .ok a := by
  unfold within
  split
  · next has => exact (and_iff_right has).symm
  · next out =>
    constructor
    · intro h
      cases h
    · intro h
      exact (out h.1).elim

theorem line_eq_ok {g : Grid} {set way : Nat} {l : Line} :
    g.line set way = .ok l ↔ g.Has set way ∧ g.cell set way = l := by
  rw [line, within_eq_ok, Except.ok.injEq]

theorem heldAt_iff {g : Grid} {b : BlockNumber} {way : Nat} :
    g.HeldAt b way ↔ way < g.ways ∧ (g.cell (g.setOf b) way).holds b = true := by
  simp only [HeldAt, line_eq_ok, Has, setOf_lt, true_and, holds_iff]
  constructor
  · rintro ⟨l, ⟨hw, rfl⟩, hh⟩
    exact ⟨hw, hh⟩
  · rintro ⟨hw, hh⟩
    exact ⟨_, ⟨hw, rfl⟩, hh⟩

/-- A change that succeeds puts a line at its coordinates and may give out a stamp. -/
theorem Change.perform_eq_ok {g g' : Grid} {set way : Nat} {c : Change}
    (h : c.perform g set way = .ok g') : g.Has set way ∧
      ∃ clock, g' = { g with clock }.put set way (c.line (g.clock + 1) (g.cell set way)) := by
  cases c with
  | install block data dirty =>
    simp only [perform, Grid.install, within_eq_ok, Except.ok.injEq] at h
    exact ⟨h.1, g.clock, h.2.symm⟩
  | write offset bytes dirty =>
    simp only [perform, Grid.write, within_eq_ok] at h
    obtain ⟨has, h⟩ := h
    split at h
    · cases h
    · split at h
      · cases h
      · split at h
        · cases h
        · cases h
          exact ⟨has, g.clock, rfl⟩
  | clean =>
    simp only [perform, Grid.clean, within_eq_ok, Except.ok.injEq] at h
    exact ⟨h.1, g.clock, h.2.symm⟩
  | touch =>
    simp only [perform, Grid.touch, within_eq_ok, Except.ok.injEq] at h
    exact ⟨h.1, g.clock + 1, h.2.symm⟩

/-- The frame: the lines elsewhere are what they were, those outside the grid included. -/
theorem Change.line_elsewhere {g g' : Grid} {set way s w : Nat} {c : Change}
    (h : c.perform g set way = .ok g') (elsewhere : ¬ (s = set ∧ w = way)) :
    g'.line s w = g.line s w := by
  obtain ⟨has, clock, rfl⟩ := perform_eq_ok h
  by_cases hin : g.Has s w
  · refine Eq.trans (line_eq_ok.mpr ⟨hin, ?_⟩) (line_eq_ok.mpr ⟨hin, rfl⟩).symm
    rw [cell_put (g := { g with clock }) _ has hin.2, if_neg elsewhere]
    rfl
  · exact (if_neg hin).trans (if_neg hin).symm

/-- A line with a block in it may be installed wherever that is allowed. -/
theorem lodges_installed {g : Grid} {set way : Nat} {b : BlockNumber} {data : Block} {dirty : Bool}
    (has : g.Has set way) (allowed : (Change.install b data dirty).Allowed g set way) (stamp : Nat) :
    g.Lodges set way ⟨true, dirty, b, stamp, data⟩ := by
  obtain ⟨rfl, alone⟩ := allowed
  refine ⟨has, fun _ => rfl, fun _ w hw hne => ?_⟩
  exact Bool.eq_false_iff.mpr fun hh => alone w hne (heldAt_iff.mpr ⟨hw, hh⟩)

theorem Keyed.perform {g g' : Grid} {set way : Nat} {c : Change} (keyed : g.Keyed)
    (allowed : c.Allowed g set way) (h : c.perform g set way = .ok g') : g'.Keyed := by
  obtain ⟨has, clock, rfl⟩ := Change.perform_eq_ok h
  have hticked : Keyed { g with clock } := ⟨keyed.home, keyed.once⟩
  cases c with
  | install block data dirty =>
    have hlodges := lodges_installed has allowed (g.cell set way).lastUse
    exact hticked.put ⟨hlodges.coords, hlodges.home, hlodges.alone⟩
  | write offset bytes dirty => exact hticked.put (hticked.lodges has rfl rfl)
  | clean => exact hticked.put (hticked.lodges has rfl rfl)
  | touch => exact hticked.put (hticked.lodges has rfl rfl)

theorem Keyed.becomes {start g : Grid} (keyed : start.Keyed) (h : Becomes start g) : g.Keyed := by
  induction h with
  | start => exact keyed
  | change _ allowed performed ih => exact ih.perform allowed performed

theorem Becomes.dims {start g : Grid} (h : Becomes start g) :
    g.sets = start.sets ∧ g.ways = start.ways := by
  induction h with
  | start => exact ⟨rfl, rfl⟩
  | change _ _ performed ih =>
    obtain ⟨-, _, rfl⟩ := Change.perform_eq_ok performed
    exact ih

/-! ## All lines -/

/-- The place of a line among all lines, from its coordinates and back. -/
theorem cell_div_mod {g : Grid} {i : Nat} {l : Line} (h : g.lines[i]? = some l) :
    g.Has (i / g.ways) (i % g.ways) ∧ g.cell (i / g.ways) (i % g.ways) = l := by
  obtain ⟨hi, hl⟩ := Array.getElem?_eq_some_iff.mp h
  rw [g.size_lines, Nat.mul_comm] at hi
  refine ⟨⟨Nat.div_lt_of_lt_mul hi, Nat.mod_lt _ g.ways_pos⟩, ?_⟩
  rw [cell, Nat.div_add_mod', Array.getD_eq_getD_getElem?, h, Option.getD_some]

theorem getElem?_lines {g : Grid} {s w : Nat} (has : g.Has s w) :
    g.lines[s * g.ways + w]? = some (g.cell s w) := by
  have hlt := index_lt has
  rw [cell, Array.getD_eq_getD_getElem?, Array.getElem?_eq_getElem hlt, Option.getD_some]

/-- Every line is listed under its coordinates. -/
theorem mem_cells {g : Grid} {s w : Nat} {l : Line} : (s, w, l) ∈ g.cells ↔ g.line s w = .ok l := by
  simp only [cells, List.mem_map, Prod.exists, List.mem_zipIdx_iff_getElem?, Prod.mk.injEq,
    Array.getElem?_toList, line_eq_ok]
  constructor
  · rintro ⟨l, i, hl, rfl, rfl, rfl⟩
    exact cell_div_mod hl
  · rintro ⟨has, rfl⟩
    refine ⟨g.cell s w, s * g.ways + w, getElem?_lines has, ?_, ?_, rfl⟩
    · rw [Nat.mul_comm, Nat.mul_add_div g.ways_pos, Nat.div_eq_of_lt has.2, Nat.add_zero]
    · rw [Nat.mul_add_mod_self_right, Nat.mod_eq_of_lt has.2]

/-- No coordinates are listed twice. -/
theorem nodup_cells (g : Grid) : (g.cells.map fun c => (c.1, c.2.1)).Nodup := by
  have hcoords : g.cells.map (fun c => (c.1, c.2.1)) =
      (g.lines.toList.zipIdx.map Prod.snd).map fun i => (i / g.ways, i % g.ways) := by
    simp only [cells, List.map_map]
    rfl
  rw [hcoords, List.zipIdx_map_snd]
  refine List.Nodup.map_on ?_ (List.nodup_range' ..)
  intro i _ j _ hij
  obtain ⟨hdiv, hmod⟩ := Prod.mk.inj hij
  rw [← Nat.div_add_mod i g.ways, hdiv, hmod, Nat.div_add_mod]

/-! ## The map -/

/-- What the installation of a block does to the map. -/
structure Installs (g : Grid) (b : BlockNumber) (way : Nat) (data : Block) (dirty : Bool)
    (g' : Grid) : Prop where
  performed : g.install (g.setOf b) way b data dirty = .ok g'
  found : g'.lookup b = some way
  contents : ∃ l, g'.line (g.setOf b) way = .ok l ∧ l.data = data
  replaced : ∀ {old}, g.line (g.setOf b) way = .ok old → old.valid = true → old.tag ≠ b →
    g'.lookup old.tag = none
  others : ∀ {other}, other ≠ b →
    (∀ {old}, g.line (g.setOf b) way = .ok old → ¬ (old.valid = true ∧ old.tag = other)) →
    g'.lookup other = g.lookup other

theorem Keyed.installs {g : Grid} (keyed : g.Keyed) {b : BlockNumber} {way : Nat} (hw : way < g.ways)
    (alone : ∀ w, w ≠ way → ¬ g.HeldAt b w) (data : Block) (dirty : Bool) :
    ∃ g', g.Installs b way data dirty g' := by
  have has := has_setOf hw b
  let l : Line := ⟨true, dirty, b, (g.cell (g.setOf b) way).lastUse, data⟩
  have hlodges : g.Lodges (g.setOf b) way l := lodges_installed has ⟨rfl, alone⟩ _
  have hnew : ∀ other, l.holds other = true ↔ other = b := fun other => by
    rw [holds_iff, and_iff_right rfl, eq_comm]
  have hlookup := keyed.lookup_put hlodges
  refine ⟨g.put (g.setOf b) way l, ?performed, ?found, ?contents, ?replaced, ?others⟩
  case performed => exact within_eq_ok.mpr ⟨has, rfl⟩
  case found => rw [hlookup, if_pos ((hnew b).mpr rfl)]
  case contents => exact ⟨l, line_eq_ok.mpr ⟨has, cell_put_self l has⟩, rfl⟩
  case replaced =>
    intro old hold valid other
    obtain ⟨-, rfl⟩ := line_eq_ok.mp hold
    rw [hlookup, if_neg (mt (hnew _).mp other), if_pos (holds_iff.mpr ⟨valid, rfl⟩)]
  case others =>
    intro other hne hold
    have hold := hold (line_eq_ok.mpr ⟨has, rfl⟩)
    rw [hlookup, if_neg (mt (hnew other).mp hne), if_neg (mt holds_iff.mp hold)]

/-- The grid is a partial map with an exact frame. Take any grid that was built and then changed by any
number of allowed changes. All its lines are listed, each once and under its coordinates. A change leaves
the lines elsewhere as they are. A lookup finds the way that holds the block, and there is one at most. A
block that no other way holds can be installed into any way of its set. -/
theorem partial_map_with_frame {sets ways : Nat} {start g : Grid} (built : build sets ways = .ok start)
    (becomes : Becomes start g) :
    ((g.cells.map fun c => (c.1, c.2.1)).Nodup ∧
      ∀ s w l, (s, w, l) ∈ g.cells ↔ (s < sets ∧ w < ways) ∧ g.line s w = .ok l) ∧
    (∀ c set way g', Change.perform g set way c = .ok g' →
      ∀ s w, ¬ (s = set ∧ w = way) → g'.line s w = g.line s w) ∧
    (∀ b w, g.lookup b = some w ↔ g.HeldAt b w) ∧
    (∀ b w w', g.HeldAt b w → g.HeldAt b w' → w = w') ∧
    ∀ b way data dirty, way < ways → (∀ w, w ≠ way → ¬ g.HeldAt b w) →
      ∃ g', g.Installs b way data dirty g' := by
  have keyed := (sound_of_build built).keyed.becomes becomes
  obtain ⟨rfl, rfl⟩ : g.sets = sets ∧ g.ways = ways := by
    rw [becomes.dims.1, becomes.dims.2]
    exact dims_of_build built
  have hfound : ∀ b w, g.lookup b = some w ↔ g.HeldAt b w := fun b w => by
    rw [keyed.lookup_eq_some_iff, heldAt_iff]
  refine ⟨⟨nodup_cells g, ?_⟩, ?_, hfound, ?_, ?_⟩
  · intro s w l
    rw [mem_cells, line_eq_ok, Has, ← and_assoc, and_self]
  · intro c set way g' performed s w elsewhere
    exact Change.line_elsewhere performed elsewhere
  · intro b w w' hw hw'
    rw [← hfound] at hw hw'
    exact Option.some.inj (hw.symm.trans hw')
  · intro b way data dirty hway alone
    exact keyed.installs hway alone data dirty

/-- Three sets of two ways: block 4 is installed, written and used, block 1 joins it in the other way of
the set, and block 7 then takes the place of block 4. -/
theorem partial_map_with_frame_replaced : ∃ start g g',
    build 3 2 = .ok start ∧ Becomes start g ∧ g.lookup ⟨4⟩ = some 0 ∧ g.HeldAt ⟨1⟩ 1 ∧
      g.Installs ⟨7⟩ 0 .zero true g' ∧ g'.lookup ⟨4⟩ = none ∧ g'.lookup ⟨1⟩ = some 1 := by
  let start : Grid := ⟨3, 2, 0, Array.replicate 6 .fresh, by decide, by decide, Array.size_replicate⟩
  let first := start.put 1 0 ⟨true, false, ⟨4⟩, 0, .zero⟩
  let written := first.put 1 0 ⟨true, true, ⟨4⟩, 0, Block.zero.patch 63 [9]⟩
  let used := { written with clock := 1 }.put 1 0 ⟨true, true, ⟨4⟩, 1, Block.zero.patch 63 [9]⟩
  let both := used.put 1 1 ⟨true, false, ⟨1⟩, 0, .zero⟩
  have alone : ∀ {g : Grid} {b : BlockNumber} {way : Nat},
      (∀ w < g.ways, w ≠ way → (g.cell (g.setOf b) w).holds b = false) →
      ∀ w, w ≠ way → ¬ g.HeldAt b w := by
    intro g b way absent w hne held
    obtain ⟨hw, hh⟩ := heldAt_iff.mp held
    rw [absent w hw hne] at hh
    cases hh
  have becomes : Becomes start both := by
    refine .change ?used ?second
      (show Change.perform used 1 1 (.install ⟨1⟩ .zero false) = .ok both from rfl)
    case used =>
      refine .change ?written ?_ (show Change.perform written 1 0 .touch = .ok used from rfl)
      case written =>
        refine .change ?first ?_
          (show Change.perform first 1 0 (.write 63 [9] true) = .ok written from rfl)
        case first =>
          refine .change .start ?_
            (show Change.perform start 1 0 (.install ⟨4⟩ .zero false) = .ok first from rfl)
          exact ⟨by decide, alone (by decide)⟩
        trivial
      trivial
    case second => exact ⟨by decide, alone (by decide)⟩
  obtain ⟨-, -, lookup, -, installs⟩ :=
    partial_map_with_frame (show build 3 2 = .ok start from rfl) becomes
  have holds4 : both.lookup ⟨4⟩ = some 0 := by decide
  have holds1 : both.lookup ⟨1⟩ = some 1 := by decide
  obtain ⟨g', hg'⟩ := installs ⟨7⟩ 0 .zero true (by decide) (alone (by decide))
  have old : (both.cell (both.setOf ⟨7⟩) 0).valid = true ∧
      (both.cell (both.setOf ⟨7⟩) 0).tag = ⟨4⟩ := by decide
  have gone : g'.lookup ⟨4⟩ = none := by
    rw [← old.2]
    exact hg'.replaced (line_eq_ok.mpr ⟨has_setOf (by decide) _, rfl⟩) old.1 (by decide)
  have kept : g'.lookup ⟨1⟩ = both.lookup ⟨1⟩ := by
    refine hg'.others (by decide) fun hold => ?_
    obtain ⟨-, rfl⟩ := line_eq_ok.mp hold
    decide
  exact ⟨start, both, g', rfl, becomes, holds4, (lookup _ _).mp holds1, hg', gone, kept.trans holds1⟩

end WritebackCache.Grid
