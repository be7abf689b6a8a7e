import WritebackCache.Line

/-! The grid of lines: `sets` rows of `ways` lines each. A block may lie in any way of the one set that
its number names. The grid stores and looks up; what is written when is the controller's business.
Coordinates outside the grid are a fault. Each use of a line gives it the next stamp of a clock that
belongs to the grid, so that two uses in one tick still have an order. -/

namespace WritebackCache

structure Grid where
  sets : Nat
  ways : Nat
  /-- The stamp given out last. -/
  clock : Nat
  /-- The lines, row after row. -/
  lines : Array Line
  sets_pos : 0 < sets
  ways_pos : 0 < ways
  size_lines : lines.size = sets * ways

namespace Grid

/-- A line takes 88 bytes, and all of them together less than half the address space. -/
def maxLines : Nat := (UInt64.size / 2 - 1) / 88

/-- A grid of fresh lines. -/
def build (sets ways : Nat) : Except Fault Grid :=
  if h : 0 < sets ∧ 0 < ways then
    if UInt64.size ≤ sets * ways then .error .mulOverflow
    else if maxLines < sets * ways then .error .indexRange
    else .ok ⟨sets, ways, 0, Array.replicate (sets * ways) .fresh, h.1, h.2, Array.size_replicate⟩
  else .error .emptyGrid

/-- The set that a block belongs to. -/
def setOf (g : Grid) (block : BlockNumber) : Nat := block.val.toNat % g.sets

/-- The line at a pair of coordinates; outside the grid, a fresh line. -/
def cell (g : Grid) (set way : Nat) : Line := g.lines.getD (set * g.ways + way) .fresh

/-- The grid with the line at a pair of coordinates replaced. -/
def put (g : Grid) (set way : Nat) (l : Line) : Grid :=
  { g with
    lines := g.lines.setIfInBounds (set * g.ways + way) l
    size_lines := by rw [Array.size_setIfInBounds]; exact g.size_lines }

/-- The lines of a set in the order of their ways. -/
def row (g : Grid) (set : Nat) : List Line := (List.range g.ways).map (g.cell set)

/-- The way that holds a block. -/
def lookup (g : Grid) (block : BlockNumber) : Option Nat :=
  (g.row (g.setOf block)).findIdx? (·.holds block)

/-- Does something with the line at a pair of coordinates, if there is one. -/
def within {α : Type} (g : Grid) (set way : Nat) (k : Line → Except Fault α) : Except Fault α :=
  if set < g.sets ∧ way < g.ways then k (g.cell set way)
  else .error (.lineOutside set way g.sets g.ways)

def line (g : Grid) (set way : Nat) : Except Fault Line := g.within set way .ok

def setLines (g : Grid) (set : Nat) : Except Fault (List Line) := g.within set 0 fun _ => .ok (g.row set)

/-- Lays bytes over a line from `offset` on. Only a valid line can be marked dirty, and the bytes must
end within the block. -/
def write (g : Grid) (set way offset : Nat) (bytes : List UInt8) (dirty : Bool) : Except Fault Grid :=
  g.within set way fun l =>
    if dirty && !l.valid then .error (.dirtyingInvalid set way)
    else if UInt64.size ≤ offset + bytes.length then .error .addOverflow
    else if blockSize < offset + bytes.length then .error .indexRange
    else .ok (g.put set way
      { l with data := l.data.patch offset bytes, dirty := l.dirty || dirty })

/-- Fills a line with a block; of what the line held only the stamp stays. -/
def install (g : Grid) (set way : Nat) (block : BlockNumber) (data : Block) (dirty : Bool) :
    Except Fault Grid :=
  g.within set way fun l => .ok (g.put set way ⟨true, dirty, block, l.lastUse, data⟩)

/-- Clears the dirty mark of a line. -/
def clean (g : Grid) (set way : Nat) : Except Fault Grid :=
  g.within set way fun l => .ok (g.put set way { l with dirty := false })

/-- Gives a line the next stamp. -/
def touch (g : Grid) (set way : Nat) : Except Fault Grid :=
  g.within set way fun l =>
    .ok ({ g with clock := g.clock + 1 }.put set way { l with lastUse := g.clock + 1 })

/-- All lines with their coordinates, row after row. -/
def cells (g : Grid) : List (Nat × Nat × Line) :=
  g.lines.toList.zipIdx.map fun (l, i) => (i / g.ways, i % g.ways, l)

/-- The number of valid lines. -/
def occupancy (g : Grid) : Nat := g.lines.toList.countP (·.valid)

end Grid

end WritebackCache
