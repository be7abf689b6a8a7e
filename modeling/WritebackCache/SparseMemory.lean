import WritebackCache.Packet
import WritebackCache.Word

/-! The contents of main memory, block by block. A block that was never written reads as zero, so only
written blocks are kept, each under its number and none twice. Byte strings of any length are loaded
and read by a cursor that goes from block to block; the cursor is a word, and moving it past the
largest one is a fault, which finds the bytes of that block already stored. -/

namespace WritebackCache

namespace SparseMemory

/-- The block kept under a number takes new contents, at the end of the list if it is new. -/
def replace (block : BlockNumber) (data : Block) :
    List (BlockNumber × Block) → List (BlockNumber × Block)
  | [] => [(block, data)]
  | (b, d) :: rest => if b = block then (b, data) :: rest else (b, d) :: replace block data rest

theorem keys_replace (block : BlockNumber) (data : Block) (kept : List (BlockNumber × Block)) :
    (replace block data kept).map Prod.fst =
      if block ∈ kept.map Prod.fst then kept.map Prod.fst else kept.map Prod.fst ++ [block] := by
  induction kept with
  | nil => simp [replace]
  | cons entry rest ih =>
    obtain ⟨b, d⟩ := entry
    by_cases h : b = block
    · simp [replace, h]
    · have h' : ¬ block = b := fun e => h e.symm
      simp only [replace, h, if_false, List.map_cons, ih, List.mem_cons, h', false_or]
      split <;> simp

end SparseMemory

structure SparseMemory where
  blocks : List (BlockNumber × Block)
  nodup : (blocks.map Prod.fst).Nodup

namespace SparseMemory

def empty : SparseMemory := ⟨[], by simp⟩

def readBlock (m : SparseMemory) (block : BlockNumber) : Block := (m.blocks.lookup block).getD .zero

def writeBlock (m : SparseMemory) (block : BlockNumber) (data : Block) : SparseMemory where
  blocks := replace block data m.blocks
  nodup := by
    rw [keys_replace]
    split
    · exact m.nodup
    · next h => exact List.nodup_append.mpr ⟨m.nodup, by simp, fun a ha b hb e => by
        simp only [List.mem_singleton] at hb
        exact h (hb ▸ e ▸ ha)⟩

/-- The number of blocks written so far. -/
def resident (m : SparseMemory) : Nat := m.blocks.length

/-- Serves a request: a write takes the place of its block, anything else carries the bytes of its
block away. Answers the response. -/
def serve (m : SparseMemory) (p : Packet) : SparseMemory × Packet :=
  if p.isWrite then (m.writeBlock p.block p.blockData, p.asResponse)
  else (m, (p.filledFrom (m.readBlock p.block)).asResponse)

/-- How many of `len` bytes lie in the block of an address. -/
def span (addr : Address) (len : Nat) : Nat := min len (blockSize - addr.offset)

theorem span_pos (addr : Address) {len : Nat} (h : len ≠ 0) : 0 < span addr len := by
  have := addr.offset_lt
  simp only [span]
  omega

/-- Stores bytes from an address on. -/
def load (m : SparseMemory) (addr : Address) (bytes : List UInt8) : SparseMemory × Except Fault Unit :=
  if _ : bytes.length = 0 then (m, .ok ())
  else
    let n := span addr bytes.length
    let stored := m.writeBlock addr.block
      ((m.readBlock addr.block).patch addr.offset (bytes.take n))
    match Word.add addr.val (.ofNat n) with
    | .ok next => stored.load ⟨next⟩ (bytes.drop n)
    | .error f => (stored, .error f)
termination_by bytes.length
decreasing_by
  have := span_pos addr (by assumption)
  simp only [List.length_drop]
  omega

/-- The bytes from an address on, taken block by block. -/
def collect (m : SparseMemory) (addr : Address) (len : Nat) : Except Fault (List UInt8) :=
  if _ : len = 0 then .ok []
  else
    let n := span addr len
    match Word.add addr.val (.ofNat n) with
    | .ok next => (m.collect ⟨next⟩ (len - n)).map
        ((m.readBlock addr.block).slice addr.offset n ++ ·)
    | .error f => .error f
termination_by len
decreasing_by
  have := span_pos addr (by assumption)
  omega

/-- The `len` bytes from an address on; no byte string fills half the address space. -/
def readBytes (m : SparseMemory) (addr : Address) (len : Nat) : Except Fault (List UInt8) :=
  if UInt64.size / 2 ≤ len then .error .indexRange else m.collect addr len

end SparseMemory

end WritebackCache
