import WritebackCache.Address

/-! The contents of one block. Bytes are laid over a block at an offset and cut out of it again; both
are total, and a caller that has to notice bytes beyond the end of the block checks that first. -/

namespace WritebackCache

abbrev Block := Vector UInt8 blockSize

namespace Block

def zero : Block := Vector.replicate blockSize 0

/-- The block with `bytes` laid over it from `offset` on. -/
def patch (b : Block) (offset : Nat) (bytes : List UInt8) : Block :=
  Vector.ofFn fun i => if i.val < offset then b[i] else bytes[i.val - offset]?.getD b[i]

/-- The `len` bytes from `offset` on. -/
def slice (b : Block) (offset len : Nat) : List UInt8 := (b.toList.drop offset).take len

/-- The bytes at the start of a block that is otherwise zero. -/
def ofBytes (bytes : List UInt8) : Block := zero.patch 0 bytes

theorem getElem_patch (b : Block) (offset : Nat) (bytes : List UInt8) (i : Nat)
    (h : i < blockSize) :
    (b.patch offset bytes)[i] = if i < offset then b[i] else bytes[i - offset]?.getD b[i] := by
  simp [patch]

theorem length_slice (b : Block) {offset len : Nat} (h : offset + len ≤ blockSize) :
    (b.slice offset len).length = len := by
  simp only [slice, List.length_take, List.length_drop, Vector.length_toList]
  omega

theorem getElem?_slice (b : Block) (offset len i : Nat) :
    (b.slice offset len)[i]? = if i < len then b[offset + i]? else none := by
  simp [slice, List.getElem?_take, List.getElem?_drop]

/-- Bytes laid over a block are cut out of it again. -/
theorem slice_patch (b : Block) {offset : Nat} {bytes : List UInt8}
    (h : offset + bytes.length ≤ blockSize) : (b.patch offset bytes).slice offset bytes.length = bytes := by
  apply List.ext_getElem?
  intro i
  rw [getElem?_slice]
  split
  · next hi =>
    have hlt : offset + i < blockSize := by omega
    rw [Vector.getElem?_eq_getElem hlt, getElem_patch, if_neg (by omega), Nat.add_sub_cancel_left]
    simp [List.getElem?_eq_getElem hi]
  · next hi => exact (List.getElem?_eq_none (by omega)).symm

end Block

end WritebackCache
