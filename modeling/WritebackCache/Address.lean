import WritebackCache.Fault
import WritebackCache.Text.Numeral

/-! Byte addresses and block numbers. A block is 64 bytes long and starts at a multiple of 64, so an
address is a block number and an offset in the block. The number of a block is also the tag of the
line that holds it. -/

namespace WritebackCache

def blockSize : Nat := 64

structure Address where
  val : UInt64
  deriving DecidableEq

structure BlockNumber where
  val : UInt64
  deriving DecidableEq

def Address.block (a : Address) : BlockNumber := ⟨a.val / 64⟩

def Address.offset (a : Address) : Nat := a.val.toNat % blockSize

/-- The address of a block's first byte. The product is taken within the word, so that only a block
whose first byte has an address gets that one. -/
def BlockNumber.base (b : BlockNumber) : Address := ⟨b.val * 64⟩

/-- The set that a block belongs to among `sets` sets. -/
def BlockNumber.setIndex (b : BlockNumber) (sets : Nat) : Except Fault Nat :=
  if sets = 0 then .error .remainderByZero else .ok (b.val.toNat % sets)

def Address.text (a : Address) : String := Numeral.hex a.val.toNat

def BlockNumber.text (b : BlockNumber) : String := "blk:" ++ Numeral.hex b.val.toNat

theorem Address.offset_lt (a : Address) : a.offset < blockSize := Nat.mod_lt _ (by decide)

@[simp] theorem Address.toNat_block (a : Address) : a.block.val.toNat = a.val.toNat / blockSize :=
  UInt64.toNat_div a.val 64

theorem BlockNumber.toNat_base (b : BlockNumber) :
    b.base.val.toNat = b.val.toNat * blockSize % UInt64.size := UInt64.toNat_mul b.val 64

@[simp] theorem BlockNumber.offset_base (b : BlockNumber) : b.base.offset = 0 := by
  simp only [Address.offset, toNat_base, blockSize, UInt64.size]
  omega

/-- A number counts a block of the address space. -/
def BlockNumber.InSpace (b : BlockNumber) : Prop := b.val.toNat * blockSize < UInt64.size

theorem BlockNumber.block_base {b : BlockNumber} (h : b.InSpace) : b.base.block = b := by
  cases b with
  | mk v =>
    simp only [Address.block, mk.injEq]
    apply UInt64.toNat_inj.mp
    rw [UInt64.toNat_div, toNat_base, Nat.mod_eq_of_lt h]
    exact Nat.mul_div_cancel v.toNat (by decide)

theorem Address.inSpace_block (a : Address) : a.block.InSpace := by
  rw [BlockNumber.InSpace, toNat_block]
  exact Nat.lt_of_le_of_lt (Nat.div_mul_le_self _ _) a.val.toNat_lt_size

end WritebackCache
