import WritebackCache.Block

/-! One line of the cache: a block of data, the number of the block as its tag, whether the line holds
a block at all, whether that block was written since it was filled, and the stamp of its last use. -/

namespace WritebackCache

structure Line where
  valid : Bool
  dirty : Bool
  tag : BlockNumber
  lastUse : Nat
  data : Block
  deriving DecidableEq

namespace Line

def fresh : Line := ⟨false, false, ⟨0⟩, 0, .zero⟩

def holds (l : Line) (block : BlockNumber) : Bool := l.valid && decide (l.tag = block)

end Line

end WritebackCache
