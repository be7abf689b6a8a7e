import WritebackCache.Word

/-! The description of a machine: the geometry and latency of its cache, the timing of the memory
behind it and the pace of its requester. A geometry is sound if a row of blocks, one for each way,
divides the capacity; the size of a memory row must be a power of two whichever timing is chosen. The
values that stand with the fields below are those of the usual machine. -/

namespace WritebackCache

/-! The constants of the usual machine. -/

namespace Defaults

def cacheSize : UInt64 := 1024

def cacheWays : UInt64 := 4

def cacheLatency : UInt64 := 1

def memoryLatency : UInt64 := 10

def tCas : UInt64 := 14

def tRas : UInt64 := 14

def tPre : UInt64 := 14

def rowBytes : UInt64 := 2048

def issueGap : UInt64 := 1

end Defaults

inductive ConfigError
  | tooSmall (size : Nat)
  | zeroWays
  | geometry (size stride : Nat)
  | rowSize (rowBytes : Nat)
  deriving DecidableEq

def ConfigError.message : ConfigError → String
  | tooSmall size => s!"cache capacity of {size} bytes is smaller than one 64-byte block"
  | zeroWays => "cache associativity must be at least 1 way"
  | geometry size stride =>
    s!"cache capacity of {size} bytes is not a multiple of block size x ways ({stride} bytes)"
  | rowSize rowBytes => s!"DRAM row size must be a non-zero power of two, got {rowBytes}"

structure CacheConfig where
  sizeBytes : UInt64 := Defaults.cacheSize
  ways : UInt64 := Defaults.cacheWays
  latency : UInt64 := Defaults.cacheLatency
  deriving DecidableEq

/-- How memory answers: after a fixed time, or with one open row. -/
inductive TimingKind
  | simple
  | dram
  deriving DecidableEq

instance : Inhabited TimingKind := ⟨.simple⟩

def TimingKind.name : TimingKind → String
  | simple => "Simple"
  | dram => "Dram"

/-- The words for a timing; one of them has two. -/
def TimingKind.spellings : List (String × TimingKind) :=
  [("Simple", simple), ("Dram", dram), ("DRAM", dram)]

structure MemoryConfig where
  controller : TimingKind := default
  latency : UInt64 := Defaults.memoryLatency
  tCas : UInt64 := Defaults.tCas
  tRas : UInt64 := Defaults.tRas
  tPre : UInt64 := Defaults.tPre
  rowBytes : UInt64 := Defaults.rowBytes
  deriving DecidableEq

structure RequesterConfig where
  issueGap : UInt64 := Defaults.issueGap
  deriving DecidableEq

structure Config where
  cache : CacheConfig := {}
  memory : MemoryConfig := {}
  requester : RequesterConfig := {}
  deriving DecidableEq

namespace CacheConfig

/-- The bytes of one set. -/
def stride (c : CacheConfig) : Except Fault UInt64 := Word.mul 64 c.ways

def validate (c : CacheConfig) : Except (Failure ConfigError) Unit :=
  if c.ways = 0 then .error (.refused .zeroWays)
  else if c.sizeBytes.toNat < 64 then .error (.refused (.tooSmall c.sizeBytes.toNat))
  else match c.stride with
    | .error f => .error (.fault f)
    | .ok stride =>
      if c.sizeBytes % stride = 0 then .ok ()
      else .error (.refused (.geometry c.sizeBytes.toNat stride.toNat))

/-- The number of sets, which means something only for a sound geometry. -/
def sets (c : CacheConfig) : Except Fault UInt64 :=
  c.stride.bind fun stride =>
    if stride = 0 then .error .divideByZero else .ok (c.sizeBytes / stride)

end CacheConfig

/-- A power of two has no bit in common with its predecessor. -/
def isPowerOfTwo (n : UInt64) : Bool := n ≠ 0 && n &&& (n - 1) = 0

namespace MemoryConfig

def validate (c : MemoryConfig) : Except ConfigError Unit :=
  if isPowerOfTwo c.rowBytes then .ok () else .error (.rowSize c.rowBytes.toNat)

end MemoryConfig

namespace Config

def validate (c : Config) : Except (Failure ConfigError) Unit :=
  match c.cache.validate with
  | .ok () => orRefuse c.memory.validate
  | .error e => .error e

end Config

end WritebackCache
