import WritebackCache.Controller
import WritebackCache.Numeric.Binary64

/-! The counters of a run. A counter that cannot go up any further is a fault; a request is counted
before what it met with, and stays counted. -/

namespace WritebackCache

structure Stats where
  /-- The tick of the last event. -/
  ticks : UInt64 := 0
  /-- Requests accepted: hits, misses and those that bypass the cache. -/
  requests : UInt64 := 0
  hits : UInt64 := 0
  misses : UInt64 := 0
  bypassed : UInt64 := 0
  /-- Offers that were turned away. -/
  retries : UInt64 := 0
  fetches : UInt64 := 0
  writebacks : UInt64 := 0
  deriving DecidableEq

namespace Stats

/-- Counts one accepted request under what it met with. -/
def count (s : Stats) : Lookup → Except Fault Stats
  | .hit => (Word.add s.hits 1).map fun hits => { s with hits }
  | .miss => (Word.add s.misses 1).map fun misses => { s with misses }
  | .bypass => (Word.add s.bypassed 1).map fun bypassed => { s with bypassed }

def record (s : Stats) (lookup : Lookup) : Stats × Except Fault Unit :=
  match Word.add s.requests 1 with
  | .error f => (s, .error f)
  | .ok requests =>
    let counted := { s with requests }
    match counted.count lookup with
    | .error f => (counted, .error f)
    | .ok next => (next, .ok ())

/-- Records one request after the other, up to the first fault. -/
def recordAll (s : Stats) : List Lookup → Stats × Except Fault Unit
  | [] => (s, .ok ())
  | lookup :: rest =>
    match s.record lookup with
    | (next, .ok ()) => next.recordAll rest
    | (next, .error f) => (next, .error f)

/-- Counts one offer that was turned away. -/
def recordRetry (s : Stats) : Except Fault Stats :=
  (Word.add s.retries 1).map fun retries => { s with retries }

/-- Requests that looked for a block. -/
def accesses (s : Stats) : Except Fault UInt64 := Word.add s.hits s.misses

/-- The part of the accesses that hit; zero if there were none. -/
def hitRate (s : Stats) : Except Fault Numeric.Binary64 :=
  s.accesses.map fun n =>
    if n = 0 then .zero else (Numeric.Binary64.ofNat s.hits.toNat).div (.ofNat n.toNat)

end Stats

end WritebackCache
