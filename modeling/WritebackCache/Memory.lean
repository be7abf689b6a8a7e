import WritebackCache.Latency
import WritebackCache.SparseMemory
import WritebackCache.Text.Record

/-! Main memory behind the cache. A request reads or writes the contents at once and is answered when
its latency is over, but never before the answer to an earlier request. Every request that was
served is logged. -/

namespace WritebackCache

inductive MemoryOp
  | fetch
  | writeback
  deriving DecidableEq

def MemoryOp.name : MemoryOp → String
  | fetch => "Fetch"
  | writeback => "Writeback"

/-- A packet that is no write counts as a fetch. -/
def MemoryOp.ofPacket (p : Packet) : MemoryOp := if p.isWrite then writeback else fetch

/-- One request that memory served: when it came, and the tick of its answer. -/
structure MemoryAccess where
  op : MemoryOp
  block : BlockNumber
  issued : Tick
  completed : Tick
  deriving DecidableEq

structure Memory (σ : Type) where
  contents : SparseMemory
  timing : σ
  /-- The tick of the last answer promised. -/
  readyAt : Tick
  log : List MemoryAccess

namespace Memory

variable {σ : Type}

def empty (timing : σ) : Memory σ := ⟨.empty, timing, 0, []⟩

def fetches (m : Memory σ) : Nat := m.log.countP (·.op = .fetch)

def writebacks (m : Memory σ) : Nat := m.log.countP (·.op = .writeback)

/-- Puts bytes in place before a run. -/
def load (m : Memory σ) (addr : Address) (bytes : List UInt8) : Memory σ × Except Fault Unit :=
  let r := m.contents.load addr bytes
  ({ m with contents := r.1 }, r.2)

/-- Serves a request that arrives at tick `now`. Answers the tick of the response and the response;
if the latency faults, the timing has moved on and nothing else has. -/
def serve [LatencyModel σ] (m : Memory σ) (now : Tick) (p : Packet) :
    Memory σ × Except Fault (Tick × Packet) :=
  match LatencyModel.access m.timing p.addr with
  | (timing, .error f) => ({ m with timing }, .error f)
  | (timing, .ok latency) =>
    let done := Word.later (Word.saturatingAdd now latency) m.readyAt
    let (contents, response) := m.contents.serve p
    ({ contents, timing, readyAt := done,
       log := m.log ++ [⟨.ofPacket p, p.block, now, done⟩] },
     .ok (done, response))

/-- The state of memory in words. -/
def describe (m : Memory σ) : String :=
  Text.openRecord "Memory"
    [("resident_blocks", Numeral.decimal m.contents.resident),
     ("ready_at", Numeral.decimal m.readyAt.toNat), ("accesses", Numeral.decimal m.log.length)]

end Memory

end WritebackCache
