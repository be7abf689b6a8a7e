import WritebackCache.Config
import WritebackCache.Event

/-! How long memory takes. A latency model is a state and what an access does to it; an access may
fault, and the state is then the one the fault left. A row buffer keeps the row of the last access
open: another access to it only has to select a column, one to another row has to close it first. -/

namespace WritebackCache

class LatencyModel (σ : Type) where
  access : σ → Address → σ × Except Fault Tick

structure RowBuffer where
  tCas : Tick
  tRas : Tick
  tPre : Tick
  rowMask : UInt64
  openRow : Option UInt64 := none
  deriving DecidableEq

namespace RowBuffer

/-- Rows of `rowBytes` bytes; the mask keeps what a power of two divides. -/
def ofRowBytes (tCas tRas tPre : Tick) (rowBytes : UInt64) : Except Fault RowBuffer :=
  (Word.sub rowBytes 1).map fun below => { tCas, tRas, tPre, rowMask := ~~~below }

/-- The row is open from the moment it is asked for, even if the time cannot be told. -/
def access (r : RowBuffer) (addr : Address) : RowBuffer × Except Fault Tick :=
  let row := addr.val &&& r.rowMask
  ({ r with openRow := some row },
    match r.openRow with
    | none => Word.add r.tRas r.tCas
    | some held =>
      if held = row then .ok r.tCas
      else (Word.add r.tPre r.tRas).bind fun opened => Word.add opened r.tCas)

end RowBuffer

inductive Timing
  | fixed (latency : Tick)
  | rows (buffer : RowBuffer)
  deriving DecidableEq

namespace Timing

def access : Timing → Address → Timing × Except Fault Tick
  | fixed latency, _ => (fixed latency, .ok latency)
  | rows buffer, addr => ((buffer.access addr).map rows id)

instance : LatencyModel Timing := ⟨access⟩

/-- The timing that a sound description of memory selects. -/
def ofConfig (c : MemoryConfig) : Except (Failure ConfigError) Timing :=
  match c.validate with
  | .error e => .error (.refused e)
  | .ok () =>
    match c.controller with
    | .simple => .ok (fixed c.latency)
    | .dram => orFault ((RowBuffer.ofRowBytes c.tCas c.tRas c.tPre c.rowBytes).map rows)

end Timing

end WritebackCache
