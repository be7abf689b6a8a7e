import WritebackCache.Packet

/-! A trace: bytes to put into memory before a run, and the requests of the run in order. -/

namespace WritebackCache

structure Trace where
  preloads : List (Address × List UInt8) := []
  requests : List Packet := []
  deriving DecidableEq

inductive TraceEntry
  | preload (addr : Address) (bytes : List UInt8)
  | request (packet : Packet)
  deriving DecidableEq

namespace Trace

/-- The trace with an entry in front. -/
def cons (entry : TraceEntry) (t : Trace) : Trace :=
  match entry with
  | .preload addr bytes => { t with preloads := (addr, bytes) :: t.preloads }
  | .request packet => { t with requests := packet :: t.requests }

def ofEntries (entries : List TraceEntry) : Trace := entries.foldr cons {}

def append (t u : Trace) : Trace := ⟨t.preloads ++ u.preloads, t.requests ++ u.requests⟩

theorem cons_append (e : TraceEntry) (t u : Trace) : (cons e t).append u = cons e (t.append u) := by
  cases e <;> rfl

end Trace

end WritebackCache
