import WritebackCache.Event

/-! The requester replays a list of packets one at a time. A request that expects a response holds it
until the response is there; a request that was turned away is held and offered again before the
rest of the list. -/

namespace WritebackCache

structure Completion where
  tick : Tick
  packet : Packet
  deriving DecidableEq

structure Requester where
  /-- Requests not offered yet. -/
  queue : List Packet
  /-- A request that was turned away. -/
  held : Option Packet := none
  /-- A response is outstanding. -/
  waiting : Bool := false
  /-- The number of requests accepted. -/
  issued : Nat := 0
  /-- The responses received, in order of arrival. -/
  completions : List Completion := []

namespace Requester

/-- The packet to offer now, with the requester that has given it away. -/
def next (r : Requester) : Option (Packet × Requester) :=
  if r.waiting then none
  else match r.held with
    | some p => some (p, { r with held := none })
    | none =>
      match r.queue with
      | [] => none
      | p :: rest => some (p, { r with queue := rest })

/-- The packet offered last was accepted. -/
def accepted (r : Requester) (needsResponse : Bool) : Requester :=
  { r with issued := r.issued + 1, waiting := needsResponse }

def rejected (r : Requester) (p : Packet) : Requester := { r with held := some p }

def receive (r : Requester) (p : Packet) (tick : Tick) : Requester :=
  { r with waiting := false, completions := r.completions ++ [⟨tick, p⟩] }

/-- Everything was accepted and answered. -/
def isDone (r : Requester) : Bool := r.queue.isEmpty && r.held.isNone && !r.waiting

/-- The number of requests not accepted yet. -/
def remaining (r : Requester) : Nat := r.queue.length + r.held.toList.length

theorem remaining_of_next {r rest : Requester} {p : Packet} (h : r.next = some (p, rest)) :
    rest.remaining + 1 = r.remaining ∧ rest.held = none := by
  unfold next at h
  split at h
  · cases h
  · split at h
    · next hh =>
      cases h
      simp [remaining, hh]
    · next hh =>
      split at h
      · cases h
      · next hq =>
        cases h
        simp [remaining, hh, hq]

end Requester

end WritebackCache
