import WritebackCache.Agenda
import WritebackCache.Controller
import WritebackCache.SparseMemory

/-! A controller on a bench. Its memory port only records: a request stays outstanding until the bench
is told to complete the oldest one, and only then reads or writes the contents behind the port.
Events are taken off the agenda one by one. The bench makes every interleaving of requests, answers
and events possible. -/

namespace WritebackCache

structure Bench where
  controller : Controller
  agenda : Agenda := .empty
  /-- Requests at the memory port that have no answer yet, the oldest first. -/
  outstanding : List Packet := []
  backing : SparseMemory := .empty

/-- An event that came up, and what became of it: the response that was delivered, if any. -/
structure Firing where
  tick : Tick
  event : Event
  result : Except (Failure ProtocolError) (Option Packet)

namespace Bench

def perform (b : Bench) : Option Action → Bench
  | none => b
  | some (.send p) => { b with outstanding := b.outstanding ++ [p] }
  | some (.schedule delay event) => { b with agenda := b.agenda.scheduleIn delay event }

@[simp] theorem controller_perform (b : Bench) (action : Option Action) :
    (b.perform action).controller = b.controller := by
  rcases action with _ | _ | _ <;> rfl

def react {α : Type} (b : Bench) : Reaction α → Bench × Except (Failure ProtocolError) α
  | .done next action answer => (perform { b with controller := next } action, .ok answer)
  | .failed next why => ({ b with controller := next }, .error why)

def offer (b : Bench) (p : Packet) : Bench × Except (Failure ProtocolError) Offer :=
  b.react (b.controller.request p)

def answer (b : Bench) (p : Packet) : Bench × Except (Failure ProtocolError) Unit :=
  b.react (b.controller.answer p)

def deliver (b : Bench) : Bench × Except (Failure ProtocolError) Packet :=
  b.react b.controller.deliver

def unblock (b : Bench) : Bench × Except (Failure ProtocolError) Unit :=
  b.react b.controller.unblock

/-- Completes the oldest outstanding request and gives its response to the controller. -/
def complete (b : Bench) : Option (Bench × Except (Failure ProtocolError) Packet) :=
  match b.outstanding with
  | [] => none
  | p :: rest =>
    let (backing, response) := b.backing.serve p
    let (next, result) := answer { b with outstanding := rest, backing } response
    some (next, result.map fun () => response)

/-- What an event does to the controller; events for others do nothing here. -/
def dispatch (b : Bench) : Event → Bench × Except (Failure ProtocolError) (Option Packet)
  | .deliver =>
    let (next, result) := b.deliver
    (next, result.map some)
  | .unblock =>
    let (next, result) := b.unblock
    (next, result.map fun () => none)
  | .issue | .retry | .memoryResponse _ => (b, .ok none)

/-- Takes the next event off the agenda and dispatches it. -/
def next (b : Bench) : Option (Bench × Firing) :=
  b.agenda.pop.map fun (tick, event, agenda) =>
    let (after, result) := dispatch { b with agenda } event
    (after, ⟨tick, event, result⟩)

/-- Takes at most `fuel` events off the agenda. -/
def drainFor : Nat → Bench → Bench × List Firing
  | 0, b => (b, [])
  | fuel + 1, b =>
    match b.next with
    | none => (b, [])
    | some (b, firing) =>
      let (b, rest) := drainFor fuel b
      (b, firing :: rest)

/-- Takes events off the agenda until it is empty. The only event that draining adds is a retry that
is owed, and that is added once. -/
def drain (b : Bench) : Bench × List Firing := drainFor (b.agenda.length + 1) b

def load (b : Bench) (addr : Address) (bytes : List UInt8) : Bench × Except Fault Unit :=
  let (backing, result) := b.backing.load addr bytes
  ({ b with backing }, result)

end Bench

end WritebackCache
