import WritebackCache.Agenda
import WritebackCache.Memory
import WritebackCache.Requester
import WritebackCache.Stats
import WritebackCache.Trace

/-! The simulation: a requester, a cache controller and a memory around one agenda. Each event is
dispatched to the part it concerns, and what that part wants done is done before the next event
comes up. A run ends when the agenda is empty. It always does: an amount of work is left to every
state, and each event uses some of it up. -/

namespace WritebackCache

structure Simulation (σ : Type) where
  agenda : Agenda
  controller : Controller
  memory : Memory σ
  requester : Requester
  stats : Stats := {}
  /-- Ticks between the end of a request and the next offer. -/
  issueGap : Tick

namespace Simulation

variable {σ : Type}

/-- Parts put together: the first offer is due at tick 0. -/
def ofParts (controller : Controller) (memory : Memory σ) (requester : Requester)
    (issueGap : Tick) : Simulation σ :=
  { agenda := Agenda.empty.schedule 0 .issue, controller, memory, requester, issueGap }

/-- Loads byte strings one after the other, up to the first fault. -/
def preload (m : Memory σ) : List (Address × List UInt8) → Except Fault (Memory σ)
  | [] => .ok m
  | (addr, bytes) :: rest =>
    match m.load addr bytes with
    | (next, .ok ()) => preload next rest
    | (_, .error f) => .error f

/-- A machine with least recently used replacement, ready to run a trace. Its whole description is
checked first. -/
def ofConfig (config : Config) (trace : Trace) : Except (Failure ConfigError) (Simulation Timing) := do
  config.validate
  let controller ← Controller.ofConfig config.cache Replacement.lru
  let timing ← Timing.ofConfig config.memory
  let memory ← orFault (preload (.empty timing) trace.preloads)
  .ok (ofParts controller memory { queue := trace.requests } config.requester.issueGap)

/-- The same machine with another replacement policy, put together from its memory on. -/
def ofConfigWith (config : Config) (policy : Policy) (trace : Trace) :
    Except (Failure ConfigError) (Simulation Timing) := do
  let timing ← Timing.ofConfig config.memory
  let memory ← orFault (preload (.empty timing) trace.preloads)
  let controller ← Controller.ofConfig config.cache policy
  .ok (ofParts controller memory { queue := trace.requests } config.requester.issueGap)

/-- Enters an event by hand. -/
def inject (s : Simulation σ) (tick : Tick) (event : Event) : Simulation σ :=
  { s with agenda := s.agenda.schedule tick event }

def perform [LatencyModel σ] (s : Simulation σ) : Option Action → Simulation σ × Except Fault Unit
  | none => (s, .ok ())
  | some (.schedule delay event) => ({ s with agenda := s.agenda.scheduleIn delay event }, .ok ())
  | some (.send p) =>
    match s.memory.serve s.agenda.now p with
    | (memory, .error f) => ({ s with memory }, .error f)
    | (memory, .ok (tick, response)) =>
      ({ s with memory, agenda := s.agenda.schedule tick (.memoryResponse response) }, .ok ())

/-- Does what a call of the controller leads to. Where memory faults, the call is undone up to the
miss it was about. -/
def react [LatencyModel σ] {α : Type} (s : Simulation σ) :
    Reaction α → Simulation σ × Except (Failure ProtocolError) α
  | .failed next why => ({ s with controller := next }, .error why)
  | .done next action answer =>
    match perform { s with controller := next } action with
    | (after, .ok ()) => (after, .ok answer)
    | (after, .error f) => ({ after with controller := s.controller.abandon }, .error (.fault f))

/-- Schedules the next offer if there is anything left to offer. -/
def scheduleIssue (s : Simulation σ) : Simulation σ :=
  if 0 < s.requester.remaining then
    { s with agenda := s.agenda.scheduleIn s.issueGap .issue }
  else s

/-- Books what became of an offer. -/
def book (s : Simulation σ) (needsResponse : Bool) :
    Offer → Simulation σ × Except (Failure ProtocolError) Unit
  | .accepted lookup =>
    match s.stats.record lookup with
    | (stats, .error f) => ({ s with stats }, .error (.fault f))
    | (stats, .ok ()) =>
      let booked := { s with stats, requester := s.requester.accepted needsResponse }
      (if needsResponse then booked else booked.scheduleIssue, .ok ())
  | .busy p =>
    match s.stats.recordRetry with
    | .error f => (s, .error (.fault f))
    | .ok stats => ({ s with stats, requester := s.requester.rejected p }, .ok ())

/-- Offers the requester's next packet to the controller. -/
def issue [LatencyModel σ] (s : Simulation σ) : Simulation σ × Except (Failure ProtocolError) Unit :=
  match s.requester.next with
  | none => (s, .ok ())
  | some (p, requester) =>
    match react { s with requester } (s.controller.request p) with
    | (after, .error why) => (after, .error why)
    | (after, .ok offer) => after.book p.needsResponse offer

/-- Hands the controller's response to the requester. -/
def deliver [LatencyModel σ] (s : Simulation σ) (tick : Tick) :
    Simulation σ × Except (Failure ProtocolError) Unit :=
  match s.react s.controller.deliver with
  | (after, .error why) => (after, .error why)
  | (after, .ok p) =>
    (scheduleIssue { after with requester := after.requester.receive p tick }, .ok ())

def dispatch [LatencyModel σ] (s : Simulation σ) (tick : Tick) :
    Event → Simulation σ × Except (Failure ProtocolError) Unit
  | .issue | .retry => s.issue
  | .deliver => s.deliver tick
  | .unblock => s.react s.controller.unblock
  | .memoryResponse p => s.react (s.controller.answer p)

/-- Lets the next event happen. Answers whether there was one. -/
def step [LatencyModel σ] (s : Simulation σ) : Simulation σ × Except (Failure ProtocolError) Bool :=
  match s.agenda.pop with
  | none => (s, .ok false)
  | some (tick, event, agenda) =>
    match dispatch { s with agenda } tick event with
    | (after, .error why) => (after, .error why)
    | (after, .ok ()) => ({ after with stats := { after.stats with ticks := tick } }, .ok true)

/-- At most `fuel` steps, up to the end of the run or its first failure. -/
def advance [LatencyModel σ] : Nat → Simulation σ → Simulation σ × Except (Failure ProtocolError) Unit
  | 0, s => (s, .ok ())
  | fuel + 1, s =>
    match s.step with
    | (after, .error why) => (after, .error why)
    | (after, .ok false) => (after, .ok ())
    | (after, .ok true) => advance fuel after

/-- The work that an outstanding miss still makes. -/
def missWork : Option Miss → Nat
  | none => 0
  | some ⟨_, .fetching⟩ => 8
  | some ⟨_, .writingBack _ _ _⟩ => 5

/-- The work that a response makes until it is delivered. -/
def responseWork (response : Option Packet) : Nat := if response.isSome then 3 else 0

/-- The work that a retry makes until it is scheduled. -/
def retryWork (owed : Bool) : Nat := if owed then 1 else 0

/-- The work that the controller still makes. -/
def outstandingWork (c : Controller) : Nat :=
  missWork c.miss + responseWork c.response + retryWork c.retryOwed

/-- The work left: a bound on the number of events still to come. -/
def work (s : Simulation σ) : Nat :=
  2 * s.agenda.length + 16 * s.requester.remaining + outstandingWork s.controller

/-- Runs until no event is left, and then takes the counters of memory over. -/
def run [LatencyModel σ] (s : Simulation σ) :
    Simulation σ × Except (Failure ProtocolError) Stats :=
  match advance (s.work + 1) s with
  | (after, .error why) => (after, .error why)
  | (after, .ok ()) =>
    let stats := { after.stats with
      fetches := .ofNat after.memory.fetches, writebacks := .ofNat after.memory.writebacks }
    ({ after with stats }, .ok stats)

end Simulation

end WritebackCache
