import WritebackCache.Config
import WritebackCache.Event
import WritebackCache.Grid
import WritebackCache.Replacement

/-! The cache controller. It takes one request at a time. A hit is served from the grid and leaves the
controller blocked until its response, or its release, comes up. A miss fetches its block; when
the block is there a way is chosen, and if the line in it is dirty that line is first written back
and the writeback acknowledged, before the block is filled into the very way that was written back.
While it is blocked the controller turns requests away, and owes one retry for them.

A call is a function of the controller and leads to a reaction: the controller after it, at most one
action on the world, and an answer. A call that fails acts on nothing. -/

namespace WritebackCache

inductive Status
  | idle
  /-- A hit was served; its response or release is scheduled. -/
  | hitPending
  | awaitFetch
  | awaitWriteback
  /-- A miss was filled; its response or release is scheduled. -/
  | unblockPending
  deriving DecidableEq

def Status.name : Status → String
  | idle => "Idle"
  | hitPending => "HitPending"
  | awaitFetch => "AwaitFetch"
  | awaitWriteback => "AwaitWriteback"
  | unblockPending => "UnblockPending"

/-- What an accepted request met with. -/
inductive Lookup
  | hit
  | miss
  /-- Neither read nor write: dropped. -/
  | bypass
  deriving DecidableEq

def Lookup.name : Lookup → String
  | hit => "Hit"
  | miss => "Miss"
  | bypass => "Bypass"

inductive Offer
  | accepted (lookup : Lookup)
  /-- The request comes back; it has to be offered again. -/
  | busy (request : Packet)
  deriving DecidableEq

inductive ProtocolError
  | unexpectedResponse (addr : Address)
  | mismatchedResponse (expected got : BlockNumber)
  | unexpectedAck (addr : Address)
  | noQueuedResponse
  | dirtyOverwrite (set way : Nat) (tag : BlockNumber)
  | victimOutOfRange (way ways : Nat)
  deriving DecidableEq

def ProtocolError.message : ProtocolError → String
  | unexpectedResponse addr =>
    s!"memory response for {addr.text} arrived with no pending transaction"
  | mismatchedResponse expected got =>
    s!"memory returned {got.text} while the pending miss is for {expected.text}"
  | unexpectedAck addr => s!"expected writeback acknowledgement, got a response for {addr.text}"
  | noQueuedResponse => "response delivery scheduled with no response queued"
  | dirtyOverwrite set way tag => s!"fill of set {set} way {way} would discard dirty {tag.text}"
  | victimOutOfRange way ways => s!"replacement policy chose way {way} in a {ways}-way set"

/-- The text for a request that comes back. -/
def busyMessage (request : Packet) : String :=
  s!"cache controller busy; request for {request.addr.text} must be retried"

inductive Stage
  | fetching
  /-- The line in `way` holds `victim` and is being written back; `fetched` is to take its place. -/
  | writingBack (way : Nat) (victim : BlockNumber) (fetched : Block)
  deriving DecidableEq

/-- The one outstanding miss. -/
structure Miss where
  request : Packet
  stage : Stage
  deriving DecidableEq

/-- The way that the miss will fill, once it is chosen. -/
def Miss.way? (m : Miss) : Option Nat :=
  match m.stage with
  | .fetching => none
  | .writingBack way _ _ => some way

inductive Action
  /-- Hand a request to memory. -/
  | send (request : Packet)
  | schedule (delay : Tick) (event : Event)
  deriving DecidableEq

structure Controller where
  grid : Grid
  policy : Policy
  latency : Tick
  status : Status := .idle
  miss : Option Miss := none
  /-- The response that waits to be delivered. -/
  response : Option Packet := none
  /-- A request was turned away since the controller became free last. -/
  retryOwed : Bool := false
  /-- How often the policy was asked. -/
  asked : Nat := 0

inductive Reaction (α : Type)
  | done (next : Controller) (action : Option Action) (answer : α)
  | failed (next : Controller) (why : Failure ProtocolError)

namespace Controller

/-- A controller of a sound geometry; the rest of the machine's description does not matter to it. -/
def ofConfig (config : CacheConfig) (policy : Policy) : Except (Failure ConfigError) Controller :=
  match config.validate with
  | .error e => .error e
  | .ok () =>
    orFault (config.sets.bind fun sets =>
      (Grid.build sets.toNat config.ways.toNat).map fun grid =>
        { grid, policy, latency := config.latency })

def isBlocked (c : Controller) : Bool := c.status ≠ .idle

def awaitingWriteback (c : Controller) : Bool :=
  match c.miss with
  | some ⟨_, .writingBack _ _ _⟩ => true
  | _ => false

/-- Schedules the end of a request whose block lies at the coordinates: a response with the bytes of
the line, or a mere release. -/
def respond (c : Controller) (request : Packet) (set way : Nat) :
    Except Fault (Controller × Action) :=
  if request.needsResponse then
    (c.grid.line set way).map fun l =>
      ({ c with response := some (request.filledFrom l.data).asResponse },
       .schedule c.latency .deliver)
  else .ok (c, .schedule c.latency .unblock)

/-- The payload of a write goes into its line and makes it dirty; a read changes nothing. -/
def apply (g : Grid) (request : Packet) (set way : Nat) : Except Fault Grid :=
  if request.isWrite then g.write set way request.offset request.data true else .ok g

/-- Serves a request from the line that holds its block. -/
def serve (c : Controller) (request : Packet) (way : Nat) : Except Fault (Controller × Action) := do
  let set := c.grid.setOf request.block
  let touched ← c.grid.touch set way
  let grid ← apply touched request set way
  respond { c with grid, status := .hitPending } request set way

/-- Offers a request. -/
def request (c : Controller) (p : Packet) : Reaction Offer :=
  if c.isBlocked then .done { c with retryOwed := true } none (.busy p)
  else if !p.kind.isReadOrWrite then .done c none (.accepted .bypass)
  else
    match c.grid.lookup p.block with
    | some way =>
      match c.serve p way with
      | .ok (next, action) => .done next (some action) (.accepted .hit)
      | .error f => .failed c (.fault f)
    | none =>
      .done { c with miss := some ⟨p, .fetching⟩, status := .awaitFetch }
        (some (.send (.blockRead p.block))) (.accepted .miss)

/-- Fills a block into a line that is not dirty, and serves the request that missed it. -/
def fill (c : Controller) (request : Packet) (way : Nat) (fetched : Block) :
    Except (Failure ProtocolError) (Controller × Action) := do
  let set := c.grid.setOf request.block
  let l ← orFault (c.grid.line set way)
  if l.valid && l.dirty then .error (.refused (.dirtyOverwrite set way l.tag))
  else
    let installed ← orFault (c.grid.install set way request.block fetched false)
    let written ← orFault (apply installed request set way)
    let grid ← orFault (written.touch set way)
    orFault (respond { c with grid, status := .unblockPending } request set way)

/-- The block of a miss is there, and goes into the way chosen: at once, or after the writeback of
the dirty line in that way. -/
def place (c : Controller) (request : Packet) (way : Nat) (fetched : Block) :
    Except (Failure ProtocolError) (Controller × Action) := do
  let l ← orFault (c.grid.line (c.grid.setOf request.block) way)
  if l.valid && l.dirty then
    .ok ({ c with miss := some ⟨request, .writingBack way l.tag fetched⟩, status := .awaitWriteback },
      .send (.blockWrite l.tag l.data))
  else c.fill request way fetched

/-- The writeback of the line in the way chosen is acknowledged. -/
def acknowledge (c : Controller) (request : Packet) (way : Nat) (fetched : Block) :
    Except (Failure ProtocolError) (Controller × Action) := do
  let grid ← orFault (c.grid.clean (c.grid.setOf request.block) way)
  fill { c with grid } request way fetched

/-- Whatever goes wrong with an answer leaves the controller given; otherwise it goes on. -/
def settle (c : Controller) : Except (Failure ProtocolError) (Controller × Action) → Reaction Unit
  | .ok (next, action) => .done next (some action) ()
  | .error why => .failed c why

/-- The controller without its miss: what is left of it after an answer that fails. -/
def abandon (c : Controller) : Controller := { c with miss := none }

/-- Takes an answer from memory, a fetched block or the acknowledgement of a writeback. An answer
that is not the one expected costs the outstanding miss. -/
def answer (c : Controller) (p : Packet) : Reaction Unit :=
  match c.miss with
  | none => .failed c (.refused (.unexpectedResponse p.addr))
  | some ⟨request, .writingBack way victim fetched⟩ =>
    if p.isWrite && decide (p.block = victim) then
      settle c.abandon (c.abandon.acknowledge request way fetched)
    else .failed c.abandon (.refused (.unexpectedAck p.addr))
  | some ⟨request, .fetching⟩ =>
    if p.isRead && decide (p.block = request.block) then
      let way := c.policy c.asked (c.grid.row (c.grid.setOf request.block))
      let asked := { c.abandon with asked := c.asked + 1 }
      if way < c.grid.ways then settle asked (asked.place request way p.blockData)
      else .failed asked (.refused (.victimOutOfRange way c.grid.ways))
    else .failed c.abandon (.refused (.mismatchedResponse request.block p.block))

/-- Becomes free, and schedules the retry that is owed. -/
def unblock (c : Controller) : Reaction Unit :=
  if c.miss.isSome then .failed c (.fault .missOutstanding)
  else .done { c with status := .idle, retryOwed := false }
    (if c.retryOwed then some (.schedule 0 .retry) else none) ()

/-- Hands out the response that waits, and becomes free. -/
def deliver (c : Controller) : Reaction Packet :=
  match c.response with
  | none => .failed c (.refused .noQueuedResponse)
  | some p =>
    match unblock { c with response := none } with
    | .done next action () => .done next action p
    | .failed next why => .failed next why

end Controller

end WritebackCache
