import WritebackCache.Proofs.Calls

/-! The outstanding miss as plain fields. A transaction has the way chosen and the phase beside each other,
and nothing ties the one to the other; so what is done with it has a branch for a way that is chosen before
the block is there, and one for a writeback without a way. A loose controller holds such a transaction, and
at every call it does what the controller does whose miss is held in shape by its type. So from a new
controller on neither branch is ever taken. -/

namespace WritebackCache

inductive Transaction.Phase
  | fetching
  | writingBack (victim : BlockNumber) (fetched : Block)

structure Transaction where
  request : Packet
  /-- The way that will be filled, once it is chosen. -/
  way? : Option Nat := none
  phase : Transaction.Phase := .fetching

def Stage.phase : Stage → Transaction.Phase
  | fetching => .fetching
  | writingBack _ victim fetched => .writingBack victim fetched

def Miss.loose (m : Miss) : Transaction := ⟨m.request, m.way?, m.stage.phase⟩

structure LooseController where
  /-- All but the outstanding miss. -/
  base : Controller
  pending : Option Transaction

/-- The controller after a call, what it acts on the world, and how the call ends. -/
abbrev LooseReaction (α : Type) := LooseController × Option Action × Except (Failure ProtocolError) α

namespace LooseController

def settle (c : LooseController) :
    Except (Failure ProtocolError) (Controller × Action) → LooseReaction Unit
  | .ok (base, action) => (⟨base, none⟩, some action, .ok ())
  | .error why => (c, none, .error why)

def request (c : LooseController) (p : Packet) : LooseReaction Offer :=
  if c.base.isBlocked then ({ c with base := { c.base with retryOwed := true } }, none, .ok (.busy p))
  else if !p.kind.isReadOrWrite then (c, none, .ok (.accepted .bypass))
  else
    match c.base.grid.lookup p.block with
    | some way =>
      match c.base.serve p way with
      | .ok (base, action) => ({ c with base }, some action, .ok (.accepted .hit))
      | .error f => (c, none, .error (.fault f))
    | none =>
      (⟨{ c.base with status := .awaitFetch }, some { request := p }⟩,
        some (.send (.blockRead p.block)), .ok (.accepted .miss))

/-- The way that is chosen already, or the one that the policy names now. -/
def choose (c : LooseController) (t : Transaction) :
    LooseController × Except (Failure ProtocolError) Nat :=
  match t.way? with
  | some way => (c, .ok way)
  | none =>
    let way := c.base.policy c.base.asked (c.base.grid.row (c.base.grid.setOf t.request.block))
    ({ c with base := { c.base with asked := c.base.asked + 1 } },
      if way < c.base.grid.ways then .ok way
      else .error (.refused (.victimOutOfRange way c.base.grid.ways)))

def place (c : LooseController) (t : Transaction) (way : Nat) (fetched : Block) : LooseReaction Unit :=
  match c.base.grid.line (c.base.grid.setOf t.request.block) way with
  | .error f => (c, none, .error (.fault f))
  | .ok l =>
    if l.valid && l.dirty then
      (⟨{ c.base with status := .awaitWriteback },
          some { t with way? := some way, phase := .writingBack l.tag fetched }⟩,
        some (.send (.blockWrite l.tag l.data)), .ok ())
    else c.settle (c.base.fill t.request way fetched)

/-- Whatever comes of an answer, the transaction is taken first. -/
def answer (c : LooseController) (p : Packet) : LooseReaction Unit :=
  match c.pending with
  | none => (c, none, .error (.refused (.unexpectedResponse p.addr)))
  | some t =>
    let taken : LooseController := { c with pending := none }
    match t.phase with
    | .writingBack victim fetched =>
      match t.way?.filter fun _ => p.isWrite && decide (p.block = victim) with
      | some way => taken.settle (taken.base.acknowledge t.request way fetched)
      | none => (taken, none, .error (.refused (.unexpectedAck p.addr)))
    | .fetching =>
      if p.isRead && decide (p.block = t.request.block) then
        match taken.choose t with
        | (asked, .ok way) => asked.place t way p.blockData
        | (asked, .error why) => (asked, none, .error why)
      else (taken, none, .error (.refused (.mismatchedResponse t.request.block p.block)))

def unblock (c : LooseController) : LooseReaction Unit :=
  if c.pending.isSome then (c, none, .error (.fault .missOutstanding))
  else ({ c with base := { c.base with status := .idle, retryOwed := false } },
    if c.base.retryOwed then some (.schedule 0 .retry) else none, .ok ())

def deliver (c : LooseController) : LooseReaction Packet :=
  match c.base.response with
  | none => (c, none, .error (.refused .noQueuedResponse))
  | some p =>
    let (next, action, result) := unblock { c with base := { c.base with response := none } }
    (next, action, result.map fun () => p)

/-- The controller after a call, whatever the call comes to. -/
def after (c : LooseController) : Call → LooseController
  | .request p => (c.request p).1
  | .answer p => (c.answer p).1
  | .deliver => c.deliver.1
  | .unblock => c.unblock.1

def afterCalls (c : LooseController) (calls : List Call) : LooseController := calls.foldl after c

end LooseController

/-- The controller without what the type of its miss knows. -/
def Controller.loose (c : Controller) : LooseController := ⟨c.abandon, c.miss.map Miss.loose⟩

def Reaction.loose {α : Type} : Reaction α → LooseReaction α
  | .done next action answer => (next.loose, action, .ok answer)
  | .failed next why => (next.loose, none, .error why)

namespace Controller

/-! ## What does not look at the miss -/

/-- The controller with another miss, or with none. -/
def withMiss (c : Controller) (m : Option Miss) : Controller := { c with miss := m }

/-- A step that the outstanding miss has no part in, and that leaves it as it is. -/
def Blind {ε : Type} (f : Controller → Except ε (Controller × Action)) : Prop :=
  ∀ c m, f (c.withMiss m) = (f c).map (Prod.map (·.withMiss m) id)

variable {c d : Controller} {action : Action}

namespace Blind

theorem miss {ε : Type} {f : Controller → Except ε (Controller × Action)} (blind : Blind f)
    (ran : f c = .ok (d, action)) : d.miss = c.miss := by
  have same : f c = (f c).map (Prod.map (·.withMiss c.miss) id) := blind c c.miss
  rw [ran] at same
  exact congrArg (fun x => x.1.miss) (Except.ok.inj same)

theorem orFault {ε : Type} {f : Controller → Except Fault (Controller × Action)} (blind : Blind f) :
    Blind fun c => (WritebackCache.orFault (f c) : Except (Failure ε) (Controller × Action)) := by
  intro c m
  dsimp only
  rw [blind c m]
  cases f c <;> rfl

theorem bind {ε α : Type} {x : Controller → Except ε α}
    {f : α → Controller → Except ε (Controller × Action)} (same : ∀ c m, x (c.withMiss m) = x c)
    (blind : ∀ a, Blind (f a)) : Blind fun c => x c >>= fun a => f a c := by
  intro c m
  show x (c.withMiss m) >>= _ = (x c >>= _).map _
  rw [same]
  cases x c with
  | error e => rfl
  | ok a => exact blind a c m

end Blind

theorem respond_blind (p : Packet) (set way : Nat) : Blind (·.respond p set way) := by
  intro c m
  simp only [respond]
  split
  · show (c.grid.line set way).map _ = ((c.grid.line set way).map _).map _
    cases c.grid.line set way <;> rfl
  · rfl

theorem serve_blind (p : Packet) (way : Nat) : Blind (·.serve p way) := by
  refine .bind (fun _ _ => rfl) fun touched => .bind (fun _ _ => rfl) fun grid => ?_
  exact fun c => respond_blind p (c.grid.setOf p.block) way { c with grid, status := .hitPending }

theorem fill_blind (p : Packet) (way : Nat) (fetched : Block) : Blind (·.fill p way fetched) := by
  refine .bind (fun _ _ => rfl) fun l => ?_
  split
  · exact fun _ _ => rfl
  · refine .bind (fun _ _ => rfl) fun installed => .bind (fun _ _ => rfl) fun written =>
      .bind (fun _ _ => rfl) fun grid => ?_
    exact fun c => (respond_blind p (c.grid.setOf p.block) way).orFault
      { c with grid, status := .unblockPending }

theorem acknowledge_blind (p : Packet) (way : Nat) (fetched : Block) :
    Blind (·.acknowledge p way fetched) := by
  refine .bind (fun _ _ => rfl) fun grid => ?_
  exact fun c => fill_blind p way fetched { c with grid }

/-! ## The calls -/

theorem loose_of_nothing (nothing : c.miss = none) : c.loose = ⟨c, none⟩ := by
  cases c
  subst nothing
  rfl

theorem loose_of_miss {m : Miss} (outstanding : c.miss = some m) :
    c.loose = ⟨c.abandon, some m.loose⟩ := by
  rw [loose, outstanding]
  rfl

/-- A controller with the miss of another differs from that one in its base alone. -/
theorem loose_of_same (same : d.miss = c.miss) : d.loose = { c.loose with base := d.abandon } := by
  rw [loose, loose, same]

theorem loose_request (c : Controller) (p : Packet) : c.loose.request p = (c.request p).loose := by
  have base : c.loose.base = c.abandon := rfl
  have blocked : c.abandon.isBlocked = c.isBlocked := rfl
  have grid : c.abandon.grid = c.grid := rfl
  simp only [LooseController.request, request, base, blocked, grid]
  split
  · rfl
  · split
    · rfl
    · cases c.grid.lookup p.block with
      | none => rfl
      | some way =>
        have same : c.abandon.serve p way =
            (c.serve p way).map (Prod.map (·.withMiss none) id) := serve_blind p way c none
        simp only [same]
        cases ran : c.serve p way with
        | error f => rfl
        | ok reached =>
          show _ = (reached.1.loose, _, _)
          rw [loose_of_same ((serve_blind p way).miss ran)]
          rfl

theorem loose_settle {f : Controller → Except (Failure ProtocolError) (Controller × Action)}
    (blind : Blind f) (nothing : c.miss = none) :
    LooseController.settle ⟨c, none⟩ (f c) = (c.settle (f c)).loose := by
  cases ran : f c with
  | error why =>
    show (_, _) = (c.loose, _, _)
    rw [loose_of_nothing nothing]
  | ok reached =>
    show (_, _) = (reached.1.loose, _, _)
    rw [loose_of_nothing ((blind.miss ran).trans nothing)]

theorem loose_place (nothing : c.miss = none) (p : Packet) (way : Nat) (fetched : Block) :
    LooseController.place ⟨c, none⟩ (Miss.loose ⟨p, .fetching⟩) way fetched =
      (c.settle (c.place p way fetched)).loose := by
  have request : (Miss.loose ⟨p, .fetching⟩).request = p := rfl
  simp only [LooseController.place, place, request, bind, Except.bind]
  cases c.grid.line (c.grid.setOf p.block) way with
  | error f =>
    show (_, _) = (c.loose, _, _)
    rw [loose_of_nothing nothing]
  | ok l =>
    dsimp only [orFault]
    split
    · rw [nothing]
      rfl
    · exact loose_settle (fill_blind p way fetched) nothing

theorem loose_choose {r : Packet} (inSet : c.victim r < c.grid.ways) :
    LooseController.choose ⟨c.abandon, none⟩ (Miss.loose ⟨r, .fetching⟩) =
      (⟨c.consulted, none⟩, .ok (c.victim r)) :=
  Prod.ext rfl (if_pos inSet)

theorem loose_choose_outside {r : Packet} (outside : ¬ c.victim r < c.grid.ways) :
    LooseController.choose ⟨c.abandon, none⟩ (Miss.loose ⟨r, .fetching⟩) =
      (⟨c.consulted, none⟩, .error (.refused (.victimOutOfRange (c.victim r) c.grid.ways))) :=
  Prod.ext rfl (if_neg outside)

theorem loose_answer_fetching {r p : Packet} (outstanding : c.miss = some ⟨r, .fetching⟩) :
    c.loose.answer p = (c.answer p).loose := by
  have request : (Miss.loose ⟨r, .fetching⟩).request = r := rfl
  have phase : (Miss.loose ⟨r, .fetching⟩).phase = .fetching := rfl
  simp only [LooseController.answer, loose_of_miss outstanding, request, phase]
  by_cases expected : p.isRead = true ∧ p.block = r.block
  · obtain ⟨read, block⟩ := expected
    simp only [read, block, decide_true, Bool.and_self, if_true]
    by_cases inSet : c.victim r < c.grid.ways
    · rw [loose_choose inSet, answer_fetch outstanding read block inSet]
      exact loose_place rfl r (c.victim r) p.blockData
    · rw [loose_choose_outside inSet, answer_outside outstanding read block inSet]
      rfl
  · rw [answer_mismatched outstanding expected]
    exact if_neg (by simpa using expected)

theorem loose_answer_writingBack {r p : Packet} {way : Nat} {victim : BlockNumber} {fetched : Block}
    (outstanding : c.miss = some ⟨r, .writingBack way victim fetched⟩) :
    c.loose.answer p = (c.answer p).loose := by
  simp only [LooseController.answer, answer, outstanding, loose_of_miss outstanding, Miss.loose, Miss.way?,
    Stage.phase]
  by_cases expected : (p.isWrite && decide (p.block = victim)) = true
  · simp only [expected, Option.filter_some, if_true]
    exact loose_settle (acknowledge_blind r way fetched) rfl
  · simp only [expected, Option.filter_some]
    rfl

theorem loose_answer (c : Controller) (p : Packet) : c.loose.answer p = (c.answer p).loose := by
  cases outstanding : c.miss with
  | none =>
    rw [answer_stray p outstanding, Reaction.loose, loose_of_nothing outstanding]
    rfl
  | some m =>
    obtain ⟨r, stage⟩ := m
    cases stage with
    | fetching => exact loose_answer_fetching outstanding
    | writingBack way victim fetched => exact loose_answer_writingBack outstanding

theorem loose_unblock (c : Controller) : c.loose.unblock = c.unblock.loose := by
  have pending : c.loose.pending.isSome = c.miss.isSome := Option.isSome_map
  simp only [LooseController.unblock, unblock, pending]
  split <;> rfl

theorem loose_deliver (c : Controller) : c.loose.deliver = c.deliver.loose := by
  have base : c.loose.base.response = c.response := rfl
  simp only [LooseController.deliver, deliver, base]
  cases c.response with
  | none => rfl
  | some p =>
    have square := loose_unblock { c with response := none }
    show (match LooseController.unblock (loose { c with response := none }) with
      | (next, action, result) => (next, action, result.map fun () => p)) = _
    rw [square]
    dsimp only
    cases unblock { c with response := none } <;> rfl

theorem loose_after (c : Controller) (call : Call) :
    c.loose.after call = (c.exchange call).after.loose := by
  have step {α : Type} (r : Reaction α) : r.loose.1 = (r.exchange call c).after.loose := by
    cases r <;> rfl
  cases call with
  | request p => exact (congrArg Prod.fst (c.loose_request p)).trans (step _)
  | answer p => exact (congrArg Prod.fst (c.loose_answer p)).trans (step _)
  | deliver => exact (congrArg Prod.fst c.loose_deliver).trans (step _)
  | unblock => exact (congrArg Prod.fst c.loose_unblock).trans (step _)

theorem loose_afterCalls (c : Controller) (calls : List Call) :
    c.loose.afterCalls calls = (c.afterCalls calls).loose := by
  induction calls generalizing c with
  | nil => rfl
  | cons call rest ih =>
    show (c.loose.after call).afterCalls rest = _
    rw [loose_after]
    exact ih _

end Controller

/-! ## The shape of a transaction -/

/-- The way is chosen exactly while the line in it is being written back. -/
def Transaction.InShape (t : Transaction) : Prop := t.way? = none ↔ t.phase = .fetching

theorem Miss.inShape_loose (m : Miss) : m.loose.InShape := by
  obtain ⟨p, stage⟩ := m
  cases stage with
  | fetching => exact iff_of_true rfl rfl
  | writingBack way victim fetched => exact iff_of_false nofun nofun

theorem Transaction.InShape.exists_miss {t : Transaction} (shape : t.InShape) :
    ∃ m : Miss, m.loose = t := by
  obtain ⟨p, way?, phase⟩ := t
  cases phase with
  | fetching =>
    obtain rfl : way? = none := shape.mpr rfl
    exact ⟨⟨p, .fetching⟩, rfl⟩
  | writingBack victim fetched =>
    cases way? with
    | none => cases shape.mp rfl
    | some way => exact ⟨⟨p, .writingBack way victim fetched⟩, rfl⟩

namespace LooseController

structure InShape (l : LooseController) : Prop where
  base : l.base.miss = none
  pending : ∀ {t}, l.pending = some t → t.InShape

theorem inShape_loose (c : Controller) : c.loose.InShape where
  base := rfl
  pending := by
    intro t outstanding
    obtain ⟨m, -, rfl⟩ := Option.map_eq_some_iff.mp outstanding
    exact m.inShape_loose

/-- The loose controllers in shape are the controllers whose miss is held in shape by its type. -/
theorem inShape_iff {l : LooseController} : l.InShape ↔ ∃ c : Controller, c.loose = l := by
  constructor
  · rintro ⟨base, pending⟩
    obtain ⟨c, t⟩ := l
    cases t with
    | none => exact ⟨c, Controller.loose_of_nothing base⟩
    | some t =>
      obtain ⟨m, rfl⟩ := (pending rfl).exists_miss
      refine ⟨c.withMiss (some m), ?_⟩
      cases c
      subst base
      rfl
  · rintro ⟨c, rfl⟩
    exact inShape_loose c

/-- No call takes a transaction out of its shape. -/
theorem InShape.after {l : LooseController} (shape : l.InShape) (call : Call) : (l.after call).InShape := by
  obtain ⟨c, rfl⟩ := inShape_iff.mp shape
  rw [c.loose_after]
  exact inShape_loose _

theorem InShape.afterCalls {l : LooseController} (shape : l.InShape) (calls : List Call) :
    (l.afterCalls calls).InShape := by
  induction calls generalizing l with
  | nil => exact shape
  | cons call rest ih => exact ih (shape.after call)

end LooseController

namespace Controller

/-- From a new controller on, with the transaction as plain fields each call leads to the same
controller, the same action and the same answer. So no answer ever finds a way chosen before the block
is there, nor a writeback without a way. -/
theorem transaction_keeps_shape {config : CacheConfig} {policy : Policy} {c d : Controller}
    (assembled : ofConfig config policy = .ok c) (calls : List Call) (reached : c.afterCalls calls = d) :
    LooseController.afterCalls ⟨c, none⟩ calls = d.loose ∧
      (LooseController.afterCalls ⟨c, none⟩ calls).InShape ∧
      (∀ p, d.loose.request p = (d.request p).loose) ∧ (∀ p, d.loose.answer p = (d.answer p).loose) ∧
      d.loose.deliver = d.deliver.loose ∧ d.loose.unblock = d.unblock.loose := by
  obtain ⟨_, _, _, new⟩ := Simulation.controller_of_config assembled
  have nothing : c.miss = none := by rw [new]
  have start : LooseController.InShape ⟨c, none⟩ := ⟨nothing, nofun⟩
  refine ⟨?_, start.afterCalls calls, d.loose_request, d.loose_answer, d.loose_deliver, d.loose_unblock⟩
  rw [← reached, ← loose_afterCalls, loose_of_nothing nothing]

/-- The read of an unruly caller has its way chosen, and waits for the line there to be written back. -/
example : (LooseController.afterCalls ⟨erratic, none⟩ unruly).pending =
    some ⟨unruly.read, some 0, .writingBack ⟨0⟩ .zero⟩ := by rfl

end Controller

end WritebackCache
