import WritebackCache.Proofs.AgendaOrder
import WritebackCache.Proofs.MemoryPort
import WritebackCache.Proofs.Service
import WritebackCache.Simulation

/-! What one step of the simulation can do. A sound simulation is in one of five phases, and in each of
them it is settled which events other than offers are still to come and what they carry. From such a
state there are ten moves and no others; the only steps that are no moves are those in which a counter
or the timing of memory faults. Everything about runs is proved move by move. -/

namespace WritebackCache

/-- Events at which the requester offers a packet. -/
def Event.isOffer : Event → Bool
  | .issue | .retry => true
  | .deliver | .unblock | .memoryResponse _ => false

/-- A policy that names a way of the set whenever it is asked about one. -/
def Policy.InRange (policy : Policy) (ways : Nat) : Prop :=
  ∀ asked lines, lines.length = ways → policy asked lines < ways

theorem Controller.victim_lt {c : Controller} (h : c.policy.InRange c.grid.ways) (p : Packet) :
    c.victim p < c.grid.ways := h _ _ (c.grid.length_row _)

namespace Agenda

/-- The events still to come that are no offers. -/
def due (a : Agenda) : List Event := (a.order.map Prod.snd).filter fun e => !e.isOffer

/-- An offer is still to come. -/
def Offers (a : Agenda) : Prop := ∃ x ∈ a.order, x.2.isOffer = true

/-- The next offer is entered if there is anything left to offer. -/
def offerNext (a : Agenda) (gap : Tick) (r : Requester) : Agenda :=
  if 0 < r.remaining then a.scheduleIn gap .issue else a

/-- The next offer is entered at once only if no response has to be waited for. -/
def followUp (a : Agenda) (gap : Tick) (r : Requester) (p : Packet) : Agenda :=
  if p.needsResponse then a else a.offerNext gap r

/-- The retry that is owed is entered. -/
def retried (a : Agenda) (owed : Bool) : Agenda := if owed then a.scheduleIn 0 .retry else a

theorem due_of_pop {a rest : Agenda} {tick : Tick} {event : Event}
    (h : a.pop = some (tick, event, rest)) :
    a.due = if event.isOffer then rest.due else event :: rest.due := by
  rw [due, (order_of_pop h).1, List.map_cons, List.filter_cons]
  cases event.isOffer <;> rfl

theorem due_schedule_perm (a : Agenda) (tick : Tick) (event : Event) :
    (a.schedule tick event).due.Perm
      (if event.isOffer then a.due else event :: a.due) := by
  have hp := ((enter_perm (fun e : Tick × Event => e.1.toNat) (Word.later tick a.now, event)
    a.order).map Prod.snd).filter fun e => !e.isOffer
  rw [due, order_schedule]
  refine hp.trans (.of_eq ?_)
  rw [List.map_cons, List.filter_cons]
  cases event.isOffer <;> rfl

theorem due_schedule {a : Agenda} (tick : Tick) {event : Event} (he : event.isOffer = false)
    (hn : a.due = []) : (a.schedule tick event).due = [event] := by
  have hp := due_schedule_perm a tick event
  rw [he, hn] at hp
  exact List.perm_singleton.mp hp

theorem due_schedule_offer (a : Agenda) (tick : Tick) {event : Event}
    (he : event.isOffer = true) : (a.schedule tick event).due = a.due := by
  have left := filter_schedule a (fun e => !e.isOffer) tick event
  rw [if_neg (by simp [he])] at left
  rw [due, due, List.filter_map, List.filter_map]
  exact congrArg (List.map Prod.snd) left

@[simp] theorem due_offerNext (a : Agenda) (gap : Tick) (r : Requester) :
    (a.offerNext gap r).due = a.due := by
  unfold offerNext
  split
  · exact due_schedule_offer a _ rfl
  · rfl

@[simp] theorem due_followUp (a : Agenda) (gap : Tick) (r : Requester) (p : Packet) :
    (a.followUp gap r p).due = a.due := by
  unfold followUp
  split
  · rfl
  · exact due_offerNext a gap r

@[simp] theorem due_retried (a : Agenda) (owed : Bool) : (a.retried owed).due = a.due := by
  unfold retried
  split
  · exact due_schedule_offer a _ rfl
  · rfl

theorem mem_order_schedule {a : Agenda} {tick : Tick} {event : Event} {x : Tick × Event} :
    x ∈ (a.schedule tick event).order ↔ x = (Word.later tick a.now, event) ∨ x ∈ a.order := by
  rw [order_schedule, (enter_perm _ _ _).mem_iff, List.mem_cons]

theorem Offers.schedule {a : Agenda} (h : a.Offers) (tick : Tick) (event : Event) :
    (a.schedule tick event).Offers := by
  obtain ⟨x, hx, ho⟩ := h
  exact ⟨x, mem_order_schedule.mpr (.inr hx), ho⟩

theorem offers_schedule (a : Agenda) (tick : Tick) {event : Event} (h : event.isOffer = true) :
    (a.schedule tick event).Offers := ⟨_, mem_order_schedule.mpr (.inl rfl), h⟩

theorem offers_offerNext (a : Agenda) (gap : Tick) {r : Requester} (h : 0 < r.remaining) :
    (a.offerNext gap r).Offers := by
  unfold offerNext
  rw [if_pos h]
  exact offers_schedule a _ rfl

theorem Offers.of_pop {a rest : Agenda} {tick : Tick} {event : Event}
    (h : a.pop = some (tick, event, rest)) (he : event.isOffer = false) (ho : a.Offers) :
    rest.Offers := by
  obtain ⟨x, hx, hxo⟩ := ho
  rw [(order_of_pop h).1] at hx
  rcases List.mem_cons.mp hx with rfl | hx
  · rw [he] at hxo; cases hxo
  · exact ⟨x, hx, hxo⟩

end Agenda

/-! ## Phases -/

/-- What the state of the controller says about the events to come, and about the line and the block
that the outstanding miss is about. -/
inductive Phase (c : Controller) (m : SparseMemory) : List Event → Prop
  | idle (status : c.status = .idle) (miss : c.miss = none) (response : c.response = none)
      (retry : c.retryOwed = false) : Phase c m []
  | delivering {q : Packet} (status : c.status = .hitPending ∨ c.status = .unblockPending)
      (miss : c.miss = none) (response : c.response = some q) : Phase c m [.deliver]
  | releasing (status : c.status = .hitPending ∨ c.status = .unblockPending)
      (miss : c.miss = none) (response : c.response = none) : Phase c m [.unblock]
  | fetching {p : Packet} (status : c.status = .awaitFetch) (miss : c.miss = some ⟨p, .fetching⟩)
      (response : c.response = none) (absent : c.grid.lookup p.block = none) :
      Phase c m [.memoryResponse ((Packet.blockRead p.block).filledFrom (m.readBlock p.block)).asResponse]
  | writingBack {p : Packet} {way : Nat} {victim : BlockNumber} (status : c.status = .awaitWriteback)
      (miss : c.miss = some ⟨p, .writingBack way victim (m.readBlock p.block)⟩)
      (response : c.response = none) (absent : c.grid.lookup p.block = none)
      (inSet : way < c.grid.ways)
      (held : (c.grid.cell (c.grid.setOf p.block) way).holds victim = true)
      (dirty : (c.grid.cell (c.grid.setOf p.block) way).dirty = true)
      (written : m.readBlock victim = (c.grid.cell (c.grid.setOf p.block) way).data) :
      Phase c m [.memoryResponse (Packet.blockWrite victim
        (c.grid.cell (c.grid.setOf p.block) way).data).asResponse]

namespace Simulation

variable {σ : Type}

structure Sound (s : Simulation σ) : Prop where
  grid : s.controller.grid.Sound
  policy : s.controller.policy.InRange s.controller.grid.ways
  phase : Phase s.controller s.memory.contents s.agenda.due
  requests : ∀ p ∈ s.requester.held.toList ++ s.requester.queue, p.IsRequest
  missing : ∀ x, s.controller.miss = some x → x.request.IsRequest ∧ x.request.kind ≠ .other
  waiting : s.requester.waiting = true ↔ s.controller.response.isSome = true ∨
    ∃ x, s.controller.miss = some x ∧ x.request.needsResponse = true
  wake : s.requester.waiting = false → 0 < s.requester.remaining →
    s.agenda.Offers ∨ s.controller.retryOwed = true

/-! ## Moves -/

/-- A request that the controller took. -/
structure Acceptance where
  tick : Tick
  packet : Packet
  lookup : Lookup
  deriving DecidableEq

/-- The request that the controller takes in the next step, if it takes one. -/
def acceptance? (s : Simulation σ) : Option Acceptance :=
  match s.agenda.pop with
  | none => none
  | some (tick, event, _) =>
    if event.isOffer then
      match s.requester.next with
      | none => none
      | some (p, _) =>
        match s.controller.request p with
        | .done _ _ (.accepted lookup) => some ⟨tick, p, lookup⟩
        | .done _ _ (.busy _) | .failed _ _ => none
    else none

theorem acceptance?_of_offer {s : Simulation σ} {tick : Tick} {event : Event} {rest : Agenda}
    (pop : s.agenda.pop = some (tick, event, rest)) (offer : event.isOffer = true) :
    s.acceptance? = match s.requester.next with
      | none => none
      | some (p, _) =>
        match s.controller.request p with
        | .done _ _ (.accepted lookup) => some ⟨tick, p, lookup⟩
        | .done _ _ (.busy _) | .failed _ _ => none := by
  unfold acceptance?
  rw [pop]
  exact if_pos offer

theorem acceptance?_of_due {s : Simulation σ} {tick : Tick} {event : Event} {rest : Agenda}
    (pop : s.agenda.pop = some (tick, event, rest)) (offer : event.isOffer = false) :
    s.acceptance? = none := by
  unfold acceptance?
  rw [pop]
  exact if_neg (by simp [offer])

theorem scheduleIssue_eq (s : Simulation σ) :
    s.scheduleIssue = { s with agenda := s.agenda.offerNext s.issueGap s.requester } := by
  unfold scheduleIssue Agenda.offerNext
  split <;> rfl

/-- The accepted request is booked, and the next offer follows up. -/
theorem book_accepted {s t : Simulation σ} {p : Packet} {lookup : Lookup}
    {r : Except (Failure ProtocolError) Unit}
    (h : s.book p.needsResponse (.accepted lookup) = (t, r)) :
    (∃ stats, s.stats.record lookup = (stats, .ok ()) ∧ r = .ok () ∧
      t = { s with
        agenda := s.agenda.followUp s.issueGap (s.requester.accepted p.needsResponse) p
        requester := s.requester.accepted p.needsResponse
        stats }) ∨ ∃ f, r = .error (.fault f) ∧ (s.stats.record lookup).2 = .error f := by
  unfold book at h
  dsimp only at h
  split at h
  · next f hf => cases h; exact .inr ⟨f, rfl, by rw [hf]⟩
  · next stats hst =>
    cases h
    refine .inl ⟨stats, hst, rfl, ?_⟩
    unfold Agenda.followUp
    split
    · rfl
    · rw [scheduleIssue_eq]

variable [LatencyModel σ]

inductive Move (s : Simulation σ) : Option Acceptance → Simulation σ → Prop
  /-- An offer comes up, and there is nothing to offer. -/
  | wake {tick event rest} (pop : s.agenda.pop = some (tick, event, rest))
      (offer : event.isOffer = true) (next : s.requester.next = none) :
      Move s none { s with agenda := rest, stats := { s.stats with ticks := tick } }
  | refuse {tick event rest p r stats} (pop : s.agenda.pop = some (tick, event, rest))
      (offer : event.isOffer = true) (next : s.requester.next = some (p, r))
      (busy : s.controller.status ≠ .idle) (counted : s.stats.recordRetry = .ok stats) :
      Move s none { s with
        agenda := rest
        controller := { s.controller with retryOwed := true }
        requester := r.rejected p
        stats := { stats with ticks := tick } }
  | bypass {tick event rest p r stats} (pop : s.agenda.pop = some (tick, event, rest))
      (offer : event.isOffer = true) (next : s.requester.next = some (p, r))
      (idle : s.controller.status = .idle) (kind : p.kind = .other)
      (counted : s.stats.record .bypass = (stats, .ok ())) :
      Move s (some ⟨tick, p, .bypass⟩) { s with
        agenda := rest.followUp s.issueGap (r.accepted p.needsResponse) p
        requester := r.accepted p.needsResponse
        stats := { stats with ticks := tick } }
  | hit {tick event rest p r stats way} (pop : s.agenda.pop = some (tick, event, rest))
      (offer : event.isOffer = true) (next : s.requester.next = some (p, r))
      (idle : s.controller.status = .idle) (kind : p.kind ≠ .other)
      (found : s.controller.grid.lookup p.block = some way)
      (counted : s.stats.record .hit = (stats, .ok ())) :
      Move s (some ⟨tick, p, .hit⟩) { s with
        agenda := (rest.scheduleIn s.controller.latency p.ended).followUp s.issueGap
          (r.accepted p.needsResponse) p
        controller := s.controller.finish p way
          ((s.controller.grid.cell (s.controller.grid.setOf p.block) way).served p) .hitPending
        requester := r.accepted p.needsResponse
        stats := { stats with ticks := tick } }
  | miss {tick event rest p r stats memory done response}
      (pop : s.agenda.pop = some (tick, event, rest))
      (offer : event.isOffer = true) (next : s.requester.next = some (p, r))
      (idle : s.controller.status = .idle) (kind : p.kind ≠ .other)
      (absent : s.controller.grid.lookup p.block = none)
      (fetched : s.memory.serve tick (.blockRead p.block) = (memory, .ok (done, response)))
      (counted : s.stats.record .miss = (stats, .ok ())) :
      Move s (some ⟨tick, p, .miss⟩) { s with
        agenda := (rest.schedule done (.memoryResponse response)).followUp s.issueGap
          (r.accepted p.needsResponse) p
        controller := { s.controller with miss := some ⟨p, .fetching⟩, status := .awaitFetch }
        memory
        requester := r.accepted p.needsResponse
        stats := { stats with ticks := tick } }
  | deliver {tick rest q} (pop : s.agenda.pop = some (tick, .deliver, rest))
      (response : s.controller.response = some q) :
      Move s none { s with
        agenda := (rest.retried s.controller.retryOwed).offerNext s.issueGap
          (s.requester.receive q tick)
        controller := { s.controller with response := none, status := .idle, retryOwed := false }
        requester := s.requester.receive q tick
        stats := { s.stats with ticks := tick } }
  | release {tick rest} (pop : s.agenda.pop = some (tick, .unblock, rest)) :
      Move s none { s with
        agenda := rest.retried s.controller.retryOwed
        controller := { s.controller with status := .idle, retryOwed := false }
        stats := { s.stats with ticks := tick } }
  | fill {tick rest q p} (pop : s.agenda.pop = some (tick, .memoryResponse q, rest))
      (miss : s.controller.miss = some ⟨p, .fetching⟩)
      (clean : ((s.controller.grid.cell (s.controller.grid.setOf p.block)
        (s.controller.victim p)).valid && (s.controller.grid.cell
        (s.controller.grid.setOf p.block) (s.controller.victim p)).dirty) = false) :
      Move s none { s with
        agenda := rest.scheduleIn s.controller.latency p.ended
        controller := s.controller.consulted.finish p (s.controller.victim p)
          (Line.filled p q.blockData) .unblockPending
        stats := { s.stats with ticks := tick } }
  | evict {tick rest q p l memory done response}
      (pop : s.agenda.pop = some (tick, .memoryResponse q, rest))
      (miss : s.controller.miss = some ⟨p, .fetching⟩)
      (line : s.controller.grid.cell (s.controller.grid.setOf p.block) (s.controller.victim p) = l)
      (dirty : (l.valid && l.dirty) = true)
      (sent : s.memory.serve tick (.blockWrite l.tag l.data) = (memory, .ok (done, response))) :
      Move s none { s with
        agenda := rest.schedule done (.memoryResponse response)
        controller := { s.controller.consulted with
          miss := some ⟨p, .writingBack (s.controller.victim p) l.tag q.blockData⟩
          status := .awaitWriteback }
        memory
        stats := { s.stats with ticks := tick } }
  | acknowledge {tick rest q p way victim fetched}
      (pop : s.agenda.pop = some (tick, .memoryResponse q, rest))
      (miss : s.controller.miss = some ⟨p, .writingBack way victim fetched⟩) :
      Move s none { s with
        agenda := rest.scheduleIn s.controller.latency p.ended
        controller := s.controller.abandon.finish p way (Line.filled p fetched) .unblockPending
        stats := { s.stats with ticks := tick } }

/-- The block that the next step asks memory for: that of a miss, or that of the dirty line which is to
be given up for it. -/
inductive Demands (s : Simulation σ) : BlockNumber → Prop
  | fetch {tick event rest p r} (pop : s.agenda.pop = some (tick, event, rest))
      (offer : event.isOffer = true) (next : s.requester.next = some (p, r))
      (idle : s.controller.status = .idle) (kind : p.kind ≠ .other)
      (absent : s.controller.grid.lookup p.block = none) : Demands s p.block
  | writeback {tick rest q p l} (pop : s.agenda.pop = some (tick, .memoryResponse q, rest))
      (miss : s.controller.miss = some ⟨p, .fetching⟩)
      (line : s.controller.grid.cell (s.controller.grid.setOf p.block) (s.controller.victim p) = l)
      (dirty : (l.valid && l.dirty) = true) : Demands s l.tag

/-- A counter that cannot go up, or a timing that cannot be told: what keeps a step from returning. -/
inductive Exhausted (s : Simulation σ) (f : Fault) : Prop
  | retries (full : s.stats.recordRetry = .error f)
  | requests (lookup : Lookup) (full : (s.stats.record lookup).2 = .error f)
  | timing {b : BlockNumber} (demand : s.Demands b)
      (untold : (LatencyModel.access s.memory.timing b.base).2 = .error f)

/-- The outcome of a step that comes to an event: a move, or a fault. -/
def Outcome (s t : Simulation σ) (r : Except (Failure ProtocolError) Bool) : Prop :=
  (r = .ok true ∧ s.Move s.acceptance? t) ∨ ∃ f, r = .error (.fault f) ∧ s.Exhausted f

theorem step_eq {s : Simulation σ} {tick : Tick} {event : Event} {rest : Agenda}
    (pop : s.agenda.pop = some (tick, event, rest)) :
    s.step = match dispatch { s with agenda := rest } tick event with
      | (after, .error why) => (after, .error why)
      | (after, .ok ()) => ({ after with stats := { after.stats with ticks := tick } }, .ok true) := by
  unfold step
  split
  · next h => rw [pop] at h; cases h
  · next h => rw [pop] at h; cases h; rfl

theorem perform_send {s : Simulation σ} {p response : Packet} {memory : Memory σ} {done : Tick}
    (h : s.memory.serve s.agenda.now p = (memory, .ok (done, response))) :
    s.perform (some (.send p)) =
      ({ s with memory, agenda := s.agenda.schedule done (.memoryResponse response) }, .ok ()) := by
  simp only [perform, h]

/-- An accepted request is booked after what the controller wanted was done. -/
theorem outcome_of_accepted {s after t : Simulation σ} {tick : Tick} {event : Event} {rest : Agenda}
    {p : Packet} {q : Requester} {next : Controller} {action : Option Action} {lookup : Lookup}
    {r : Except (Failure ProtocolError) Bool} (pop : s.agenda.pop = some (tick, event, rest))
    (offer : event.isOffer = true) (hn : s.requester.next = some (p, q))
    (hc : s.controller.request p = .done next action (.accepted lookup))
    (hp : perform { s with agenda := rest, requester := q, controller := next } action =
      (after, .ok ())) (hstats : after.stats = s.stats) (h : s.step = (t, r))
    (hmove : ∀ stats, s.stats.record lookup = (stats, .ok ()) → s.Move (some ⟨tick, p, lookup⟩)
      { after with
        agenda := after.agenda.followUp after.issueGap (after.requester.accepted p.needsResponse) p
        requester := after.requester.accepted p.needsResponse
        stats := { stats with ticks := tick } }) : s.Outcome t r := by
  have hdispatch : dispatch { s with agenda := rest } tick event =
      after.book p.needsResponse (.accepted lookup) := by
    have hi : issue { s with agenda := rest } = after.book p.needsResponse (.accepted lookup) := by
      simp only [issue, hn, hc, react, hp]
    cases event with
    | issue | retry => exact hi
    | deliver | unblock | memoryResponse _ => cases offer
  rw [step_eq pop, hdispatch] at h
  cases hb : after.book p.needsResponse (.accepted lookup) with
  | mk booked result =>
  rw [hb] at h
  rcases book_accepted hb with ⟨stats, hst, rfl, rfl⟩ | ⟨f, rfl, hf⟩
  · cases h
    refine .inl ⟨rfl, ?_⟩
    rw [acceptance?_of_offer pop offer, hn]
    simp only [hc]
    exact hmove stats (hstats ▸ hst)
  · cases h
    exact .inr ⟨f, rfl, .requests lookup (hstats ▸ hf)⟩

theorem outcome_of_offer {s t : Simulation σ} {tick : Tick} {event : Event} {rest : Agenda}
    {r : Except (Failure ProtocolError) Bool} (pop : s.agenda.pop = some (tick, event, rest))
    (offer : event.isOffer = true) (h : s.step = (t, r)) : s.Outcome t r := by
  have hdispatch : dispatch { s with agenda := rest } tick event = issue { s with agenda := rest } := by
    cases event with
    | issue | retry => rfl
    | deliver | unblock | memoryResponse _ => cases offer
  cases hn : s.requester.next with
  | none =>
    rw [step_eq pop, hdispatch] at h
    simp only [issue, hn] at h
    cases h
    refine .inl ⟨rfl, ?_⟩
    rw [acceptance?_of_offer pop offer, hn]
    exact .wake pop offer hn
  | some x =>
    obtain ⟨p, q⟩ := x
    by_cases hidle : s.controller.status = .idle
    · by_cases hk : p.kind = .other
      · exact outcome_of_accepted pop offer hn (Controller.request_bypass hidle hk) rfl rfl h
          fun stats hst => .bypass pop offer hn hidle hk hst
      · cases hl : s.controller.grid.lookup p.block with
        | some way =>
          exact outcome_of_accepted pop offer hn (Controller.request_hit hidle hk hl) rfl rfl h
            fun stats hst => .hit pop offer hn hidle hk hl hst
        | none =>
          have hc := Controller.request_miss hidle hk hl
          cases hserve : s.memory.serve tick (.blockRead p.block) with
          | mk memory result =>
          have hnow : s.memory.serve rest.now (.blockRead p.block) = (memory, result) := by
            rw [(Agenda.order_of_pop pop).2.1, hserve]
          cases result with
          | ok x =>
            obtain ⟨done, response⟩ := x
            let sent : Simulation σ := { s with
              agenda := rest, requester := q
              controller := { s.controller with miss := some ⟨p, .fetching⟩, status := .awaitFetch } }
            exact outcome_of_accepted pop offer hn hc (perform_send (s := sent) hnow) rfl h
              fun stats hst => .miss pop offer hn hidle hk hl hserve hst
          | error f =>
            rw [step_eq pop, hdispatch] at h
            simp only [issue, hn, hc, react, perform, hnow] at h
            cases h
            exact .inr ⟨f, rfl, .timing (.fetch pop offer hn hidle hk hl) (Memory.serve_error hserve)⟩
    · have hc := Controller.request_busy p hidle
      rw [step_eq pop, hdispatch] at h
      simp only [issue, hn, hc, react, perform, book] at h
      cases hr : s.stats.recordRetry with
      | error f =>
        rw [hr] at h
        cases h
        exact .inr ⟨f, rfl, .retries hr⟩
      | ok stats =>
        rw [hr] at h
        cases h
        refine .inl ⟨rfl, ?_⟩
        rw [acceptance?_of_offer pop offer, hn]
        simp only [hc]
        exact .refuse pop offer hn hidle hr

theorem perform_retry (s : Simulation σ) (owed : Bool) :
    s.perform (if owed then some (.schedule 0 .retry) else none) =
      ({ s with agenda := s.agenda.retried owed }, .ok ()) := by
  cases owed <;> rfl

/-- The answer of memory comes up: the call of the controller succeeds, and its action is done unless
memory faults. -/
theorem outcome_of_answer {s t : Simulation σ} {tick : Tick} {q : Packet} {rest : Agenda}
    {next : Controller} {action : Action} {r : Except (Failure ProtocolError) Bool}
    (pop : s.agenda.pop = some (tick, .memoryResponse q, rest))
    (hc : s.controller.answer q = .done next (some action) ()) (h : s.step = (t, r))
    (hsched : ∀ delay event, action = .schedule delay event → s.Move none { s with
      agenda := rest.scheduleIn delay event
      controller := next
      stats := { s.stats with ticks := tick } })
    (hsend : ∀ p memory done response, action = .send p →
      s.memory.serve tick p = (memory, .ok (done, response)) → s.Move none { s with
        agenda := rest.schedule done (.memoryResponse response)
        controller := next
        memory
        stats := { s.stats with ticks := tick } })
    (hdemand : ∀ p, action = .send p → ∃ b, s.Demands b ∧ p.addr = b.base) : s.Outcome t r := by
  rw [step_eq pop] at h
  cases action with
  | schedule delay event =>
    simp only [dispatch, hc, react, perform] at h
    cases h
    refine .inl ⟨rfl, ?_⟩
    rw [acceptance?_of_due pop rfl]
    exact hsched delay event rfl
  | send p =>
    cases hserve : s.memory.serve tick p with
    | mk memory result =>
    have hnow : s.memory.serve rest.now p = (memory, result) := by
      rw [(Agenda.order_of_pop pop).2.1, hserve]
    simp only [dispatch, hc, react, perform, hnow] at h
    cases result with
    | ok x =>
      obtain ⟨done, response⟩ := x
      cases h
      refine .inl ⟨rfl, ?_⟩
      rw [acceptance?_of_due pop rfl]
      exact hsend p memory done response rfl hserve
    | error f =>
      cases h
      obtain ⟨b, demand, haddr⟩ := hdemand p rfl
      exact .inr ⟨f, rfl, .timing demand (haddr ▸ Memory.serve_error hserve)⟩

/-- The block of a miss is there. -/
theorem outcome_of_fetched {s t : Simulation σ} {tick : Tick} {p : Packet} {data : Block}
    {rest : Agenda} {r : Except (Failure ProtocolError) Bool} (hs : s.Sound)
    (pop : s.agenda.pop = some (tick,
      .memoryResponse ((Packet.blockRead p.block).filledFrom data).asResponse, rest))
    (miss : s.controller.miss = some ⟨p, .fetching⟩) (h : s.step = (t, r)) : s.Outcome t r := by
  have hb : ((Packet.blockRead p.block).filledFrom data).asResponse.block = p.block :=
    Packet.block_blockRead p.addr.inSpace_block
  have hw := Controller.victim_lt hs.policy p
  by_cases hd : ((s.controller.grid.cell (s.controller.grid.setOf p.block)
      (s.controller.victim p)).valid && (s.controller.grid.cell
      (s.controller.grid.setOf p.block) (s.controller.victim p)).dirty) = true
  · refine outcome_of_answer pop (Controller.answer_evict miss rfl hb hw rfl hd) h ?_ ?_ ?_
    · intro _ _ he; cases he
    · intro _ _ _ _ he hserve; cases he; exact .evict pop miss rfl hd hserve
    · intro _ he; cases he; exact ⟨_, .writeback pop miss rfl hd, rfl⟩
  · have hclean := Bool.eq_false_iff.mpr hd
    refine outcome_of_answer pop (Controller.answer_fill miss rfl hb hw hclean) h ?_ ?_ ?_
    · intro _ _ he; cases he; exact .fill pop miss hclean
    · intro _ _ _ _ he; cases he
    · intro _ he; cases he

theorem outcome_of_due {s t : Simulation σ} {tick : Tick} {event : Event} {rest : Agenda}
    {r : Except (Failure ProtocolError) Bool} (hs : s.Sound)
    (pop : s.agenda.pop = some (tick, event, rest)) (offer : event.isOffer = false)
    (h : s.step = (t, r)) : s.Outcome t r := by
  have hphase := hs.phase
  have hdue := Agenda.due_of_pop pop
  rw [offer, if_neg (by simp)] at hdue
  rw [hdue] at hphase
  generalize rest.due = others at hphase
  cases hphase with
  | delivering _ miss response =>
    rw [step_eq pop] at h
    simp only [dispatch, deliver, Controller.deliver_eq response miss, react, perform_retry,
      scheduleIssue_eq] at h
    cases h
    refine .inl ⟨rfl, ?_⟩
    rw [acceptance?_of_due pop rfl]
    exact .deliver pop response
  | releasing _ miss _ =>
    rw [step_eq pop] at h
    simp only [dispatch, Controller.unblock_eq miss, react, perform_retry] at h
    cases h
    refine .inl ⟨rfl, ?_⟩
    rw [acceptance?_of_due pop rfl]
    exact .release pop
  | fetching _ miss _ _ => exact outcome_of_fetched hs pop miss h
  | @writingBack p way victim _ miss _ _ inSet held _ _ =>
    have hc := Grid.has_setOf inSet p.block
    obtain ⟨hv, ht⟩ := Grid.holds_iff.mp held
    have hb : (Packet.blockWrite victim (s.controller.grid.cell
        (s.controller.grid.setOf p.block) way).data).asResponse.block = victim :=
      Packet.block_blockWrite (ht ▸ hs.grid.inSpace hc hv)
        (s.controller.grid.cell (s.controller.grid.setOf p.block) way).data
    refine outcome_of_answer pop (Controller.answer_acknowledge miss rfl hb inSet) h ?_ ?_ ?_
    · intro _ _ he; cases he; exact .acknowledge pop miss
    · intro _ _ _ _ he; cases he
    · intro _ he; cases he

/-- Every step of a sound simulation finds nothing to do, is a move, or faults. -/
theorem outcome_of_step {s t : Simulation σ} {r : Except (Failure ProtocolError) Bool} (hs : s.Sound)
    (h : s.step = (t, r)) :
    (r = .ok false ∧ t = s ∧ s.agenda.order = []) ∨ s.Outcome t r := by
  cases hp : s.agenda.pop with
  | none =>
    unfold step at h
    rw [hp] at h
    cases h
    exact .inl ⟨rfl, rfl, Agenda.pop_eq_none_iff_order.mp hp⟩
  | some x =>
    obtain ⟨tick, event, rest⟩ := x
    cases ho : event.isOffer with
    | true => exact .inr (outcome_of_offer hp ho h)
    | false => exact .inr (outcome_of_due hs hp ho h)

end Simulation

end WritebackCache
