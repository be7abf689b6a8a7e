import WritebackCache.Proofs.Refinement
import WritebackCache.Proofs.Turn

/-! The machine keeps to the timeline. Between two requests the agenda holds at most the next offer, for
the tick at which the timeline has the next request accepted. While a request is served the agenda
holds the event of its service, for the tick that the timeline has for it, and at most one offer, whose
turn says what it will come to. Every move goes from one such state to the next and records what the
timeline has for it. -/

namespace WritebackCache

namespace Service

/-- What a machine records when it accepts the request. -/
def acceptance (e : Service) : Simulation.Acceptance := ⟨e.accepted, e.packet, e.lookup⟩

/-- What a completion of the request is known by. -/
def mark (e : Service) : Tick × Address × AccessKind := (e.finished, e.packet.addr, e.packet.kind)

/-- The retries known once the request is done: one more if a retry is owed, of which the very last
request of a trace has none. -/
theorem countP_late {gap : Tick} {past : List Service} {e : Service} {left : List Packet}
    {owed : Bool} (more : left ≠ [] → e.late gap = owed) (last : left = [] → owed = false) :
    (if left = [] then (past ++ [e]).dropLast else past ++ [e]).countP (late gap) =
      past.countP (late gap) + if owed then 1 else 0 := by
  by_cases hl : left = []
  · rw [if_pos hl, last hl, List.dropLast_concat]
    rfl
  · rw [if_neg hl, List.countP_append, List.countP_singleton, more hl]

end Service

def Completion.mark (c : Completion) : Tick × Address × AccessKind :=
  (c.tick, c.packet.addr, c.packet.kind)

/-- Memory that is ready answers once the latency is over. -/
theorem Memory.Took.on_time {σ : Type} [LatencyModel σ] {m after : Memory σ} {op : MemoryOp}
    {b : BlockNumber} {now latency done : Tick} (took : m.Took after op b now latency done)
    (ready : m.readyAt.toNat ≤ now.toNat) :
    done = Word.saturatingAdd now (Timeline.told m.timing b) ∧
      after.timing = (LatencyModel.access m.timing b.base).1 := by
  refine ⟨?_, by rw [took.accessed]⟩
  rw [took.promised, Timeline.told, took.accessed]
  exact Word.later_of_ge (Nat.le_trans ready (Word.le_saturatingAdd _ _))

namespace Agenda

/-- Nothing is to come but the next offer of a requester with `left` to offer. -/
def Awaits (a : Agenda) (left : List Packet) (tick : Tick) : Prop :=
  if left = [] then a.order = []
  else ∃ event : Event, event.isOffer = true ∧ a.order = [(tick, event)]

theorem awaits_offerNext {a : Agenda} {r : Requester} {left : List Packet} (gap : Tick)
    (ha : a.order = []) (hl : r.held.toList ++ r.queue = left) :
    (a.offerNext gap r).Awaits left (Word.saturatingAdd a.now gap) := by
  unfold Awaits offerNext
  rw [Requester.remaining_eq, hl]
  by_cases hn : left = []
  · rw [if_pos hn, hn, if_neg (by simp)]
    exact ha
  · rw [if_neg hn, if_pos (List.length_pos_iff.mpr hn), order_scheduleIn, ha]
    exact ⟨.issue, rfl, rfl⟩

end Agenda

namespace Simulation

variable {σ : Type}

/-- The tick at which the next step finishes a request, if it finishes one: it delivers a response or
releases the controller, or accepts a request that passes by. -/
def ending? (s : Simulation σ) : Option Tick :=
  match s.agenda.pop with
  | none => none
  | some (tick, event, _) =>
    match event with
    | .deliver | .unblock => some tick
    | .memoryResponse _ => none
    | .issue | .retry => if s.acceptance?.map (·.lookup) = some .bypass then some tick else none

theorem ending?_of_offer {s : Simulation σ} {tick : Tick} {event : Event} {rest : Agenda}
    (pop : s.agenda.pop = some (tick, event, rest)) (offer : event.isOffer = true) :
    s.ending? = if s.acceptance?.map (·.lookup) = some .bypass then some tick else none := by
  unfold ending?
  rw [pop]
  cases event with
  | issue | retry => rfl
  | deliver | unblock | memoryResponse _ => cases offer

theorem ending?_of_due {s : Simulation σ} {tick : Tick} {event : Event} {rest : Agenda}
    (pop : s.agenda.pop = some (tick, event, rest)) (due : event = .deliver ∨ event = .unblock) :
    s.ending? = some tick := by
  unfold ending?
  rw [pop]
  rcases due with rfl | rfl <;> rfl

theorem ending?_of_answer {s : Simulation σ} {tick : Tick} {q : Packet} {rest : Agenda}
    (pop : s.agenda.pop = some (tick, .memoryResponse q, rest)) : s.ending? = none := by
  unfold ending?
  rw [pop]

/-- The machine runs at the pace of the timeline. -/
structure Paced (t : Timeline σ) (s : Simulation σ) : Prop where
  latency : s.controller.latency = t.latency
  gap : s.issueGap = t.gap
  policy : s.controller.policy = Replacement.lru

/-- Between two requests, those of `past` served and those of `left` to be accepted. -/
structure Resting [LatencyModel σ] (t : Timeline σ) (past : List Service) (left : List Packet)
    (s : Simulation σ) : Prop where
  idle : s.controller.status = .idle
  remaining : s.requester.held.toList ++ s.requester.queue = left
  mirrors : t.lists.Mirrors s.controller.grid
  timing : s.memory.timing = t.timing
  ready : s.memory.readyAt.toNat ≤ t.now.toNat
  offer : s.agenda.Awaits left t.now
  log : s.memory.log = past.flatMap Service.accesses
  retries : s.stats.retries.toNat =
    (if left = [] then past.dropLast else past).countP (Service.late t.gap)
  ticks : ∀ e, past.getLast? = some e → s.stats.ticks = e.finished

/-- While request `p` is served by an event of `tick`. -/
structure Serving [LatencyModel σ] (t : Timeline σ) (past : List Service) (p : Packet)
    (left : List Packet) (tick : Tick) (event : Event) (final : Prop) (s : Simulation σ) : Prop where
  kind : p.kind ≠ .other
  busy : s.controller.status ≠ .idle
  waiting : s.requester.waiting = p.needsResponse
  remaining : s.requester.held.toList ++ s.requester.queue = left
  due : event.isOffer = false
  turn : ∃ before behind, s.agenda.order = before ++ (tick, event) :: behind ∧
    Turn t.gap (t.service p) left tick final before behind s.controller.retryOwed
  ready : s.memory.readyAt.toNat ≤ tick.toNat
  retries : s.stats.retries.toNat =
    past.countP (Service.late t.gap) + if s.controller.retryOwed then 1 else 0

/-- Where the machine is on the timeline: between two requests, or in a stage of the service of one. -/
inductive Course [LatencyModel σ] (t : Timeline σ) (past : List Service) (s : Simulation σ) :
    Option Packet → List Packet → Prop
  | resting {left} (at_rest : Resting t past left s) : Course t past s none left
  | fetching {p left tick q}
      (serving : Serving t past p left tick (.memoryResponse q) False s)
      (mirrors : t.lists.Mirrors s.controller.grid)
      (miss : s.controller.miss = some ⟨p, .fetching⟩)
      (told : tick = Word.saturatingAdd t.now (Timeline.told t.timing p.block))
      (timing : s.memory.timing = (LatencyModel.access t.timing p.block.base).1)
      (log : s.memory.log = past.flatMap Service.accesses ++ [⟨.fetch, p.block, t.now, tick⟩]) :
      Course t past s (some p) left
  | writingBack {p left tick q way victim fetched}
      (serving : Serving t past p left tick (.memoryResponse q) False s)
      (mirrors : t.lists.Mirrors s.controller.grid)
      (miss : s.controller.miss = some ⟨p, .writingBack way victim fetched⟩)
      (chosen : way = Replacement.victim (s.controller.grid.row (s.controller.grid.setOf p.block)))
      (told : tick = (t.carried p).2.2) (timing : s.memory.timing = (t.carried p).2.1)
      (log : s.memory.log = past.flatMap Service.accesses ++ (t.carried p).1) :
      Course t past s (some p) left
  | ending {p left}
      (serving : Serving t past p left (t.service p).finished p.ended True s)
      (mirrors : (t.lists.next p).Mirrors s.controller.grid)
      (miss : s.controller.miss = none)
      (response : p.needsResponse = true → ∃ q, s.controller.response = some q ∧ q.addr = p.addr ∧
        q.kind = p.kind)
      (timing : s.memory.timing = (t.carried p).2.1)
      (log : s.memory.log = past.flatMap Service.accesses ++ (t.carried p).1) :
      Course t past s (some p) left

variable [LatencyModel σ]

section

variable {t : Timeline σ} {past : List Service} {p : Packet} {left : List Packet} {tick k : Tick}
  {event ev : Event} {final : Prop} {s : Simulation σ} {rest : Agenda}

/-- Between two requests nothing but the next offer comes up. -/
theorem Resting.pop (h : Resting t past left s) (pop : s.agenda.pop = some (k, ev, rest)) :
    left ≠ [] ∧ ev.isOffer = true ∧ k = t.now ∧ rest.order = [] ∧ rest.now = t.now := by
  obtain ⟨ho, hn, _⟩ := Agenda.order_of_pop pop
  have hoffer := h.offer
  unfold Agenda.Awaits at hoffer
  split at hoffer
  · rw [hoffer] at ho; cases ho
  · next more =>
    obtain ⟨event, he, hq⟩ := hoffer
    rw [hq] at ho
    obtain ⟨hx, hr⟩ := List.cons.inj ho
    cases hx
    exact ⟨more, he, rfl, hr.symm, hn⟩

/-- What comes up while a request is served and is no offer is the event of its service. -/
theorem Serving.pop_due (h : Serving t past p left tick event final s)
    (pop : s.agenda.pop = some (k, ev, rest)) (hd : ev.isOffer = false) :
    k = tick ∧ ev = event ∧ rest.now = tick ∧ ∃ behind, rest.order = behind ∧
      Turn t.gap (t.service p) left tick final [] behind s.controller.retryOwed := by
  obtain ⟨ho, hn, _⟩ := Agenda.order_of_pop pop
  obtain ⟨before, behind, hq, turn⟩ := h.turn
  rw [hq] at ho
  -- what comes up is the head of the order, which is the offer only if the turn is `before`
  generalize s.controller.retryOwed = owed at turn ⊢
  cases turn with
  | before =>
    obtain ⟨hx, _⟩ := List.cons.inj ho
    cases hx
    cases hd
  | none hl =>
    obtain ⟨hx, hr⟩ := List.cons.inj ho
    cases hx
    exact ⟨rfl, rfl, hn, _, hr.symm, .none hl⟩
  | behind posted more le early =>
    obtain ⟨hx, hr⟩ := List.cons.inj ho
    cases hx
    exact ⟨rfl, rfl, hn, _, hr.symm, .behind posted more le early⟩
  | refused posted more late =>
    obtain ⟨hx, hr⟩ := List.cons.inj ho
    cases hx
    exact ⟨rfl, rfl, hn, _, hr.symm, .refused posted more late⟩

/-- An offer that comes up while a request is served comes too early. -/
theorem Serving.pop_offer (h : Serving t past p left tick event final s)
    (pop : s.agenda.pop = some (k, ev, rest)) (offer : ev.isOffer = true) :
    rest.order = [(tick, event)] ∧ s.controller.retryOwed = false ∧
      Turn t.gap (t.service p) left tick final [] [] true := by
  obtain ⟨ho, _, _⟩ := Agenda.order_of_pop pop
  obtain ⟨before, behind, hq, turn⟩ := h.turn
  rw [hq] at ho
  generalize s.controller.retryOwed = owed at turn
  cases turn with
  | before posted more late =>
    obtain ⟨_, hr⟩ := List.cons.inj ho
    exact ⟨hr.symm, rfl, .refused posted more late⟩
  | none | behind | refused =>
    obtain ⟨hx, _⟩ := List.cons.inj ho
    cases hx
    rw [h.due] at offer
    cases offer

/-- The refused request is held, and a retry is owed for it. -/
theorem Serving.refuse {q : Packet} {r : Requester} {stats : Stats}
    (h : Serving t past p left tick event final s) (pop : s.agenda.pop = some (k, ev, rest))
    (offer : ev.isOffer = true) (next : s.requester.next = some (q, r))
    (counted : s.stats.recordRetry = .ok stats) :
    Serving t past p left tick event final { s with
      agenda := rest
      controller := { s.controller with retryOwed := true }
      requester := r.rejected q
      stats := { stats with ticks := k } } := by
  obtain ⟨hrest, howed, turn⟩ := h.pop_offer pop offer
  obtain ⟨hw, hl, _, hw', _⟩ := Requester.next_some next
  obtain ⟨hr, _⟩ := Stats.retried counted
  refine ⟨h.kind, h.busy, ?_, hl.symm.trans h.remaining, h.due, ⟨[], [], hrest, turn⟩, h.ready, ?_⟩
  · rw [← h.waiting, hw]
    exact hw'
  · have hretries := h.retries
    rw [howed] at hretries
    show stats.retries.toNat = _ + 1
    rw [hr, hretries]
    rfl

/-- While a request is served there is something to offer whenever an offer comes up. -/
theorem Serving.next_ne_none (h : Serving t past p left tick event final s)
    (pop : s.agenda.pop = some (k, ev, rest)) (offer : ev.isOffer = true) :
    s.requester.next ≠ none := by
  intro next
  obtain ⟨_, _, turn⟩ := h.pop_offer pop offer
  cases turn with
  | refused posted more =>
    rcases Requester.next_none next with hw | hr
    · rw [h.waiting] at hw
      cases posted.symm.trans hw
    · rw [Requester.remaining_eq, h.remaining] at hr
      exact more (List.length_eq_zero_iff.mp hr)

/-- Nor is a requester at rest woken in vain. -/
theorem Resting.next_ne_none (hs : s.Sound) (h : Resting t past left s)
    (pop : s.agenda.pop = some (k, ev, rest)) : s.requester.next ≠ none := by
  intro next
  obtain ⟨_, hm, hr, _⟩ := hs.phase.of_idle h.idle
  rcases Requester.next_none next with hw | hz
  · rcases hs.waiting.mp hw with hresponse | ⟨_, hmiss, _⟩
    · rw [hr] at hresponse; cases hresponse
    · rw [hm] at hmiss; cases hmiss
  · rw [Requester.remaining_eq, h.remaining] at hz
    exact (h.pop pop).1 (List.length_eq_zero_iff.mp hz)

/-! ## Beginning to serve -/

/-- The request that is accepted is the first of those left, and the rest are left after it. -/
theorem Resting.accepted {r : Requester} (h : Resting t past left s)
    (next : s.requester.next = some (p, r)) : left = p :: r.queue ∧
      (r.accepted p.needsResponse).held.toList ++ (r.accepted p.needsResponse).queue = r.queue := by
  obtain ⟨_, hl, hh, _⟩ := Requester.next_some next
  refine ⟨h.remaining.symm.trans hl, ?_⟩
  show r.held.toList ++ r.queue = _
  rw [hh]
  rfl

/-- An accepted request is served by the event that was entered for it. -/
theorem Resting.serve {a : Agenda} {r : Requester} {c : Controller} {m : Memory σ} {stats : Stats}
    {served : Event} (h : Resting t past left s) (paced : Paced t s)
    (next : s.requester.next = some (p, r)) (request : p.IsRequest) (kind : p.kind ≠ .other)
    (ha : a.order = [(tick, served)]) (hnow : a.now = t.now) (due : served.isOffer = false)
    (busy : c.status ≠ .idle) (owed : c.retryOwed = false)
    (hle : tick.toNat ≤ (t.service p).finished.toNat)
    (hfinal : final → tick = (t.service p).finished ∧ t.lists.lookup p = .hit)
    (ready : m.readyAt.toNat ≤ tick.toNat) (counted : stats.retries = s.stats.retries) :
    Serving t past p r.queue tick served final { s with
      agenda := a.followUp s.issueGap (r.accepted p.needsResponse) p
      controller := c
      memory := m
      requester := r.accepted p.needsResponse
      stats := { stats with ticks := k } } := by
  obtain ⟨hleft, hremaining⟩ := h.accepted next
  refine ⟨kind, busy, rfl, hremaining, due, ?_, ready, ?_⟩
  · rw [owed, paced.gap]
    exact Turn.start (e := t.service p) ha hnow hremaining (Packet.isWrite_of_posted request kind)
      hle hfinal
  · have hretries := h.retries
    rw [hleft, if_neg (by simp)] at hretries
    rw [owed]
    exact (congrArg UInt64.toNat counted).trans hretries

/-- A hit is finished once the latency of the cache is over. -/
theorem Resting.hit {r : Requester} {stats : Stats} {way : Nat} (hs : s.Sound)
    (h : Resting t past left s) (paced : Paced t s) (pop : s.agenda.pop = some (k, ev, rest))
    (next : s.requester.next = some (p, r)) (kind : p.kind ≠ .other)
    (found : s.controller.grid.lookup p.block = some way)
    (counted : s.stats.record .hit = (stats, .ok ())) :
    k = t.now ∧ t.lists.lookup p = .hit ∧ Course t past { s with
      agenda := (rest.scheduleIn s.controller.latency p.ended).followUp s.issueGap
        (r.accepted p.needsResponse) p
      controller := s.controller.finish p way
        ((s.controller.grid.cell (s.controller.grid.setOf p.block) way).served p) .hitPending
      requester := r.accepted p.needsResponse
      stats := { stats with ticks := k } } (some p) r.queue := by
  obtain ⟨_, hm, _, howed⟩ := hs.phase.of_idle h.idle
  obtain ⟨_, _, hk, hrest, hnow⟩ := h.pop pop
  obtain ⟨hlookup, htraffic, hmirrors⟩ := h.mirrors.hit hs.grid kind found
  have hcarried := Timeline.carried_of_none htraffic
  have hfinished : (t.service p).finished = Word.saturatingAdd t.now t.latency := by
    rw [Timeline.finished_of_kind kind, hcarried]
  have hready : s.memory.readyAt.toNat ≤ (t.service p).finished.toNat := by
    rw [hfinished]
    exact Nat.le_trans h.ready (Word.le_saturatingAdd _ _)
  refine ⟨hk, hlookup, .ending ?_ hmirrors hm ?_ ?_ ?_⟩
  · refine h.serve paced next (hs.isRequest next) kind ?_ hnow p.ended_not_offer (by simp) howed
      (Nat.le_refl _) (fun _ => ⟨rfl, hlookup⟩) hready (Stats.recorded counted).2.2
    rw [Agenda.order_scheduleIn, hrest, hnow, paced.latency, hfinished]
    rfl
  · intro hn
    exact ⟨_, if_pos hn, rfl, rfl⟩
  · rw [hcarried]
    exact h.timing
  · rw [hcarried, List.append_nil]
    exact h.log

/-- The block of a miss is fetched first. -/
theorem Resting.miss {r : Requester} {stats : Stats} {m : Memory σ} {done : Tick} {response : Packet}
    (hs : s.Sound) (h : Resting t past left s) (paced : Paced t s)
    (pop : s.agenda.pop = some (k, ev, rest)) (next : s.requester.next = some (p, r))
    (kind : p.kind ≠ .other) (absent : s.controller.grid.lookup p.block = none)
    (fetched : s.memory.serve k (.blockRead p.block) = (m, .ok (done, response)))
    (counted : s.stats.record .miss = (stats, .ok ())) :
    k = t.now ∧ t.lists.lookup p = .miss ∧ Course t past { s with
      agenda := (rest.schedule done (.memoryResponse response)).followUp s.issueGap
        (r.accepted p.needsResponse) p
      controller := { s.controller with miss := some ⟨p, .fetching⟩, status := .awaitFetch }
      memory := m
      requester := r.accepted p.needsResponse
      stats := { stats with ticks := k } } (some p) r.queue := by
  obtain ⟨_, _, _, howed⟩ := hs.phase.of_idle h.idle
  obtain ⟨_, _, hk, hrest, hnow⟩ := h.pop pop
  obtain ⟨hlookup, htraffic, _⟩ := h.mirrors.miss hs.grid kind absent rfl
  obtain ⟨_, _, _, took⟩ := Memory.serve_fetch (b := p.block) p.addr.inSpace_block fetched
  rw [hk] at took
  obtain ⟨hdone, htiming⟩ := took.on_time h.ready
  rw [h.timing] at hdone htiming
  have hlater : t.now.toNat ≤ done.toNat := by
    rw [hdone]
    exact Word.le_saturatingAdd _ _
  have hle : done.toNat ≤ (t.service p).finished.toNat := by
    refine Nat.le_trans ?_ (t.carried_le_finished p)
    rw [hdone, Timeline.carried, htraffic]
    exact (Timeline.carry_bounds _ _ _).1
  refine ⟨hk, hlookup, .fetching (q := response) ?_ h.mirrors rfl hdone htiming ?_⟩
  · refine h.serve paced next (hs.isRequest next) kind ?_ hnow rfl (by simp) howed hle
      (fun hf => hf.elim) (Nat.le_of_eq (congrArg UInt64.toNat took.ready))
      (Stats.recorded counted).2.2
    rw [Agenda.order_schedule_of_le _ (by rw [hnow]; exact hlater), hrest]
    rfl
  · rw [← h.log]
    exact took.logged

/-! ## Serving -/

/-- One event of the service makes way for the next. -/
theorem Serving.carry {c : Controller} {m : Memory σ} {tick' : Tick} {served : Event} {final' : Prop}
    (h : Serving t past p left tick event final s)
    (pop : s.agenda.pop = some (k, ev, rest)) (hd : ev.isOffer = false)
    (missed : t.lists.lookup p = .miss) (request : p.IsRequest)
    (hlater : tick.toNat ≤ tick'.toNat) (hle : tick'.toNat ≤ (t.service p).finished.toNat)
    (hfinal : final' → tick' = (t.service p).finished) (due : served.isOffer = false)
    (busy : c.status ≠ .idle) (owed : c.retryOwed = s.controller.retryOwed)
    (ready : m.readyAt.toNat ≤ tick'.toNat) :
    Serving t past p left tick' served final' { s with
      agenda := rest.schedule tick' served
      controller := c
      memory := m
      stats := { s.stats with ticks := k } } := by
  obtain ⟨_, _, hnow, behind, hrest, turn⟩ := h.pop_due pop hd
  refine ⟨h.kind, busy, h.waiting, h.remaining, due, ?_, ready, ?_⟩
  · rw [owed]
    exact turn.carry served hrest hnow missed (Packet.isWrite_of_posted request h.kind) hlater hle
      hfinal
  · rw [owed]
    exact h.retries

/-- Once the block of a miss is filled in, only the latency of the cache is left. -/
theorem Serving.fill {c : Controller} {way : Nat} {l : Line}
    (h : Serving t past p left tick event final s) (paced : Paced t s)
    (pop : s.agenda.pop = some (k, ev, rest)) (hd : ev.isOffer = false)
    (missed : t.lists.lookup p = .miss) (request : p.IsRequest) (told : tick = (t.carried p).2.2)
    (owed : c.retryOwed = s.controller.retryOwed) (nothing : c.miss = none)
    (mirrors : (t.lists.next p).Mirrors (c.grid.use (c.grid.setOf p.block) way l))
    (timing : s.memory.timing = (t.carried p).2.1)
    (log : s.memory.log = past.flatMap Service.accesses ++ (t.carried p).1) :
    Course t past { s with
      agenda := rest.scheduleIn s.controller.latency p.ended
      controller := c.finish p way l .unblockPending
      stats := { s.stats with ticks := k } } (some p) left := by
  obtain ⟨_, _, hnow, _⟩ := h.pop_due pop hd
  have hfinished : (t.service p).finished = Word.saturatingAdd rest.now s.controller.latency := by
    rw [Timeline.finished_of_kind h.kind, ← told, hnow, paced.latency]
  have hlater : tick.toNat ≤ (t.service p).finished.toNat := by
    rw [told]
    exact t.carried_le_finished p
  refine .ending ?_ mirrors nothing (fun hn => ⟨_, if_pos hn, rfl, rfl⟩) timing log
  rw [Agenda.scheduleIn, ← hfinished]
  exact h.carry pop hd missed request hlater (Nat.le_refl _) (fun _ => rfl) p.ended_not_offer
    (by simp) owed (Nat.le_trans h.ready hlater)

theorem Course.serving (c : Course t past s (some p) left) :
    ∃ tick event final, Serving t past p left tick event final s := by
  cases c with
  | fetching serving | writingBack serving | ending serving => exact ⟨_, _, _, serving⟩

/-- An offer refused leaves everything else as it is. -/
theorem Course.refuse {q : Packet} {r : Requester}
    {stats : Stats} (c : Course t past s (some p) left)
    (pop : s.agenda.pop = some (k, ev, rest)) (offer : ev.isOffer = true)
    (next : s.requester.next = some (q, r)) (counted : s.stats.recordRetry = .ok stats) :
    Course t past { s with
      agenda := rest
      controller := { s.controller with retryOwed := true }
      requester := r.rejected q
      stats := { stats with ticks := k } } (some p) left := by
  cases c with
  | fetching serving mirrors miss told timing log =>
    exact .fetching (serving.refuse pop offer next counted) mirrors miss told timing log
  | writingBack serving mirrors miss chosen told timing log =>
    exact .writingBack (serving.refuse pop offer next counted) mirrors miss chosen told timing log
  | ending serving mirrors miss response timing log =>
    exact .ending (serving.refuse pop offer next counted) mirrors miss response timing log

/-- The line that has to make room for the block of a miss is written back first. -/
theorem Course.evict {q request : Packet} {l : Line} {m : Memory σ} {done : Tick} {response : Packet}
    (c : Course t past s (some p) left) (hs : s.Sound) (paced : Paced t s)
    (pop : s.agenda.pop = some (k, .memoryResponse q, rest))
    (miss : s.controller.miss = some ⟨request, .fetching⟩)
    (line : s.controller.grid.cell (s.controller.grid.setOf request.block)
      (s.controller.victim request) = l) (dirty : (l.valid && l.dirty) = true)
    (sent : s.memory.serve k (.blockWrite l.tag l.data) = (m, .ok (done, response))) :
    Course t past { s with
      agenda := rest.schedule done (.memoryResponse response)
      controller := { s.controller.consulted with
        miss := some ⟨request, .writingBack (s.controller.victim request) l.tag q.blockData⟩
        status := .awaitWriteback }
      memory := m
      stats := { s.stats with ticks := k } } (some p) left := by
  cases c with
  | writingBack _ _ other | ending _ _ other => rw [miss] at other; cases other
  | @fetching _ _ tick _ h mirrors same told timing log =>
    rw [miss] at same
    cases same
    obtain ⟨hk, _⟩ := h.pop_due pop rfl
    obtain ⟨_, _, _, absent⟩ := hs.fetched pop miss
    have hvictim := Controller.victim_lru paced.policy p
    obtain ⟨hlookup, htraffic, _⟩ := mirrors.miss hs.grid h.kind absent (hvictim ▸ line)
    rw [dirty, if_pos rfl] at htraffic
    obtain ⟨_, _, _, took⟩ := hs.evicted line dirty sent
    rw [hk] at took
    obtain ⟨hdone, htiming⟩ := took.on_time h.ready
    rw [timing] at hdone htiming
    have hcarried : t.carried p =
        ([⟨.fetch, p.block, t.now, tick⟩, ⟨.writeback, l.tag, tick, done⟩], m.timing, done) := by
      rw [Timeline.carried, htraffic, hdone, htiming, told]
      rfl
    have hlater : tick.toNat ≤ done.toNat := by
      rw [hdone]
      exact Word.le_saturatingAdd _ _
    have hle : done.toNat ≤ (t.service p).finished.toNat := by
      have hlast := t.carried_le_finished p
      rwa [hcarried] at hlast
    refine .writingBack (q := response) ?_ mirrors rfl hvictim (by rw [hcarried]) (by rw [hcarried]) ?_
    · exact h.carry pop rfl hlookup (hs.missing _ miss).1 hlater hle (fun hf => hf.elim) rfl (by simp)
        rfl (Nat.le_of_eq (congrArg UInt64.toNat took.ready))
    · show m.log = _
      rw [took.logged, log, hcarried, List.append_assoc]
      rfl

/-- The block of a miss that needs nothing to make room is filled in at once. -/
theorem Course.fill {q request : Packet} (c : Course t past s (some p) left) (hs : s.Sound)
    (paced : Paced t s) (pop : s.agenda.pop = some (k, .memoryResponse q, rest))
    (miss : s.controller.miss = some ⟨request, .fetching⟩)
    (clean : ((s.controller.grid.cell (s.controller.grid.setOf request.block)
      (s.controller.victim request)).valid && (s.controller.grid.cell
      (s.controller.grid.setOf request.block) (s.controller.victim request)).dirty) = false) :
    Course t past { s with
      agenda := rest.scheduleIn s.controller.latency request.ended
      controller := s.controller.consulted.finish request (s.controller.victim request)
        (Line.filled request q.blockData) .unblockPending
      stats := { s.stats with ticks := k } } (some p) left := by
  cases c with
  | writingBack _ _ other | ending _ _ other => rw [miss] at other; cases other
  | fetching h mirrors same told timing log =>
    rw [miss] at same
    cases same
    obtain ⟨_, _, _, absent⟩ := hs.fetched pop miss
    have hvictim := Controller.victim_lru paced.policy p
    rw [hvictim] at clean
    obtain ⟨hlookup, htraffic, hmirrors⟩ := mirrors.miss hs.grid h.kind absent rfl
    rw [clean] at htraffic
    have hcarried := Timeline.carried_of_fetch htraffic
    refine h.fill paced pop rfl hlookup (hs.missing _ miss).1 ?_ rfl rfl ?_ ?_ ?_
    · rw [hcarried]
      exact told
    · rw [hvictim]
      exact hmirrors q.blockData
    · rw [hcarried]
      exact timing
    · rw [hcarried, log, told]

/-- The block of a miss is filled in once its place is written back. -/
theorem Course.acknowledge {q request : Packet} {way : Nat} {victim : BlockNumber} {fetched : Block}
    (c : Course t past s (some p) left) (hs : s.Sound) (paced : Paced t s)
    (pop : s.agenda.pop = some (k, .memoryResponse q, rest))
    (miss : s.controller.miss = some ⟨request, .writingBack way victim fetched⟩) :
    Course t past { s with
      agenda := rest.scheduleIn s.controller.latency request.ended
      controller := s.controller.abandon.finish request way (Line.filled request fetched)
        .unblockPending
      stats := { s.stats with ticks := k } } (some p) left := by
  cases c with
  | fetching _ _ other | ending _ _ other => rw [miss] at other; cases other
  | writingBack h mirrors same chosen told timing log =>
    rw [miss] at same
    cases same
    obtain ⟨_, _, _, absent, _⟩ := (hs.phase_of_pop pop rfl).of_writingBack miss
    obtain ⟨hlookup, _, hmirrors⟩ := mirrors.miss hs.grid h.kind absent rfl
    refine h.fill paced pop rfl hlookup (hs.missing _ miss).1 told rfl rfl ?_ timing log
    rw [chosen]
    exact hmirrors fetched

/-! ## Done -/

/-- What is known of a machine that has just finished a request. -/
theorem Resting.after {u : Simulation σ} (owed : Bool) (idle : u.controller.status = .idle)
    (remaining : u.requester.held.toList ++ u.requester.queue = left)
    (mirrors : (t.lists.next p).Mirrors u.controller.grid)
    (timing : u.memory.timing = (t.carried p).2.1)
    (ready : u.memory.readyAt.toNat ≤ (t.service p).finished.toNat)
    (offer : u.agenda.Awaits left (t.follow p))
    (log : u.memory.log = past.flatMap Service.accesses ++ (t.carried p).1)
    (retries : u.stats.retries.toNat =
      past.countP (Service.late t.gap) + if owed then 1 else 0)
    (more : left ≠ [] → (t.service p).late t.gap = owed) (last : left = [] → owed = false)
    (ticks : u.stats.ticks = (t.service p).finished) :
    Resting (t.next p) (past ++ [t.service p]) left u := by
  refine ⟨idle, remaining, mirrors, timing, Nat.le_trans ready (t.finished_le_follow p), offer, ?_, ?_,
    ?_⟩
  · rw [List.flatMap_append, List.flatMap_singleton]
    exact log
  · rw [retries]
    exact (Service.countP_late more last).symm
  · intro e he
    rw [List.getLast?_concat] at he
    cases he
    exact ticks

/-- Traffic that passes by is done at once. -/
theorem Resting.bypass {r : Requester} {stats : Stats} (h : Resting t past left s) (paced : Paced t s)
    (pop : s.agenda.pop = some (k, ev, rest)) (next : s.requester.next = some (p, r))
    (request : p.IsRequest) (kind : p.kind = .other)
    (counted : s.stats.record .bypass = (stats, .ok ())) :
    k = t.now ∧ t.lists.lookup p = .bypass ∧ Resting (t.next p) (past ++ [t.service p]) r.queue { s with
      agenda := rest.followUp s.issueGap (r.accepted p.needsResponse) p
      requester := r.accepted p.needsResponse
      stats := { stats with ticks := k } } := by
  obtain ⟨_, _, hk, hrest, hnow⟩ := h.pop pop
  obtain ⟨hleft, hremaining⟩ := h.accepted next
  obtain ⟨hlists, hlookup, htraffic⟩ := t.lists.next_other kind
  have hcarried := Timeline.carried_of_none htraffic
  have hfinished := Timeline.finished_of_other (t := t) kind
  have posted := Packet.needsResponse_of_other request kind
  have hretries := h.retries
  rw [hleft, if_neg (by simp)] at hretries
  refine ⟨hk, hlookup, .after false h.idle hremaining ?_ ?_ ?_ ?_ ?_ ?_ ?_ ?_ ?_⟩
  · rw [hlists]
    exact h.mirrors
  · rw [hcarried]
    exact h.timing
  · rw [hfinished]
    exact h.ready
  · rw [Agenda.followUp, if_neg (by simp [posted]), Timeline.follow_of_other posted kind, ← hnow,
      ← paced.gap]
    exact Agenda.awaits_offerNext s.issueGap hrest hremaining
  · rw [hcarried, List.append_nil]
    exact h.log
  · exact (congrArg UInt64.toNat (Stats.recorded counted).2.2).trans hretries
  · intro _
    have hread : p.isWrite = false := by simp [Packet.isWrite, kind]
    simp [Service.late, Timeline.service, hread]
  · exact fun _ => rfl
  · rw [hfinished]
    exact hk

/-- The response of a request is delivered once it is finished, and the next one is offered after the
gap. -/
theorem Course.deliver {q : Packet} (c : Course t past s (some p) left) (paced : Paced t s)
    (pop : s.agenda.pop = some (k, .deliver, rest)) (queued : s.controller.response = some q) :
    p.needsResponse = true ∧ k = (t.service p).finished ∧
      Completion.mark ⟨k, q⟩ = (t.service p).mark ∧
      Resting (t.next p) (past ++ [t.service p]) left { s with
        agenda := (rest.retried s.controller.retryOwed).offerNext s.issueGap
          (s.requester.receive q k)
        controller := { s.controller with response := none, status := .idle, retryOwed := false }
        requester := s.requester.receive q k
        stats := { s.stats with ticks := k } } := by
  cases c with
  | fetching h | writingBack h =>
    obtain ⟨_, he, _⟩ := h.pop_due pop rfl
    cases he
  | ending h mirrors _ response timing log =>
    obtain ⟨hk, he, hnow, behind, hrest, turn⟩ := h.pop_due pop rfl
    have hn : p.needsResponse = true := by
      rcases p.deliver_or_unblock with ⟨hn, _⟩ | ⟨_, hu⟩
      · exact hn
      · rw [hu] at he; cases he
    obtain ⟨_, hq, haddr, hkind⟩ := response hn
    rw [queued] at hq
    cases hq
    obtain ⟨hbehind, howed⟩ := turn.answered hn
    have hretries := h.retries
    rw [howed] at hretries
    refine ⟨hn, hk, ?_, .after false rfl h.remaining mirrors timing h.ready ?_ log hretries
      (fun _ => Service.late_of_needsResponse hn) (fun _ => rfl) hk⟩
    · rw [Completion.mark, hk, haddr, hkind]
      rfl
    · rw [howed, Timeline.follow_of_response hn, ← hnow, ← paced.gap]
      exact Agenda.awaits_offerNext s.issueGap (hrest.trans hbehind) h.remaining

/-- The controller is released once a posted write is finished; the next request is offered then if it
came too early, and else at its own time. -/
theorem Course.release (c : Course t past s (some p) left)
    (pop : s.agenda.pop = some (k, .unblock, rest)) :
    p.needsResponse = false ∧ k = (t.service p).finished ∧
      Resting (t.next p) (past ++ [t.service p]) left { s with
        agenda := rest.retried s.controller.retryOwed
        controller := { s.controller with status := .idle, retryOwed := false }
        stats := { s.stats with ticks := k } } := by
  cases c with
  | fetching h | writingBack h =>
    obtain ⟨_, he, _⟩ := h.pop_due pop rfl
    cases he
  | ending h mirrors _ _ timing log =>
    obtain ⟨hk, he, hnow, behind, hrest, turn⟩ := h.pop_due pop rfl
    have posted : p.needsResponse = false := by
      rcases p.deliver_or_unblock with ⟨_, hd⟩ | ⟨hn, _⟩
      · rw [hd] at he; cases he
      · exact hn
    refine ⟨posted, hk, .after _ rfl h.remaining mirrors timing h.ready ?_ log h.retries turn.late_eq
      (fun hl => (turn.last hl).2) hk⟩
    unfold Agenda.Awaits
    by_cases hl : left = []
    · obtain ⟨hbehind, howed⟩ := turn.last hl
      rw [if_pos hl, howed]
      exact hrest.trans hbehind
    · rw [if_neg hl, Timeline.follow_of_posted posted h.kind]
      exact turn.released hrest hnow posted hl


end

end Simulation

end WritebackCache
