import WritebackCache.Proofs.FlatMemory
import WritebackCache.Proofs.Move

/-! The protocol between requester, controller and memory. Every move keeps a simulation sound, and so
does an offer entered by hand: the phase says what is still to come, the requester waits exactly as
long as its response is on the way, and one that could go on is offered to. -/

namespace WritebackCache

/-- A step that returns to its caller: it may be refused, but it does not fault. -/
def Returns {ε α : Type} (r : Except (Failure ε) α) : Prop := ∀ f, r ≠ .error (.fault f)

namespace Requester

theorem next_some {r rest : Requester} {p : Packet} (h : r.next = some (p, rest)) :
    r.waiting = false ∧ r.held.toList ++ r.queue = p :: rest.queue ∧ rest.held = none ∧
      rest.waiting = false ∧ rest.issued = r.issued ∧ rest.completions = r.completions := by
  unfold next at h
  split at h
  · cases h
  · next hw =>
    have hw' : r.waiting = false := by simpa using hw
    split at h
    · next hh => cases h; simp [hh, hw']
    · next hh =>
      split at h
      · cases h
      · next hq => cases h; simp [hh, hq, hw']

theorem remaining_eq (r : Requester) : r.remaining = (r.held.toList ++ r.queue).length := by
  rw [remaining, List.length_append, Nat.add_comm]

theorem next_none {r : Requester} (h : r.next = none) : r.waiting = true ∨ r.remaining = 0 := by
  unfold next at h
  split at h
  · next hw => exact .inl hw
  · split at h
    · cases h
    · next hh =>
      split at h
      · next hq => exact .inr (by simp [remaining, hh, hq])
      · cases h

end Requester

theorem Packet.deliver_or_unblock (p : Packet) :
    (p.needsResponse = true ∧ p.ended = .deliver) ∨ (p.needsResponse = false ∧ p.ended = .unblock) := by
  cases h : p.needsResponse <;> simp [ended, h]

theorem Packet.ended_not_offer (p : Packet) : p.ended.isOffer = false := by
  rcases p.deliver_or_unblock with ⟨_, h⟩ | ⟨_, h⟩ <;> rw [h] <;> rfl

/-- Whatever request was served, its end is the one event to come. -/
theorem Phase.finish {c : Controller} {m : SparseMemory} (p : Packet) (way : Nat) (l : Line)
    {status : Status} (hs : status = .hitPending ∨ status = .unblockPending) (hm : c.miss = none)
    (hr : c.response = none) : Phase (c.finish p way l status) m [p.ended] := by
  rcases p.deliver_or_unblock with ⟨hn, he⟩ | ⟨hn, he⟩ <;> rw [he]
  · exact .delivering hs hm (by simp [Controller.finish, Controller.reply, hn]; rfl)
  · exact .releasing hs hm (by simp [Controller.finish, Controller.reply, hn, hr])

/-- A dirty line was handed to memory, whose contents have changed under the tag of the line only. -/
theorem Phase.evict {c : Controller} {m : SparseMemory} {p : Packet} {way : Nat} {l : Line}
    (hw : way < c.grid.ways) (line : c.grid.cell (c.grid.setOf p.block) way = l)
    (dirty : (l.valid && l.dirty) = true) (hr : c.response = none)
    (absent : c.grid.lookup p.block = none) :
    Phase { c.consulted with
        miss := some ⟨p, .writingBack way l.tag (m.readBlock p.block)⟩, status := .awaitWriteback }
      (m.writeBlock l.tag l.data) [.memoryResponse (Packet.blockWrite l.tag l.data).asResponse] := by
  obtain ⟨hv, hd⟩ := Bool.and_eq_true_iff.mp dirty
  have hheld : (c.grid.cell (c.grid.setOf p.block) way).holds l.tag = true := by
    rw [line]; exact Grid.holds_iff.mpr ⟨hv, rfl⟩
  have hne : p.block ≠ l.tag := by
    intro he
    rw [← he, Grid.lookup_eq_none_iff.mp absent _ hw] at hheld
    cases hheld
  have hfetched : (m.writeBlock l.tag l.data).readBlock p.block = m.readBlock p.block := by
    rw [SparseMemory.readBlock_writeBlock, if_neg hne]
  have hwritten : (m.writeBlock l.tag l.data).readBlock l.tag = l.data := by
    rw [SparseMemory.readBlock_writeBlock, if_pos rfl]
  rw [← hfetched]
  subst line
  let next : Controller := { c.consulted with
    miss := some ⟨p, .writingBack way (c.grid.cell (c.grid.setOf p.block) way).tag
      ((m.writeBlock (c.grid.cell (c.grid.setOf p.block) way).tag
        (c.grid.cell (c.grid.setOf p.block) way).data).readBlock p.block)⟩
    status := .awaitWriteback }
  exact Phase.writingBack (c := next) rfl rfl hr absent hw hheld hd hwritten

theorem Phase.owe {c : Controller} {m : SparseMemory} {due : List Event} (h : Phase c m due)
    (hb : c.status ≠ .idle) : Phase { c with retryOwed := true } m due := by
  cases h with
  | idle status => exact (hb status).elim
  | delivering status miss response => exact .delivering status miss response
  | releasing status miss response => exact .releasing status miss response
  | fetching status miss response absent => exact .fetching status miss response absent
  | writingBack status miss response absent inSet held dirty written =>
    exact .writingBack (c := { c with retryOwed := true }) status miss response absent inSet held
      dirty written

/-- While a miss is outstanding no response waits to be delivered. -/
theorem Phase.one_at_a_time {c : Controller} {m : SparseMemory} {due : List Event}
    (h : Phase c m due) : c.miss = none ∨ c.response = none := by
  cases h with
  | idle _ miss | delivering _ miss | releasing _ miss => exact .inl miss
  | fetching _ _ response | writingBack _ _ response => exact .inr response

theorem Phase.length_le {c : Controller} {m : SparseMemory} {due : List Event} (h : Phase c m due) :
    due.length ≤ 1 := by
  cases h <;> simp

theorem Phase.of_idle {c : Controller} {m : SparseMemory} {due : List Event} (h : Phase c m due)
    (hi : c.status = .idle) :
    due = [] ∧ c.miss = none ∧ c.response = none ∧ c.retryOwed = false := by
  cases h with
  | idle _ miss response retry => exact ⟨rfl, miss, response, retry⟩
  | delivering status | releasing status => rw [hi] at status; rcases status with h | h <;> cases h
  | fetching status | writingBack status => rw [hi] at status; cases status

theorem Phase.of_deliver {c : Controller} {m : SparseMemory} {due : List Event}
    (h : Phase c m (.deliver :: due)) : due = [] ∧ c.miss = none ∧ c.status ≠ .idle := by
  cases h with
  | delivering status miss =>
    exact ⟨rfl, miss, fun hi => by rw [hi] at status; rcases status with h | h <;> cases h⟩

theorem Phase.of_unblock {c : Controller} {m : SparseMemory} {due : List Event}
    (h : Phase c m (.unblock :: due)) :
    due = [] ∧ c.miss = none ∧ c.response = none ∧ c.status ≠ .idle := by
  cases h with
  | releasing status miss response =>
    exact ⟨rfl, miss, response, fun hi => by rw [hi] at status; rcases status with h | h <;> cases h⟩

theorem Phase.of_fetching {c : Controller} {m : SparseMemory} {p : Packet} {due : List Event}
    (h : Phase c m due) (hm : c.miss = some ⟨p, .fetching⟩) :
    due = [.memoryResponse ((Packet.blockRead p.block).filledFrom (m.readBlock p.block)).asResponse] ∧
      c.status = .awaitFetch ∧ c.response = none ∧ c.grid.lookup p.block = none := by
  cases h with
  | idle _ miss | delivering _ miss | releasing _ miss => rw [miss] at hm; cases hm
  | fetching status miss response absent =>
    rw [miss] at hm; cases hm; exact ⟨rfl, status, response, absent⟩
  | writingBack _ miss => rw [miss] at hm; cases hm

theorem Phase.of_writingBack {c : Controller} {m : SparseMemory} {p : Packet} {way : Nat}
    {victim : BlockNumber} {fetched : Block} {due : List Event} (h : Phase c m due)
    (hm : c.miss = some ⟨p, .writingBack way victim fetched⟩) :
    due = [.memoryResponse (Packet.blockWrite victim
        (c.grid.cell (c.grid.setOf p.block) way).data).asResponse] ∧
      c.status = .awaitWriteback ∧ c.response = none ∧ c.grid.lookup p.block = none ∧
      way < c.grid.ways ∧ (c.grid.cell (c.grid.setOf p.block) way).holds victim = true ∧
      (c.grid.cell (c.grid.setOf p.block) way).dirty = true ∧
      m.readBlock victim = (c.grid.cell (c.grid.setOf p.block) way).data ∧
      fetched = m.readBlock p.block := by
  cases h with
  | idle _ miss | delivering _ miss | releasing _ miss => rw [miss] at hm; cases hm
  | fetching _ miss => rw [miss] at hm; cases hm
  | writingBack status miss response absent inSet held dirty written =>
    rw [miss] at hm; cases hm
    exact ⟨rfl, status, response, absent, inSet, held, dirty, written, rfl⟩

namespace Simulation

variable {σ : Type}

/-! ## Every move keeps a simulation sound -/

theorem Sound.due_of_offer {s : Simulation σ} {tick : Tick} {event : Event} {rest : Agenda}
    (pop : s.agenda.pop = some (tick, event, rest)) (offer : event.isOffer = true) :
    rest.due = s.agenda.due := by
  rw [Agenda.due_of_pop pop, offer]
  rfl

theorem Sound.phase_of_pop {s : Simulation σ} {tick : Tick} {event : Event} {rest : Agenda}
    (hs : s.Sound) (pop : s.agenda.pop = some (tick, event, rest)) (offer : event.isOffer = false) :
    Phase s.controller s.memory.contents (event :: rest.due) := by
  have h := hs.phase
  rwa [Agenda.due_of_pop pop, offer, if_neg (by simp)] at h

/-- What is known when the block of a miss is there. -/
theorem Sound.fetched {s : Simulation σ} {tick : Tick} {q p : Packet} {rest : Agenda} (hs : s.Sound)
    (pop : s.agenda.pop = some (tick, .memoryResponse q, rest))
    (miss : s.controller.miss = some ⟨p, .fetching⟩) :
    rest.due = [] ∧ q.blockData = s.memory.contents.readBlock p.block ∧
      s.controller.response = none ∧ s.controller.grid.lookup p.block = none := by
  obtain ⟨hdue, _, hr, ha⟩ := (hs.phase_of_pop pop rfl).of_fetching miss
  obtain ⟨he, hn⟩ := List.cons.inj hdue
  cases he
  exact ⟨hn, Packet.blockData_fetched _ _, hr, ha⟩

theorem Sound.isRequest {s : Simulation σ} {p : Packet} {r : Requester} (hs : s.Sound)
    (next : s.requester.next = some (p, r)) : p.IsRequest := by
  have hall := hs.requests
  rw [(Requester.next_some next).2.1] at hall
  exact hall p List.mem_cons_self

/-- An offer entered by hand keeps a simulation sound. -/
theorem Sound.inject {s : Simulation σ} (hs : s.Sound) (tick : Tick) {event : Event}
    (offer : event.isOffer = true) : (s.inject tick event).Sound where
  grid := hs.grid
  policy := hs.policy
  phase := by
    show Phase s.controller s.memory.contents (s.agenda.schedule tick event).due
    rw [Agenda.due_schedule_offer _ _ offer]
    exact hs.phase
  requests := hs.requests
  missing := hs.missing
  waiting := hs.waiting
  wake := fun _ _ => .inl (Agenda.offers_schedule _ _ offer)

variable [LatencyModel σ]

/-- What memory does with the dirty line in the way chosen. -/
theorem Sound.evicted {s : Simulation σ} {p response : Packet} {l : Line} {tick done : Tick}
    {memory : Memory σ} (hs : s.Sound)
    (line : s.controller.grid.cell (s.controller.grid.setOf p.block) (s.controller.victim p) = l)
    (dirty : (l.valid && l.dirty) = true)
    (sent : s.memory.serve tick (.blockWrite l.tag l.data) = (memory, .ok (done, response))) :
    memory.contents = s.memory.contents.writeBlock l.tag l.data ∧
      response = (Packet.blockWrite l.tag l.data).asResponse ∧
      ∃ latency, s.memory.Took memory .writeback l.tag tick latency done := by
  have hcell := Grid.has_setOf (Controller.victim_lt hs.policy p) p.block
  have hv := (Bool.and_eq_true_iff.mp dirty).1
  exact Memory.serve_writeback (hs.grid.inSpace_of_cell hcell line hv) sent

/-- A move leaves memory alone, or memory takes one request: the fetch for a miss that is accepted, or a
writeback. -/
theorem Move.memory {s t : Simulation σ} {a : Option Acceptance} (hs : s.Sound) (h : s.Move a t) :
    (t.memory = s.memory ∧ a.toList.countP (·.lookup = .miss) = 0) ∨
    ∃ op block now latency done, s.memory.Took t.memory op block now latency done ∧
      a.toList.countP (·.lookup = .miss) = if op = .fetch then 1 else 0 := by
  cases h with
  | wake | refuse | bypass | hit | deliver | release | fill | acknowledge => exact .inl ⟨rfl, rfl⟩
  | @miss _ _ _ p _ _ _ _ _ _ _ _ _ _ _ fetched =>
    obtain ⟨_, _, latency, took⟩ := Memory.serve_fetch (b := p.block) p.addr.inSpace_block fetched
    exact .inr ⟨_, _, _, latency, _, took, rfl⟩
  | @evict _ _ _ p l _ _ _ pop miss line dirty sent =>
    obtain ⟨_, _, latency, took⟩ := hs.evicted line dirty sent
    exact .inr ⟨_, _, _, latency, _, took, rfl⟩

theorem Move.grid {s t : Simulation σ} {a : Option Acceptance} (hs : s.Sound) (h : s.Move a t) :
    t.controller.grid.Sound := by
  cases h with
  | wake | refuse | bypass | miss | deliver | release | evict => exact hs.grid
  | hit _ _ _ _ _ found => exact hs.grid.hit found
  | @fill _ _ _ p pop miss =>
    obtain ⟨_, _, _, absent⟩ := hs.fetched pop miss
    exact hs.grid.fill (Controller.victim_lt hs.policy p) absent _
  | @acknowledge _ _ _ p _ _ _ pop miss =>
    obtain ⟨_, _, _, absent, inSet, _⟩ := (hs.phase_of_pop pop rfl).of_writingBack miss
    exact hs.grid.fill inSet absent _

theorem Move.policy {s t : Simulation σ} {a : Option Acceptance} (hs : s.Sound) (h : s.Move a t) :
    t.controller.policy.InRange t.controller.grid.ways := by
  cases h <;> exact hs.policy

theorem Move.phase {s t : Simulation σ} {a : Option Acceptance} (hs : s.Sound) (h : s.Move a t) :
    Phase t.controller t.memory.contents t.agenda.due := by
  cases h with
  | wake pop offer => exact Sound.due_of_offer pop offer ▸ hs.phase
  | refuse pop offer _ busy => exact Sound.due_of_offer pop offer ▸ hs.phase.owe busy
  | bypass pop offer =>
    rw [Agenda.due_followUp, Sound.due_of_offer pop offer]
    exact hs.phase
  | @hit _ _ _ p _ _ _ pop offer _ idle =>
    obtain ⟨hn, hm, hr, _⟩ := hs.phase.of_idle idle
    rw [Agenda.due_followUp, Agenda.scheduleIn,
      Agenda.due_schedule _ p.ended_not_offer ((Sound.due_of_offer pop offer).trans hn)]
    exact .finish _ _ _ (.inl rfl) hm hr
  | @miss _ _ _ p _ _ _ _ _ pop offer _ idle _ absent fetched =>
    obtain ⟨hn, hm, hr, _⟩ := hs.phase.of_idle idle
    obtain ⟨hc, rfl, _⟩ := Memory.serve_fetch p.addr.inSpace_block fetched
    rw [Agenda.due_followUp, Agenda.due_schedule _ rfl ((Sound.due_of_offer pop offer).trans hn), hc]
    exact .fetching rfl rfl hr absent
  | deliver pop =>
    obtain ⟨hn, hm, _⟩ := (hs.phase_of_pop pop rfl).of_deliver
    rw [Agenda.due_offerNext, Agenda.due_retried, hn]
    exact .idle rfl hm rfl rfl
  | release pop =>
    obtain ⟨hn, hm, hr, _⟩ := (hs.phase_of_pop pop rfl).of_unblock
    rw [Agenda.due_retried, hn]
    exact .idle rfl hm hr rfl
  | @fill _ _ _ p pop miss =>
    obtain ⟨hn, _, hr, _⟩ := hs.fetched pop miss
    rw [Agenda.scheduleIn, Agenda.due_schedule _ p.ended_not_offer hn]
    exact .finish (c := s.controller.consulted) _ _ _ (.inr rfl) rfl hr
  | @evict _ _ _ p l _ _ _ pop miss line dirty sent =>
    obtain ⟨hn, hq, hr, absent⟩ := hs.fetched pop miss
    have hw := Controller.victim_lt hs.policy p
    obtain ⟨hcont, rfl, _⟩ := hs.evicted line dirty sent
    rw [Agenda.due_schedule _ rfl hn, hcont, hq]
    exact .evict hw line dirty hr absent
  | @acknowledge _ _ _ p _ _ _ pop miss =>
    obtain ⟨hdue, _, hr, _⟩ := (hs.phase_of_pop pop rfl).of_writingBack miss
    rw [Agenda.scheduleIn, Agenda.due_schedule _ p.ended_not_offer (List.cons.inj hdue).2]
    exact .finish (c := s.controller.abandon) _ _ _ (.inr rfl) rfl hr

theorem Move.requests {s t : Simulation σ} {a : Option Acceptance} (hs : s.Sound) (h : s.Move a t) :
    ∀ p ∈ t.requester.held.toList ++ t.requester.queue, p.IsRequest := by
  have rest : ∀ {p r}, s.requester.next = some (p, r) → p.IsRequest ∧
      ∀ q ∈ r.held.toList ++ r.queue, q.IsRequest := by
    intro p r next
    obtain ⟨_, hl, hh, _⟩ := Requester.next_some next
    have hall := hs.requests
    rw [hl] at hall
    refine ⟨hall p List.mem_cons_self, fun q hq => hall q (.tail _ ?_)⟩
    rwa [hh] at hq
  cases h with
  | wake | deliver | release | fill | evict | acknowledge => exact hs.requests
  | bypass _ _ next | hit _ _ next | miss _ _ next => exact (rest next).2
  | @refuse _ _ _ p r _ _ _ next =>
    obtain ⟨hp, hr⟩ := rest next
    intro q hq
    rcases List.mem_cons.mp hq with rfl | hq
    · exact hp
    · exact hr q (List.mem_append_right _ hq)

theorem Move.missing {s t : Simulation σ} {a : Option Acceptance} (hs : s.Sound) (h : s.Move a t) :
    ∀ x, t.controller.miss = some x → x.request.IsRequest ∧ x.request.kind ≠ .other := by
  cases h with
  | wake | refuse | bypass | hit | deliver | release => exact hs.missing
  | miss _ _ next _ kind =>
    intro x hx
    cases hx
    exact ⟨hs.isRequest next, kind⟩
  | evict _ miss =>
    intro x hx
    cases hx
    exact hs.missing ⟨_, .fetching⟩ miss
  | fill | acknowledge => intro x hx; cases hx

/-- A requester waits exactly as long as its response is on the way. -/
def Awaited (c : Controller) : Prop :=
  c.response.isSome = true ∨ ∃ x, c.miss = some x ∧ x.request.needsResponse = true

theorem awaited_finish {c : Controller} (p : Packet) (way : Nat) (l : Line) (status : Status)
    (hm : c.miss = none) (hr : c.response = none) :
    p.needsResponse = true ↔ Awaited (c.finish p way l status) := by
  have hresponse : (c.finish p way l status).response = c.reply p l.data := rfl
  have hmiss : (c.finish p way l status).miss = none := hm
  rw [Awaited, hresponse, hmiss, Controller.reply, hr]
  cases p.needsResponse <;> simp

theorem awaited_missing {c : Controller} {p : Packet} {stage : Stage} (hm : c.miss = some ⟨p, stage⟩)
    (hr : c.response = none) : p.needsResponse = true ↔ Awaited c := by
  simp [Awaited, hm, hr]

theorem Move.waiting {s t : Simulation σ} {a : Option Acceptance} (hs : s.Sound) (h : s.Move a t) :
    t.requester.waiting = true ↔ Awaited t.controller := by
  have hw := hs.waiting
  cases h with
  | wake | release => exact hw
  | refuse _ _ next =>
    obtain ⟨hf, _, _, hf', _⟩ := Requester.next_some next
    rw [Requester.rejected, hf', ← hf]
    exact hw
  | bypass _ _ next _ kind =>
    have hn := Packet.needsResponse_of_other (hs.isRequest next) kind
    rw [Requester.accepted, hn, ← (Requester.next_some next).1]
    exact hw
  | hit _ _ _ idle =>
    obtain ⟨_, hm, hr, _⟩ := hs.phase.of_idle idle
    exact awaited_finish _ _ _ _ hm hr
  | miss _ _ _ idle =>
    obtain ⟨_, _, hr, _⟩ := hs.phase.of_idle idle
    exact awaited_missing (c := { s.controller with miss := _, status := .awaitFetch }) rfl hr
  | deliver pop =>
    obtain ⟨_, hm, _⟩ := (hs.phase_of_pop pop rfl).of_deliver
    simp [Requester.receive, Awaited, hm]
  | fill pop miss =>
    obtain ⟨_, _, hr, _⟩ := hs.fetched pop miss
    exact (hw.trans (awaited_missing miss hr).symm).trans (awaited_finish _ _ _ _ rfl hr)
  | evict pop miss =>
    obtain ⟨_, _, hr, _⟩ := hs.fetched pop miss
    exact (hw.trans (awaited_missing miss hr).symm).trans
      (awaited_missing (c := { s.controller.consulted with miss := _, status := .awaitWriteback }) rfl hr)
  | acknowledge pop miss =>
    obtain ⟨_, _, hr, _⟩ := (hs.phase_of_pop pop rfl).of_writingBack miss
    exact (hw.trans (awaited_missing miss hr).symm).trans (awaited_finish _ _ _ _ rfl hr)

/-- A requester that could go on is offered to: an offer is pending, or owed by the controller. -/
def Stirred (s : Simulation σ) : Prop :=
  s.requester.waiting = false → 0 < s.requester.remaining →
    s.agenda.Offers ∨ s.controller.retryOwed = true

theorem offers_followUp (a : Agenda) (gap : Tick) {r : Requester} {p : Packet}
    (hw : p.needsResponse = false) (hr : 0 < r.remaining) : (a.followUp gap r p).Offers := by
  rw [Agenda.followUp, hw]
  exact Agenda.offers_offerNext a gap hr

theorem Move.stirred {s t : Simulation σ} {a : Option Acceptance} (hs : s.Sound) (h : s.Move a t) :
    Stirred t := by
  intro hw hr
  cases h with
  | wake _ _ next =>
    rcases Requester.next_none next with h | h
    · rw [h] at hw; cases hw
    · exact absurd h (Nat.pos_iff_ne_zero.mp hr)
  | refuse => exact .inr rfl
  | bypass | hit | miss => exact .inl (offers_followUp _ _ hw hr)
  | deliver => exact .inl (Agenda.offers_offerNext _ _ hr)
  | release pop =>
    refine .inl ?_
    unfold Agenda.retried
    split
    · exact Agenda.offers_schedule _ _ rfl
    · next hn => exact ((hs.wake hw hr).resolve_right hn).of_pop pop rfl
  | fill pop | evict pop | acknowledge pop =>
    exact (hs.wake hw hr).imp (fun h => (h.of_pop pop rfl).schedule _ _) id

/-- Every move keeps a simulation sound. -/
theorem Sound.move {s t : Simulation σ} {a : Option Acceptance} (hs : s.Sound) (h : s.Move a t) :
    t.Sound :=
  ⟨h.grid hs, h.policy hs, h.phase hs, h.requests hs, h.missing hs, h.waiting hs, h.stirred hs⟩

/-- A step that returns leaves a simulation sound. -/
theorem Sound.step {s t : Simulation σ} {r : Except (Failure ProtocolError) Bool} (hs : s.Sound)
    (h : s.step = (t, r)) (hr : Returns r) : t.Sound := by
  rcases outcome_of_step hs h with ⟨_, rfl, _⟩ | ⟨_, hm⟩ | ⟨f, hf, _⟩
  · exact hs
  · exact hs.move hm
  · exact (hr f hf).elim

end Simulation

end WritebackCache
