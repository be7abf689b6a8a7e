import WritebackCache.Proofs.Ordering

/-! Who waits for whom. In every state that a run comes to, the status of the controller settles what is
outstanding, which events other than offers are still to come and what they carry; the requester waits
exactly as long as the request in service owes it a response; and a requester that could go on is
woken, by an offer that is entered already or by the retry that the controller owes. -/

namespace WritebackCache

namespace FlatMemory

theorem needsResponse_of_mem {m : FlatMemory} {requests : List Packet} {q : Packet}
    (h : q ∈ m.responses requests) : q.needsResponse = true := by
  induction requests generalizing m with
  | nil => cases h
  | cons p rest ih =>
    rw [responses] at h
    split at h
    · next hp =>
      rcases List.mem_cons.mp h with rfl | h
      · rw [(m.response_answers p).needsResponse]
        exact hp
      · exact ih h
    · exact ih h

end FlatMemory

namespace Agenda

theorem offers_iff {a : Agenda} : a.Offers ↔
    ∃ tick, (tick, Event.issue) ∈ a.order ∨ (tick, Event.retry) ∈ a.order := by
  constructor
  · rintro ⟨⟨tick, event⟩, hx, ho⟩
    cases event with
    | issue => exact ⟨tick, .inl hx⟩
    | retry => exact ⟨tick, .inr hx⟩
    | deliver | unblock | memoryResponse _ => cases ho
  · rintro ⟨tick, hx | hx⟩
    · exact ⟨_, hx, rfl⟩
    · exact ⟨_, hx, rfl⟩

end Agenda

/-! ## What a status says -/

theorem Phase.of_served {c : Controller} {m : SparseMemory} {due : List Event} (h : Phase c m due)
    (hs : c.status = .hitPending ∨ c.status = .unblockPending) : c.miss = none ∧
      ((due = [.deliver] ∧ c.response.isSome = true) ∨ (due = [.unblock] ∧ c.response = none)) := by
  cases h with
  | idle status => rw [status] at hs; rcases hs with h | h <;> cases h
  | delivering _ miss response => exact ⟨miss, .inl ⟨rfl, by rw [response]; rfl⟩⟩
  | releasing _ miss response => exact ⟨miss, .inr ⟨rfl, response⟩⟩
  | fetching status | writingBack status => rw [status] at hs; rcases hs with h | h <;> cases h

theorem Phase.of_awaitFetch {c : Controller} {m : SparseMemory} {due : List Event}
    (h : Phase c m due) (hs : c.status = .awaitFetch) : ∃ p q, c.miss = some ⟨p, .fetching⟩ ∧
      c.response = none ∧ due = [.memoryResponse q] ∧ q.isRead = true ∧ q.isResponse = true ∧
      q.size = blockSize ∧ q.block = p.block := by
  cases h with
  | idle status => rw [hs] at status; cases status
  | delivering status | releasing status => rw [hs] at status; rcases status with h | h <;> cases h
  | @fetching p _ miss response =>
    have hsize := Packet.size_filledFrom (Packet.blockRead p.block) (m.readBlock p.block)
    exact ⟨p, _, miss, response, rfl, rfl, rfl, hsize.trans List.length_replicate,
      Packet.block_blockRead p.addr.inSpace_block⟩
  | writingBack status => rw [hs] at status; cases status

theorem Phase.of_awaitWriteback {c : Controller} {m : SparseMemory} {due : List Event}
    (h : Phase c m due) (sound : c.grid.Sound) (hs : c.status = .awaitWriteback) :
    ∃ p way victim fetched q, c.miss = some ⟨p, .writingBack way victim fetched⟩ ∧
      c.response = none ∧ way < c.grid.ways ∧ due = [.memoryResponse q] ∧ q.isWrite = true ∧
      q.isResponse = true ∧ q.block = victim ∧
      victim = (c.grid.cell (c.grid.setOf p.block) way).tag := by
  cases h with
  | idle status => rw [hs] at status; cases status
  | delivering status | releasing status => rw [hs] at status; rcases status with h | h <;> cases h
  | fetching status => rw [hs] at status; cases status
  | @writingBack p way victim _ miss response _ inSet held =>
    obtain ⟨hv, ht⟩ := Grid.holds_iff.mp held
    have hspace : victim.InSpace := ht ▸ sound.inSpace (Grid.has_setOf inSet p.block) hv
    have hblock := Packet.block_blockWrite hspace (c.grid.cell (c.grid.setOf p.block) way).data
    exact ⟨p, way, victim, _, _, miss, response, inSet, rfl, rfl, rfl, hblock, ht.symm⟩

namespace Simulation

variable {σ : Type}

/-- What each status of the controller says about the rest of the machine, and what the requester
waits for. -/
structure Handshake (s : Simulation σ) : Prop where
  /-- Nothing is under way, and no event but offers is to come. -/
  idle : s.controller.status = .idle →
    s.agenda.due = [] ∧ s.controller.miss = none ∧ s.controller.response = none ∧
      s.controller.retryOwed = false
  /-- A request was served: its response waits to be delivered, or it has none and the release is to
  come. -/
  served : s.controller.status = .hitPending ∨ s.controller.status = .unblockPending →
    s.controller.miss = none ∧
      ((s.agenda.due = [.deliver] ∧ s.controller.response.isSome = true) ∨
        (s.agenda.due = [.unblock] ∧ s.controller.response = none))
  /-- A miss waits for its block, without a way: the whole block is to come. -/
  fetching : s.controller.status = .awaitFetch → ∃ p q,
    s.controller.miss = some ⟨p, .fetching⟩ ∧ s.controller.response = none ∧
      s.agenda.due = [.memoryResponse q] ∧ q.isRead = true ∧ q.isResponse = true ∧
      q.size = blockSize ∧ q.block = p.block
  /-- A miss waits for the line in its way to be written back: the acknowledgement for the block in
  that line is to come. -/
  writingBack : s.controller.status = .awaitWriteback → ∃ p way victim fetched q,
    s.controller.miss = some ⟨p, .writingBack way victim fetched⟩ ∧ s.controller.response = none ∧
      way < s.controller.grid.ways ∧ s.agenda.due = [.memoryResponse q] ∧ q.isWrite = true ∧
      q.isResponse = true ∧ q.block = victim ∧
      victim = (s.controller.grid.cell (s.controller.grid.setOf p.block) way).tag
  waiting : s.requester.waiting = true ↔
    (∃ x, s.controller.miss = some x ∧ x.request.needsResponse = true) ∨
      ∃ q, s.controller.response = some q ∧ q.needsResponse = true
  wake : s.requester.waiting = false → 0 < s.requester.remaining →
    (∃ tick, (tick, Event.issue) ∈ s.agenda.order ∨ (tick, Event.retry) ∈ s.agenda.order) ∨
      s.controller.retryOwed = true

/-- A sound machine whose waiting response belongs to a request that expects one. -/
theorem Sound.handshake {s : Simulation σ} (hs : s.Sound)
    (expected : ∀ q, s.controller.response = some q → q.needsResponse = true) : s.Handshake where
  idle := hs.phase.of_idle
  served := hs.phase.of_served
  fetching := hs.phase.of_awaitFetch
  writingBack := hs.phase.of_awaitWriteback hs.grid
  waiting := by
    rw [hs.waiting, Option.isSome_iff_exists, or_comm]
    refine or_congr_right ⟨?_, ?_⟩
    · rintro ⟨q, hq⟩
      exact ⟨q, hq, expected q hq⟩
    · rintro ⟨q, hq, _⟩
      exact ⟨q, hq⟩
  wake := fun hw hr => (hs.wake hw hr).imp_left Agenda.offers_iff.mp

variable [LatencyModel σ]

/-- Requester, controller, memory and agenda agree in every state that a run comes to. -/
theorem handshake_of_run {config : CacheConfig} {policy : Policy} {trace : Trace}
    {s t : Simulation σ} {log : List Acceptance} {entered : Nat}
    (fresh : Fresh config policy trace s) (requests : ∀ p ∈ trace.requests, p.IsRequest)
    (inRange : policy.InRange config.ways.toNat) (run : s.Run log entered t) : t.Handshake := by
  have hs := fresh.sound requests inRange
  refine (hs.run run).handshake ?_
  intro q hq
  obtain ⟨served, _, hc⟩ := run.coherent hs fresh.coherent fresh.nothing_outstanding
  have hanswers := hc.answers
  rw [hq] at hanswers
  have hmem : q ∈ (FlatMemory.preloaded trace.preloads).responses served := by
    rw [← hanswers]
    exact List.mem_append_right _ (List.mem_singleton_self q)
  exact FlatMemory.needsResponse_of_mem hmem

theorem handshake_of_run_evicting : ∃ t log, evictor.Run log 1 t ∧
    t.controller.status = .awaitWriteback ∧ t.requester.waiting = true ∧ t.Handshake := by
  have hstep : advance 7 (evictor.inject 5 .issue) =
      ((advance 7 (evictor.inject 5 .issue)).1, .ok ()) := by rfl
  have run := (Run.enter 5 .start rfl).advance hstep
  exact ⟨_, _, run, by rfl, by rfl, handshake_of_run (Fresh.of_configWith evictor_eq).1
    evictions_requests (fun _ _ _ => by decide) run⟩

end Simulation

end WritebackCache
