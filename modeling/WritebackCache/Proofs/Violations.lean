import WritebackCache.Bench
import WritebackCache.Proofs.Calls

/-! Answers that break the contract with memory. There are four kinds of them, and each has its own reason
to fail; an answer that is none of them succeeds. A failure costs the outstanding miss and nothing else:
a line that was to be written back stays dirty, and nothing is sent or entered. The controller is then
blocked without a miss, and so refuses every request and every answer until it is released. -/

namespace WritebackCache

/-- The call makes the controller free: a release that succeeds, by itself or after a delivery. -/
def Exchange.releases (x : Exchange) : Bool :=
  match x.call with
  | .deliver | .unblock => x.failure.isNone
  | .request _ | .answer _ => false

namespace Controller

/-- An answer that the controller cannot have asked for, and the reason to refuse it. -/
inductive Violation (c : Controller) (q : Packet) : ProtocolError → Prop
  | unexpected (nothing : c.miss = none) : Violation c q (.unexpectedResponse q.addr)
  | mismatched {p} (awaited : c.miss = some ⟨p, .fetching⟩)
      (other : ¬ (q.isRead = true ∧ q.block = p.block)) :
      Violation c q (.mismatchedResponse p.block q.block)
  /-- The fetched block is there, but the policy names a way that the set does not have. -/
  | outside {p} (awaited : c.miss = some ⟨p, .fetching⟩) (read : q.isRead = true)
      (block : q.block = p.block) (beyond : ¬ c.victim p < c.grid.ways) :
      Violation c q (.victimOutOfRange (c.victim p) c.grid.ways)
  | unacknowledged {p way victim fetched} (awaited : c.miss = some ⟨p, .writingBack way victim fetched⟩)
      (other : ¬ (q.isWrite = true ∧ q.block = victim)) : Violation c q (.unexpectedAck q.addr)

/-- Blocked, but with no miss outstanding that an answer could end. -/
structure Stalled (c : Controller) : Prop where
  blocked : c.status ≠ .idle
  nothing : c.miss = none

variable {c : Controller} {q : Packet} {x : Exchange}

theorem Violation.not_dirtyOverwrite {reason : ProtocolError} (h : c.Violation q reason) (set way : Nat)
    (tag : BlockNumber) : reason ≠ .dirtyOverwrite set way tag := by
  cases h <;> exact ProtocolError.noConfusion

/-- A violation fails, with its own reason, and costs the outstanding miss. -/
theorem Violation.fails {reason : ProtocolError} (h : c.Violation q reason) :
    ∃ asked, c.answer q = .failed { c with miss := none, asked } (.refused reason) := by
  cases h with
  | unexpected nothing =>
    have same : c = { c with miss := none, asked := c.asked } := by rw [← nothing]
    exact ⟨c.asked, (answer_stray q nothing).trans (by rw [← same])⟩
  | mismatched awaited other => exact ⟨c.asked, answer_mismatched awaited other⟩
  | outside awaited read block beyond => exact ⟨c.asked + 1, answer_outside awaited read block beyond⟩
  | unacknowledged awaited other => exact ⟨c.asked, answer_unacknowledged awaited other⟩

/-- What fails is a violation. -/
theorem Effect.violation (effect : c.Effect x) (call : x.call = .answer q)
    {why : Failure ProtocolError} (failed : x.failure = some why) :
    ∃ reason, why = .refused reason ∧ c.Violation q reason := by
  cases effect with
  | stray nothing =>
    cases call
    cases failed
    exact ⟨_, rfl, .unexpected nothing⟩
  | mismatch awaited other =>
    cases call
    cases failed
    exact ⟨_, rfl, .mismatched awaited other⟩
  | outside awaited read block beyond =>
    cases call
    cases failed
    exact ⟨_, rfl, .outside awaited read block beyond⟩
  | unacknowledged awaited other =>
    cases call
    cases failed
    exact ⟨_, rfl, .unacknowledged awaited other⟩
  | fill | evict | acknowledge => cases failed
  | _ => cases call

/-- A controller with a miss outstanding is blocked, and stays so when it loses the miss. -/
theorem Secure.stalled (h : c.Secure) (outstanding : c.miss ≠ none) (asked : Nat) :
    Stalled { c with miss := none, asked } := by
  refine ⟨fun idle => outstanding (h.nothing idle), rfl⟩

/-- Only a release ends the stall. -/
theorem Stalled.after (h : c.Stalled) (effect : c.Effect x) (held : x.releases = false) :
    x.after.Stalled := by
  cases effect with
  | busy | stray | undelivered => exact ⟨h.blocked, h.nothing⟩
  | bypass idle | hit idle | miss idle => exact (h.blocked idle).elim
  | mismatch awaited | outside awaited | fill awaited | evict awaited | unacknowledged awaited
  | acknowledge awaited =>
    rw [h.nothing] at awaited
    cases awaited
  | lost _ outstanding | unreleased outstanding => exact (outstanding h.nothing).elim
  | deliver | release => cases held

theorem Stalled.afterCalls (h : c.Stalled) (secure : c.Secure) {calls : List Call}
    (held : ∀ x ∈ c.exchanges calls, x.releases = false) : (c.afterCalls calls).Stalled := by
  induction calls generalizing c with
  | nil => exact h
  | cons call rest ih =>
    have effect := secure.effect call
    have here := held _ List.mem_cons_self
    exact ih (h.after effect here) (secure.after effect) fun x hx => held x (.tail _ hx)

end Controller

namespace Bench

open Controller

theorem react_error_iff {α : Type} {b : Bench} {r : Reaction α} {call : Call}
    {why : Failure ProtocolError} : (b.react r).2 = .error why ↔
      (r.exchange call b.controller).failure = some why := by
  cases r <;> simp [react, Reaction.exchange]

/-- After any calls whatever, an answer fails exactly if it is a violation, with the reason of that
violation, which is never that a dirty line would be overwritten. A failure leaves grid, status, waiting
response and owed retry as they were, and agenda and port too; only the miss is gone. If there was one,
every request and every answer is refused up to the next release that succeeds. -/
theorem answer_fails_iff {config : CacheConfig} {policy : Policy} {c : Controller} {b : Bench}
    (calls : List Call) (assembled : ofConfig config policy = .ok c)
    (reached : c.afterCalls calls = b.controller) (q : Packet) :
    (∀ why, (b.answer q).2 = .error why ↔
      ∃ reason, why = .refused reason ∧ b.controller.Violation q reason) ∧
      (∀ set way tag, (b.answer q).2 ≠ .error (.refused (.dirtyOverwrite set way tag))) ∧
      ∀ why, (b.answer q).2 = .error why →
        (∃ asked, (b.answer q).1 = { b with controller := { b.controller with miss := none, asked } }) ∧
        (b.controller.miss ≠ none → ∀ later,
          (∀ x ∈ (b.answer q).1.controller.exchanges later, x.releases = false) →
          ∀ d, (b.answer q).1.controller.afterCalls later = d →
            (∀ p, d.request p = .done { d with retryOwed := true } none (.busy p)) ∧
            ∀ r, d.answer r = .failed d (.refused (.unexpectedResponse r.addr))) := by
  have secure : b.controller.Secure := reached ▸ (Secure.of_config assembled).afterCalls calls
  have iff (why : Failure ProtocolError) : (b.answer q).2 = .error why ↔
      ∃ reason, why = .refused reason ∧ b.controller.Violation q reason := by
    refine ⟨fun failed => ?_, fun ⟨reason, same, violation⟩ => ?_⟩
    · exact (secure.effect (.answer q)).violation (call_exchange ..) (react_error_iff.mp failed)
    · obtain ⟨_, answered⟩ := violation.fails
      rw [Bench.answer, answered, same]
      rfl
  refine ⟨iff, ?_, ?_⟩
  · intro set way tag failed
    obtain ⟨reason, same, violation⟩ := (iff _).mp failed
    cases same
    exact violation.not_dirtyOverwrite set way tag rfl
  · intro why failed
    obtain ⟨reason, rfl, violation⟩ := (iff _).mp failed
    obtain ⟨asked, answered⟩ := violation.fails
    have lost : (b.answer q).1 = { b with controller := { b.controller with miss := none, asked } } := by
      rw [Bench.answer, answered]
      rfl
    rw [lost]
    refine ⟨⟨asked, rfl⟩, fun outstanding later held d after => ?_⟩
    have stalled : d.Stalled := after ▸
      (secure.stalled outstanding asked).afterCalls (.of_nothing secure.grid rfl) held
    exact ⟨fun p => request_busy p stalled.blocked, fun r => answer_stray r stalled.nothing⟩

/-- A dirty line is to be written back, and memory hands out its block in place of the acknowledgement. -/
theorem answer_fails_iff_erratic : ∃ b : Bench, b.controller.awaitingWriteback = true ∧
    (b.answer (.blockRead ⟨0⟩)).2 = .error (.refused (.unexpectedAck ⟨0⟩)) ∧
    (b.answer (.blockRead ⟨0⟩)).1.controller.grid = b.controller.grid ∧
    (b.answer (.blockRead ⟨0⟩)).1.outstanding = b.outstanding := by
  let b : Bench := { controller := erratic.afterCalls unruly }
  obtain ⟨iff, _, frame⟩ := answer_fails_iff (b := b) unruly erratic_eq rfl (.blockRead ⟨0⟩)
  have failed : (b.answer (.blockRead ⟨0⟩)).2 = .error (.refused (.unexpectedAck ⟨0⟩)) :=
    (iff _).mpr ⟨_, rfl, @Violation.unacknowledged _ _ unruly.read 0 ⟨0⟩ .zero (by rfl) (by decide)⟩
  obtain ⟨⟨_, lost⟩, _⟩ := frame _ failed
  exact ⟨b, by rfl, failed, by rw [lost], by rw [lost]⟩

end Bench

end WritebackCache
