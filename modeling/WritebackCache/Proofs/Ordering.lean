import Mathlib.Data.List.Forall2
import WritebackCache.Proofs.Coherence

/-! No request is lost, doubled or overtaken. Whatever offers come up, and however often a request is
turned away, the requests accepted so far, the one that is held and those not offered yet are the trace
as it was. The responses received so far answer the requests accepted in their order; only the last of
those that expect a response can be without one. -/

namespace WritebackCache

/-- A packet is the response to another one: of the same address, kind and size, and turned around. -/
structure Packet.Answers (q p : Packet) : Prop where
  addr : q.addr = p.addr
  kind : q.kind = p.kind
  size : q.size = p.size
  needsResponse : q.needsResponse = p.needsResponse
  response : q.isResponse = true

namespace FlatMemory

theorem response_answers (m : FlatMemory) (p : Packet) : (m.response p).Answers p := by
  unfold response
  split
  · exact ⟨rfl, rfl, by simp [Packet.size, read], rfl, rfl⟩
  · exact ⟨rfl, rfl, rfl, rfl, rfl⟩

/-- The requests that expect a response are answered, each by one packet and in their order. -/
theorem responses_answer (m : FlatMemory) (requests : List Packet) :
    List.Forall₂ Packet.Answers (m.responses requests) (requests.filter (·.needsResponse)) := by
  induction requests generalizing m with
  | nil => exact .nil
  | cons p rest ih =>
    rw [responses, List.filter_cons]
    split
    · exact .cons (m.response_answers p) (ih _)
    · exact ih _

end FlatMemory

namespace Simulation

variable {σ : Type} [LatencyModel σ]

/-- All along a run the responses received, and the one that waits, answer the requests served. -/
theorem Run.answered {config : CacheConfig} {policy : Policy} {trace : Trace} {s t : Simulation σ}
    {log : List Acceptance} {entered : Nat} (fresh : Fresh config policy trace s) (hs : s.Sound)
    (run : s.Run log entered t) : ∃ served,
      log.map (·.packet) = served ++ (t.controller.miss.map Miss.request).toList ∧
        List.Forall₂ Packet.Answers
          (t.requester.completions.map (·.packet) ++ t.controller.response.toList)
          (served.filter (·.needsResponse)) := by
  obtain ⟨served, hlog, hc⟩ := run.coherent hs fresh.coherent fresh.nothing_outstanding
  refine ⟨served, hlog, ?_⟩
  rw [hc.answers]
  exact FlatMemory.responses_answer _ served

/-- In every state that a run comes to, the requests accepted, the one held and those not offered yet
are the trace, and the completions are the responses to the first of the requests accepted that expect
one, all of them but at most the last. -/
theorem accepted_before_held_before_queued {config : CacheConfig} {policy : Policy} {trace : Trace}
    {s t : Simulation σ} {log : List Acceptance} {entered : Nat}
    (fresh : Fresh config policy trace s) (requests : ∀ p ∈ trace.requests, p.IsRequest)
    (inRange : policy.InRange config.ways.toNat) (run : s.Run log entered t) :
    log.map (·.packet) ++ t.requester.held.toList ++ t.requester.queue = trace.requests ∧
      t.requester.issued = log.length ∧
      t.requester.remaining + log.length = trace.requests.length ∧
      ∃ answered missing, (log.map (·.packet)).filter (·.needsResponse) = answered ++ missing ∧
        missing.length ≤ 1 ∧
        List.Forall₂ Packet.Answers (t.requester.completions.map (·.packet)) answered := by
  have hs := fresh.sound requests inRange
  obtain ⟨hall, hissued⟩ := run.history hs
  rw [fresh.requester_eq] at hall hissued
  have htrace : log.map (·.packet) ++ (t.requester.held.toList ++ t.requester.queue) =
      trace.requests := hall.symm
  refine ⟨by rw [List.append_assoc]; exact htrace, hissued.trans (Nat.zero_add _), ?_, ?_⟩
  · have hlen := congrArg List.length htrace
    rw [List.length_append, List.length_map, ← Requester.remaining_eq] at hlen
    omega
  · obtain ⟨served, hlog, hanswers⟩ := run.answered fresh hs
    have hlen := hanswers.length_eq
    -- the completions come first among the answers, so they belong to as many requests served
    have hfirst := List.forall₂_take t.requester.completions.length hanswers
    rw [List.take_left' (by rw [List.length_map])] at hfirst
    refine ⟨(served.filter (·.needsResponse)).take t.requester.completions.length,
      (served.filter (·.needsResponse)).drop t.requester.completions.length ++
        ((t.controller.miss.map Miss.request).toList.filter (·.needsResponse)), ?_, ?_, hfirst⟩
    · rw [hlog, List.filter_append, ← List.append_assoc, List.take_append_drop]
    · have hpending : ((t.controller.miss.map Miss.request).toList.filter (·.needsResponse)).length ≤
          (t.controller.miss.map Miss.request).toList.length := List.length_filter_le _ _
      rw [List.length_append, List.length_drop, ← hlen, List.length_append, List.length_map,
        Nat.add_sub_cancel_left]
      rcases (hs.run run).phase.one_at_a_time with h | h
      · rw [h]
        cases t.controller.response <;> simp
      · rw [h, Option.toList_none, List.length_nil, Nat.zero_add]
        refine Nat.le_trans hpending ?_
        cases t.controller.miss <;> simp

/-- A read is refused twice while a write is served. In the end both are accepted, and the read, which is
the one to expect a response, is completed. -/
theorem accepted_before_held_before_queued_refused :
    (∃ t log, evictor.Run log 1 t ∧ log.length = 1 ∧ t.requester.held.isSome = true ∧
      t.stats.retries = 2 ∧
      log.map (·.packet) ++ t.requester.held.toList ++ t.requester.queue = evictor.evictions) ∧
    ∃ t log answered missing, evictor.Run log 1 t ∧ log.map (·.packet) = evictor.evictions ∧
      t.requester.completions.length = 1 ∧
      (log.map (·.packet)).filter (·.needsResponse) = answered ++ missing ∧ missing.length ≤ 1 ∧
      List.Forall₂ Packet.Answers (t.requester.completions.map (·.packet)) answered := by
  have fresh := (Fresh.of_configWith evictor_eq).1
  constructor
  · have hstep : advance 3 (evictor.inject 0 .retry) =
        ((advance 3 (evictor.inject 0 .retry)).1, .ok ()) := by rfl
    have run := (Run.enter 0 .start rfl).advance hstep
    obtain ⟨hall, _⟩ := accepted_before_held_before_queued fresh evictions_requests
      (fun _ _ _ => by decide) run
    exact ⟨_, _, run, by rfl, by rfl, by rfl, hall⟩
  · have hstep : advance 9 (evictor.inject 0 .retry) =
        ((advance 9 (evictor.inject 0 .retry)).1, .ok ()) := by rfl
    have run := (Run.enter 0 .start rfl).advance hstep
    obtain ⟨_, _, _, answered, missing, hsplit, hone, hanswers⟩ :=
      accepted_before_held_before_queued fresh evictions_requests (fun _ _ _ => by decide) run
    exact ⟨_, _, answered, missing, run, by rfl, by rfl, hsplit, hone, hanswers⟩

end Simulation

end WritebackCache
