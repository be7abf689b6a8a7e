import WritebackCache.Proofs.Coherence
import WritebackCache.Proofs.Counters

/-! What a run answers. At the end of a run every request was served and every answer delivered, so the
requester holds what the flat memory answers to the trace: one response for each request that expects
one, in the order of the trace, whatever the geometry, the timing, the policy and the offers entered by
hand. A run comes to its end unless the latency of memory or a counter leaves the word. -/

namespace WritebackCache.Simulation

/-- Once nothing is left to come up, the completions are the answers of the flat memory to the trace. -/
theorem Coherent.answered {σ : Type} {m : FlatMemory} {served : List Packet} {s : Simulation σ}
    (h : Coherent m served s) (hr : s.controller.response = none) :
    s.requester.completions.map (·.packet) = m.responses served := by
  have hanswers := h.answers
  rwa [hr, Option.toList_none, List.append_nil] at hanswers

/-- A run that returns has answered the trace as the flat memory does, whatever offers were entered
before; and it returns if latencies fit into a word and requests and offers into the counters. -/
theorem completions_are_flat_responses {config : Config} {policy : Policy} {trace : Trace}
    {s t : Simulation Timing} {log : List Acceptance} {entered : Nat}
    (assembled : ofConfigWith config policy trace = .ok s)
    (requests : ∀ p ∈ trace.requests, p.IsRequest)
    (inRange : policy.InRange config.cache.ways.toNat) (run : s.Run log entered t) :
    (∀ u stats, t.run = (u, .ok stats) → u.requester.completions.map (·.packet) =
      (FlatMemory.preloaded trace.preloads).responses trace.requests) ∧
      (config.memory.Steady → 2 * trace.requests.length + entered + 2 < UInt64.size →
        ∃ u stats, t.run = (u, .ok stats)) := by
  obtain ⟨fresh, _⟩ := Fresh.of_configWith assembled
  have hs := fresh.sound requests inRange
  refine ⟨?_, returns_of_configWith assembled requests inRange run⟩
  intro u stats h
  obtain ⟨v, hv, hm, hr, hall, rfl, _⟩ := fresh.end_of_run hs run h
  obtain ⟨served, hlog, hc⟩ := hv.coherent hs fresh.coherent fresh.nothing_outstanding
  rw [hm, Option.map_none, Option.toList_none, List.append_nil, hall] at hlog
  rw [hlog]
  exact hc.answered hr

theorem completions_are_flat_responses_evicting :
    ∃ u stats, (evictor.inject 5 .issue).run = (u, .ok stats) ∧
      u.requester.completions.map (·.packet) = FlatMemory.zero.responses evictor.evictions := by
  have run : evictor.Run [] 1 (evictor.inject 5 .issue) := .enter 5 .start rfl
  obtain ⟨hanswers, hreturns⟩ := completions_are_flat_responses evictor_eq evictions_requests
    (fun _ _ _ => by decide) run
  obtain ⟨u, stats, h⟩ := hreturns (fun hd => by cases hd) (by decide)
  exact ⟨u, stats, h, hanswers u stats h⟩

end WritebackCache.Simulation
