import Mathlib.Algebra.Ring.Nat
import WritebackCache.Proofs.Ordering
import WritebackCache.Proofs.Tally

/-! How a run ends. Work is left to every state and each event uses some of it up, so a run comes to an
empty agenda; and then no request is left over, because one that could go on would be offered. The
controller is free, the requester is done, and the counters account for each request of the trace. No
step of a run is refused. What can stop one is the counter of retries, which only offers entered by hand
could fill. -/

namespace WritebackCache

theorem Requester.isDone_of_left {r : Requester} (hw : r.waiting = false)
    (hl : r.held.toList ++ r.queue = []) : r.isDone = true := by
  obtain ⟨hh, hq⟩ := List.append_eq_nil_iff.mp hl
  rw [isDone, hw, hq, Option.toList_eq_nil_iff.mp hh]
  rfl

namespace Simulation

variable {σ : Type}

/-- A run over a trace has come to its end: nothing is left over, and every request of the trace is
accounted for. -/
structure Concluded (trace : Trace) (s : Simulation σ) : Prop where
  agenda : s.agenda.isEmpty = true
  status : s.controller.status = .idle
  miss : s.controller.miss = none
  response : s.controller.response = none
  retry : s.controller.retryOwed = false
  done : s.requester.isDone = true
  issued : s.requester.issued = trace.requests.length
  requests : s.stats.requests.toNat = trace.requests.length
  lookups : s.stats.hits.toNat + s.stats.misses.toNat + s.stats.bypassed.toNat =
    s.stats.requests.toNat
  bypassed : s.stats.bypassed.toNat = trace.requests.countP (·.kind = .other)
  fetches : s.stats.fetches = s.stats.misses
  /-- One response to each request that expects one, in the order of the trace. -/
  completions : List.Forall₂ Packet.Answers (s.requester.completions.map (·.packet))
    (trace.requests.filter (·.needsResponse))

variable [LatencyModel σ]

/-- A run of a sound machine is never refused anything. -/
theorem Sound.fault_of_run {s u : Simulation σ} {why : Failure ProtocolError} (hs : s.Sound)
    (h : s.run = (u, .error why)) : ∃ f, why = .fault f := by
  obtain ⟨f, hf, _⟩ := hs.exhausted_of_run .start h
  exact ⟨f, hf⟩

/-- Once a run has returned, it is concluded. -/
theorem Fresh.concluded {config : CacheConfig} {policy : Policy} {trace : Trace}
    {s t u : Simulation σ} {log : List Acceptance} {entered : Nat} {stats : Stats}
    (fresh : Fresh config policy trace s) (hs : s.Sound) (unlogged : s.memory.log = [])
    (run : s.Run log entered t) (h : t.run = (u, .ok stats)) :
    u.stats = stats ∧ u.Concluded trace := by
  obtain ⟨v, hadvance, hempty, rfl, hstats⟩ := advance_of_run h
  have hv := run.advance hadvance
  generalize log ++ observed acceptance? (t.work + 1) t = accepted at hv
  have sound := hs.run hv
  obtain ⟨status, miss, response, waiting, left⟩ := sound.finished hempty
  have tally := hv.tallied hs (fresh.tallied unlogged)
  -- nothing is left to offer, so what was accepted is the whole trace
  obtain ⟨hall, hissued⟩ := hv.history hs
  rw [left, List.append_nil, fresh.requester_eq] at hall
  rw [fresh.requester_eq] at hissued
  have htrace : trace.requests = accepted.map (·.packet) := hall
  have hlength : trace.requests.length = accepted.length := by rw [htrace, List.length_map]
  obtain ⟨served, hserved, hanswers⟩ := hv.answered fresh hs
  rw [miss, Option.map_none, Option.toList_none, List.append_nil, ← htrace] at hserved
  rw [response, Option.toList_none, List.append_nil, ← hserved] at hanswers
  refine ⟨rfl, hempty, status, miss, response, (sound.phase.of_idle status).2.2.2,
    Requester.isDone_of_left waiting left, ?_, ?_, ?_, ?_, ?_, hanswers⟩
  · rw [hlength]
    exact hissued.trans (Nat.zero_add _)
  · rw [hlength, hstats]
    exact tally.requests
  · rw [hstats]
    exact tally.lookups.trans tally.requests.symm
  · rw [htrace, hstats]
    exact tally.bypassed_eq
  · rw [hstats]
    show UInt64.ofNat v.memory.fetches = v.stats.misses
    rw [tally.fetches, ← tally.met .miss]
    exact UInt64.ofNat_toNat

/-- A machine that goes on from any state of a run over fewer than 2^60 requests concludes, whatever
offers were entered by hand. The only other end is a fault, and it takes 2^63 offers or more to fill the
counter of retries. -/
theorem run_concludes {config : Config} {policy : Policy} {trace : Trace} {s t : Simulation Timing}
    {log : List Acceptance} {entered : Nat} (assembled : ofConfigWith config policy trace = .ok s)
    (requests : ∀ p ∈ trace.requests, p.IsRequest)
    (inRange : policy.InRange config.cache.ways.toNat) (steady : config.memory.Steady)
    (few : trace.requests.length < 2 ^ 60) (run : s.Run log entered t) :
    (∃ u, t.run = (u, .ok u.stats) ∧ u.Concluded trace) ∨
      (2 ^ 63 ≤ entered ∧ ∃ u f, t.run = (u, .error (.fault f))) := by
  obtain ⟨fresh, _, _, unlogged, _⟩ := Fresh.of_configWith assembled
  have hs := fresh.sound requests inRange
  cases h : t.run with
  | mk u r =>
  cases r with
  | ok stats =>
    obtain ⟨rfl, hu⟩ := fresh.concluded hs unlogged run h
    exact .inl ⟨u, rfl, hu⟩
  | error why =>
    obtain ⟨f, rfl⟩ := (hs.run run).fault_of_run h
    refine .inr ⟨?_, u, f, rfl⟩
    by_contra hfew
    have hroom : 2 * trace.requests.length + entered + 2 < UInt64.size := by
      rw [show UInt64.size = 2 ^ 64 from rfl]
      omega
    obtain ⟨v, stats, hv⟩ := returns_of_configWith assembled requests inRange run steady hroom
    rw [h] at hv
    cases hv

/-- One line, memory that takes until the end of time, and no delay anywhere else. -/
def saturated : Simulation Timing :=
  ofParts { grid := .oneSet 1 Nat.one_pos, policy := fun _ _ => 0, latency := 0 }
    (.empty (.fixed 18446744073709551615)) { queue := requests } 0
where
  requests : List Packet :=
    [.byte ⟨0⟩ .write 7 false, .byte ⟨64⟩ .read 0 true, .other ⟨0⟩, .byte ⟨0⟩ .write 8 true]

theorem run_concludes_saturated :
    ∃ u, ((saturated.inject 0 .retry).inject 18446744073709551615 .issue).run = (u, .ok u.stats) ∧
      u.Concluded { requests := saturated.requests } := by
  have assembled : ofConfigWith
      { cache := { sizeBytes := 64, ways := 1, latency := 0 },
        memory := { latency := 18446744073709551615 }, requester := { issueGap := 0 } }
      (fun _ _ => 0) { requests := saturated.requests } = .ok saturated := by rfl
  have requests : ∀ p ∈ saturated.requests, p.IsRequest := by
    simp only [saturated.requests, List.forall_mem_cons]
    refine ⟨?_, ?_, .other, ?_, fun _ h => by cases h⟩
    · exact @Packet.IsRequest.postedWrite ⟨0⟩ [7] _ rfl
    · exact @Packet.IsRequest.read ⟨64⟩ 1 _ rfl
    · exact @Packet.IsRequest.write ⟨0⟩ [8] _ rfl
  have run : saturated.Run [] 2 ((saturated.inject 0 .retry).inject 18446744073709551615 .issue) :=
    .enter _ (.enter _ .start rfl) rfl
  rcases run_concludes assembled requests (fun _ _ _ => by decide) (fun h => by cases h) (by decide)
    run with h | ⟨h, _⟩
  · exact h
  · omega

end Simulation

end WritebackCache
