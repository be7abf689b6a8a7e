import WritebackCache.Proofs.Counters

/-! What the counters count. All along a run there is one counter for each thing that a request can meet
with, and each of them has counted the requests accepted so far that met with it; memory has fetched
once for each miss, and a request bypasses the cache exactly if it is neither read nor write. -/

namespace WritebackCache

namespace Stats

/-- The counter of the requests that met with something. -/
def met (s : Stats) : Lookup → UInt64
  | .hit => s.hits
  | .miss => s.misses
  | .bypass => s.bypassed

theorem met_of_count {s t : Stats} {lookup : Lookup} (h : s.count lookup = .ok t) (kind : Lookup) :
    (t.met kind).toNat = (s.met kind).toNat + if lookup = kind then 1 else 0 := by
  cases lookup with
  | hit =>
    obtain ⟨n, hn, rfl⟩ := map_eq_ok.mp h
    cases kind with
    | hit => exact Word.toNat_of_add hn
    | miss | bypass => rfl
  | miss =>
    obtain ⟨n, hn, rfl⟩ := map_eq_ok.mp h
    cases kind with
    | miss => exact Word.toNat_of_add hn
    | hit | bypass => rfl
  | bypass =>
    obtain ⟨n, hn, rfl⟩ := map_eq_ok.mp h
    cases kind with
    | bypass => exact Word.toNat_of_add hn
    | hit | miss => rfl

theorem met_of_record {s t : Stats} {lookup : Lookup} (h : s.record lookup = (t, .ok ()))
    (kind : Lookup) :
    (t.met kind).toNat = (s.met kind).toNat + if lookup = kind then 1 else 0 := by
  unfold record at h
  split at h
  · cases h
  · dsimp only at h
    split at h
    · cases h
    · next requests _ _ _ hc =>
      cases h
      have hsame : met { s with requests } kind = s.met kind := by cases kind <;> rfl
      rw [met_of_count hc kind, hsame]

end Stats

theorem Memory.Took.fetches {σ : Type} [LatencyModel σ] {m after : Memory σ} {op : MemoryOp}
    {block : BlockNumber} {now latency done : Tick} (h : m.Took after op block now latency done) :
    after.fetches = m.fetches + if op = .fetch then 1 else 0 := by
  rw [Memory.fetches, h.logged, List.countP_append, List.countP_singleton]
  simp [Memory.fetches]

namespace Simulation

variable {σ : Type}

/-- The counters of a run that began with all of them at zero, beside the requests accepted. -/
structure Tallied (log : List Acceptance) (s : Simulation σ) : Prop where
  requests : s.stats.requests.toNat = log.length
  lookups : s.stats.hits.toNat + s.stats.misses.toNat + s.stats.bypassed.toNat = log.length
  met : ∀ kind, (s.stats.met kind).toNat = log.countP (·.lookup = kind)
  fetches : s.memory.fetches = log.countP (·.lookup = .miss)
  bypassed : ∀ x ∈ log, x.lookup = .bypass ↔ x.packet.kind = .other

theorem Fresh.tallied {config : CacheConfig} {policy : Policy} {trace : Trace} {s : Simulation σ}
    (fresh : Fresh config policy trace s) (log : s.memory.log = []) : Tallied [] s := by
  refine ⟨?_, ?_, fun kind => ?_, ?_, fun x hx => by cases hx⟩
  · rw [fresh.stats_eq]; rfl
  · rw [fresh.stats_eq]; rfl
  · rw [fresh.stats_eq]; cases kind <;> rfl
  · rw [Memory.fetches, log]; rfl

/-- The counter of what bypassed the cache is the number of requests that are neither read nor write. -/
theorem Tallied.bypassed_eq {s : Simulation σ} {log : List Acceptance} (h : Tallied log s) :
    s.stats.bypassed.toNat = (log.map (·.packet)).countP (·.kind = .other) := by
  rw [List.countP_map, show s.stats.bypassed.toNat = _ from h.met .bypass]
  refine List.countP_congr ?_
  intro x hx
  simp only [Function.comp, decide_eq_true_eq]
  exact h.bypassed x hx

variable [LatencyModel σ]

/-- A move counts the request that it accepts under what the request met with, and no other. -/
theorem Move.met {s t : Simulation σ} {a : Option Acceptance} (h : s.Move a t) (kind : Lookup) :
    (t.stats.met kind).toNat = (s.stats.met kind).toNat + a.toList.countP (·.lookup = kind) := by
  cases h with
  | wake | deliver | release | fill | evict | acknowledge => cases kind <;> rfl
  | refuse _ _ _ _ counted =>
    obtain ⟨_, _, hh, hm, hb⟩ := Stats.retried counted
    cases kind
    · exact congrArg UInt64.toNat hh
    · exact congrArg UInt64.toNat hm
    · exact congrArg UInt64.toNat hb
  | bypass _ _ _ _ _ counted | hit _ _ _ _ _ _ counted | miss _ _ _ _ _ _ _ counted =>
    have hmet := Stats.met_of_record counted kind
    rw [Option.toList_some, List.countP_singleton]
    simp only [decide_eq_true_eq]
    rw [← hmet]
    cases kind <;> rfl

/-- Memory fetches at a miss, and a miss fetches. -/
theorem Move.fetches {s t : Simulation σ} {a : Option Acceptance} (hs : s.Sound) (h : s.Move a t) :
    t.memory.fetches = s.memory.fetches + a.toList.countP (·.lookup = .miss) := by
  rcases h.memory hs with ⟨same, none⟩ | ⟨_, _, _, _, _, took, met⟩
  · rw [same, none, Nat.add_zero]
  · rw [took.fetches, met]

/-- What bypasses the cache is neither read nor write. -/
theorem Move.bypassed {s t : Simulation σ} {a : Option Acceptance} (h : s.Move a t) :
    ∀ x ∈ a, x.lookup = .bypass ↔ x.packet.kind = .other := by
  intro x hx
  cases h with
  | wake | refuse | deliver | release | fill | evict | acknowledge => cases hx
  | bypass _ _ _ _ kind => cases hx; exact ⟨fun _ => kind, fun _ => rfl⟩
  | hit _ _ _ _ kind | miss _ _ _ _ kind =>
    cases hx
    refine ⟨fun h => ?_, fun h => (kind h).elim⟩
    cases h

theorem Tallied.move {s t : Simulation σ} {log : List Acceptance} {a : Option Acceptance}
    (h : Tallied log s) (hs : s.Sound) (hm : s.Move a t) : Tallied (log ++ a.toList) t where
  requests := by rw [hm.counters.1, h.requests, List.length_append]
  lookups := by rw [hm.counters.2, h.lookups, List.length_append]
  met := fun kind => by rw [hm.met kind, h.met kind, List.countP_append]
  fetches := by rw [hm.fetches hs, h.fetches, List.countP_append]
  bypassed := by
    intro x hx
    rcases List.mem_append.mp hx with hx | hx
    · exact h.bypassed x hx
    · exact hm.bypassed x (Option.mem_toList.mp hx)

/-- All along a run the counters say what the requests accepted met with. -/
theorem Run.tallied {s t : Simulation σ} {log : List Acceptance} {entered : Nat} (hs : s.Sound)
    (start : Tallied [] s) (run : s.Run log entered t) : Tallied log t :=
  (run.invariant (P := fun log _ t => Tallied log t) hs start (fun ht h hm => h.move ht hm)
    fun _ _ h _ => ⟨h.requests, h.lookups, h.met, h.fetches, h.bypassed⟩).2

end Simulation

end WritebackCache
