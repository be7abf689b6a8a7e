import WritebackCache.Proofs.Inclusion
import WritebackCache.Proofs.Refinement

/-! Two machines with least recently used replacement and equally many sets run one trace. The one
with more ways hits wherever the other does, ends up with every block that the other has, and asks
memory for no more. -/

namespace WritebackCache

/-- A block is in the grid if and only if it is listed. -/
theorem Recency.Mirrors.listed {r : Recency} {g : Grid} (h : r.Mirrors g) (b : BlockNumber) :
    g.lookup b ≠ none ↔ b ∈ Recency.blocks (r.rows (r.setOf b)) := by
  obtain ⟨lines, ranked, row⟩ := h.rows (g.setOf b) (g.setOf_lt b)
  rw [h.setOf, row, ne_eq, Grid.lookup_eq_none_iff]
  constructor
  · intro found
    obtain ⟨way, inSet, held⟩ : ∃ w, w < g.ways ∧ (g.cell (g.setOf b) w).holds b = true := by
      simpa using found
    obtain ⟨valid, tag⟩ := Grid.holds_iff.mp held
    exact Recency.mem_blocks.mpr ⟨(g.cell (g.setOf b) way).dirty,
      List.mem_map.mpr ⟨_, ranked.mem_iff.mpr ⟨way, inSet, rfl, valid⟩, by rw [Line.entry, tag]⟩⟩
  · intro mem absent
    obtain ⟨dirty, mem⟩ := Recency.mem_blocks.mp mem
    obtain ⟨l, mem, entry⟩ := List.mem_map.mp mem
    obtain ⟨way, inSet, rfl, valid⟩ := ranked.mem_iff.mp mem
    have held := Grid.holds_iff.mpr ⟨valid, congrArg Prod.fst entry⟩
    have lost := absent way inSet
    rw [show (g.cell (g.setOf b) way).holds b = true from held] at lost
    cases lost

/-- New caches with equally many sets: the one with fewer ways is part of the other. -/
theorem Recency.includes_start {c c' : CacheConfig} {sets : Nat}
    (size : c.sizeBytes.toNat = 64 * sets * c.ways.toNat)
    (size' : c'.sizeBytes.toNat = 64 * sets * c'.ways.toNat) (pos : 0 < c.ways.toNat)
    (more : c.ways.toNat ≤ c'.ways.toNat) : Recency.Includes (.start c) (.start c') := by
  have dims : ∀ n, 0 < n → 64 * sets * n / (64 * n) = sets := by
    intro n positive
    rw [Nat.mul_right_comm]
    exact Nat.mul_div_cancel_left sets (by omega)
  refine ⟨?_, pos, more, fun _ =>
    ⟨List.take_nil.symm, ⟨List.nodup_nil, Nat.zero_le _⟩, fun _ mem => by cases mem⟩⟩
  show c.sizeBytes.toNat / (64 * c.ways.toNat) = c'.sizeBytes.toNat / (64 * c'.ways.toNat)
  rw [size, size', dims _ pos, dims _ (Nat.lt_of_lt_of_le pos more)]

namespace Simulation

/-- A run that returns has met with what the lists say, has had memory do what they say, and ends
beside them. -/
theorem Fresh.refined_of_run {config : CacheConfig} {trace : Trace} {s u : Simulation Timing}
    {stats : Stats} (fresh : Fresh config Replacement.lru trace s) (hs : s.Sound)
    (run : s.run = (u, .ok stats)) : s.trail.map (·.packet) = trace.requests ∧
      s.trail.map (·.lookup) = (Recency.start config).lookups trace.requests ∧
      u.memory.log.map (fun a => (a.op, a.block)) = (Recency.start config).log trace.requests ∧
      ((Recency.start config).after trace.requests).Mirrors u.controller.grid := by
  obtain ⟨v, hv, miss, _, all, rfl, _⟩ := fresh.end_of_run hs .start run
  rw [List.nil_append] at hv all
  obtain ⟨served, log, lookups, refines⟩ := hv.refines hs fresh.refines fresh.nothing_outstanding
  rw [miss, Option.map_none, Option.toList_none, List.append_nil, all] at log
  rw [all] at lookups
  subst log
  have traffic := refines.log
  rw [miss, Option.map_none, Option.getD_none, List.append_nil] at traffic
  exact ⟨all, lookups, traffic, refines.mirrors⟩

theorem times_log {σ : Type} {m : Memory σ} {traffic : List (MemoryOp × BlockNumber)}
    (log : m.log.map (fun a => (a.op, a.block)) = traffic) (op : MemoryOp) :
    m.log.countP (fun a => decide (a.op = op)) = Recency.times op traffic := by
  rw [← log, Recency.times, List.countP_map]
  rfl

/-- Of two machines with equally many sets that run one trace, the one with more ways hits wherever
the other does, ends with every block that the other has, and makes no more fetches and no more
writebacks. A run returns if latencies fit into a word and the requests into the counters. -/
theorem more_ways_never_hurt {config config' : Config} {trace : Trace} {s s' : Simulation Timing}
    {sets : Nat} (assembled : ofConfig config trace = .ok s)
    (assembled' : ofConfig config' trace = .ok s')
    (size : config.cache.sizeBytes.toNat = 64 * sets * config.cache.ways.toNat)
    (size' : config'.cache.sizeBytes.toNat = 64 * sets * config'.cache.ways.toNat)
    (more : config.cache.ways.toNat ≤ config'.cache.ways.toNat)
    (requests : ∀ p ∈ trace.requests, p.IsRequest) :
    (∀ u stats u' stats', s.run = (u, .ok stats) → s'.run = (u', .ok stats') →
      (∀ (i : Nat) (x : Acceptance), s.trail[i]? = some x → x.lookup = .hit →
        ∃ y : Acceptance, s'.trail[i]? = some y ∧ y.packet = x.packet ∧ y.lookup = .hit) ∧
      (∀ b, u.controller.grid.lookup b ≠ none → u'.controller.grid.lookup b ≠ none) ∧
      u'.memory.fetches ≤ u.memory.fetches ∧ u'.memory.writebacks ≤ u.memory.writebacks) ∧
      (2 * trace.requests.length + 2 < UInt64.size →
        (config.memory.Steady → ∃ u stats, s.run = (u, .ok stats)) ∧
        (config'.memory.Steady → ∃ u' stats', s'.run = (u', .ok stats'))) := by
  obtain ⟨_, with_lru⟩ := ofConfigWith_lru assembled
  obtain ⟨_, with_lru'⟩ := ofConfigWith_lru assembled'
  obtain ⟨fresh, _⟩ := Fresh.of_configWith with_lru
  obtain ⟨fresh', _⟩ := Fresh.of_configWith with_lru'
  refine ⟨?_, fun few =>
    ⟨fun steady => returns_of_configWith with_lru requests fresh.lru_inRange .start steady few,
      fun steady => returns_of_configWith with_lru' requests fresh'.lru_inRange .start steady few⟩⟩
  intro u stats u' stats' run run'
  obtain ⟨all, lookups, log, mirrors⟩ :=
    fresh.refined_of_run (fresh.sound requests fresh.lru_inRange) run
  obtain ⟨all', lookups', log', mirrors'⟩ :=
    fresh'.refined_of_run (fresh'.sound requests fresh'.lru_inRange) run'
  have pos : 0 < config.cache.ways.toNat := by
    obtain ⟨_, _, build, _⟩ := controller_of_config fresh.controller
    rw [← (Grid.dims_of_build build).2]
    exact s.controller.grid.ways_pos
  have includes := Recency.includes_start size size' pos more
  refine ⟨?_, ?_, ?_, ?_⟩
  · intro i x here hit
    have met : (s.trail.map (·.lookup))[i]? = some .hit := by
      rw [List.getElem?_map, here, Option.map_some, hit]
    rw [lookups] at met
    have met' := includes.hits trace.requests i met
    rw [← lookups', List.getElem?_map] at met'
    obtain ⟨y, there, hit'⟩ := Option.map_eq_some_iff.mp met'
    refine ⟨y, there, ?_, hit'⟩
    have packets := congrArg (·[i]?) (all'.trans all.symm)
    simp only [List.getElem?_map, here, there, Option.map_some] at packets
    exact Option.some.inj packets
  · intro b found
    have after := includes.after trace.requests
    rw [mirrors.listed] at found
    rw [mirrors'.listed, ← after.setOf]
    exact (after.rows _).listed found
  · have fetched := includes.fetches_log trace.requests
    rwa [← times_log log .fetch, ← times_log log' .fetch] at fetched
  · have owes : Recency.Owes (.start config.cache) (.start config'.cache) [] :=
      fun _ _ mem => by cases mem
    have written := includes.writebacks_log owes trace.requests
    rwa [← times_log log .writeback, ← times_log log' .writeback] at written

/-- One set of as many lines as there are ways; the block that is written first is read again after
another one. -/
def reread (ways : Nat) (ways_pos : 0 < ways) : Simulation Timing :=
  ofParts { grid := .oneSet ways ways_pos, policy := Replacement.lru, latency := 1 }
    (.empty (.fixed 10)) { queue := requests } 1
where
  requests : List Packet :=
    [.byte ⟨0⟩ .write 7 false, .byte ⟨64⟩ .read 0 true, .byte ⟨0⟩ .read 0 true]

theorem more_ways_never_hurt_pair : ∃ u stats u' stats',
    (reread 1 Nat.one_pos).run = (u, .ok stats) ∧ (reread 2 Nat.two_pos).run = (u', .ok stats') ∧
      (∀ b, u.controller.grid.lookup b ≠ none → u'.controller.grid.lookup b ≠ none) ∧
      u'.memory.fetches ≤ u.memory.fetches ∧ u'.memory.writebacks ≤ u.memory.writebacks ∧
      (stats.hits, u.memory.fetches, u.memory.writebacks) = (0, 3, 1) ∧
      (stats'.hits, u'.memory.fetches, u'.memory.writebacks) = (1, 2, 0) := by
  have assembled : ofConfig { cache := { sizeBytes := 64, ways := 1 } }
      { requests := reread.requests } = .ok (reread 1 Nat.one_pos) := by rfl
  have assembled' : ofConfig { cache := { sizeBytes := 128, ways := 2 } }
      { requests := reread.requests } = .ok (reread 2 Nat.two_pos) := by rfl
  have requests : ∀ p ∈ reread.requests, p.IsRequest := by
    simp only [reread.requests, List.forall_mem_cons]
    refine ⟨?_, ?_, ?_, fun _ h => by cases h⟩
    · exact @Packet.IsRequest.postedWrite ⟨0⟩ [7] _ rfl
    · exact @Packet.IsRequest.read ⟨64⟩ 1 _ rfl
    · exact @Packet.IsRequest.read ⟨0⟩ 1 _ rfl
  obtain ⟨alike, returns⟩ := @more_ways_never_hurt _ _ _ _ _ 1 assembled assembled' rfl rfl
    (by decide) requests
  obtain ⟨returns, returns'⟩ := returns (by decide)
  obtain ⟨u, stats, run⟩ := returns fun dram => by cases dram
  obtain ⟨u', stats', run'⟩ := returns' fun dram => by cases dram
  obtain ⟨_, blocks, fetches, writebacks⟩ := alike u stats u' stats' run run'
  refine ⟨u, stats, u', stats', run, run', blocks, fetches, writebacks, ?_, ?_⟩
  · cases run
    decide
  · cases run'
    decide

end Simulation

end WritebackCache
