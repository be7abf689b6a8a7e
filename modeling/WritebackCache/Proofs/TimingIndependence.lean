import WritebackCache.Proofs.Ordering
import WritebackCache.Proofs.Responses
import WritebackCache.Proofs.Untimed

/-! What a cache does is settled by the reads and writes it is given. Latencies, the pace of the
requester, other traffic in between and whether a write waits for its response decide when things
happen; two machines of one geometry and one policy that are given the same reads and writes end
with the same lines and the same memory, have asked memory for the same blocks in the same order,
and have given the same answers. Both of them are the same untimed machine. -/

namespace WritebackCache

/-- A request without the wish for a response, which is what its effect depends on. -/
def Packet.access (p : Packet) : Packet := { p with needsResponse := false }

/-- The reads and writes among some requests. -/
def accesses (requests : List Packet) : List Packet :=
  (requests.filter fun p => decide (p.kind ≠ .other)).map Packet.access

/-- What the reads and writes among the requests accepted met with. -/
def Simulation.accessLookups (accepted : List Simulation.Acceptance) : List Lookup :=
  (accepted.filter fun x => decide (x.packet.kind ≠ .other)).map (·.lookup)

theorem accesses_other {p : Packet} (rest : List Packet) (kind : p.kind = .other) :
    accesses (p :: rest) = accesses rest := by
  simp [accesses, kind]

theorem accesses_cons {p : Packet} (rest : List Packet) (kind : p.kind ≠ .other) :
    accesses (p :: rest) = p.access :: accesses rest := by
  simp [accesses, kind]

theorem accesses_append (xs ys : List Packet) : accesses (xs ++ ys) = accesses xs ++ accesses ys := by
  simp [accesses]

namespace Untimed

/-- The untimed machine only takes notice of reads and writes. -/
theorem after_accesses (policy : Policy) (u : Untimed) (requests : List Packet) :
    u.after policy (accesses requests) = u.after policy requests := by
  induction requests generalizing u with
  | nil => rfl
  | cons p rest ih =>
    by_cases kind : p.kind = .other
    · rw [accesses_other rest kind, ih, after, after, List.foldl_cons, (u.next_other policy kind).1]
    · rw [accesses_cons rest kind]
      exact ih (u.next policy p)

theorem lookups_accesses (policy : Policy) (u : Untimed) (accepted : List Simulation.Acceptance)
    (met : accepted.map (·.lookup) = u.lookups policy (accepted.map (·.packet))) :
    Simulation.accessLookups accepted = u.lookups policy (accesses (accepted.map (·.packet))) := by
  induction accepted generalizing u with
  | nil => rfl
  | cons x rest ih =>
    obtain ⟨first, others⟩ := List.cons.inj met
    have later := ih (u.next policy x.packet) others
    by_cases kind : x.packet.kind = .other
    · rw [(u.next_other policy kind).1] at later
      rw [List.map_cons, accesses_other _ kind, ← later]
      simp [Simulation.accessLookups, kind]
    · rw [List.map_cons, accesses_cons _ kind, lookups]
      show _ = u.lookup x.packet :: (u.next policy x.packet).lookups policy _
      rw [← later, ← first]
      simp [Simulation.accessLookups, kind]

end Untimed

namespace FlatMemory

theorem after_accesses (m : FlatMemory) (requests : List Packet) :
    m.after (accesses requests) = m.after requests := by
  induction requests generalizing m with
  | nil => rfl
  | cons p rest ih =>
    by_cases kind : p.kind = .other
    · have idle : m.apply p = m := if_neg (by simp [Packet.isWrite, kind])
      rw [accesses_other rest kind, ih, after, after, List.foldl_cons, idle]
    · rw [accesses_cons rest kind]
      exact ih (m.apply p)

/-- The response to a request comes after those to the requests before it. -/
theorem getElem?_responses (m : FlatMemory) (before after : List Packet) {p : Packet}
    (expected : p.needsResponse = true) :
    (m.responses (before ++ p :: after))[before.countP (·.needsResponse)]? =
      some ((m.after before).response p) := by
  induction before generalizing m with
  | nil =>
    rw [List.nil_append, responses, if_pos expected]
    rfl
  | cons q rest ih =>
    have later := ih (m.apply q)
    rw [List.cons_append, responses, List.countP_cons]
    split
    · rw [List.getElem?_cons_succ]
      exact later
    · exact later

end FlatMemory

theorem Packet.eq_of_access {p q : Packet} (h : p.access = q.access)
    (same : p.needsResponse = q.needsResponse) : p = q := by
  cases p
  cases q
  simp only [access, mk.injEq] at h same
  obtain ⟨rfl, rfl, rfl, -, rfl⟩ := h
  cases same
  rfl

/-- Behind the same reads and writes come the same reads and writes. -/
theorem access_of_split {before after before' after' : List Packet} {p p' : Packet}
    (kind : p.kind ≠ .other) (kind' : p'.kind ≠ .other) (same : accesses before' = accesses before)
    (h : accesses (before' ++ p' :: after') = accesses (before ++ p :: after)) :
    p'.access = p.access := by
  rw [accesses_append, accesses_append, same, accesses_cons _ kind, accesses_cons _ kind'] at h
  exact (List.cons.inj (List.append_cancel_left h)).1

namespace Simulation

variable {σ τ : Type} {policy : Policy} {trace : Trace}

/-- Preloads come to the same contents whatever the timing. -/
theorem contents_preload {m loaded : Memory σ} {m' loaded' : Memory τ}
    {preloads : List (Address × List UInt8)} (h : preload m preloads = .ok loaded)
    (h' : preload m' preloads = .ok loaded') (same : m.contents = m'.contents) :
    loaded.contents = loaded'.contents := by
  induction preloads generalizing m m' with
  | nil =>
    cases h
    cases h'
    exact same
  | cons entry rest ih =>
    obtain ⟨addr, bytes⟩ := entry
    unfold preload at h h'
    split at h
    · next next stored =>
      split at h'
      · next next' stored' =>
        refine ih h h' ?_
        rw [← (Prod.mk.inj stored).1, ← (Prod.mk.inj stored').1, same]
      · cases h'
    · cases h

/-- Machines of one geometry start alike, time left out, if they are preloaded alike. -/
theorem Fresh.untimed_eq {config config' : CacheConfig} {trace' : Trace} {s : Simulation σ}
    {s' : Simulation τ} (fresh : Fresh config policy trace s) (fresh' : Fresh config' policy trace' s')
    (sizeBytes : config'.sizeBytes = config.sizeBytes) (ways : config'.ways = config.ways)
    (preloads : trace'.preloads = trace.preloads) : s'.untimed = s.untimed := by
  obtain ⟨sets, hsets, build, new⟩ := controller_of_config fresh.controller
  obtain ⟨sets', hsets', build', new'⟩ := controller_of_config fresh'.controller
  obtain ⟨_, load⟩ := fresh.memory
  obtain ⟨_, load'⟩ := fresh'.memory
  have stride : config'.stride = config.stride := by rw [CacheConfig.stride, ways]; rfl
  have same : config'.sets = config.sets := by
    rw [CacheConfig.sets, stride, sizeBytes]
    rfl
  rw [same, hsets] at hsets'
  cases hsets'
  rw [ways, build] at build'
  have grid : s.controller.grid = s'.controller.grid := Except.ok.inj build'
  rw [preloads] at load'
  have contents := contents_preload load load' rfl
  have asked : s.controller.asked = 0 := by rw [new]
  have asked' : s'.controller.asked = 0 := by rw [new']
  rw [untimed, untimed, grid, contents, asked, asked', fresh.unlogged, fresh'.unlogged]

/-- The completion that answers a request is found behind those that answer the requests before it.
-/
theorem completion_of_request {m : FlatMemory} {u : Simulation σ} {before after : List Packet}
    {p : Packet} (expected : p.needsResponse = true)
    (answers : u.requester.completions.map (·.packet) = m.responses (before ++ p :: after)) :
    ∃ x, u.requester.completions[before.countP (·.needsResponse)]? = some x ∧
      x.packet = (m.after before).response p := by
  have found := m.getElem?_responses before after expected
  rw [← answers, List.getElem?_map] at found
  exact Option.map_eq_some_iff.mp found

variable [LatencyModel σ] [LatencyModel τ]

/-- A run over a trace that returns has done what the untimed machine does, and has answered as the
flat memory does. -/
theorem Fresh.untimed_of_run {config : CacheConfig} {s u : Simulation σ} {stats : Stats}
    (fresh : Fresh config policy trace s) (hs : s.Sound) (run : s.run = (u, .ok stats)) :
    u.untimed = s.untimed.after policy (accesses trace.requests) ∧
      accessLookups s.trail = s.untimed.lookups policy (accesses trace.requests) ∧
      u.requester.completions.map (·.packet) =
        (FlatMemory.preloaded trace.preloads).responses trace.requests := by
  obtain ⟨v, hv, miss, response, all, rfl, _⟩ := fresh.end_of_run hs .start run
  rw [List.nil_append] at hv all
  have given : s.controller.policy = policy := by rw [fresh.controller_eq]
  obtain ⟨served, log, lookups, _, amid⟩ := hv.untimed hs given fresh.nothing_outstanding
  obtain ⟨served', log', coherent⟩ := hv.coherent hs fresh.coherent fresh.nothing_outstanding
  rw [miss, Option.map_none, Option.toList_none, List.append_nil, all] at log log'
  subst log log'
  rw [miss] at amid
  refine ⟨?_, ?_, coherent.answered response⟩
  · rw [Untimed.after_accesses]
    exact amid.of_none
  · rw [Untimed.lookups_accesses policy s.untimed _ lookups, all]

/-- Two machines of one geometry, with one policy and the same preloads, are given the same reads
and writes, some of which may be posted in one and not in the other. Whatever their latencies and
timings, their issue gaps and other traffic, their reads and writes meet with the same, memory is
asked for the same, the lines and the contents of memory are the same in the end, and requests that
expect a response in both get the same one. A run returns if its timing can always be told and its
trace fits the counters. -/
theorem timing_changes_nothing {config config' : CacheConfig} {trace' : Trace} {s : Simulation σ}
    {s' : Simulation τ} (fresh : Fresh config policy trace s) (fresh' : Fresh config' policy trace' s')
    (sizeBytes : config'.sizeBytes = config.sizeBytes) (ways : config'.ways = config.ways)
    (preloads : trace'.preloads = trace.preloads) (requests : ∀ p ∈ trace.requests, p.IsRequest)
    (requests' : ∀ p ∈ trace'.requests, p.IsRequest)
    (same : accesses trace'.requests = accesses trace.requests)
    (inRange : policy.InRange config.ways.toNat) :
    (∀ u stats u' stats', s.run = (u, .ok stats) → s'.run = (u', .ok stats') →
      accessLookups s'.trail = accessLookups s.trail ∧
      u'.memory.log.map (fun a => (a.op, a.block)) = u.memory.log.map (fun a => (a.op, a.block)) ∧
      u'.memory.contents = u.memory.contents ∧ u'.controller.grid = u.controller.grid ∧
      ∀ before p after before' p' after', trace.requests = before ++ p :: after →
        trace'.requests = before' ++ p' :: after' → accesses before' = accesses before →
          p.needsResponse = true → p'.needsResponse = true →
            ∃ x x', u.requester.completions[before.countP (·.needsResponse)]? = some x ∧
              u'.requester.completions[before'.countP (·.needsResponse)]? = some x' ∧
              x.packet.Answers p ∧ x'.packet.Answers p' ∧ x'.packet.data = x.packet.data) ∧
      (LatencyModel.Unfailing s.memory.timing → 2 * trace.requests.length + 2 < UInt64.size →
        ∃ u stats, s.run = (u, .ok stats)) ∧
      (LatencyModel.Unfailing s'.memory.timing → 2 * trace'.requests.length + 2 < UInt64.size →
        ∃ u' stats', s'.run = (u', .ok stats')) := by
  have hs := fresh.sound requests inRange
  have hs' := fresh'.sound requests' (by rw [ways]; exact inRange)
  refine ⟨?_, fun unfailing few => hs.returns (fun h => fresh.not_exhausted hs unfailing few h) .start,
    fun unfailing few => hs'.returns (fun h => fresh'.not_exhausted hs' unfailing few h) .start⟩
  intro u stats u' stats' run run'
  obtain ⟨ended, lookups, answers⟩ := fresh.untimed_of_run hs run
  obtain ⟨ended', lookups', answers'⟩ := fresh'.untimed_of_run hs' run'
  rw [fresh.untimed_eq fresh' sizeBytes ways preloads, same] at ended' lookups'
  obtain ⟨grid, contents, _, log⟩ := Untimed.mk.inj (ended'.trans ended.symm)
  refine ⟨lookups'.trans lookups.symm, log, contents, grid, ?_⟩
  intro before p after before' p' after' split split' earlier expected expected'
  have kind : p.kind ≠ .other := fun other => by
    rw [Packet.needsResponse_of_other (requests p (by rw [split]; simp)) other] at expected
    cases expected
  have kind' : p'.kind ≠ .other := fun other => by
    rw [Packet.needsResponse_of_other (requests' p' (by rw [split']; simp)) other] at expected'
    cases expected'
  rw [split, split'] at same
  have packet := Packet.eq_of_access (access_of_split kind kind' earlier same)
    (expected'.trans expected.symm)
  rw [split] at answers
  rw [preloads, split'] at answers'
  obtain ⟨x, found, response⟩ := completion_of_request expected answers
  obtain ⟨x', found', response'⟩ := completion_of_request expected' answers'
  refine ⟨x, x', found, found', ?_, ?_, ?_⟩
  · rw [response]
    exact FlatMemory.response_answers _ p
  · rw [response']
    exact FlatMemory.response_answers _ p'
  · rw [response, response', packet, ← FlatMemory.after_accesses _ before', earlier,
      FlatMemory.after_accesses]

/-- A single line again, but a slower cache in front of rows, no issue gap, other traffic in
between, and a write that is not posted. -/
def leisurely : Simulation Timing :=
  ofParts { grid := .oneSet 1 Nat.one_pos, policy := fun _ _ => 0, latency := 3 }
    (.empty (.rows { tCas := 14, tRas := 14, tPre := 14, rowMask := ~~~2047 })) { queue := requests } 0
where
  requests : List Packet :=
    [.other ⟨0⟩, .byte ⟨0⟩ .write 7 true, .other ⟨128⟩, .byte ⟨64⟩ .read 0 true]

theorem timing_changes_nothing_leisurely : ∃ u stats u' stats' x x',
    evictor.run = (u, .ok stats) ∧ leisurely.run = (u', .ok stats') ∧
      accessLookups leisurely.trail = accessLookups evictor.trail ∧
      u'.memory.contents = u.memory.contents ∧ u'.controller.grid = u.controller.grid ∧
      u.requester.completions[0]? = some x ∧ u'.requester.completions[1]? = some x' ∧
      x'.packet.data = x.packet.data := by
  have assembled : ofConfigWith { cache := { sizeBytes := 64, ways := 1, latency := 3 }
                                  memory := { controller := .dram }
                                  requester := { issueGap := 0 } } (fun _ _ => 0)
      { requests := leisurely.requests } = .ok leisurely := by rfl
  have requests : ∀ p ∈ leisurely.requests, p.IsRequest := by
    simp only [leisurely.requests, List.forall_mem_cons]
    refine ⟨.other, ?_, .other, ?_, fun _ h => by cases h⟩
    · exact @Packet.IsRequest.write ⟨0⟩ [7] _ rfl
    · exact @Packet.IsRequest.read ⟨64⟩ 1 _ rfl
  have steady : leisurely.memory.timing.Steady :=
    show (14 : UInt64).toNat + (14 : UInt64).toNat + (14 : UInt64).toNat < UInt64.size by decide
  obtain ⟨alike, returns, returns'⟩ := timing_changes_nothing (Fresh.of_configWith evictor_eq).1
    (Fresh.of_configWith assembled).1 rfl rfl rfl evictions_requests requests rfl
    (fun _ _ _ => by decide)
  obtain ⟨u, stats, run⟩ := returns (Timing.Steady.unfailing trivial) (by decide)
  obtain ⟨u', stats', run'⟩ := returns' steady.unfailing (by decide)
  obtain ⟨lookups, _, contents, grid, responses⟩ := alike u stats u' stats' run run'
  obtain ⟨x, x', found, found', _, _, data⟩ := responses [.byte ⟨0⟩ .write 7 false]
    (.byte ⟨64⟩ .read 0 true) [] [.other ⟨0⟩, .byte ⟨0⟩ .write 7 true, .other ⟨128⟩]
    (.byte ⟨64⟩ .read 0 true) [] rfl rfl rfl rfl rfl
  exact ⟨u, stats, u', stats', x, x', run, run', lookups, contents, grid, found, found', data⟩

end Simulation

end WritebackCache
