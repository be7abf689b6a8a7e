import Mathlib.Algebra.Ring.Nat
import WritebackCache.Proofs.Refinement
import WritebackCache.Proofs.RowBuffer
import WritebackCache.Proofs.WordBounds

/-! What can stop a run. The clock stops at the largest tick, the counters hold as many as the requests of a
trace, and the controller stays within its grid; what is left is the sum that a row buffer makes for an
access. The traffic of a trace is settled by the lists, so it can be said beforehand whether the run comes
to an access whose latency leaves the word: if it does it faults, and else it returns. -/

namespace WritebackCache

namespace Recency

/-- The addresses that the requests have memory access, in order. -/
def addresses (r : Recency) (requests : List Packet) : List Address :=
  (r.log requests).map (·.2.base)

theorem log_split (r : Recency) (xs : List Packet) (p : Packet) (rest : List Packet) :
    r.log (xs ++ p :: rest) =
      r.log xs ++ ((r.after xs).traffic p ++ ((r.after xs).next p).log rest) := by
  induction xs generalizing r with
  | nil => rfl
  | cons x xs ih =>
    rw [List.cons_append, log, log, ih, List.append_assoc]
    rfl

end Recency

namespace Memory

variable {σ : Type}

def addresses (m : Memory σ) : List Address := m.log.map (·.block.base)

/-- The accesses logged were all told, and have made of the timing what it is. -/
def Told [LatencyModel σ] (m : Memory σ) (x : σ) : Prop :=
  LatencyModel.accessAll x m.addresses = (m.timing, .ok ())

theorem Told.took [LatencyModel σ] {m after : Memory σ} {x : σ} {op : MemoryOp} {block : BlockNumber}
    {now latency done : Tick} (h : m.Told x) (took : m.Took after op block now latency done) :
    after.Told x := by
  have hafter : after.addresses = m.addresses ++ [block.base] := by
    rw [addresses, took.logged, List.map_append]
    rfl
  rw [Told, hafter, LatencyModel.accessAll_append h]
  simp only [LatencyModel.accessAll, took.accessed]

end Memory

namespace Simulation

variable {σ : Type}

/-- The block that memory is asked for next is what the lists have it access next. -/
theorem Refines.demanded {r : Recency} {served left : List Packet} {s : Simulation σ} {b : BlockNumber}
    (h : Refines r served s) (hs : s.Sound)
    (hleft : s.requester.held.toList ++ s.requester.queue = left) (demand : s.Demands b) :
    ∃ rest, r.addresses (served ++ ((s.controller.miss.map Miss.request).toList ++ left)) =
      s.memory.addresses ++ b.base :: rest := by
  have haddresses : s.memory.addresses =
      (r.log served ++ (s.controller.miss.map Miss.traffic).getD []).map (·.2.base) := by
    rw [← h.log, List.map_map]
    rfl
  rw [haddresses]
  cases demand with
  | @fetch _ _ _ p _ _ _ next idle kind absent =>
    obtain ⟨_, hnone, _⟩ := hs.phase.of_idle idle
    obtain ⟨_, htraffic, _⟩ := h.mirrors.miss hs.grid kind absent rfl
    rw [(Requester.next_some next).2.1] at hleft
    subst hleft
    rw [hnone, Option.map_none, Option.toList_none, List.nil_append, Recency.addresses,
      Recency.log_split, htraffic]
    simp only [Option.map_none, Option.getD_none, List.append_nil, List.map_append, List.map_cons,
      List.cons_append]
    exact ⟨_, rfl⟩
  | @writeback _ _ _ p l pop miss line dirty =>
    obtain ⟨_, _, _, absent⟩ := hs.fetched pop miss
    have kind := (hs.missing ⟨p, .fetching⟩ miss).2
    rw [Controller.victim_lru h.policy p] at line
    obtain ⟨_, htraffic, _⟩ := h.mirrors.miss hs.grid kind absent line
    rw [dirty, if_pos rfl] at htraffic
    rw [miss, Option.map_some, Option.toList_some, List.singleton_append, Recency.addresses,
      Recency.log_split, htraffic]
    simp only [Option.map_some, Option.getD_some, Miss.traffic, List.map_append, List.map_cons,
      List.map_nil, List.cons_append, List.nil_append, List.append_assoc]
    exact ⟨_, rfl⟩

variable [LatencyModel σ]

theorem Move.told {s t : Simulation σ} {a : Option Acceptance} {x : σ} (hs : s.Sound) (h : s.Move a t)
    (told : s.memory.Told x) : t.memory.Told x := by
  rcases h.memory hs with ⟨same, _⟩ | ⟨_, _, _, _, _, took, _⟩
  · rwa [same]
  · exact told.took took

theorem Run.told {s t : Simulation σ} {log : List Acceptance} {entered : Nat} (hs : s.Sound)
    (unlogged : s.memory.log = []) (run : s.Run log entered t) : t.memory.Told s.memory.timing := by
  refine (run.invariant (P := fun _ _ t => t.memory.Told s.memory.timing) hs ?_
    (fun ht told hm => hm.told ht told) fun _ _ told _ => told).2
  rw [Memory.Told, Memory.addresses, unlogged]
  rfl

variable {config : CacheConfig} {trace : Trace} {s u : Simulation σ}

/-- A run that returns has made all the accesses that the lists prescribe for the trace. -/
theorem Fresh.told_of_run {stats : Stats} (fresh : Fresh config Replacement.lru trace s) (hs : s.Sound)
    (h : s.run = (u, .ok stats)) :
    (LatencyModel.accessAll s.memory.timing ((Recency.start config).addresses trace.requests)).2 =
      .ok () := by
  obtain ⟨v, hv, miss, _, all, _⟩ := fresh.end_of_run hs .start h
  rw [List.nil_append] at hv all
  obtain ⟨served, hlog, _, refines⟩ := hv.refines hs fresh.refines fresh.nothing_outstanding
  rw [miss, Option.map_none, Option.toList_none, List.append_nil, all] at hlog
  have traffic := refines.log
  rw [miss, Option.map_none, Option.getD_none, List.append_nil, ← hlog] at traffic
  have haddresses : v.memory.addresses = (Recency.start config).addresses trace.requests := by
    rw [Recency.addresses, ← traffic, List.map_map]
    rfl
  have told := hv.told hs fresh.unlogged
  rw [Memory.Told, haddresses] at told
  rw [told]

/-- A run that fails has come to the first of these accesses whose time cannot be told. -/
theorem Fresh.untold_of_run {why : Failure ProtocolError} (fresh : Fresh config Replacement.lru trace s)
    (hs : s.Sound) (few : 2 * trace.requests.length + 2 < UInt64.size) (h : s.run = (u, .error why)) :
    ∃ f, why = .fault f ∧
      (LatencyModel.accessAll s.memory.timing ((Recency.start config).addresses trace.requests)).2 =
        .error f := by
  obtain ⟨f, hf, log, v, hv, exhausted⟩ := hs.exhausted_of_run .start h
  obtain ⟨b, demand, untold⟩ := fresh.untold hs few hv exhausted
  obtain ⟨served, hlog, _, refines⟩ := hv.refines hs fresh.refines fresh.nothing_outstanding
  have hall := (hv.history hs).1
  rw [fresh.requester_eq, hlog, List.append_assoc] at hall
  obtain ⟨rest, hrest⟩ := refines.demanded (hs.run hv) rfl demand
  rw [← show trace.requests = _ from hall] at hrest
  exact ⟨f, hf, by rw [hrest, LatencyModel.accessAll_untold (hv.told hs fresh.unlogged) untold]⟩

/-- A run over a trace of fewer than 2^60 requests faults exactly if a latency that it comes to overflows,
and by nothing else; otherwise it returns. All that is counted on the way fits into a word. -/
theorem run_faults_iff_overflows {config : Config} {trace : Trace} {s : Simulation Timing}
    (assembled : ofConfig config trace = .ok s) (requests : ∀ p ∈ trace.requests, p.IsRequest)
    (few : trace.requests.length < 2 ^ 60) :
    ((∃ u, s.run = (u, .error (.fault .addOverflow))) ↔
      config.memory.Overflows ((Recency.start config.cache).addresses trace.requests)) ∧
    ((∃ u stats, s.run = (u, .ok stats)) ↔
      ¬ config.memory.Overflows ((Recency.start config.cache).addresses trace.requests)) ∧
    ∀ log t, s.Run log 0 t → t.InWords := by
  obtain ⟨_, hwith⟩ := ofConfigWith_lru assembled
  obtain ⟨fresh, timing, _⟩ := Fresh.of_configWith hwith
  have hs := fresh.sound requests fresh.lru_inRange
  have hsize : UInt64.size = 2 ^ 64 := rfl
  have accesses := Timing.accessAll_of_config timing
    ((Recency.start config.cache).addresses trace.requests)
  refine and_assoc.mp ⟨?_, fun log t run => fresh.inWords hs (by omega) run⟩
  cases h : s.run with
  | mk u r =>
  cases r with
  | ok stats =>
    rw [fresh.told_of_run hs h] at accesses
    split at accesses
    · cases accesses
    · next fits =>
      exact ⟨⟨fun ⟨_, hu⟩ => (by cases hu), fun overflows => (fits overflows).elim⟩,
        fun _ => fits, fun _ => ⟨u, stats, rfl⟩⟩
  | error why =>
    obtain ⟨f, rfl, hf⟩ := fresh.untold_of_run hs (by omega) h
    rw [hf] at accesses
    split at accesses
    · next overflows =>
      cases accesses
      exact ⟨⟨fun _ => overflows, fun _ => ⟨u, rfl⟩⟩, fun ⟨_, _, hu⟩ => (by cases hu),
        fun fits => (fits overflows).elim⟩
    · cases accesses

/-- One line, and a row buffer that takes until the end of time to change its row: the third read does. -/
def conflicting : Simulation Timing :=
  ofParts { grid := .oneSet 1 Nat.one_pos, policy := Replacement.lru, latency := 1 }
    (.empty (.rows { tCas := 14, tRas := 14, tPre := 18446744073709551588, rowMask := ~~~2047 }))
    { queue := requests } 1
where
  requests : List Packet :=
    [.byte ⟨0⟩ .read 0 true, .byte ⟨64⟩ .read 0 true, .byte ⟨2048⟩ .read 0 true]

theorem run_faults_iff_overflows_conflicting :
    (∃ u, conflicting.run = (u, .error (.fault .addOverflow))) ∧
      ∀ log t, conflicting.Run log 0 t → t.InWords := by
  have hassembled : ofConfig
      { cache := { sizeBytes := 64, ways := 1 },
        memory := { controller := .dram, tPre := 18446744073709551588 } }
      { requests := conflicting.requests } = .ok conflicting := by rfl
  have hrequests : ∀ p ∈ conflicting.requests, p.IsRequest := by
    simp only [conflicting.requests, List.forall_mem_cons]
    refine ⟨?_, ?_, ?_, fun _ h => by cases h⟩
    · exact @Packet.IsRequest.read ⟨0⟩ 1 _ rfl
    · exact @Packet.IsRequest.read ⟨64⟩ 1 _ rfl
    · exact @Packet.IsRequest.read ⟨2048⟩ 1 _ rfl
  obtain ⟨faults, _, inWords⟩ := run_faults_iff_overflows hassembled hrequests (by decide)
  exact ⟨faults.mpr (by decide), inWords⟩

/-- One line, and a row buffer that takes until the end of time to open a row. -/
def opensSlowly : Config where
  cache := { sizeBytes := 64, ways := 1 }
  memory := { controller := .dram, tRas := 18446744073709551615 }

theorem first_access_faults : opensSlowly.validate = .ok () ∧
    ∃ s u, ofConfig opensSlowly { requests := [.byte ⟨0⟩ .read 0 true] } = .ok s ∧
      s.run = (u, .error (.fault .addOverflow)) :=
  ⟨by rfl, _, _, rfl, rfl⟩

end Simulation

end WritebackCache
