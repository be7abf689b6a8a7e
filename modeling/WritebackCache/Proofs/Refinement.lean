import WritebackCache.Proofs.Counters
import WritebackCache.Proofs.Geometry
import WritebackCache.Proofs.Recency

/-! The machine with least recently used replacement is the cache out of the textbook. The grid mirrors
the lists of the requests served so far; what an accepted request meets with is settled by the lists at
that time, since nothing is outstanding then; and the traffic of a miss is the beginning of what the
lists prescribe until its block is filled in. The way to be filled is chosen when the fetched block is
there, but the set has not changed since the request was accepted. -/

namespace WritebackCache

namespace Recency

/-- The lists are those of the grid. -/
structure Mirrors (r : Recency) (g : Grid) : Prop where
  sets : r.sets = g.sets
  ways : r.ways = g.ways
  rows : ∀ set, set < g.sets → ∃ lines, g.Ranked set lines ∧ r.rows set = lines.map Line.entry

theorem Mirrors.setOf {r : Recency} {g : Grid} (h : r.Mirrors g) (b : BlockNumber) :
    r.setOf b = g.setOf b := by
  rw [Recency.setOf, h.sets]
  rfl

/-- The list of the set of a request, and what becomes of an access to it. -/
theorem Mirrors.accessed {r : Recency} {g : Grid} (h : r.Mirrors g) (p : Packet) :
    ∃ lines, g.Ranked (g.setOf p.block) lines ∧
      r.accessed p = access g.ways (lines.map Line.entry) p.block p.isWrite := by
  obtain ⟨lines, hl, hr⟩ := h.rows (g.setOf p.block) (g.setOf_lt p.block)
  exact ⟨lines, hl, by rw [Recency.accessed, h.setOf, hr, h.ways]⟩

/-- A used line goes to the front of its set, and every other set stays as it is. -/
theorem Mirrors.use {r : Recency} {g : Grid} {p : Packet} {way : Nat} {l : Line} {lines : List Line}
    (h : r.Mirrors g) (hg : g.Sound) (kind : p.kind ≠ .other) (hw : way < g.ways)
    (hv : l.valid = true) (hl : g.Ranked (g.setOf p.block) lines)
    (hrow : (r.accessed p).row =
      l.entry :: (lines.erase (g.cell (g.setOf p.block) way)).map Line.entry) :
    (r.next p).Mirrors (g.use (g.setOf p.block) way l) := by
  have hc := Grid.has_setOf hw p.block
  have hnext : r.next p = { r with
      rows := fun set => if set = r.setOf p.block then (r.accessed p).row else r.rows set } :=
    if_neg kind
  refine ⟨by rw [hnext]; exact h.sets, by rw [hnext]; exact h.ways, fun set hs => ?_⟩
  by_cases he : set = g.setOf p.block
  · subst he
    refine ⟨_, hl.use hg hc hv, ?_⟩
    rw [hnext]
    show (if _ then _ else _) = _
    rw [if_pos (h.setOf p.block).symm, hrow]
    rfl
  · obtain ⟨others, ho, hr⟩ := h.rows set hs
    refine ⟨others, ho.use_other hc he, ?_⟩
    rw [hnext]
    show (if _ then _ else _) = _
    rw [if_neg (by rw [h.setOf]; exact he), hr]

/-- A request whose block is found is a hit for the lists as well. -/
theorem Mirrors.hit {r : Recency} {g : Grid} {p : Packet} {way : Nat} (h : r.Mirrors g)
    (hg : g.Sound) (kind : p.kind ≠ .other) (found : g.lookup p.block = some way) :
    r.lookup p = .hit ∧ r.traffic p = [] ∧ (r.next p).Mirrors
      (g.use (g.setOf p.block) way ((g.cell (g.setOf p.block) way).served p)) := by
  obtain ⟨hw, hh⟩ := Grid.holds_of_lookup found
  obtain ⟨hv, ht⟩ := Grid.holds_iff.mp hh
  obtain ⟨lines, hl, ha⟩ := h.accessed p
  rw [hl.access_hit hg (Grid.has_setOf hw p.block) hh] at ha
  refine ⟨?_, ?_, h.use hg kind hw hv hl ?_⟩
  · rw [Recency.lookup, if_neg kind, ha]
  · rw [Recency.traffic, if_neg kind, ha]
  · rw [ha]
    simp only [Line.entry, Line.tag_served, ht]
    rfl

/-- A request whose block is not found is a miss for the lists, which give up the same block. -/
theorem Mirrors.miss {r : Recency} {g : Grid} {p : Packet} {l : Line} (h : r.Mirrors g)
    (hg : g.Sound) (kind : p.kind ≠ .other) (absent : g.lookup p.block = none)
    (hl : g.cell (g.setOf p.block) (Replacement.victim (g.row (g.setOf p.block))) = l) :
    r.lookup p = .miss ∧
      r.traffic p = (.fetch, p.block) :: (if l.valid && l.dirty then [(.writeback, l.tag)] else []) ∧
      ∀ fetched, (r.next p).Mirrors (g.use (g.setOf p.block)
        (Replacement.victim (g.row (g.setOf p.block))) (Line.filled p fetched)) := by
  have hw : Replacement.victim (g.row (g.setOf p.block)) < g.ways := by
    have hlen := g.length_row (g.setOf p.block)
    rw [← hlen]
    exact Replacement.victim_lt (List.length_pos_iff.mp (by rw [hlen]; exact g.ways_pos))
  obtain ⟨lines, hranked, ha⟩ := h.accessed p
  rw [hranked.access_miss (Grid.lookup_eq_none_iff.mp absent) hl] at ha
  refine ⟨?_, ?_, fun fetched => h.use hg kind hw rfl hranked ?_⟩
  · rw [Recency.lookup, if_neg kind, ha]
  · rw [Recency.traffic, if_neg kind, ha]
  · rw [ha, hl]
    rfl

end Recency

/-- What a miss has had memory do so far. -/
def Miss.traffic (m : Miss) : List (MemoryOp × BlockNumber) :=
  match m.stage with
  | .fetching => [(.fetch, m.request.block)]
  | .writingBack _ victim _ => [(.fetch, m.request.block), (.writeback, victim)]

/-- The way to be filled is that of the least recently used line. -/
theorem Controller.victim_lru {c : Controller} (h : c.policy = Replacement.lru) (p : Packet) :
    c.victim p = Replacement.victim (c.grid.row (c.grid.setOf p.block)) := by
  rw [victim, h]
  rfl

namespace Simulation

variable {σ : Type}

/-- The machine after some requests were served, beside the lists after them. -/
structure Refines (r : Recency) (served : List Packet) (s : Simulation σ) : Prop where
  policy : s.controller.policy = Replacement.lru
  mirrors : (r.after served).Mirrors s.controller.grid
  log : s.memory.log.map (fun a => (a.op, a.block)) =
    r.log served ++ (s.controller.miss.map Miss.traffic).getD []
  chosen : ∀ {p way victim fetched}, s.controller.miss = some ⟨p, .writingBack way victim fetched⟩ →
    way = Replacement.victim (s.controller.grid.row (s.controller.grid.setOf p.block))

/-- A machine of fresh parts is beside empty lists. -/
theorem Fresh.refines {config : CacheConfig} {trace : Trace} {s : Simulation σ}
    (fresh : Fresh config Replacement.lru trace s) : Refines (.start config) [] s := by
  obtain ⟨sets, hsets, hbuild, hc⟩ := controller_of_config fresh.controller
  obtain ⟨hs, hw⟩ := Grid.dims_of_build hbuild
  refine ⟨by rw [hc], ⟨?_, hw.symm, fun set _ => ⟨[], Grid.ranked_build hbuild set, rfl⟩⟩, ?_, ?_⟩
  · rw [hs, CacheConfig.toNat_sets hsets]
    rfl
  · rw [fresh.unlogged, hc]
    rfl
  · intro p way victim fetched hmiss
    rw [hc] at hmiss
    cases hmiss

theorem Fresh.lru_inRange {config : CacheConfig} {policy : Policy} {trace : Trace}
    {s : Simulation σ} (fresh : Fresh config policy trace s) :
    Replacement.lru.InRange config.ways.toNat := by
  obtain ⟨_, _, hbuild, _⟩ := controller_of_config fresh.controller
  have hpos := s.controller.grid.ways_pos
  rw [(Grid.dims_of_build hbuild).2] at hpos
  intro _ lines hl
  rw [← hl]
  exact Replacement.victim_lt (List.length_pos_iff.mp (by rw [hl]; exact hpos))

/-- Once the block of a miss is filled into the way of the least recently used line, its request is
served, and memory has done all that the lists prescribe for it. -/
theorem Refines.fill {r : Recency} {served : List Packet} {s t : Simulation σ} {p : Packet}
    {c : Controller} {fetched : Block} {status : Status} (h : Refines r served s) (hs : s.Sound)
    (kind : p.kind ≠ .other) (absent : s.controller.grid.lookup p.block = none)
    (log : s.memory.log.map (fun a => (a.op, a.block)) =
      r.log served ++ (r.after served).traffic p) (grid : c.grid = s.controller.grid)
    (policy : c.policy = s.controller.policy) (nothing : c.miss = none)
    (controller : t.controller = c.finish p
      (Replacement.victim (s.controller.grid.row (s.controller.grid.setOf p.block)))
      (Line.filled p fetched) status) (memory : t.memory = s.memory) :
    Refines r (served ++ [p]) t := by
  obtain ⟨_, _, hmirrors⟩ := h.mirrors.miss hs.grid kind absent rfl
  have hmiss : t.controller.miss = none := by
    rw [controller]
    exact nothing
  refine ⟨?_, ?_, ?_, fun hx => by rw [hmiss] at hx; cases hx⟩
  · rw [controller]
    exact policy.trans h.policy
  · rw [Recency.after_append, controller, Controller.grid_finish, grid]
    exact hmirrors fetched
  · rw [Recency.log_append, memory, hmiss, log]
    exact (List.append_nil _).symm

variable [LatencyModel σ]

/-- An access that memory takes for a miss adds to the traffic of that miss. -/
theorem Refines.took {r : Recency} {served : List Packet} {s t : Simulation σ} {x : Miss}
    {op : MemoryOp} {b : BlockNumber} {now latency done : Tick} (h : Refines r served s)
    (took : s.memory.Took t.memory op b now latency done)
    (policy : t.controller.policy = s.controller.policy)
    (grid : t.controller.grid = s.controller.grid) (miss : t.controller.miss = some x)
    (traffic : x.traffic = (s.controller.miss.map Miss.traffic).getD [] ++ [(op, b)])
    (chosen : ∀ {p way victim fetched}, x = ⟨p, .writingBack way victim fetched⟩ →
      way = Replacement.victim (s.controller.grid.row (s.controller.grid.setOf p.block))) :
    Refines r served t := by
  refine ⟨policy.trans h.policy, grid ▸ h.mirrors, ?_, fun hx => ?_⟩
  · rw [took.logged, List.map_append, h.log, miss, Option.map_some, Option.getD_some, traffic,
      List.append_assoc]
    rfl
  · rw [miss] at hx
    rw [grid]
    exact chosen (Option.some.inj hx)

/-- A move serves at most one request, and what an accepted one meets with is what the lists say. -/
theorem Move.refines {s t : Simulation σ} {a : Option Acceptance} {r : Recency}
    {served : List Packet} (hs : s.Sound) (h : s.Move a t) (hr : Refines r served s) :
    ∃ more, Refines r (served ++ more) t ∧
      (s.controller.miss.map Miss.request).toList ++ a.toList.map (·.packet) =
        more ++ (t.controller.miss.map Miss.request).toList ∧
      ∀ x ∈ a, s.controller.miss = none ∧ x.lookup = (r.after served).lookup x.packet := by
  cases h with
  | wake | release | refuse | deliver =>
    refine ⟨[], ?_, by simp, fun x hx => by cases hx⟩
    rw [List.append_nil]
    exact ⟨hr.policy, hr.mirrors, hr.log, hr.chosen⟩
  | @bypass _ _ _ p _ _ _ _ _ idle kind =>
    obtain ⟨_, hm, _⟩ := hs.phase.of_idle idle
    obtain ⟨hnext, hlookup, htraffic⟩ := (r.after served).next_other kind
    refine ⟨[p], ⟨hr.policy, ?_, ?_, hr.chosen⟩, by simp [hm], ?_⟩
    · rw [Recency.after_append, hnext]
      exact hr.mirrors
    · rw [Recency.log_append, htraffic, List.append_nil]
      exact hr.log
    · exact fun x hx => by cases hx; exact ⟨hm, hlookup.symm⟩
  | @hit _ _ _ p _ _ way _ _ _ idle kind found =>
    obtain ⟨_, hm, _⟩ := hs.phase.of_idle idle
    obtain ⟨hlookup, htraffic, hmirrors⟩ := hr.mirrors.hit hs.grid kind found
    refine ⟨[p], ⟨hr.policy, ?_, ?_, ?_⟩, by simp [hm], ?_⟩
    · rw [Recency.after_append]
      exact hmirrors
    · rw [Recency.log_append, htraffic, List.append_nil]
      exact hr.log
    · intro p' way' victim fetched hmiss
      rw [Controller.miss_finish, hm] at hmiss
      cases hmiss
    · intro x hx
      cases hx
      exact ⟨hm, hlookup.symm⟩
  | @miss _ _ _ p _ _ _ _ _ _ _ _ idle kind absent fetched =>
    obtain ⟨_, hm, _⟩ := hs.phase.of_idle idle
    obtain ⟨_, _, _, took⟩ := Memory.serve_fetch (b := p.block) p.addr.inSpace_block fetched
    obtain ⟨hlookup, _⟩ := hr.mirrors.miss hs.grid kind absent rfl
    refine ⟨[], ?_, by simp [hm], fun x hx => by cases hx; exact ⟨hm, hlookup.symm⟩⟩
    rw [List.append_nil]
    exact hr.took took rfl rfl rfl (by rw [hm]; rfl) fun hx => by cases hx
  | @fill _ _ q p pop miss clean =>
    obtain ⟨_, _, _, absent⟩ := hs.fetched pop miss
    have kind := (hs.missing ⟨p, .fetching⟩ miss).2
    have hvictim := Controller.victim_lru hr.policy p
    rw [hvictim] at clean
    obtain ⟨_, htraffic, _⟩ := hr.mirrors.miss hs.grid kind absent rfl
    rw [clean] at htraffic
    have hlog := hr.log
    rw [miss] at hlog
    refine ⟨[p], hr.fill (c := s.controller.consulted) hs kind absent ?_ rfl rfl rfl
      (by rw [← hvictim]) rfl, by simp [miss], fun x hx => by cases hx⟩
    rw [htraffic]
    exact hlog
  | @evict _ _ _ p l _ _ _ pop miss line dirty sent =>
    obtain ⟨_, _, _, took⟩ := hs.evicted line dirty sent
    refine ⟨[], ?_, by simp [miss], fun x hx => by cases hx⟩
    rw [List.append_nil]
    refine hr.took took rfl rfl rfl (by rw [miss]; rfl) fun hx => ?_
    cases hx
    exact Controller.victim_lru hr.policy p
  | @acknowledge _ _ _ p way victim fetched pop miss =>
    obtain ⟨_, _, _, absent, _, held, hdirty, _⟩ := (hs.phase_of_pop pop rfl).of_writingBack miss
    obtain ⟨hv, ht⟩ := Grid.holds_iff.mp held
    -- the way was chosen when the block came, but its set has not been touched since
    have hway := hr.chosen miss
    subst hway
    have kind := (hs.missing ⟨p, .writingBack _ victim fetched⟩ miss).2
    obtain ⟨_, htraffic, _⟩ := hr.mirrors.miss hs.grid kind absent rfl
    rw [hv, hdirty, ht] at htraffic
    have hlog := hr.log
    rw [miss] at hlog
    refine ⟨[p], hr.fill (c := s.controller.abandon) hs kind absent ?_ rfl rfl rfl rfl rfl,
      by simp [miss], fun x hx => by cases hx⟩
    rw [htraffic]
    exact hlog

/-- All along a run the machine is beside the lists of the requests served, and has met with what they
say. -/
theorem Run.refines {s t : Simulation σ} {r : Recency} {log : List Acceptance} {entered : Nat}
    (hs : s.Sound) (start : Refines r [] s) (nothing : s.controller.miss = none)
    (run : s.Run log entered t) : ∃ served,
      log.map (·.packet) = served ++ (t.controller.miss.map Miss.request).toList ∧
        log.map (·.lookup) = r.lookups (log.map (·.packet)) ∧ Refines r served t :=
  run.serves hs start nothing rfl r.lookups_append (fun ht hr hm => hm.refines ht hr)
    fun _ hr => ⟨hr.policy, hr.mirrors, hr.log, hr.chosen⟩

/-- In a run of the machine with least recently used replacement every request of the trace is accepted
in turn and meets with what the lists say, memory is made to do what they say in their order, and at
the end the lines of each set in the order of their last use are its list. The run returns if latencies
fit into a word and the requests into the counters. -/
theorem run_is_textbook_cache {config : Config} {trace : Trace} {s : Simulation Timing}
    (assembled : ofConfig config trace = .ok s) (requests : ∀ p ∈ trace.requests, p.IsRequest) :
    (∀ u stats, s.run = (u, .ok stats) →
      s.trail.map (·.packet) = trace.requests ∧
      s.trail.map (·.lookup) = (Recency.start config.cache).lookups trace.requests ∧
      u.memory.log.map (fun a => (a.op, a.block)) =
        (Recency.start config.cache).log trace.requests ∧
      ∀ set, set < (Recency.start config.cache).sets →
        (u.controller.grid.byRecency set).map Line.entry =
          ((Recency.start config.cache).after trace.requests).rows set) ∧
      (config.memory.Steady → 2 * trace.requests.length + 2 < UInt64.size →
        ∃ u stats, s.run = (u, .ok stats)) := by
  obtain ⟨_, hwith⟩ := ofConfigWith_lru assembled
  obtain ⟨fresh, _⟩ := Fresh.of_configWith hwith
  have hs := fresh.sound requests fresh.lru_inRange
  refine ⟨?_, returns_of_configWith hwith requests fresh.lru_inRange .start⟩
  intro u stats h
  obtain ⟨v, hv, hm, _, hall, rfl, _⟩ := fresh.end_of_run hs .start h
  rw [List.nil_append] at hv hall
  obtain ⟨served, hlog, hlookups, hr⟩ := hv.refines hs fresh.refines fresh.nothing_outstanding
  rw [hm, Option.map_none, Option.toList_none, List.append_nil, hall] at hlog
  rw [hall] at hlookups
  subst hlog
  refine ⟨hall, hlookups, ?_, ?_⟩
  · have htraffic := hr.log
    rwa [hm, Option.map_none, Option.getD_none, List.append_nil] at htraffic
  · intro set hset
    rw [← Recency.sets_after _ trace.requests, hr.mirrors.sets] at hset
    obtain ⟨lines, hranked, hrow⟩ := hr.mirrors.rows set hset
    rw [hrow]
    exact congrArg _ hranked.byRecency_eq

/-- One set of two lines, and requests for three blocks of which the last evicts the first, written one. -/
def pair : Simulation Timing :=
  ofParts { grid := .oneSet 2 Nat.two_pos, policy := Replacement.lru, latency := 1 }
    (.empty (.fixed 10)) { queue := requests } 1
where
  requests : List Packet :=
    [.byte ⟨0⟩ .write 7 false, .byte ⟨64⟩ .read 0 true, .byte ⟨64⟩ .write 1 true, .other ⟨0⟩,
      .byte ⟨128⟩ .read 0 true]

theorem run_is_textbook_cache_pair : ∃ u stats, pair.run = (u, .ok stats) ∧
    pair.trail.map (·.lookup) = [.miss, .miss, .hit, .bypass, .miss] ∧
    u.memory.log.map (fun a => (a.op, a.block)) =
      [(.fetch, ⟨0⟩), (.fetch, ⟨1⟩), (.fetch, ⟨2⟩), (.writeback, ⟨0⟩)] ∧
    (u.controller.grid.byRecency 0).map Line.entry = [(⟨2⟩, false), (⟨1⟩, true)] := by
  have hassembled : ofConfig { cache := { sizeBytes := 128, ways := 2 } }
      { requests := pair.requests } = .ok pair := by rfl
  have hrequests : ∀ p ∈ pair.requests, p.IsRequest := by
    simp only [pair.requests, List.forall_mem_cons]
    refine ⟨?_, ?_, ?_, .other, ?_, fun _ h => by cases h⟩
    · exact @Packet.IsRequest.postedWrite ⟨0⟩ [7] _ rfl
    · exact @Packet.IsRequest.read ⟨64⟩ 1 _ rfl
    · exact @Packet.IsRequest.write ⟨64⟩ [1] _ rfl
    · exact @Packet.IsRequest.read ⟨128⟩ 1 _ rfl
  obtain ⟨hruns, hreturns⟩ := run_is_textbook_cache hassembled hrequests
  obtain ⟨u, stats, h⟩ := hreturns (fun hd => by cases hd) (by decide)
  obtain ⟨_, hlookups, hlog, hrows⟩ := hruns u stats h
  exact ⟨u, stats, h, hlookups.trans (by decide), hlog.trans (by decide),
    (hrows 0 (by decide)).trans (by decide)⟩

end Simulation

end WritebackCache
