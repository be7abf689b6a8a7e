import WritebackCache.Proofs.Coherence
import WritebackCache.Proofs.Tally

/-! Where the traffic of a run goes. Memory fetches once for each miss, and each block fetched takes a line
of its own or that of a block given up; so the writebacks and the valid lines together never outnumber
the misses. A line becomes dirty through a write and clean again through its writeback; so the writebacks
and the dirty lines together never outnumber the writes, but for the one line that is still dirty while
its writeback waits to be acknowledged. -/

namespace WritebackCache

namespace Grid

def dirtyLines (g : Grid) : Nat := g.lines.toList.countP (·.dirty)

/-- A replaced line changes a count of lines by what it and the line before it count for. -/
theorem countP_put {g : Grid} {set way : Nat} (marked : Line → Bool) (l : Line) (h : g.Has set way) :
    (g.put set way l).lines.toList.countP marked + (if marked (g.cell set way) then 1 else 0) =
      g.lines.toList.countP marked + if marked l then 1 else 0 := by
  have hlt : set * g.ways + way < g.lines.toList.length := by simpa using index_lt h
  have hcell : g.lines.toList[set * g.ways + way] = g.cell set way := by
    simp [cell, Array.getD_eq_getD_getElem?, Array.getElem?_eq_getElem (index_lt h)]
  have hcounted : (if marked (g.cell set way) then 1 else 0) ≤ g.lines.toList.countP marked := by
    split
    · next hm => exact List.countP_pos_iff.mpr ⟨_, List.getElem_mem hlt, by rw [hcell]; exact hm⟩
    · exact Nat.zero_le _
  show (g.lines.setIfInBounds (set * g.ways + way) l).toList.countP marked + _ = _
  rw [Array.toList_setIfInBounds, List.countP_set hlt, hcell]
  omega

theorem occupancy_use {g : Grid} {set way : Nat} {l : Line} (h : g.Has set way)
    (hv : l.valid = true) : (g.use set way l).occupancy +
      (if (g.cell set way).valid then 1 else 0) = g.occupancy + 1 := by
  have hput := countP_put (g := { g with clock := g.clock + 1 }) (·.valid)
    { l with lastUse := g.clock + 1 } h
  rw [if_pos hv] at hput
  exact hput

theorem dirtyLines_use {g : Grid} {set way : Nat} (l : Line) (h : g.Has set way) :
    (g.use set way l).dirtyLines + (if (g.cell set way).dirty then 1 else 0) =
      g.dirtyLines + if l.dirty then 1 else 0 :=
  countP_put (g := { g with clock := g.clock + 1 }) (·.dirty) { l with lastUse := g.clock + 1 } h

theorem Sound.not_dirty {g : Grid} (h : g.Sound) {set way : Nat} (hc : g.Has set way)
    (clean : ((g.cell set way).valid && (g.cell set way).dirty) = false) :
    (g.cell set way).dirty = false := by
  refine Bool.eq_false_iff.mpr fun hd => ?_
  rw [h.dirty_valid hc hd, hd] at clean
  cases clean

theorem empty_of_build {sets ways : Nat} {g : Grid} (h : build sets ways = .ok g) :
    g.occupancy = 0 ∧ g.dirtyLines = 0 := by
  obtain ⟨-, -, hs, hw, rfl⟩ := build_eq_ok.mp h
  simp [occupancy, dirtyLines, List.countP_replicate, Line.fresh]

end Grid

theorem Memory.Took.writebacks {σ : Type} [LatencyModel σ] {m after : Memory σ} {op : MemoryOp}
    {block : BlockNumber} {now latency done : Tick} (h : m.Took after op block now latency done) :
    after.writebacks = m.writebacks + if op = .writeback then 1 else 0 := by
  rw [Memory.writebacks, h.logged, List.countP_append, List.countP_singleton]
  simp [Memory.writebacks]

namespace Simulation

variable {σ : Type}

/-- The line that a fetch under way will take, and for which nothing was written back so far. -/
def untaken : Option Miss → Nat
  | some ⟨_, .fetching⟩ => 1
  | some ⟨_, .writingBack _ _ _⟩ | none => 0

/-- The write that has missed and not made a line dirty so far. -/
def unwritten : Option Miss → Nat
  | some x => if x.request.isWrite then 1 else 0
  | none => 0

/-- The line that is dirty although memory has taken its writeback. -/
def unacknowledged : Option Miss → Nat
  | some ⟨_, .writingBack _ _ _⟩ => 1
  | some ⟨_, .fetching⟩ | none => 0

theorem unacknowledged_eq {c : Controller} {m : SparseMemory} {due : List Event} (h : Phase c m due) :
    unacknowledged c.miss = if c.status = .awaitWriteback then 1 else 0 := by
  cases h with
  | idle status miss | fetching status miss | writingBack status miss =>
    simp [unacknowledged, miss, status]
  | delivering status miss | releasing status miss =>
    rcases status with status | status <;> simp [unacknowledged, miss, status]

/-- The lines and the writebacks of a run, beside the requests accepted. -/
structure Balanced (log : List Acceptance) (s : Simulation σ) : Prop where
  filled : s.memory.writebacks + s.controller.grid.occupancy + untaken s.controller.miss ≤
    log.countP (·.lookup = .miss)
  written : s.memory.writebacks + s.controller.grid.dirtyLines + unwritten s.controller.miss ≤
    log.countP (·.packet.isWrite) + unacknowledged s.controller.miss

theorem Fresh.balanced {config : CacheConfig} {policy : Policy} {trace : Trace} {s : Simulation σ}
    (fresh : Fresh config policy trace s) : Balanced [] s := by
  obtain ⟨_, _, hbuild, hc⟩ := controller_of_config fresh.controller
  obtain ⟨hvalid, hdirty⟩ := Grid.empty_of_build hbuild
  have hnone : s.memory.writebacks = 0 := by rw [Memory.writebacks, fresh.unlogged]; rfl
  have hmiss := fresh.nothing_outstanding
  constructor
  · simp [hnone, hvalid, untaken, hmiss]
  · simp [hnone, hdirty, unwritten, hmiss]

/-- A request was served from a line of its block, and nothing is outstanding any more. -/
theorem Balanced.finish {s t : Simulation σ} {log : List Acceptance} {a : Option Acceptance}
    {c : Controller} {p : Packet} {way : Nat} {l k : Line} {status : Status} (h : Balanced log s)
    (inSet : way < s.controller.grid.ways)
    (line : s.controller.grid.cell (s.controller.grid.setOf p.block) way = k)
    (grid : c.grid = s.controller.grid) (nothing : c.miss = none)
    (controller : t.controller = c.finish p way l status) (memory : t.memory = s.memory)
    (valid : l.valid = true)
    (takes : 1 ≤ untaken s.controller.miss + a.toList.countP (·.lookup = .miss) +
      if k.valid then 1 else 0)
    (writes : (if l.dirty then 1 else 0) + unacknowledged s.controller.miss ≤
      unwritten s.controller.miss + a.toList.countP (·.packet.isWrite) + if k.dirty then 1 else 0) :
    Balanced (log ++ a.toList) t := by
  have hc := Grid.has_setOf inSet p.block
  have hgrid : t.controller.grid = s.controller.grid.use (s.controller.grid.setOf p.block) way l := by
    rw [controller, Controller.grid_finish, grid]
  have hmiss : t.controller.miss = none := by rw [controller]; exact nothing
  have hvalid := Grid.occupancy_use hc valid
  have hdirty := Grid.dirtyLines_use l hc
  rw [line] at hvalid hdirty
  have hfilled := h.filled
  have hwritten := h.written
  constructor
  · rw [memory, hgrid, hmiss, List.countP_append]
    simp only [untaken]
    omega
  · rw [memory, hgrid, hmiss, List.countP_append]
    simp only [unwritten, unacknowledged]
    omega

variable [LatencyModel σ]

theorem Balanced.move {s t : Simulation σ} {log : List Acceptance} {a : Option Acceptance}
    (h : Balanced log s) (hs : s.Sound) (hm : s.Move a t) : Balanced (log ++ a.toList) t := by
  have hfilled := h.filled
  have hwritten := h.written
  cases hm with
  | wake | refuse | deliver | release =>
    rw [Option.toList_none, List.append_nil]
    exact ⟨h.filled, h.written⟩
  | bypass =>
    constructor <;> simp only [List.countP_append]
    · exact Nat.le_add_right_of_le hfilled
    · refine Nat.le_trans hwritten (Nat.add_le_add_right (Nat.le_add_right _ _) _)
  | @hit _ _ _ p _ _ way _ _ _ idle _ found =>
    obtain ⟨_, hnone, _⟩ := hs.phase.of_idle idle
    obtain ⟨inSet, hh⟩ := Grid.holds_of_lookup found
    obtain ⟨hv, _⟩ := Grid.holds_iff.mp hh
    refine h.finish inSet rfl rfl hnone rfl rfl hv ?_ ?_
    · rw [hv, if_pos rfl]
      exact Nat.le_add_left _ _
    · cases hw : p.isWrite <;>
        cases hd : (s.controller.grid.cell (s.controller.grid.setOf p.block) way).dirty <;>
        simp [hnone, unwritten, unacknowledged, Line.served, hw, hd]
  | @miss _ _ _ p _ _ _ _ _ _ _ _ idle _ _ fetched =>
    obtain ⟨_, hnone, _⟩ := hs.phase.of_idle idle
    obtain ⟨_, _, _, took⟩ := Memory.serve_fetch (b := p.block) p.addr.inSpace_block fetched
    have hlogged := took.writebacks
    rw [if_neg (by decide)] at hlogged
    rw [hnone] at hfilled hwritten
    simp only [untaken, unwritten, unacknowledged] at hfilled hwritten
    constructor
    · simp only [untaken, hlogged, Option.toList_some, List.countP_append, List.countP_singleton,
        decide_true, if_true]
      omega
    · simp only [unwritten, unacknowledged, hlogged, Option.toList_some, List.countP_append,
        List.countP_singleton]
      omega
  | @fill _ _ q p pop miss clean =>
    have inSet := Controller.victim_lt hs.policy p
    have hd := hs.grid.not_dirty (Grid.has_setOf inSet p.block) clean
    refine h.finish (a := none) (c := s.controller.consulted) inSet rfl rfl rfl rfl rfl rfl ?_ ?_
    · rw [miss]
      exact Nat.le_add_right_of_le (Nat.le_refl 1)
    · rw [miss, hd]
      simp [unwritten, unacknowledged, Line.filled, Line.served]
  | @evict _ _ _ p l _ _ _ pop miss line dirty sent =>
    obtain ⟨_, _, _, took⟩ := hs.evicted line dirty sent
    have hlogged := took.writebacks
    rw [if_pos rfl] at hlogged
    rw [miss] at hfilled hwritten
    simp only [untaken, unwritten, unacknowledged] at hfilled hwritten
    have hgrid : s.controller.consulted.grid = s.controller.grid := rfl
    rw [Option.toList_none, List.append_nil]
    constructor
    · simp only [untaken, hlogged, hgrid]
      omega
    · simp only [unwritten, unacknowledged, hlogged, hgrid]
      omega
  | @acknowledge _ _ _ p way victim fetched pop miss =>
    obtain ⟨_, _, _, _, inSet, held, dirty, _⟩ := (hs.phase_of_pop pop rfl).of_writingBack miss
    obtain ⟨hv, _⟩ := Grid.holds_iff.mp held
    refine h.finish (a := none) (c := s.controller.abandon) inSet rfl rfl rfl rfl rfl rfl ?_ ?_
    · rw [hv, if_pos rfl]
      exact Nat.le_add_left _ _
    · rw [miss, dirty]
      simp [unwritten, unacknowledged, Line.filled, Line.served]

/-- All along a run lines and writebacks are in balance with the requests accepted. -/
theorem Run.balanced {s t : Simulation σ} {log : List Acceptance} {entered : Nat} (hs : s.Sound)
    (start : Balanced [] s) (run : s.Run log entered t) : Balanced log t :=
  (run.invariant (P := fun log _ t => Balanced log t) hs start (fun ht h hm => h.move ht hm)
    fun _ _ h _ => ⟨h.filled, h.written⟩).2

/-- In every state that a run comes to, memory has fetched once for each miss, the counters account for
the requests accepted, the blocks written back and those held come from different misses, and each block
written back or dirty comes from a write of its own, but for the one whose writeback waits to be
acknowledged. -/
theorem traffic_conserved {config : CacheConfig} {policy : Policy} {trace : Trace}
    {s t : Simulation σ} {log : List Acceptance} {entered : Nat}
    (fresh : Fresh config policy trace s) (requests : ∀ p ∈ trace.requests, p.IsRequest)
    (inRange : policy.InRange config.ways.toNat) (run : s.Run log entered t) :
    t.memory.fetches = t.stats.misses.toNat ∧
      t.requester.issued = t.stats.requests.toNat ∧
      t.stats.requests.toNat =
        t.stats.hits.toNat + t.stats.misses.toNat + t.stats.bypassed.toNat ∧
      t.memory.writebacks + t.controller.grid.occupancy ≤ t.stats.misses.toNat ∧
      (t.controller.status ≠ .awaitWriteback →
        t.memory.writebacks + t.controller.grid.dirtyLines ≤ log.countP (·.packet.isWrite)) ∧
      (t.controller.status = .awaitWriteback →
        t.memory.writebacks + t.controller.grid.dirtyLines ≤ log.countP (·.packet.isWrite) + 1) := by
  have hs := fresh.sound requests inRange
  have tally := run.tallied hs (fresh.tallied fresh.unlogged)
  have balance := run.balanced hs fresh.balanced
  have hissued := (run.history hs).2
  have hmisses : t.stats.misses.toNat = log.countP (·.lookup = .miss) := tally.met .miss
  have hfilled := balance.filled
  have hwritten := balance.written
  rw [unacknowledged_eq (hs.run run).phase] at hwritten
  rw [fresh.requester_eq] at hissued
  refine ⟨tally.fetches.trans hmisses.symm, ?_, tally.requests.trans tally.lookups.symm, ?_, ?_, ?_⟩
  · rw [hissued, tally.requests]
    exact Nat.zero_add _
  · omega
  · intro hstatus
    rw [if_neg hstatus] at hwritten
    omega
  · intro hstatus
    rw [if_pos hstatus] at hwritten
    omega

theorem traffic_conserved_evicting : ∃ t log, evictor.Run log 1 t ∧
    t.controller.status = .awaitWriteback ∧ log.countP (·.packet.isWrite) = 1 ∧
    t.memory.writebacks = 1 ∧ t.controller.grid.dirtyLines = 1 ∧
    t.memory.writebacks + t.controller.grid.occupancy ≤ t.stats.misses.toNat ∧
    t.memory.writebacks + t.controller.grid.dirtyLines ≤ log.countP (·.packet.isWrite) + 1 := by
  have hstep : advance 7 (evictor.inject 5 .issue) =
      ((advance 7 (evictor.inject 5 .issue)).1, .ok ()) := by rfl
  have run := (Run.enter 5 .start rfl).advance hstep
  have hstatus : (advance 7 (evictor.inject 5 .issue)).1.controller.status = .awaitWriteback := by rfl
  obtain ⟨_, _, _, hfilled, _, hwritten⟩ := traffic_conserved (Fresh.of_configWith evictor_eq).1
    evictions_requests (fun _ _ _ => by decide) run
  exact ⟨_, _, run, hstatus, by rfl, by rfl, by rfl, hfilled, hwritten hstatus⟩

end Simulation

end WritebackCache
