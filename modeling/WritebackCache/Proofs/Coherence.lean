import WritebackCache.Proofs.Run

/-! Cache and memory together are the flat memory. A block that the grid holds is read from its line and
any other from memory; either way it is what the requests served so far have made of it. A line that is
not dirty holds what memory holds, which is what allows it to be dropped: a clean victim is in memory
already, and a dirty one is there by the time its writeback is acknowledged. The one request accepted
but not served is that of the outstanding miss. -/

namespace WritebackCache

namespace Grid

/-- The contents of a block, as far as the cache is concerned: its line, or else main memory. -/
def view (g : Grid) (m : SparseMemory) (b : BlockNumber) : Block :=
  match g.lookup b with
  | some way => (g.cell (g.setOf b) way).data
  | none => m.readBlock b

theorem view_eq (g : Grid) (m : SparseMemory) (b : BlockNumber) :
    g.view m b = match g.find b with
      | some l => l.data
      | none => m.readBlock b := by
  unfold view find
  cases g.lookup b <;> rfl

theorem view_of_find {g : Grid} {m : SparseMemory} {b : BlockNumber} {l : Line}
    (h : g.find b = some l) : g.view m b = l.data := by
  rw [view_eq, h]

theorem view_of_absent {g : Grid} {m : SparseMemory} {b : BlockNumber} (h : g.find b = none) :
    g.view m b = m.readBlock b := by
  rw [view_eq, h]

theorem Sound.find_of_holds {g : Grid} (h : g.Sound) {b b' : BlockNumber} {way : Nat}
    (hw : way < g.ways) (hh : (g.cell (g.setOf b) way).holds b' = true) :
    g.find b' = some (g.cell (g.setOf b) way) := by
  obtain ⟨hv, rfl⟩ := holds_iff.mp hh
  exact h.find_tag (has_setOf hw b) hv

/-- Grid and memory show a flat memory, and only a dirty line knows more than memory does. -/
structure Shows (g : Grid) (m : SparseMemory) (f : FlatMemory) : Prop where
  view : ∀ b, g.view m b = f.block b
  clean : ∀ {b l}, g.find b = some l → l.dirty = false → l.data = m.readBlock b

/-- A new grid holds nothing, so that memory alone shows the flat memory. -/
theorem shows_of_build {sets ways : Nat} {g : Grid} {m : SparseMemory} {f : FlatMemory}
    (h : build sets ways = .ok g) (hm : ∀ b, m.readBlock b = f.block b) : g.Shows m f := by
  have hfind : ∀ b, g.find b = none := fun b =>
    find_eq_none_iff.mpr fun w _ => by rw [cell_build h]; rfl
  refine ⟨fun b => (view_of_absent (hfind b)).trans (hm b), fun hl => ?_⟩
  rw [hfind] at hl
  cases hl

/-- A request is served from a line that has the contents of its block. The line that makes way for it
must be in memory as it is. -/
theorem Shows.use {g : Grid} {m : SparseMemory} {f : FlatMemory} {p : Packet} {way : Nat} {l : Line}
    (h : g.Shows m f) (hg : g.Sound) (hf : g.Fits (g.setOf p.block) way (l.served p))
    (ht : l.tag = p.block) (hd : l.data = f.block p.block)
    (hc : l.dirty = false → l.data = m.readBlock p.block)
    (hold : ∀ b, b ≠ p.block → (g.cell (g.setOf p.block) way).holds b = true →
      (g.cell (g.setOf p.block) way).data = m.readBlock b) :
    (g.use (g.setOf p.block) way (l.served p)).Shows m (f.apply p) := by
  have hfind := fun b => hg.find_use hf b
  rw [Line.tag_served, ht] at hfind
  constructor
  · intro b
    rw [FlatMemory.block_apply, view_eq, hfind b]
    by_cases hb : b = p.block
    · subst hb
      rw [if_pos rfl]
      show (if p.isWrite then l.data.patch p.offset p.data else l.data) = _
      rw [hd]
      cases p.isWrite <;> simp
    · have hflat : (if p.isWrite = true ∧ b = p.block then (f.block b).patch p.offset p.data
          else f.block b) = f.block b := if_neg fun he => hb he.2
      rw [if_neg hb, hflat, ← h.view b]
      by_cases hh : (g.cell (g.setOf p.block) way).holds b = true
      · rw [if_pos hh]
        show m.readBlock b = _
        rw [← hold b hb hh]
        exact (view_of_find (hg.find_of_holds hf.coords.2 hh)).symm
      · rw [if_neg hh, view_eq]
  · intro b k hk hdirty
    rw [hfind b] at hk
    split at hk
    · next hb =>
      subst hb
      cases hk
      obtain ⟨hl, hw⟩ := Bool.or_eq_false_iff.mp (show (l.dirty || p.isWrite) = false from hdirty)
      show (if p.isWrite then l.data.patch p.offset p.data else l.data) = _
      rw [hw]
      exact hc hl
    · split at hk
      · cases hk
      · exact h.clean hk hdirty

/-- A request that hits is served from the line found. -/
theorem Shows.hit {g : Grid} {m : SparseMemory} {f : FlatMemory} {p : Packet} {way : Nat}
    (h : g.Shows m f) (hg : g.Sound) (found : g.lookup p.block = some way) :
    (g.use (g.setOf p.block) way ((g.cell (g.setOf p.block) way).served p)).Shows m (f.apply p) ∧
      (g.cell (g.setOf p.block) way).data = f.block p.block := by
  obtain ⟨hw, hh⟩ := holds_of_lookup found
  obtain ⟨hv, ht⟩ := holds_iff.mp hh
  have hfind := hg.find_of_holds hw hh
  have hd := (view_of_find hfind).symm.trans (h.view p.block)
  refine ⟨h.use hg (hg.fits_of_holds hw hh hv ht) ht hd (h.clean hfind) ?_, hd⟩
  intro b hne hb
  exact (hne ((holds_iff.mp hb).2.symm.trans ht)).elim

/-- The block of a miss is filled into a way whose line is in memory as it is. -/
theorem Shows.fill {g : Grid} {m : SparseMemory} {f : FlatMemory} {p : Packet} {way : Nat}
    (h : g.Shows m f) (hg : g.Sound) (absent : g.lookup p.block = none) (inSet : way < g.ways)
    (hold : ∀ b, (g.cell (g.setOf p.block) way).holds b = true →
      (g.cell (g.setOf p.block) way).data = m.readBlock b) :
    (g.use (g.setOf p.block) way (Line.filled p (m.readBlock p.block))).Shows m (f.apply p) ∧
      m.readBlock p.block = f.block p.block := by
  have hd : m.readBlock p.block = f.block p.block := by
    rw [← h.view p.block]
    exact (view_of_absent (Option.map_eq_none_iff.mpr absent)).symm
  let l : Line := ⟨true, false, p.block, 0, m.readBlock p.block⟩
  exact ⟨h.use (l := l) hg (fits_of_lookup inSet absent p.addr.inSpace_block rfl rfl) rfl hd
    (fun _ => rfl) fun b _ hb => hold b hb, hd⟩

/-- A line that is not dirty is in memory as it is. -/
theorem Shows.in_memory {g : Grid} {m : SparseMemory} {f : FlatMemory} {b c : BlockNumber} {way : Nat}
    (h : g.Shows m f) (hg : g.Sound) (hw : way < g.ways)
    (clean : ((g.cell (g.setOf c) way).valid && (g.cell (g.setOf c) way).dirty) = false)
    (hb : (g.cell (g.setOf c) way).holds b = true) :
    (g.cell (g.setOf c) way).data = m.readBlock b := by
  rw [(holds_iff.mp hb).1, Bool.true_and] at clean
  exact h.clean (hg.find_of_holds hw hb) clean

/-- Writing a dirty line back changes memory under that line only. -/
theorem Shows.writeback {g : Grid} {m : SparseMemory} {f : FlatMemory} {l : Line} (h : g.Shows m f)
    (hl : g.find l.tag = some l) (hd : l.dirty = true) : g.Shows (m.writeBlock l.tag l.data) f := by
  constructor
  · intro b
    rw [← h.view b, view_eq, view_eq]
    split
    · rfl
    · next hn =>
      rw [SparseMemory.readBlock_writeBlock, if_neg]
      intro he
      rw [he, hl] at hn
      cases hn
  · intro b k hk hdirty
    rw [SparseMemory.readBlock_writeBlock, if_neg, h.clean hk hdirty]
    intro he
    rw [he, hl] at hk
    cases hk
    rw [hd] at hdirty
    cases hdirty

end Grid

/-- Once a request took effect on the line of its block, the line holds what the flat memory does. -/
theorem Line.data_served {f : FlatMemory} {p : Packet} {l : Line} (hd : l.data = f.block p.block) :
    (l.served p).data = (f.apply p).block p.block := by
  rw [FlatMemory.block_apply, ← hd]
  show (if p.isWrite then _ else _) = _
  simp only [and_true]

/-- What a line answers to a request that took effect on it, if a response is expected. -/
theorem Controller.toList_reply {c : Controller} {f : FlatMemory} {p : Packet} {data : Block}
    (kind : p.kind ≠ .other) (hr : c.response = none) (hd : data = (f.apply p).block p.block) :
    (c.reply p data).toList = if p.needsResponse then [f.response p] else [] := by
  rw [reply, hr, FlatMemory.response_eq f kind, ← hd]
  cases p.needsResponse <;> rfl

namespace Simulation

variable {σ : Type}

/-- The machine shows the flat memory that the requests served so far have left of `m`, and has given
the answers they were due, the last of which may wait to be delivered. -/
structure Coherent (m : FlatMemory) (served : List Packet) (s : Simulation σ) : Prop where
  shows : s.controller.grid.Shows s.memory.contents (m.after served)
  answers : s.requester.completions.map (·.packet) ++ s.controller.response.toList =
    m.responses served

/-- The end of the service of a request: its line is used, and its answer is there. -/
theorem Coherent.finish {m : FlatMemory} {served : List Packet} {s t : Simulation σ} {p : Packet}
    {c : Controller} {way : Nat} {l : Line} {status : Status} (h : Coherent m served s)
    (kind : p.kind ≠ .other) (hr : s.controller.response = none)
    (shows : (c.grid.use (c.grid.setOf p.block) way (l.served p)).Shows s.memory.contents
      ((m.after served).apply p))
    (hd : l.data = (m.after served).block p.block) (hc : c.response = none)
    (controller : t.controller = c.finish p way (l.served p) status)
    (contents : t.memory.contents = s.memory.contents)
    (completions : t.requester.completions = s.requester.completions) :
    Coherent m (served ++ [p]) t := by
  constructor
  · rw [contents, controller, FlatMemory.after_append]
    exact shows
  · have hbefore := h.answers
    rw [hr, Option.toList_none, List.append_nil] at hbefore
    rw [completions, hbefore, FlatMemory.responses_append, controller]
    show _ ++ (c.reply p (l.served p).data).toList = _
    rw [Controller.toList_reply kind hc (Line.data_served hd)]

/-- The block of a miss is filled into a way whose line is in memory as it is. -/
theorem Coherent.fill {m : FlatMemory} {served : List Packet} {s t : Simulation σ} {p : Packet}
    {c : Controller} {way : Nat} {fetched : Block} {status : Status} (h : Coherent m served s)
    (hs : s.Sound) (kind : p.kind ≠ .other) (hr : s.controller.response = none)
    (absent : s.controller.grid.lookup p.block = none) (inSet : way < s.controller.grid.ways)
    (hq : fetched = s.memory.contents.readBlock p.block)
    (hold : ∀ b, (s.controller.grid.cell (s.controller.grid.setOf p.block) way).holds b = true →
      (s.controller.grid.cell (s.controller.grid.setOf p.block) way).data =
        s.memory.contents.readBlock b)
    (grid : c.grid = s.controller.grid) (hc : c.response = none)
    (controller : t.controller = c.finish p way (Line.filled p fetched) status)
    (contents : t.memory.contents = s.memory.contents)
    (completions : t.requester.completions = s.requester.completions) :
    Coherent m (served ++ [p]) t := by
  subst hq
  obtain ⟨shows, hd⟩ := h.shows.fill hs.grid absent inSet hold
  let l : Line := ⟨true, false, p.block, 0, s.memory.contents.readBlock p.block⟩
  refine h.finish (l := l) kind hr ?_ hd hc controller contents completions
  rw [grid]
  exact shows

theorem Fresh.coherent {config : CacheConfig} {policy : Policy} {trace : Trace} {s : Simulation σ}
    (fresh : Fresh config policy trace s) :
    Coherent (FlatMemory.preloaded trace.preloads) [] s := by
  obtain ⟨_, _, hbuild, hc⟩ := controller_of_config fresh.controller
  obtain ⟨timing, hload⟩ := fresh.memory
  refine ⟨Grid.shows_of_build hbuild (readBlock_preload hload), ?_⟩
  rw [fresh.requester_eq, hc]
  rfl

variable [LatencyModel σ]

/-- A move serves at most one request: the one it accepts, or the one whose miss was outstanding. -/
theorem Move.coherent {s t : Simulation σ} {a : Option Acceptance} {m : FlatMemory}
    {served : List Packet} (hs : s.Sound) (h : s.Move a t) (hc : Coherent m served s) :
    ∃ more, Coherent m (served ++ more) t ∧
      (s.controller.miss.map Miss.request).toList ++ a.toList.map (·.packet) =
        more ++ (t.controller.miss.map Miss.request).toList := by
  cases h with
  | wake | release => exact ⟨[], by rw [List.append_nil]; exact ⟨hc.shows, hc.answers⟩, by simp⟩
  | refuse _ _ next =>
    obtain ⟨_, _, _, _, _, hcs⟩ := Requester.next_some next
    refine ⟨[], ?_, by simp⟩
    rw [List.append_nil]
    exact ⟨hc.shows, by rw [Requester.rejected, hcs]; exact hc.answers⟩
  | @bypass _ _ _ p _ _ _ _ next idle kind =>
    obtain ⟨_, hm, hr, _⟩ := hs.phase.of_idle idle
    obtain ⟨_, _, _, _, _, hcs⟩ := Requester.next_some next
    have hw : p.isWrite = false := by simp [Packet.isWrite, kind]
    refine ⟨[p], ⟨?_, ?_⟩, by simp [hm]⟩
    · rw [FlatMemory.after_append, FlatMemory.apply, hw]
      exact hc.shows
    · rw [FlatMemory.responses_append, Packet.needsResponse_of_other (hs.isRequest next) kind,
        Requester.accepted, hcs]
      simpa using hc.answers
  | @hit _ _ _ p _ _ way _ _ next idle kind found =>
    obtain ⟨_, hm, hr, _⟩ := hs.phase.of_idle idle
    obtain ⟨_, _, _, _, _, hcs⟩ := Requester.next_some next
    obtain ⟨shows, hd⟩ := hc.shows.hit hs.grid found
    exact ⟨[p], hc.finish kind hr shows hd hr rfl rfl hcs, by simp [hm]⟩
  | @miss _ _ _ p _ _ _ _ _ _ _ next idle _ _ fetched =>
    obtain ⟨_, hm, _⟩ := hs.phase.of_idle idle
    obtain ⟨_, _, _, _, _, hcs⟩ := Requester.next_some next
    obtain ⟨hcont, _⟩ := Memory.serve_fetch p.addr.inSpace_block fetched
    refine ⟨[], ?_, by simp [hm]⟩
    rw [List.append_nil]
    refine ⟨?_, ?_⟩
    · rw [hcont]; exact hc.shows
    · rw [Requester.accepted, hcs]; exact hc.answers
  | @deliver _ _ q pop response =>
    refine ⟨[], ⟨by rw [List.append_nil]; exact hc.shows, ?_⟩, by simp⟩
    have hanswers := hc.answers
    rw [response] at hanswers
    rw [Requester.receive, List.map_append, List.append_nil]
    exact (List.append_nil _).trans hanswers
  | @fill _ _ q p pop miss clean =>
    obtain ⟨_, hq, hr, absent⟩ := hs.fetched pop miss
    have hw := Controller.victim_lt hs.policy p
    refine ⟨[p], hc.fill (c := s.controller.consulted) hs (hs.missing _ miss).2 hr absent hw hq ?_ rfl
      hr rfl rfl rfl, by simp [miss]⟩
    exact fun b hb => hc.shows.in_memory hs.grid hw clean hb
  | @evict _ _ _ p l _ _ _ pop miss line dirty sent =>
    have hw := Controller.victim_lt hs.policy p
    obtain ⟨hv, hd⟩ := Bool.and_eq_true_iff.mp dirty
    obtain ⟨hcont, _⟩ := hs.evicted line dirty sent
    have hfind : s.controller.grid.find l.tag = some l := by
      rw [← line]
      exact hs.grid.find_tag (Grid.has_setOf hw p.block) (by rw [line]; exact hv)
    refine ⟨[], ?_, by simp [miss]⟩
    rw [List.append_nil]
    refine ⟨?_, hc.answers⟩
    rw [hcont]
    exact hc.shows.writeback hfind hd
  | @acknowledge _ _ _ p way victim fetched pop miss =>
    obtain ⟨_, _, hr, absent, inSet, held, _, written, hq⟩ :=
      (hs.phase_of_pop pop rfl).of_writingBack miss
    refine ⟨[p], hc.fill (c := s.controller.abandon) hs (hs.missing _ miss).2 hr absent inSet hq ?_ rfl
      hr rfl rfl rfl, by simp [miss]⟩
    intro b hb
    rw [← written, ← (Grid.holds_iff.mp held).2, (Grid.holds_iff.mp hb).2]

/-- All along a run the machine is coherent with the requests accepted and not outstanding. -/
theorem Run.coherent {s t : Simulation σ} {m : FlatMemory} {log : List Acceptance} {entered : Nat}
    (hs : s.Sound) (start : Coherent m [] s) (nothing : s.controller.miss = none)
    (run : s.Run log entered t) : ∃ served,
      log.map (·.packet) = served ++ (t.controller.miss.map Miss.request).toList ∧
        Coherent m served t := by
  refine (run.invariant (P := fun log _ t => ∃ served,
    log.map (·.packet) = served ++ (t.controller.miss.map Miss.request).toList ∧
      Coherent m served t) hs ⟨[], by rw [nothing]; rfl, start⟩ ?_ ?_).2
  · intro log entered t a u ht hp hm
    obtain ⟨served, hlog, hc⟩ := hp
    obtain ⟨more, hmore, hpending⟩ := hm.coherent ht hc
    refine ⟨served ++ more, ?_, hmore⟩
    rw [List.map_append, hlog, List.append_assoc, hpending, List.append_assoc]
  · intro log entered t event tick _ hp _
    obtain ⟨served, hlog, hc⟩ := hp
    exact ⟨served, hlog, hc.shows, hc.answers⟩

/-- In every state that a run comes to, the requests accepted are the first of the trace, all of them
but that of an outstanding miss were served, every block of cache and memory together is the block of
the flat memory after those served, and a valid line that is not dirty holds what memory holds. -/
theorem cache_over_memory_is_flat {config : CacheConfig} {policy : Policy} {trace : Trace}
    {s t : Simulation σ} {log : List Acceptance} {entered : Nat}
    (fresh : Fresh config policy trace s) (requests : ∀ p ∈ trace.requests, p.IsRequest)
    (inRange : policy.InRange config.ways.toNat) (run : s.Run log entered t) :
    log.map (·.packet) = trace.requests.take t.requester.issued ∧
      (∃ served, log.map (·.packet) = served ++ (t.controller.miss.map Miss.request).toList ∧
        ∀ b, t.controller.grid.view t.memory.contents b =
          ((FlatMemory.preloaded trace.preloads).after served).block b) ∧
      ∀ set way, t.controller.grid.Has set way → (t.controller.grid.cell set way).valid = true →
        (t.controller.grid.cell set way).dirty = false →
          (t.controller.grid.cell set way).data =
            t.memory.contents.readBlock (t.controller.grid.cell set way).tag := by
  have hs := fresh.sound requests inRange
  obtain ⟨served, hlog, hc⟩ := run.coherent hs fresh.coherent fresh.nothing_outstanding
  refine ⟨?_, ⟨served, hlog, hc.shows.view⟩, ?_⟩
  · obtain ⟨hall, hissued⟩ := run.history hs
    rw [fresh.requester_eq] at hall hissued
    have hlen : t.requester.issued = (log.map (·.packet)).length := by
      rw [hissued, List.length_map]
      exact Nat.zero_add _
    have htrace : trace.requests = log.map (·.packet) ++
        (t.requester.held.toList ++ t.requester.queue) := hall
    rw [htrace, hlen, List.take_left]
  · intro set way hcell hv hdirty
    exact hc.shows.clean ((hs.run run).grid.find_tag hcell hv) hdirty

/-- A single line, and a posted write that a read of another block evicts. -/
def evictor : Simulation Timing :=
  ofParts { grid := ⟨1, 1, 0, #[.fresh], by decide, by decide, rfl⟩, policy := fun _ _ => 0, latency := 1 }
    (.empty (.fixed 10)) { queue := evictions } 1
where
  evictions : List Packet :=
    [⟨⟨0⟩, .write, [7], false, false, by decide⟩, ⟨⟨64⟩, .read, [0], true, false, by decide⟩]

theorem evictor_eq : ofConfigWith { cache := { sizeBytes := 64, ways := 1 } } (fun _ _ => 0)
    { requests := evictor.evictions } = .ok evictor := by rfl

theorem evictions_requests : ∀ p ∈ evictor.evictions, p.IsRequest := by
  simp only [evictor.evictions, List.forall_mem_cons]
  refine ⟨?_, ?_, fun _ h => by cases h⟩
  · exact @Packet.IsRequest.postedWrite ⟨0⟩ [7] _ rfl
  · exact @Packet.IsRequest.read ⟨64⟩ 1 _ rfl

theorem cache_over_memory_is_flat_evicting : ∃ t log, evictor.Run log 1 t ∧
    t.agenda.isEmpty = true ∧ ∀ b, t.controller.grid.view t.memory.contents b =
      (FlatMemory.zero.after evictor.evictions).block b := by
  have hstep : advance 9 (evictor.inject 5 .issue) =
      ((advance 9 (evictor.inject 5 .issue)).1, .ok ()) := by rfl
  have run := (Run.enter 5 .start rfl).advance hstep
  obtain ⟨_, ⟨served, hlog, hview⟩, _⟩ := cache_over_memory_is_flat (Fresh.of_configWith evictor_eq).1
    evictions_requests (fun _ _ _ => by decide) run
  have hserved : evictor.evictions = served := by
    have hall : (observed acceptance? 9 (evictor.inject 5 .issue)).map (·.packet) =
        evictor.evictions := by rfl
    have hdone : (advance 9 (evictor.inject 5 .issue)).1.controller.miss = none := by rfl
    rwa [List.nil_append, hall, hdone, Option.map_none, Option.toList_none, List.append_nil] at hlog
  refine ⟨_, _, run, by rfl, fun b => ?_⟩
  rw [hserved]
  exact hview b

end Simulation

end WritebackCache
