import WritebackCache.Bench
import WritebackCache.Proofs.Outlook

/-! The controller on a bench is linearizable. Requests may be offered at any time and as often as one
likes, memory may answer as late as one likes, and events come up when they are taken: the responses
delivered are those of a flat memory on which the requests take effect one by one, in the order in which
they were accepted. -/

namespace WritebackCache

namespace SparseMemory

/-- The contents of memory once it served some requests in their order, and the answers it gives. -/
def serveAll (m : SparseMemory) : List Packet → SparseMemory × List Packet
  | [] => (m, [])
  | p :: rest =>
    (((m.serve p).1.serveAll rest).1, (m.serve p).2 :: ((m.serve p).1.serveAll rest).2)

theorem serveAll_append (m : SparseMemory) (ps : List Packet) (p : Packet) :
    m.serveAll (ps ++ [p]) = (((m.serveAll ps).1.serve p).1,
      (m.serveAll ps).2 ++ [((m.serveAll ps).1.serve p).2]) := by
  induction ps generalizing m with
  | nil => rfl
  | cons x xs ih => simp only [List.cons_append, serveAll, ih]

theorem length_serveAll (m : SparseMemory) (ps : List Packet) :
    (m.serveAll ps).2.length = ps.length := by
  induction ps generalizing m with
  | nil => rfl
  | cons p rest ih => rw [serveAll, List.length_cons, ih, List.length_cons]

end SparseMemory

/-- The response that an event delivers. -/
def Firing.delivered (x : Firing) : List Packet :=
  match x.result with
  | .ok response => response.toList
  | .error _ => []

namespace Bench

/-- What the bench has in store for its controller. -/
def outlook (b : Bench) : Outlook where
  memory := (b.backing.serveAll b.outstanding).1
  answers := (b.backing.serveAll b.outstanding).2
  events := b.agenda.due

/-- The controller on the bench is faithful to a flat memory. -/
def Faithful (f : FlatMemory) (accepted delivered : List Packet) (b : Bench) : Prop :=
  b.controller.Faithful f accepted delivered b.outlook

/-! ## A bench before its first request -/

/-- A bench with a new controller, and with nothing but the byte strings given behind its port. -/
inductive Loaded (c : Controller) : List (Address × List UInt8) → Bench → Prop
  | new : Loaded c [] { controller := c }
  | load {preloads b next addr bytes} (before : Loaded c preloads b)
      (stored : b.load addr bytes = (next, .ok ())) : Loaded c (preloads ++ [(addr, bytes)]) next

theorem outlook_new (c : Controller) (m : SparseMemory) :
    outlook { controller := c, backing := m } = .calm m := by
  have hdue : Agenda.empty.due = [] := by rw [Agenda.due, Agenda.order_eq_nil_iff.mpr rfl]; rfl
  show Outlook.mk m [] Agenda.empty.due = _
  rw [hdue]
  rfl

theorem Loaded.eq {c : Controller} {preloads : List (Address × List UInt8)} {b : Bench}
    (loaded : Loaded c preloads b) : b = { controller := c, backing := b.backing } ∧
      ∀ k, b.backing.readBlock k = (FlatMemory.preloaded preloads).block k := by
  induction loaded with
  | new => exact ⟨rfl, SparseMemory.readBlock_empty⟩
  | @load preloads b next addr bytes _ stored ih =>
    obtain ⟨hb, hblocks⟩ := ih
    obtain ⟨rfl, hr⟩ := Prod.mk.inj stored
    refine ⟨by rw [hb], fun k => ?_⟩
    rw [FlatMemory.preloaded_append]
    exact SparseMemory.readBlock_load (Prod.ext rfl hr) hblocks k

theorem Loaded.faithful {config : CacheConfig} {policy : Policy} {c : Controller}
    {preloads : List (Address × List UInt8)} {b : Bench}
    (assembled : Controller.ofConfig config policy = .ok c)
    (inRange : policy.InRange config.ways.toNat) (loaded : Loaded c preloads b) :
    Faithful (.preloaded preloads) [] [] b := by
  obtain ⟨_, _, hbuild, hc⟩ := Simulation.controller_of_config assembled
  obtain ⟨hb, hblocks⟩ := loaded.eq
  have phase : Phase c b.backing [] := by rw [hc]; exact .idle rfl rfl rfl rfl
  rw [hb, Faithful, outlook_new]
  exact {
    grid := Grid.sound_of_build hbuild
    policy := by
      show c.policy.InRange c.grid.ways
      rw [(Grid.dims_of_build hbuild).2, hc]
      exact inRange
    phase := phase
    own := fun _ hq => by cases hq
    missing := fun x hx => by rw [hc] at hx; cases hx
    linear := ⟨[], by rw [hc]; rfl, Grid.shows_of_build hbuild hblocks, by rw [hc]; rfl⟩
    last := fun hr => by rw [hc] at hr; cases hr }

/-! ## Steps -/

theorem outlook_perform {b : Bench} {action : Option Action}
    (calm : action = none ∨ b.agenda.due = []) :
    (b.perform action).outlook = b.outlook.after action := by
  rcases action with _ | p | ⟨delay, event⟩
  · rfl
  · simp only [perform, outlook, SparseMemory.serveAll_append, Outlook.after]
  · have hdue : b.agenda.due = [] := calm.resolve_left (by simp)
    simp only [perform, outlook, Outlook.after, Agenda.scheduleIn]
    cases ho : event.isOffer with
    | false => rw [Agenda.due_schedule _ ho hdue, hdue]; rfl
    | true => rw [Agenda.due_schedule_offer _ _ ho]; rfl

variable {f : FlatMemory} {accepted delivered : List Packet} {b t : Bench}

/-- The bench after a call of the controller. -/
theorem Faithful.perform {next : Controller} {action : Option Action}
    (calm : action = none ∨ b.agenda.due = [])
    (h : next.Faithful f accepted delivered (b.outlook.after action)) :
    Faithful f accepted delivered (Bench.perform { b with controller := next } action) := by
  have houtlook := outlook_perform (b := { b with controller := next }) calm
  rw [Faithful, controller_perform, houtlook]
  exact h

/-- At most one thing is to come: an event of the controller, or an answer of memory. -/
theorem Faithful.to_come (h : Faithful f accepted delivered b) :
    b.agenda.due.length + b.outstanding.length ≤ 1 := by
  have hlen := h.phase.length_le
  have hanswers := b.backing.length_serveAll b.outstanding
  rwa [Outlook.due, List.length_append, List.length_map, outlook, hanswers] at hlen

/-- An event of the controller comes up alone. -/
theorem Faithful.alone {tick : Tick} {event : Event} {rest : Agenda}
    (h : Faithful f accepted delivered b) (pop : b.agenda.pop = some (tick, event, rest))
    (own : event.isOffer = false) : b.outlook = ⟨b.backing, [], [event]⟩ ∧
      outlook { b with agenda := rest } = .calm b.backing := by
  have hdue := Agenda.due_of_pop pop
  rw [own, if_neg (by simp)] at hdue
  have hlen := h.to_come
  rw [hdue, List.length_cons] at hlen
  have hrest : rest.due = [] := List.length_eq_zero_iff.mp (by omega)
  have hnone : b.outstanding = [] := List.length_eq_zero_iff.mp (by omega)
  simp only [outlook, hnone, hdue, hrest]
  exact ⟨rfl, rfl⟩

theorem Faithful.offer {p : Packet} {u : Bench} {result : Except (Failure ProtocolError) Offer}
    (h : Faithful f accepted delivered b) (hp : p.IsRequest) (step : b.offer p = (u, result)) :
    ∃ offer, result = .ok offer ∧ Faithful f (accepted ++ offer.taken p) delivered u := by
  obtain ⟨next, action, offer, hcall, calm, hnext⟩ := h.request hp
  rw [Bench.offer, hcall] at step
  cases step
  refine ⟨offer, rfl, Faithful.perform (calm.imp_right fun hn => ?_) hnext⟩
  exact (List.append_eq_nil_iff.mp hn).1

/-- The request that memory is told to answer is the only one, and its answer is taken. -/
theorem Faithful.complete {u : Bench} {result : Except (Failure ProtocolError) Packet}
    (h : Faithful f accepted delivered b) (step : b.complete = some (u, result)) :
    ∃ q, result = .ok q ∧ Faithful f accepted delivered u := by
  cases outstanding : b.outstanding with
  | nil => rw [Bench.complete, outstanding] at step; cases step
  | cons p rest =>
    -- this answer is all that is to come, and it finds memory as if it had been given at once
    have hlen := h.to_come
    rw [outstanding, List.length_cons] at hlen
    have hrest : rest = [] := List.length_eq_zero_iff.mp (by omega)
    have hdue : b.agenda.due = [] := List.length_eq_zero_iff.mp (by omega)
    subst hrest
    let served : Bench := { b with outstanding := [], backing := (b.backing.serve p).1 }
    have hnow : b.outlook = ⟨(b.backing.serve p).1, [(b.backing.serve p).2], []⟩ := by
      rw [outlook, outstanding, hdue]
      rfl
    have hcalm : served.outlook = .calm (b.backing.serve p).1 := by
      simp only [served, outlook, hdue]
      rfl
    rw [Faithful, hnow] at h
    obtain ⟨next, action, hcall, hnext⟩ := h.answer
    rw [← hcalm] at hnext
    simp only [Bench.complete, outstanding, Bench.answer, hcall] at step
    cases step
    exact ⟨_, rfl, Faithful.perform (b := served) (.inr hdue) hnext⟩

/-- The event that comes up is dispatched, and what it delivers is delivered. -/
theorem Faithful.next {u : Bench} {firing : Firing} (h : Faithful f accepted delivered b)
    (step : b.next = some (u, firing)) : ∃ response, firing.result = .ok response ∧
      Faithful f accepted (delivered ++ response.toList) u := by
  cases pop : b.agenda.pop with
  | none => rw [Bench.next, pop] at step; cases step
  | some r =>
    obtain ⟨tick, event, rest⟩ := r
    have hdue := Agenda.due_of_pop pop
    simp only [Bench.next, pop, Option.map_some] at step
    cases event with
    | issue | retry =>
      have hsame : outlook { b with agenda := rest } = b.outlook := by
        simp only [outlook, show b.agenda.due = rest.due from hdue]
      have hrest : Faithful f accepted delivered { b with agenda := rest } := by
        rw [Faithful, hsame]
        exact h
      cases step
      refine ⟨none, rfl, ?_⟩
      rw [Option.toList_none, List.append_nil]
      exact hrest
    | memoryResponse q =>
      have hmem : .memoryResponse q ∈ b.agenda.due := by rw [hdue]; exact List.mem_cons_self
      exact (h.own q hmem).elim
    | deliver =>
      obtain ⟨hnow, hcalm⟩ := h.alone pop rfl
      rw [Faithful, hnow] at h
      obtain ⟨next, action, q, hcall, hnext⟩ := h.deliver
      rw [← hcalm] at hnext
      simp only [dispatch, Bench.deliver, hcall] at step
      cases step
      exact ⟨some q, rfl, Faithful.perform (b := { b with agenda := rest })
        (.inr (congrArg Outlook.events hcalm)) hnext⟩
    | unblock =>
      obtain ⟨hnow, hcalm⟩ := h.alone pop rfl
      rw [Faithful, hnow] at h
      obtain ⟨next, action, hcall, hnext⟩ := h.unblock
      rw [← hcalm] at hnext
      simp only [dispatch, Bench.unblock, hcall] at step
      cases step
      refine ⟨none, rfl, ?_⟩
      rw [Option.toList_none, List.append_nil]
      exact Faithful.perform (b := { b with agenda := rest })
        (.inr (congrArg Outlook.events hcalm)) hnext

/-! ## Runs -/

/-- What an offer takes from whoever made it. -/
def taken (p : Packet) : Except (Failure ProtocolError) Offer → List Packet
  | .ok offer => offer.taken p
  | .error _ => []

/-- Any interleaving of requests that are offered, answers that memory is told to give and events that
are taken off the agenda. A run carries the requests accepted and the responses delivered, in order. -/
inductive Run (b : Bench) : List Packet → List Packet → Bench → Prop
  | start : Run b [] [] b
  | offer {accepted delivered t u p result} (run : Run b accepted delivered t)
      (request : p.IsRequest) (step : t.offer p = (u, result)) :
      Run b (accepted ++ taken p result) delivered u
  | complete {accepted delivered t u result} (run : Run b accepted delivered t)
      (step : t.complete = some (u, result)) : Run b accepted delivered u
  | next {accepted delivered t u firing} (run : Run b accepted delivered t)
      (step : t.next = some (u, firing)) : Run b accepted (delivered ++ firing.delivered) u

theorem Faithful.run (h : Faithful f [] [] b) (run : b.Run accepted delivered t) :
    Faithful f accepted delivered t := by
  induction run with
  | start => exact h
  | offer _ request step ih =>
    obtain ⟨offer, rfl, hu⟩ := ih.offer request step
    exact hu
  | complete _ step ih =>
    obtain ⟨q, _, hu⟩ := ih.complete step
    exact hu
  | next _ step ih =>
    obtain ⟨response, hresult, hu⟩ := ih.next step
    rw [Firing.delivered, hresult]
    exact hu

/-- However offers, answers and events interleave, no call of the controller fails, memory never has
more than one request to answer, and the responses delivered are those of the flat memory to the
requests accepted, in their order; only the last of these can be without its response. -/
theorem responses_linearizable {config : CacheConfig} {policy : Policy} {c : Controller}
    {preloads : List (Address × List UInt8)}
    (assembled : Controller.ofConfig config policy = .ok c)
    (inRange : policy.InRange config.ways.toNat) (loaded : Loaded c preloads b)
    (run : b.Run accepted delivered t) :
    (∀ p, p.IsRequest → ∃ offer, (t.offer p).2 = .ok offer) ∧
      (∀ u result, t.complete = some (u, result) → ∃ q, result = .ok q) ∧
      (∀ u firing, t.next = some (u, firing) → ∃ response, firing.result = .ok response) ∧
      t.outstanding.length ≤ 1 ∧
      (delivered = (FlatMemory.preloaded preloads).responses accepted ∨
        ∃ earlier p, accepted = earlier ++ [p] ∧ p.needsResponse = true ∧
          delivered = (FlatMemory.preloaded preloads).responses earlier) := by
  have h := (loaded.faithful assembled inRange).run run
  refine ⟨fun p hp => ?_, fun u result step => ?_, fun u firing step => ?_, ?_, h.answered⟩
  · obtain ⟨offer, hresult, _⟩ := h.offer hp rfl
    exact ⟨offer, hresult⟩
  · obtain ⟨q, hresult, _⟩ := h.complete step
    exact ⟨q, hresult⟩
  · obtain ⟨response, hresult, _⟩ := h.next step
    exact ⟨response, hresult⟩
  · exact Nat.le_trans (Nat.le_add_left _ _) h.to_come

/-- The controller of a single line, with a byte of block 1 behind its port. -/
def shelf : Bench where
  controller := Simulation.evictor.controller
  backing := SparseMemory.empty.writeBlock ⟨1⟩ (Block.zero.patch 0 [5])

theorem loaded_shelf : Loaded Simulation.evictor.controller [(⟨64⟩, [5])] shelf := by
  have hload : SparseMemory.empty.load ⟨64⟩ [5] = (shelf.backing, .ok ()) := by
    rw [SparseMemory.load, dif_neg (by decide)]
    exact (SparseMemory.load.eq_1 _ _ _).trans (dif_pos rfl)
  exact .load .new (by rw [load, hload]; rfl)

/-- The write misses; the read is first turned away, and then evicts the block that was written. -/
theorem run_shelf : ∃ t answer,
    shelf.Run Simulation.evictor.evictions [answer] t ∧ answer.data = [5] := by
  have requests := Simulation.evictions_requests
  have write := requests _ List.mem_cons_self
  have read := requests _ (.tail _ List.mem_cons_self)
  have accepted := Run.offer (.start (b := shelf)) write rfl
  have filled := (accepted.offer read rfl).complete rfl
  have released := (filled.next rfl).next rfl
  have evicted := (released.offer read rfl).complete rfl
  exact ⟨_, _, (evicted.complete rfl).next rfl, by rfl⟩

theorem responses_linearizable_evicting : ∃ t answer,
    shelf.Run Simulation.evictor.evictions [answer] t ∧ answer.data = [5] ∧
      t.outstanding.length ≤ 1 ∧
      [answer] = (FlatMemory.preloaded [(⟨64⟩, [5])]).responses Simulation.evictor.evictions := by
  obtain ⟨t, answer, run, hdata⟩ := run_shelf
  have assembled := (Simulation.Fresh.of_configWith Simulation.evictor_eq).1.controller
  obtain ⟨_, _, _, houtstanding, hanswers⟩ :=
    responses_linearizable assembled (fun _ _ _ => by decide) loaded_shelf run
  refine ⟨t, answer, run, hdata, houtstanding, ?_⟩
  rcases hanswers with h | ⟨earlier, p, hall, _, h⟩
  · exact h
  · have hwrite : (FlatMemory.preloaded [(⟨64⟩, [5])]).responses
        Simulation.evictor.evictions.dropLast = [] := rfl
    rw [hall, List.dropLast_concat, ← h] at hwrite
    cases hwrite

end Bench

end WritebackCache
