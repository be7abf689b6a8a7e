import WritebackCache.Proofs.Protocol
import WritebackCache.Simulation.Work

/-! Runs. A simulation put together from fresh parts is sound, and so is every state that steps and
offers entered by hand lead to. A run is recorded with the requests accepted on the way. Since a sound
simulation only moves or faults, what every move keeps holds all along a run; and once no event is
left everything was accepted and answered. -/

namespace WritebackCache

namespace Simulation

variable {σ : Type}

/-- A simulation put together from fresh parts: a controller of a sound geometry, a memory that holds
nothing but the preloads of the trace, and a requester with the requests of the trace. -/
structure Fresh (config : CacheConfig) (policy : Policy) (trace : Trace) (s : Simulation σ) : Prop where
  controller : Controller.ofConfig config policy = .ok s.controller
  memory : ∃ timing, preload (.empty timing) trace.preloads = .ok s.memory
  parts : s = ofParts s.controller s.memory { queue := trace.requests } s.issueGap

/-- What a controller starts with. -/
theorem controller_of_config {config : CacheConfig} {policy : Policy} {c : Controller}
    (h : Controller.ofConfig config policy = .ok c) :
    ∃ sets, config.sets = .ok sets ∧ Grid.build sets.toNat config.ways.toNat = .ok c.grid ∧
      c = { grid := c.grid, policy, latency := config.latency } := by
  unfold Controller.ofConfig at h
  split at h
  · cases h
  · obtain ⟨sets, hsets, hgrid⟩ := bind_eq_ok.mp (orFault_eq_ok.mp h)
    obtain ⟨grid, hbuild, hc⟩ := map_eq_ok.mp hgrid
    subst hc
    exact ⟨sets, hsets, hbuild, rfl⟩

variable {config : CacheConfig} {policy : Policy} {trace : Trace} {s : Simulation σ}

theorem Fresh.requester_eq (fresh : Fresh config policy trace s) :
    s.requester = { queue := trace.requests } := by
  rw [fresh.parts]
  rfl

theorem Fresh.stats_eq (fresh : Fresh config policy trace s) : s.stats = {} := by
  rw [fresh.parts]
  rfl

theorem Fresh.order_eq (fresh : Fresh config policy trace s) : s.agenda.order = [(0, .issue)] := by
  rw [fresh.parts]
  show (Agenda.empty.schedule 0 .issue).order = _
  rw [Agenda.order_schedule, Agenda.order_eq_nil_iff.mpr rfl]
  rfl

theorem Fresh.controller_eq (fresh : Fresh config policy trace s) :
    s.controller = { grid := s.controller.grid, policy, latency := config.latency } := by
  obtain ⟨_, _, _, hc⟩ := controller_of_config fresh.controller
  exact hc

theorem Fresh.nothing_outstanding (fresh : Fresh config policy trace s) :
    s.controller.miss = none := by
  rw [fresh.controller_eq]

theorem Fresh.unlogged (fresh : Fresh config policy trace s) : s.memory.log = [] := by
  obtain ⟨_, hload⟩ := fresh.memory
  exact (preload_ok hload SparseMemory.readBlock_empty).2.2.2

/-- A simulation of fresh parts is sound if every packet of its trace is a request and its policy names
ways of the geometry. -/
theorem Fresh.sound (fresh : Fresh config policy trace s) (requests : ∀ p ∈ trace.requests, p.IsRequest)
    (inRange : policy.InRange config.ways.toNat) : s.Sound := by
  obtain ⟨_, _, hbuild, hc⟩ := controller_of_config fresh.controller
  refine ⟨Grid.sound_of_build hbuild, ?_, ?_, ?_, ?_, ?_, ?_⟩
  · rw [(Grid.dims_of_build hbuild).2, hc]
    exact inRange
  · rw [Agenda.due, fresh.order_eq, hc]
    exact .idle rfl rfl rfl rfl
  · rw [fresh.requester_eq]
    exact requests
  · intro x hx
    rw [hc] at hx
    cases hx
  · rw [fresh.requester_eq, hc]
    simp
  · intro _ _
    exact .inl ⟨(0, .issue), by rw [fresh.order_eq]; exact List.mem_singleton_self _, rfl⟩

/-- Once no event is left, everything was accepted and answered. -/
theorem Sound.finished {s : Simulation σ} (hs : s.Sound) (he : s.agenda.isEmpty = true) :
    s.controller.status = .idle ∧ s.controller.miss = none ∧ s.controller.response = none ∧
      s.requester.waiting = false ∧ s.requester.held.toList ++ s.requester.queue = [] := by
  have hn : s.agenda.order = [] := Agenda.order_eq_nil_iff.mpr he
  have hphase := hs.phase
  rw [Agenda.due, hn] at hphase
  cases hphase with
  | idle status miss response retry =>
    have hw : s.requester.waiting = false := by
      rw [Bool.eq_false_iff]
      intro h
      have := hs.waiting.mp h
      simp [miss, response] at this
    refine ⟨status, miss, response, hw, ?_⟩
    rw [← List.length_eq_zero_iff, ← Requester.remaining_eq]
    rcases Nat.eq_zero_or_pos s.requester.remaining with h | h
    · exact h
    · rcases hs.wake hw h with ⟨x, hx, _⟩ | hr
      · rw [hn] at hx; cases hx
      · rw [retry] at hr; cases hr

/-! ## Machines put together from a description -/

theorem Fresh.of_configWith {config : Config} {policy : Policy} {trace : Trace}
    {s : Simulation Timing} (h : ofConfigWith config policy trace = .ok s) :
    Fresh config.cache policy trace s ∧ Timing.ofConfig config.memory = .ok s.memory.timing ∧
      s.memory.readyAt = 0 ∧ s.memory.log = [] ∧ s.issueGap = config.requester.issueGap := by
  obtain ⟨timing, ht, h⟩ := bind_eq_ok.mp h
  obtain ⟨memory, hm, h⟩ := bind_eq_ok.mp h
  obtain ⟨controller, hc, h⟩ := bind_eq_ok.mp h
  cases h
  have hload := orFault_eq_ok.mp hm
  obtain ⟨_, htiming, hready, hlog⟩ := preload_ok hload SparseMemory.readBlock_empty
  refine ⟨⟨hc, ⟨timing, hload⟩, rfl⟩, ?_, hready, hlog, rfl⟩
  rw [ht, show (ofParts controller memory _ _).memory.timing = timing from htiming]

/-- The machine with least recently used replacement is the one with that policy put in. -/
theorem ofConfigWith_lru {config : Config} {trace : Trace} {s : Simulation Timing}
    (h : ofConfig config trace = .ok s) :
    config.validate = .ok () ∧ ofConfigWith config Replacement.lru trace = .ok s := by
  obtain ⟨_, hv, h⟩ := bind_eq_ok.mp h
  obtain ⟨controller, hc, h⟩ := bind_eq_ok.mp h
  obtain ⟨timing, ht, h⟩ := bind_eq_ok.mp h
  obtain ⟨memory, hm, h⟩ := bind_eq_ok.mp h
  refine ⟨hv, bind_eq_ok.mpr ⟨timing, ht, bind_eq_ok.mpr ⟨memory, hm, bind_eq_ok.mpr ⟨controller, hc, h⟩⟩⟩⟩

variable [LatencyModel σ]

/-- The states that steps and offers entered by hand lead to, with the requests accepted on the way and
the number of offers entered. -/
inductive Run (s : Simulation σ) : List Acceptance → Nat → Simulation σ → Prop
  | start : Run s [] 0 s
  | step {log entered t u r} : Run s log entered t → t.step = (u, r) → Returns r →
      Run s (log ++ t.acceptance?.toList) entered u
  | enter {log entered t event} (tick : Tick) : Run s log entered t → event.isOffer = true →
      Run s log (entered + 1) (t.inject tick event)

/-- What holds at the start and is kept by every move and every offer entered holds all along a run. -/
theorem Run.invariant {s t : Simulation σ} {log : List Acceptance} {entered : Nat}
    {P : List Acceptance → Nat → Simulation σ → Prop} (hs : s.Sound) (start : P [] 0 s)
    (move : ∀ {log entered t a u}, t.Sound → P log entered t → t.Move a u →
      P (log ++ a.toList) entered u)
    (enter : ∀ {log entered t event} (tick : Tick), t.Sound → P log entered t →
      event.isOffer = true → P log (entered + 1) (t.inject tick event))
    (run : s.Run log entered t) : t.Sound ∧ P log entered t := by
  induction run with
  | start => exact ⟨hs, start⟩
  | @step log entered t u r _ hstep hr ih =>
    obtain ⟨ht, hp⟩ := ih
    refine ⟨ht.step hstep hr, ?_⟩
    rcases outcome_of_step ht hstep with ⟨_, rfl, hn⟩ | ⟨_, hm⟩ | ⟨f, hf, _⟩
    · have ha : u.acceptance? = none := by
        rw [acceptance?, Agenda.pop_eq_none_iff_order.mpr hn]
      rw [ha, Option.toList_none, List.append_nil]
      exact hp
    · exact move ht hp hm
    · exact (hr f hf).elim
  | enter tick _ offer ih => exact ⟨ih.1.inject tick offer, enter tick ih.1 ih.2 offer⟩

theorem Sound.run {s t : Simulation σ} {log : List Acceptance} {entered : Nat} (hs : s.Sound)
    (run : s.Run log entered t) : t.Sound :=
  (run.invariant (P := fun _ _ _ => True) hs trivial (fun _ _ _ => trivial)
    fun _ _ _ _ => trivial).1

/-- A machine that serves the requests one after the other and goes along with every move is beside the
simulation all along a run: it has served the requests accepted, except for that of an outstanding miss,
and every one that was accepted has met with what it meets with there. -/
theorem Run.serves {s t : Simulation σ} {log : List Acceptance} {entered : Nat}
    {R : List Packet → Simulation σ → Prop} {meets : List Packet → Packet → Lookup}
    {lookups : List Packet → List Lookup} (hs : s.Sound) (start : R [] s)
    (nothing : s.controller.miss = none) (none_met : lookups [] = [])
    (one_more : ∀ served p, lookups (served ++ [p]) = lookups served ++ [meets served p])
    (move : ∀ {served s t a}, s.Sound → R served s → s.Move a t → ∃ more,
      R (served ++ more) t ∧
        (s.controller.miss.map Miss.request).toList ++ a.toList.map (·.packet) =
          more ++ (t.controller.miss.map Miss.request).toList ∧
        ∀ x ∈ a, s.controller.miss = none ∧ x.lookup = meets served x.packet)
    (enter : ∀ {served t event} (tick : Tick), R served t → R served (t.inject tick event))
    (run : s.Run log entered t) : ∃ served,
      log.map (·.packet) = served ++ (t.controller.miss.map Miss.request).toList ∧
        log.map (·.lookup) = lookups (log.map (·.packet)) ∧ R served t := by
  refine (run.invariant (P := fun log _ t => ∃ served,
    log.map (·.packet) = served ++ (t.controller.miss.map Miss.request).toList ∧
      log.map (·.lookup) = lookups (log.map (·.packet)) ∧ R served t) hs
    ⟨[], by rw [nothing]; rfl, none_met.symm, start⟩ ?_ ?_).2
  · intro log entered t a u ht hp hm
    obtain ⟨served, hlog, hlookups, hr⟩ := hp
    obtain ⟨more, hmore, hpending, haccepted⟩ := move ht hr hm
    refine ⟨served ++ more, ?_, ?_, hmore⟩
    · rw [List.map_append, hlog, List.append_assoc, hpending, List.append_assoc]
    · cases a with
      | none => simpa using hlookups
      | some x =>
        obtain ⟨hm, hx⟩ := haccepted x rfl
        rw [hm, Option.map_none, Option.toList_none, List.append_nil] at hlog
        simp only [Option.toList_some, List.map_append, List.map_cons, List.map_nil]
        rw [one_more, hlookups, hx, hlog]
  · intro log entered t event tick _ hp _
    obtain ⟨served, hlog, hlookups, hr⟩ := hp
    exact ⟨served, hlog, hlookups, enter tick hr⟩

/-! ## Requests -/

/-- A move takes a request off the front of those left, if it accepts one. -/
theorem Move.history {s t : Simulation σ} {a : Option Acceptance} (h : s.Move a t) :
    s.requester.held.toList ++ s.requester.queue =
      a.toList.map (·.packet) ++ (t.requester.held.toList ++ t.requester.queue) ∧
    t.requester.issued = s.requester.issued + a.toList.length := by
  cases h with
  | wake | deliver | release | fill | evict | acknowledge => exact ⟨rfl, rfl⟩
  | refuse _ _ next =>
    obtain ⟨_, hl, _, _, hi, _⟩ := Requester.next_some next
    exact ⟨hl, hi⟩
  | bypass _ _ next | hit _ _ next | miss _ _ next =>
    obtain ⟨_, hl, hh, _, hi, _⟩ := Requester.next_some next
    refine ⟨?_, congrArg Nat.succ hi⟩
    simp only [Requester.accepted, hh]
    exact hl

/-- The requests accepted and those left are the trace, in its order. -/
theorem Run.history {s t : Simulation σ} {log : List Acceptance} {entered : Nat} (hs : s.Sound)
    (run : s.Run log entered t) :
    s.requester.held.toList ++ s.requester.queue =
      log.map (·.packet) ++ (t.requester.held.toList ++ t.requester.queue) ∧
    t.requester.issued = s.requester.issued + log.length := by
  refine (run.invariant (P := fun log _ t => s.requester.held.toList ++ s.requester.queue =
    log.map (·.packet) ++ (t.requester.held.toList ++ t.requester.queue) ∧
      t.requester.issued = s.requester.issued + log.length) hs ⟨rfl, rfl⟩ ?_ ?_).2
  · intro log entered t a u _ hp hm
    obtain ⟨hl, hi⟩ := hm.history
    refine ⟨?_, ?_⟩
    · rw [hp.1, hl, List.map_append, List.append_assoc]
    · rw [hi, hp.2, List.length_append, Nat.add_assoc]
  · intro log entered t event tick _ hp _
    exact hp

/-! ## Running to the end -/

/-- What there is to see before each of a number of steps, up to the first that fails. -/
def observed {α : Type} (look : Simulation σ → Option α) : Nat → Simulation σ → List α
  | 0, _ => []
  | fuel + 1, s =>
    match s.step with
    | (_, .error _) | (_, .ok false) => []
    | (after, .ok true) => (look s).toList ++ observed look fuel after

/-- The requests accepted in a run, in order. -/
def trail (s : Simulation σ) : List Acceptance := observed acceptance? (s.work + 1) s

/-- Going on for a number of steps prolongs a run. -/
theorem Run.advance {s t u : Simulation σ} {log : List Acceptance} {entered fuel : Nat}
    (run : s.Run log entered t) (h : advance fuel t = (u, .ok ())) :
    s.Run (log ++ observed acceptance? fuel t) entered u := by
  induction fuel generalizing log t with
  | zero =>
    cases h
    rw [observed, List.append_nil]
    exact run
  | succ fuel ih =>
    cases hstep : t.step with
    | mk after r =>
    simp only [Simulation.advance, observed, hstep] at h ⊢
    cases r with
    | error why => cases h
    | ok more =>
      cases more with
      | false =>
        obtain ⟨rfl, _⟩ := agenda_of_step hstep
        cases h
        rw [List.append_nil]
        exact run
      | true =>
        rw [← List.append_assoc]
        exact ih (run.step hstep fun f hf => by cases hf) h

/-- A run that returns has gone on until no event was left; its counters then take over those of
memory. -/
theorem advance_of_run {t u : Simulation σ} {stats : Stats} (h : t.run = (u, .ok stats)) :
    ∃ v, advance (t.work + 1) t = (v, .ok ()) ∧ v.agenda.isEmpty = true ∧ u = { v with stats } ∧
      stats = { v.stats with
        fetches := .ofNat v.memory.fetches, writebacks := .ofNat v.memory.writebacks } := by
  unfold Simulation.run at h
  split at h
  · cases h
  · next v hv =>
    cases h
    exact ⟨v, hv, isEmpty_of_advance (Nat.lt_succ_self _) hv, rfl, rfl⟩

/-- A run over a trace that returns ends with the whole trace accepted and answered. -/
theorem Fresh.end_of_run {config : CacheConfig} {policy : Policy} {trace : Trace}
    {s t u : Simulation σ} {log : List Acceptance} {entered : Nat} {stats : Stats}
    (fresh : Fresh config policy trace s) (hs : s.Sound) (run : s.Run log entered t)
    (h : t.run = (u, .ok stats)) : ∃ v, s.Run (log ++ t.trail) entered v ∧
      v.controller.miss = none ∧ v.controller.response = none ∧
      (log ++ t.trail).map (·.packet) = trace.requests ∧ u = { v with stats } ∧
      stats = { v.stats with
        fetches := .ofNat v.memory.fetches, writebacks := .ofNat v.memory.writebacks } := by
  obtain ⟨v, hadvance, hempty, hu, hstats⟩ := advance_of_run h
  have hv := run.advance hadvance
  obtain ⟨_, hm, hr, _, hleft⟩ := (hs.run hv).finished hempty
  have hall := (hv.history hs).1
  rw [hleft, List.append_nil, fresh.parts] at hall
  exact ⟨v, hv, hm, hr, hall.symm, hu, hstats⟩

/-- Going on fails only by a fault, in a state in which something is exhausted. -/
theorem Sound.exhausted_of_advance {s t u : Simulation σ} {log : List Acceptance} {entered fuel : Nat}
    {why : Failure ProtocolError} (hs : s.Sound) (run : s.Run log entered t)
    (h : Simulation.advance fuel t = (u, .error why)) :
    ∃ f, why = .fault f ∧ ∃ log v, s.Run log entered v ∧ v.Exhausted f := by
  induction fuel generalizing log t with
  | zero => cases h
  | succ fuel ih =>
    unfold Simulation.advance at h
    cases hstep : t.step with
    | mk v r =>
    rw [hstep] at h
    rcases outcome_of_step (hs.run run) hstep with ⟨rfl, _⟩ | ⟨rfl, _⟩ | ⟨f, rfl, exhausted⟩
    · cases h
    · exact ih (run.step hstep fun f hf => by cases hf) h
    · cases h
      exact ⟨f, rfl, _, t, run, exhausted⟩

theorem Sound.exhausted_of_run {s t u : Simulation σ} {log : List Acceptance} {entered : Nat}
    {why : Failure ProtocolError} (hs : s.Sound) (run : s.Run log entered t)
    (h : t.run = (u, .error why)) :
    ∃ f, why = .fault f ∧ ∃ log v, s.Run log entered v ∧ v.Exhausted f := by
  unfold Simulation.run at h
  split at h
  · next ha =>
    cases h
    exact hs.exhausted_of_advance run ha
  · cases h

/-- A run returns as long as nothing that it comes to is exhausted. -/
theorem Sound.returns {s t : Simulation σ} {log : List Acceptance} {entered : Nat} (hs : s.Sound)
    (hx : ∀ {log t}, s.Run log entered t → ∀ f, ¬ t.Exhausted f) (run : s.Run log entered t) :
    ∃ u stats, t.run = (u, .ok stats) := by
  cases h : t.run with
  | mk u r =>
  cases r with
  | ok stats => exact ⟨u, stats, rfl⟩
  | error why =>
    obtain ⟨f, _, _, v, hv, exhausted⟩ := hs.exhausted_of_run run h
    exact (hx hv f exhausted).elim

end Simulation

end WritebackCache
