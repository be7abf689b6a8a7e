import WritebackCache.Proofs.Run

/-! Counters that never fault. An offer that comes up was entered by hand, or follows a request that was
accepted or answered, or makes up for one that was turned away; so there is a bound on the offers still
to come, and every retry counted uses one of them up. With a timing that can always be told this leaves
nothing to fault, as long as the trace and the offers entered are fewer than the words of a counter. -/

namespace WritebackCache

namespace Stats

theorem counted {s t : Stats} {lookup : Lookup} (h : s.count lookup = .ok t) :
    t.hits.toNat + t.misses.toNat + t.bypassed.toNat =
      s.hits.toNat + s.misses.toNat + s.bypassed.toNat + 1 ∧
      t.requests = s.requests ∧ t.retries = s.retries := by
  have one : (1 : UInt64).toNat = 1 := rfl
  cases lookup with
  | hit =>
    obtain ⟨n, hn, rfl⟩ := map_eq_ok.mp h
    have hadd := Word.toNat_of_add hn
    refine ⟨?_, rfl, rfl⟩
    show n.toNat + s.misses.toNat + s.bypassed.toNat = _
    omega
  | miss =>
    obtain ⟨n, hn, rfl⟩ := map_eq_ok.mp h
    have hadd := Word.toNat_of_add hn
    refine ⟨?_, rfl, rfl⟩
    show s.hits.toNat + n.toNat + s.bypassed.toNat = _
    omega
  | bypass =>
    obtain ⟨n, hn, rfl⟩ := map_eq_ok.mp h
    have hadd := Word.toNat_of_add hn
    refine ⟨?_, rfl, rfl⟩
    show s.hits.toNat + s.misses.toNat + n.toNat = _
    omega

theorem recorded {s t : Stats} {lookup : Lookup} (h : s.record lookup = (t, .ok ())) :
    t.requests.toNat = s.requests.toNat + 1 ∧
      t.hits.toNat + t.misses.toNat + t.bypassed.toNat =
        s.hits.toNat + s.misses.toNat + s.bypassed.toNat + 1 ∧ t.retries = s.retries := by
  unfold record at h
  split at h
  · cases h
  · next requests hr =>
    dsimp only at h
    split at h
    · cases h
    · next next hc =>
      cases h
      obtain ⟨hl, hq, ht⟩ := counted hc
      exact ⟨(congrArg UInt64.toNat hq).trans (Word.toNat_of_add hr), hl, ht⟩

theorem retried {s t : Stats} (h : s.recordRetry = .ok t) :
    t.retries.toNat = s.retries.toNat + 1 ∧ t.requests = s.requests ∧ t.hits = s.hits ∧
      t.misses = s.misses ∧ t.bypassed = s.bypassed := by
  obtain ⟨n, hn, rfl⟩ := map_eq_ok.mp h
  exact ⟨Word.toNat_of_add hn, rfl, rfl, rfl, rfl⟩

theorem add_one_ok {a : UInt64} (h : a.toNat + 1 < UInt64.size) : Word.add a 1 = .ok (a + 1) :=
  if_pos h

/-- Counting an accepted request faults only at the end of a word. -/
theorem record_returns {s : Stats} (lookup : Lookup) (hr : s.requests.toNat + 1 < UInt64.size)
    (hl : s.hits.toNat + s.misses.toNat + s.bypassed.toNat + 1 < UInt64.size) :
    (s.record lookup).2 = .ok () := by
  unfold record
  rw [add_one_ok hr]
  have hc : ∃ t, count { s with requests := s.requests + 1 } lookup = .ok t := by
    cases lookup
    · exact ⟨_, map_eq_ok.mpr ⟨_, @add_one_ok s.hits (by omega), rfl⟩⟩
    · exact ⟨_, map_eq_ok.mpr ⟨_, @add_one_ok s.misses (by omega), rfl⟩⟩
    · exact ⟨_, map_eq_ok.mpr ⟨_, @add_one_ok s.bypassed (by omega), rfl⟩⟩
  obtain ⟨t, ht⟩ := hc
  simp only [ht]

theorem recordRetry_returns {s : Stats} (h : s.retries.toNat + 1 < UInt64.size) :
    ∃ t, s.recordRetry = .ok t := ⟨_, map_eq_ok.mpr ⟨_, add_one_ok h, rfl⟩⟩

end Stats

/-! ## A timing that can be told -/

/-- From this state on, the time of every access can be told. -/
def LatencyModel.Unfailing {σ : Type} [LatencyModel σ] (x : σ) : Prop :=
  ∃ P : σ → Prop, P x ∧ ∀ {y : σ}, P y → ∀ addr,
    P (LatencyModel.access y addr).1 ∧ ∃ latency, (LatencyModel.access y addr).2 = .ok latency

/-- The longest latency of a row buffer fits into a word. -/
def Timing.Steady : Timing → Prop
  | .fixed _ => True
  | .rows b => b.tPre.toNat + b.tRas.toNat + b.tCas.toNat < UInt64.size

/-- The description asks for no latency beyond a word. -/
def MemoryConfig.Steady (c : MemoryConfig) : Prop :=
  c.controller = .dram → c.tPre.toNat + c.tRas.toNat + c.tCas.toNat < UInt64.size

namespace Timing

theorem steady_of_config {c : MemoryConfig} {t : Timing} (h : ofConfig c = .ok t) (hc : c.Steady) :
    t.Steady := by
  unfold ofConfig at h
  split at h
  · cases h
  · split at h
    · cases h; trivial
    · next hd =>
      obtain ⟨b, hb, rfl⟩ := map_eq_ok.mp (orFault_eq_ok.mp h)
      obtain ⟨below, _, rfl⟩ := map_eq_ok.mp hb
      exact hc hd

theorem Steady.access {t : Timing} (h : t.Steady) (addr : Address) :
    (t.access addr).1.Steady ∧ ∃ latency, (t.access addr).2 = .ok latency := by
  cases t with
  | fixed latency => exact ⟨trivial, latency, rfl⟩
  | rows b =>
    have hsum : b.tPre.toNat + b.tRas.toNat + b.tCas.toNat < UInt64.size := h
    refine ⟨h, ?_⟩
    show ∃ latency, (b.access addr).2 = .ok latency
    unfold RowBuffer.access
    cases b.openRow with
    | none => exact ⟨_, if_pos (show b.tRas.toNat + b.tCas.toNat < UInt64.size by omega)⟩
    | some held =>
      dsimp only
      split
      · exact ⟨_, rfl⟩
      · have hadd : Word.add b.tPre b.tRas = .ok (b.tPre + b.tRas) := if_pos (by omega)
        have hopen := Word.toNat_of_add hadd
        rw [hadd]
        exact ⟨_, if_pos (by omega)⟩

theorem Steady.unfailing {t : Timing} (h : t.Steady) : LatencyModel.Unfailing t :=
  ⟨Steady, h, fun h addr => h.access addr⟩

end Timing

namespace Agenda

/-- The number of offers still to come. -/
def offers (a : Agenda) : Nat := a.order.countP (·.2.isOffer)

theorem offers_of_pop {a rest : Agenda} {tick : Tick} {event : Event}
    (h : a.pop = some (tick, event, rest)) :
    a.offers = rest.offers + if event.isOffer then 1 else 0 := by
  rw [offers, (order_of_pop h).1, List.countP_cons]
  rfl

theorem count_schedule (a : Agenda) (tick : Tick) (event : Event) :
    (a.schedule tick event).offers = a.offers + if event.isOffer then 1 else 0 := by
  rw [offers, order_schedule, (enter_perm _ _ _).countP_eq, List.countP_cons]
  rfl

theorem count_due (a : Agenda) (tick : Tick) {event : Event} (h : event.isOffer = false) :
    (a.schedule tick event).offers = a.offers := by
  rw [count_schedule, h]
  rfl

theorem count_offerNext (a : Agenda) (gap : Tick) (r : Requester) :
    (a.offerNext gap r).offers ≤ a.offers + 1 := by
  unfold offerNext
  split
  · exact Nat.le_of_eq (count_schedule a _ _)
  · exact Nat.le_succ _

theorem count_followUp (a : Agenda) (gap : Tick) (r : Requester) (p : Packet) :
    (a.followUp gap r p).offers + (if p.needsResponse then 1 else 0) ≤ a.offers + 1 := by
  unfold followUp
  split
  · exact Nat.le_refl _
  · exact count_offerNext a gap r

theorem count_retried (a : Agenda) (owed : Bool) : (a.retried owed).offers ≤ a.offers + 1 := by
  unfold retried
  split
  · exact Nat.le_of_eq (count_schedule a _ _)
  · exact Nat.le_succ _

end Agenda

namespace Simulation

variable {σ : Type}

/-- A bound on the offers that can still come up: those entered, two for every request left, one after
the response awaited, and one for the retry that a busy controller may come to owe. -/
def offersLeft (s : Simulation σ) : Nat :=
  s.agenda.offers + 2 * s.requester.remaining + (if s.requester.waiting then 1 else 0) +
    if s.controller.status = .idle then 0 else 1

/-- An accepted request is one less to come, whatever the controller and memory make of it. -/
theorem retries_accepted {s : Simulation σ} {tick : Tick} {event : Event} {rest a : Agenda}
    {p : Packet} {r : Requester} {controller : Controller} {memory : Memory σ} {stats : Stats}
    (pop : s.agenda.pop = some (tick, event, rest)) (offer : event.isOffer = true)
    (next : s.requester.next = some (p, r)) (ha : a.offers = rest.offers)
    (hr : stats.retries = s.stats.retries) :
    stats.retries.toNat + offersLeft { s with
      agenda := a.followUp s.issueGap (r.accepted p.needsResponse) p
      controller, memory
      requester := r.accepted p.needsResponse
      stats := { stats with ticks := tick } } ≤ s.stats.retries.toNat + s.offersLeft := by
  have hp := Agenda.offers_of_pop pop
  rw [offer, if_pos rfl, ← ha] at hp
  have hf := a.count_followUp s.issueGap (r.accepted p.needsResponse) p
  obtain ⟨hrem, _⟩ := Requester.remaining_of_next next
  have hback : (r.accepted p.needsResponse).remaining = r.remaining := rfl
  have hwait : (r.accepted p.needsResponse).waiting = p.needsResponse := rfl
  have hbusy : (if controller.status = .idle then 0 else 1) ≤ 1 := by split <;> omega
  rw [hr]
  simp only [offersLeft, hback, hwait] at *
  omega

theorem Fresh.offersLeft_eq {config : CacheConfig} {policy : Policy} {trace : Trace}
    {s : Simulation σ} (fresh : Fresh config policy trace s) :
    s.offersLeft = 2 * trace.requests.length + 1 := by
  rw [offersLeft, Agenda.offers, fresh.order_eq, fresh.requester_eq, fresh.controller_eq]
  show 1 + 2 * trace.requests.length + 0 + 0 = _
  omega

theorem offersLeft_inject (s : Simulation σ) (tick : Tick) {event : Event}
    (offer : event.isOffer = true) : (s.inject tick event).offersLeft = s.offersLeft + 1 := by
  have hc := Agenda.count_schedule s.agenda tick event
  rw [offer, if_pos rfl] at hc
  show (s.agenda.schedule tick event).offers + 2 * s.requester.remaining +
    (if s.requester.waiting then 1 else 0) + (if s.controller.status = .idle then 0 else 1) = _
  rw [hc, offersLeft]
  omega

/-- While a controller stays busy, an answer of memory makes no offer. -/
theorem offersLeft_answered {s : Simulation σ} {tick : Tick} {event : Event} {rest a : Agenda}
    {controller : Controller} {memory : Memory σ} {stats : Stats}
    (pop : s.agenda.pop = some (tick, event, rest)) (due : event.isOffer = false)
    (ha : a.offers = rest.offers) (busy : s.controller.status ≠ .idle)
    (stays : controller.status ≠ .idle) :
    offersLeft { s with agenda := a, controller, memory, stats } = s.offersLeft := by
  have hp := Agenda.offers_of_pop pop
  rw [due, ← ha] at hp
  simp only [offersLeft, hp, if_neg busy, if_neg stays]
  rfl

variable [LatencyModel σ]

/-- A refused offer is counted as a retry and used up; no move makes more offers than it uses up. -/
theorem Move.retries {s t : Simulation σ} {a : Option Acceptance} (hs : s.Sound) (h : s.Move a t) :
    t.stats.retries.toNat + t.offersLeft ≤ s.stats.retries.toNat + s.offersLeft := by
  cases h with
  | wake pop offer =>
    have hp := Agenda.offers_of_pop pop
    simp only [offersLeft] at *
    omega
  | @refuse _ _ _ p r _ pop offer next busy counted =>
    have hp := Agenda.offers_of_pop pop
    rw [offer, if_pos rfl] at hp
    obtain ⟨hr, _⟩ := Stats.retried counted
    obtain ⟨hrem, hheld⟩ := Requester.remaining_of_next next
    obtain ⟨hw, _, _, hw', _⟩ := Requester.next_some next
    have hback : (r.rejected p).remaining = s.requester.remaining := by
      rw [← hrem]
      simp [Requester.rejected, Requester.remaining, hheld]
    simp only [offersLeft, Requester.rejected, hw, hw', if_neg busy] at *
    omega
  | bypass pop offer next _ _ counted =>
    exact retries_accepted pop offer next rfl (Stats.recorded counted).2.2
  | @hit _ _ _ p _ _ _ pop offer next _ _ _ counted =>
    exact retries_accepted pop offer next (Agenda.count_due _ _ p.ended_not_offer)
      (Stats.recorded counted).2.2
  | miss pop offer next _ _ _ _ counted =>
    exact retries_accepted pop offer next (Agenda.count_due _ _ rfl) (Stats.recorded counted).2.2
  | @deliver tick rest q pop response =>
    have hp := Agenda.offers_of_pop pop
    rw [if_neg (by simp [Event.isOffer])] at hp
    obtain ⟨_, _, hbusy⟩ := (hs.phase_of_pop pop rfl).of_deliver
    have hw := hs.waiting.mpr (.inl (by rw [response]; rfl))
    have h1 := rest.count_retried s.controller.retryOwed
    have h2 := (rest.retried s.controller.retryOwed).count_offerNext s.issueGap
      (s.requester.receive q tick)
    have hback : (s.requester.receive q tick).remaining = s.requester.remaining := rfl
    have hwait : (s.requester.receive q tick).waiting = false := rfl
    simp only [offersLeft, hback, hwait, hw, if_neg hbusy, if_true, Bool.false_eq_true, if_false]
    omega
  | @release _ rest pop =>
    have hp := Agenda.offers_of_pop pop
    rw [if_neg (by simp [Event.isOffer])] at hp
    obtain ⟨_, _, _, hbusy⟩ := (hs.phase_of_pop pop rfl).of_unblock
    have h1 := rest.count_retried s.controller.retryOwed
    simp only [offersLeft, if_neg hbusy, if_true]
    omega
  | @fill _ _ _ p pop miss =>
    obtain ⟨_, hst, _⟩ := (hs.phase_of_pop pop rfl).of_fetching miss
    exact Nat.add_le_add_left (Nat.le_of_eq (offersLeft_answered pop rfl
      (Agenda.count_due _ _ p.ended_not_offer) (by simp [hst]) (by simp [Controller.finish]))) _
  | evict pop miss =>
    obtain ⟨_, hst, _⟩ := (hs.phase_of_pop pop rfl).of_fetching miss
    exact Nat.add_le_add_left (Nat.le_of_eq (offersLeft_answered pop rfl
      (Agenda.count_due _ _ rfl) (by simp [hst]) (by simp))) _
  | @acknowledge _ _ _ p _ _ _ pop miss =>
    obtain ⟨_, hst, _⟩ := (hs.phase_of_pop pop rfl).of_writingBack miss
    exact Nat.add_le_add_left (Nat.le_of_eq (offersLeft_answered pop rfl
      (Agenda.count_due _ _ p.ended_not_offer) (by simp [hst]) (by simp [Controller.finish]))) _

/-- The counters of requests say how many were accepted. -/
theorem Move.counters {s t : Simulation σ} {a : Option Acceptance} (h : s.Move a t) :
    t.stats.requests.toNat = s.stats.requests.toNat + a.toList.length ∧
      t.stats.hits.toNat + t.stats.misses.toNat + t.stats.bypassed.toNat =
        s.stats.hits.toNat + s.stats.misses.toNat + s.stats.bypassed.toNat + a.toList.length := by
  cases h with
  | wake | deliver | release | fill | evict | acknowledge => exact ⟨rfl, rfl⟩
  | refuse _ _ _ _ counted =>
    obtain ⟨_, hq, hh, hm, hb⟩ := Stats.retried counted
    simp [hq, hh, hm, hb]
  | bypass _ _ _ _ _ counted | hit _ _ _ _ _ _ counted | miss _ _ _ _ _ _ _ counted =>
    obtain ⟨hq, hl, _⟩ := Stats.recorded counted
    exact ⟨hq, hl⟩

/-- What an access keeps of a timing, every move keeps of it. -/
theorem Move.timing {s t : Simulation σ} {a : Option Acceptance} (hs : s.Sound) (h : s.Move a t)
    {P : σ → Prop} (hP : ∀ x addr, P x → P (LatencyModel.access x addr).1)
    (hx : P s.memory.timing) : P t.memory.timing := by
  rcases h.memory hs with ⟨same, _⟩ | ⟨_, block, _, _, _, took, _⟩
  · rwa [same]
  · have hnext := hP _ block.base hx
    rwa [took.accessed] at hnext

/-- In a machine whose trace and offers entered are few no counter ever comes to its end: only the timing
of memory can keep a step from returning. -/
theorem Fresh.untold {config : CacheConfig} {policy : Policy} {trace : Trace} {s t : Simulation σ}
    {log : List Acceptance} {entered : Nat} {f : Fault} (fresh : Fresh config policy trace s)
    (hs : s.Sound) (few : 2 * trace.requests.length + entered + 2 < UInt64.size)
    (run : s.Run log entered t) (h : t.Exhausted f) :
    ∃ b, t.Demands b ∧ (LatencyModel.access t.memory.timing b.base).2 = .error f := by
  have hrequester := fresh.requester_eq
  have hstats := fresh.stats_eq
  have hinit : s.stats.retries.toNat + s.offersLeft = 2 * trace.requests.length + 1 := by
    rw [hstats, fresh.offersLeft_eq]
    exact Nat.zero_add _
  -- a retry counted is an offer used up, so retries and offers left together never go up
  obtain ⟨_, hretries, hrequests, hlookups⟩ := run.invariant
    (P := fun log entered t =>
      t.stats.retries.toNat + t.offersLeft ≤ s.stats.retries.toNat + s.offersLeft + entered ∧
      t.stats.requests.toNat = log.length ∧
      t.stats.hits.toNat + t.stats.misses.toNat + t.stats.bypassed.toNat = log.length)
    hs ⟨Nat.le_refl _, by rw [hstats]; rfl, by rw [hstats]; rfl⟩
    (by
      intro log entered t a u ht hp hm
      obtain ⟨hr, hq, hl⟩ := hp
      obtain ⟨hq', hl'⟩ := hm.counters
      rw [List.length_append]
      exact ⟨Nat.le_trans (hm.retries ht) hr, by omega, by omega⟩)
    (by
      intro log entered t event tick ht hp offer
      obtain ⟨hr, hq, hl⟩ := hp
      refine ⟨?_, hq, hl⟩
      rw [offersLeft_inject t tick offer]
      show t.stats.retries.toNat + _ ≤ _
      omega)
  have hlog : log.length ≤ trace.requests.length := by
    have hh := congrArg List.length (run.history hs).1
    rw [hrequester, List.length_append, List.length_append, List.length_map] at hh
    exact Nat.le.intro (hh.symm.trans (Nat.zero_add _))
  cases h with
  | timing demand untold => exact ⟨_, demand, untold⟩
  | retries full =>
    obtain ⟨next, hok⟩ := @Stats.recordRetry_returns t.stats (by omega)
    rw [hok] at full
    cases full
  | requests lookup full =>
    rw [@Stats.record_returns t.stats lookup (by omega) (by omega)] at full
    cases full

/-- With a timing that can always be told, nothing can. -/
theorem Fresh.not_exhausted {config : CacheConfig} {policy : Policy} {trace : Trace}
    {s t : Simulation σ} {log : List Acceptance} {entered : Nat}
    (fresh : Fresh config policy trace s) (hs : s.Sound)
    (unfailing : LatencyModel.Unfailing s.memory.timing)
    (few : 2 * trace.requests.length + entered + 2 < UInt64.size) (run : s.Run log entered t) :
    ∀ f, ¬ t.Exhausted f := by
  obtain ⟨P, start, keeps⟩ := unfailing
  have htiming := (run.invariant (P := fun _ _ t => P t.memory.timing) hs start
    (fun ht hx hm => hm.timing ht (fun x addr hx => (keeps hx addr).1) hx) fun _ _ hx _ => hx).2
  intro f he
  obtain ⟨b, _, untold⟩ := fresh.untold hs few run he
  obtain ⟨latency, hok⟩ := (keeps htiming b.base).2
  rw [hok] at untold
  cases untold

/-- Such a run returns. -/
theorem returns_of_configWith {config : Config} {policy : Policy} {trace : Trace}
    {s t : Simulation Timing} {log : List Acceptance} {entered : Nat}
    (assembled : ofConfigWith config policy trace = .ok s)
    (requests : ∀ p ∈ trace.requests, p.IsRequest)
    (inRange : policy.InRange config.cache.ways.toNat) (run : s.Run log entered t)
    (steady : config.memory.Steady) (few : 2 * trace.requests.length + entered + 2 < UInt64.size) :
    ∃ u stats, t.run = (u, .ok stats) := by
  obtain ⟨fresh, timing, _⟩ := Fresh.of_configWith assembled
  have hs := fresh.sound requests inRange
  have unfailing := (Timing.steady_of_config timing steady).unfailing
  exact hs.returns (fun h => fresh.not_exhausted hs unfailing few h) run

end Simulation

end WritebackCache
