import WritebackCache.Simulation

/-! The work left to a simulation goes down with every event, whatever state the simulation is in:
what an event schedules costs less than what it uses up. So the number of steps that a run is given
is never too small, and a run that does not fail ends with nothing left to come up. -/

namespace WritebackCache.Simulation

/-- The work of what a call leads to. -/
def actionWork : Option Action → Nat
  | none => 0
  | some _ => 2

theorem responseWork_le (r : Option Packet) : responseWork r ≤ 3 := by
  unfold responseWork
  split <;> omega

theorem retryWork_le (b : Bool) : retryWork b ≤ 1 := by
  unfold retryWork
  split <;> omega

theorem work_respond {c next : Controller} {p : Packet} {set way : Nat} {a : Action}
    (h : c.respond p set way = .ok (next, a)) :
    outstandingWork next ≤ missWork c.miss + 3 + retryWork c.retryOwed := by
  unfold Controller.respond at h
  split at h
  · obtain ⟨l, _, hl⟩ := map_eq_ok.mp h
    cases hl
    exact Nat.le_refl _
  · cases h
    have := responseWork_le c.response
    simp only [outstandingWork]
    omega

theorem work_serve {c next : Controller} {p : Packet} {way : Nat} {a : Action}
    (h : c.serve p way = .ok (next, a)) :
    outstandingWork next ≤ missWork c.miss + 3 + retryWork c.retryOwed := by
  obtain ⟨_, _, h⟩ := bind_eq_ok.mp h
  obtain ⟨_, _, h⟩ := bind_eq_ok.mp h
  have := work_respond h
  exact this

theorem work_fill {c next : Controller} {p : Packet} {way : Nat} {fetched : Block} {a : Action}
    (h : c.fill p way fetched = .ok (next, a)) :
    outstandingWork next ≤ missWork c.miss + 3 + retryWork c.retryOwed := by
  obtain ⟨l, _, h⟩ := bind_eq_ok.mp h
  split at h
  · cases h
  · obtain ⟨_, _, h⟩ := bind_eq_ok.mp h
    obtain ⟨_, _, h⟩ := bind_eq_ok.mp h
    obtain ⟨_, _, h⟩ := bind_eq_ok.mp h
    have := work_respond (orFault_eq_ok.mp h)
    exact this

theorem work_acknowledge {c next : Controller} {p : Packet} {way : Nat} {fetched : Block}
    {a : Action} (h : c.acknowledge p way fetched = .ok (next, a)) :
    outstandingWork next ≤ missWork c.miss + 3 + retryWork c.retryOwed := by
  obtain ⟨_, _, h⟩ := bind_eq_ok.mp h
  have := work_fill h
  exact this

theorem work_place {c next : Controller} {p : Packet} {way : Nat} {fetched : Block} {a : Action}
    (h : c.place p way fetched = .ok (next, a)) (hm : c.miss = none) :
    outstandingWork next ≤ 5 + outstandingWork c := by
  obtain ⟨l, _, h⟩ := bind_eq_ok.mp h
  split at h
  · cases h
    simp only [outstandingWork, missWork, hm]
    omega
  · have := work_fill h
    simp only [outstandingWork, hm, missWork] at *
    omega

theorem eq_of_settle {c next : Controller} {action : Option Action}
    {r : Except (Failure ProtocolError) (Controller × Action)}
    (h : c.settle r = .done next action ()) : ∃ a, action = some a ∧ r = .ok (next, a) := by
  unfold Controller.settle at h
  split at h
  · cases h
    exact ⟨_, rfl, rfl⟩
  · cases h

/-- An answer uses up what its action costs. -/
theorem work_answer {c next : Controller} {p : Packet} {action : Option Action}
    (h : c.answer p = .done next action ()) :
    outstandingWork next + actionWork action ≤ outstandingWork c := by
  unfold Controller.answer at h
  split at h
  · cases h
  · next request way victim fetched hm =>
    split at h
    · obtain ⟨a, rfl, ha⟩ := eq_of_settle h
      have hw := work_acknowledge ha
      simp only [Controller.abandon, outstandingWork, missWork, actionWork, hm] at *
      omega
    · cases h
  · next request hm =>
    split at h
    · dsimp only at h
      split at h
      · obtain ⟨a, rfl, ha⟩ := eq_of_settle h
        have hw := work_place ha rfl
        simp only [Controller.abandon, outstandingWork, missWork, actionWork, hm] at *
        omega
      · cases h
    · cases h

theorem work_unblock {c next : Controller} {action : Option Action}
    (h : c.unblock = .done next action ()) :
    outstandingWork next + actionWork action ≤ outstandingWork c + 1 := by
  unfold Controller.unblock at h
  split at h
  · cases h
  · cases h
    cases hr : c.retryOwed <;> simp [outstandingWork, actionWork, retryWork, hr]

theorem work_deliver {c next : Controller} {action : Option Action} {p : Packet}
    (h : c.deliver = .done next action p) :
    outstandingWork next + actionWork action + 2 ≤ outstandingWork c := by
  unfold Controller.deliver at h
  split at h
  · cases h
  · next q hq =>
    split at h
    · next hu =>
      cases h
      have := work_unblock hu
      simp only [outstandingWork, responseWork, hq] at *
      simp at *
      omega
    · cases h

/-- A request that is accepted makes less work than one that is still to be offered. -/
theorem work_request_accepted {c next : Controller} {p : Packet} {action : Option Action}
    {lookup : Lookup} (h : c.request p = .done next action (.accepted lookup)) :
    outstandingWork next + actionWork action ≤ outstandingWork c + 10 := by
  unfold Controller.request at h
  split at h
  · cases h
  · split at h
    · cases h
      simp only [actionWork]
      omega
    · split at h
      · split at h
        · next hs =>
          cases h
          have := work_serve hs
          simp only [outstandingWork, actionWork] at *
          omega
        · cases h
      · cases h
        simp only [outstandingWork, missWork, actionWork]
        omega

/-- A request that is turned away makes no more work than the retry that is owed for it. -/
theorem work_request_busy {c next : Controller} {p q : Packet} {action : Option Action}
    (h : c.request p = .done next action (.busy q)) :
    actionWork action = 0 ∧ outstandingWork next ≤ outstandingWork c + 1 := by
  unfold Controller.request at h
  split at h
  · cases h
    have := retryWork_le true
    refine ⟨rfl, ?_⟩
    simp only [outstandingWork]
    omega
  · split at h
    · cases h
    · split at h
      · split at h <;> cases h
      · cases h

variable {σ : Type}

theorem work_scheduleIssue (s : Simulation σ) : s.scheduleIssue.work ≤ s.work + 2 := by
  unfold scheduleIssue
  split
  · simp only [work, Agenda.length_scheduleIn]
    omega
  · omega

variable [LatencyModel σ]

theorem perform_ok {s t : Simulation σ} {action : Option Action} (h : s.perform action = (t, .ok ())) :
    2 * t.agenda.length = 2 * s.agenda.length + actionWork action ∧
      t.controller = s.controller ∧ t.requester = s.requester := by
  unfold perform at h
  split at h
  · cases h
    exact ⟨rfl, rfl, rfl⟩
  · cases h
    exact ⟨by simp only [Agenda.length_scheduleIn, actionWork]; omega, rfl, rfl⟩
  · split at h
    · cases h
    · cases h
      exact ⟨by simp only [Agenda.length_schedule, actionWork]; omega, rfl, rfl⟩

theorem react_ok {α : Type} {s t : Simulation σ} {r : Reaction α} {answer : α}
    (h : s.react r = (t, .ok answer)) :
    ∃ next action, r = .done next action answer ∧ t.controller = next ∧
      t.requester = s.requester ∧
      2 * t.agenda.length = 2 * s.agenda.length + actionWork action := by
  unfold react at h
  split at h
  · cases h
  · next next action answer =>
    split at h
    · next after hp =>
      cases h
      obtain ⟨hl, hc, hr⟩ := perform_ok hp
      exact ⟨next, action, rfl, hc, hr, hl⟩
    · cases h

theorem work_issue {s t : Simulation σ} (h : s.issue = (t, .ok ())) : t.work ≤ s.work + 1 := by
  unfold issue at h
  split at h
  · cases h
    omega
  · next p requester hn =>
    obtain ⟨hrem, hheld⟩ := Requester.remaining_of_next hn
    split at h
    · cases h
    · next after offer hr =>
      obtain ⟨next, action, hreq, hc, hq, hl⟩ := react_ok hr
      unfold book at h
      split at h
      · next lookup =>
        have hw := work_request_accepted hreq
        split at h
        · cases h
        · next stats hs =>
          simp only [Prod.mk.injEq, and_true] at h
          have base : Simulation.work { after with
              stats, requester := after.requester.accepted p.needsResponse } + 4 ≤ s.work := by
            simp only [work, hq, hc, Requester.accepted, Requester.remaining] at *
            omega
          split at h
          · subst h
            omega
          · subst h
            have := work_scheduleIssue { after with
              stats, requester := after.requester.accepted p.needsResponse }
            omega
      · next q =>
        obtain ⟨ha, hw⟩ := work_request_busy hreq
        split at h
        · cases h
        · cases h
          simp only [work, hq, hc, Requester.rejected, Requester.remaining, hheld] at *
          simp at *
          omega

theorem work_dispatch {s t : Simulation σ} {tick : Tick} {event : Event}
    (h : s.dispatch tick event = (t, .ok ())) : t.work ≤ s.work + 1 := by
  unfold dispatch at h
  split at h
  · exact work_issue h
  · exact work_issue h
  · unfold deliver at h
    split at h
    · cases h
    · next after p hr =>
      obtain ⟨next, action, hd, hc, hq, hl⟩ := react_ok hr
      have hw := work_deliver hd
      cases h
      have := work_scheduleIssue { after with requester := after.requester.receive p tick }
      simp only [work, hq, hc, Requester.receive, Requester.remaining] at *
      omega
  · obtain ⟨next, action, hu, hc, hq, hl⟩ := react_ok h
    have hw := work_unblock hu
    simp only [work, hq, hc] at *
    omega
  · obtain ⟨next, action, ha, hc, hq, hl⟩ := react_ok h
    have hw := work_answer ha
    simp only [work, hq, hc] at *
    omega

/-- Every event uses up some of the work left. -/
theorem work_step {s t : Simulation σ} (h : s.step = (t, .ok true)) : t.work < s.work := by
  unfold step at h
  split at h
  · cases h
  · next tick event agenda hp =>
    have hl := Agenda.length_of_pop hp
    split at h
    · cases h
    · next after hd =>
      cases h
      have hw := work_dispatch hd
      simp only [work] at *
      omega

theorem agenda_of_step {s t : Simulation σ} (h : s.step = (t, .ok false)) :
    t = s ∧ s.agenda.isEmpty = true := by
  unfold step at h
  split at h
  · next hp =>
    cases h
    exact ⟨rfl, Agenda.pop_eq_none_iff.mp hp⟩
  · split at h <;> cases h

/-- Steps that outnumber the work left reach the end of the run, unless one of them fails. -/
theorem isEmpty_of_advance {fuel : Nat} {s t : Simulation σ} (hf : s.work < fuel)
    (h : advance fuel s = (t, .ok ())) : t.agenda.isEmpty = true := by
  induction fuel generalizing s with
  | zero => omega
  | succ fuel ih =>
    unfold advance at h
    split at h
    · cases h
    · next after hs =>
      cases h
      obtain ⟨rfl, he⟩ := agenda_of_step hs
      exact he
    · next after hs =>
      have := work_step hs
      exact ih (by omega) h

/-- A run that does not fail leaves no event behind. -/
theorem isEmpty_of_run {s t : Simulation σ} {stats : Stats} (h : s.run = (t, .ok stats)) :
    t.agenda.isEmpty = true := by
  unfold run at h
  split at h
  · cases h
  · next after ha =>
    cases h
    have := isEmpty_of_advance (Nat.lt_succ_self _) ha
    exact this

end WritebackCache.Simulation
