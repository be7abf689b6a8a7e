import WritebackCache.Proofs.Traffic

/-! Numbers that only ever grow. The agenda stamps its entries and the grid its uses, the requester counts
what was accepted and memory logs what it did, all of it without a bound of its own. An entry is made at
the cost of work that was left before, so stamps and work together never rise; a line is used once for
each request accepted, and memory is asked at most twice. So over a trace that is not out of all proportion
none of these numbers leaves a word. -/

namespace WritebackCache

namespace Agenda

/-- The entries made, and twice those that are still to come up: what an entry costs is paid in part when
it is made and in part when it comes up. -/
def spent (a : Agenda) : Nat := a.stamp + 2 * a.length

theorem spent_of_pop {a rest : Agenda} {tick : Tick} {event : Event}
    (h : a.pop = some (tick, event, rest)) : rest.spent + 2 = a.spent := by
  have hlength := length_of_pop h
  have hstamp : rest.stamp = a.stamp := by
    unfold pop at h
    split at h
    · cases h
    · cases h
      rfl
  simp only [spent, hstamp]
  omega

theorem spent_schedule (a : Agenda) (tick : Tick) (event : Event) :
    (a.schedule tick event).spent = a.spent + 3 := by
  show a.stamp + 1 + 2 * (a.length + 1) = _
  simp only [spent]
  omega

theorem spent_scheduleIn (a : Agenda) (delay : Tick) (event : Event) :
    (a.scheduleIn delay event).spent = a.spent + 3 := spent_schedule a _ event

theorem spent_offerNext (a : Agenda) (gap : Tick) (r : Requester) :
    (a.offerNext gap r).spent ≤ a.spent + 3 := by
  unfold offerNext
  split
  · exact Nat.le_of_eq (spent_scheduleIn a _ _)
  · exact Nat.le_add_right _ _

theorem spent_followUp (a : Agenda) (gap : Tick) (r : Requester) (p : Packet) :
    (a.followUp gap r p).spent ≤ a.spent + 3 := by
  unfold followUp
  split
  · exact Nat.le_add_right _ _
  · exact spent_offerNext a gap r

theorem spent_retried (a : Agenda) (owed : Bool) :
    (a.retried owed).spent = a.spent + 3 * Simulation.retryWork owed := by
  cases owed
  · rfl
  · exact spent_scheduleIn a _ _

end Agenda

/-- Memory fetches or writes back. -/
theorem Memory.length_log {σ : Type} (m : Memory σ) : m.log.length = m.fetches + m.writebacks := by
  rw [fetches, writebacks, List.length_eq_countP_add_countP (·.op = .fetch)]
  refine congrArg _ (List.countP_congr fun x _ => ?_)
  cases x.op <;> simp

namespace Simulation

variable {σ : Type}

/-- A bound on the entries of the agenda, those made so far and those that the work left will make. -/
def entries (s : Simulation σ) : Nat := s.agenda.stamp + s.work

theorem entries_eq (s : Simulation σ) : s.entries =
    s.agenda.spent + 16 * s.requester.remaining + outstandingWork s.controller := by
  simp only [entries, work, Agenda.spent]
  omega

theorem entries_inject (s : Simulation σ) (tick : Tick) (event : Event) :
    (s.inject tick event).entries = s.entries + 3 := by
  have hspent := s.agenda.spent_schedule tick event
  simp only [entries_eq, inject, hspent]
  omega

theorem le_outstandingWork (c : Controller) :
    missWork c.miss + retryWork c.retryOwed ≤ outstandingWork c := by
  simp only [outstandingWork]
  omega

/-- The work left to a controller that served a request: what is left of the miss, and the response. -/
theorem work_finish_le (c : Controller) (p : Packet) (way : Nat) (l : Line) (status : Status) :
    outstandingWork (c.finish p way l status) ≤ missWork c.miss + 3 + retryWork c.retryOwed := by
  have hresponse := responseWork_le (c.reply p l.data)
  show missWork c.miss + responseWork (c.reply p l.data) + retryWork c.retryOwed ≤ _
  omega

theorem Fresh.entries_eq {config : CacheConfig} {policy : Policy} {trace : Trace} {s : Simulation σ}
    (fresh : Fresh config policy trace s) : s.entries = 16 * trace.requests.length + 3 := by
  rw [Simulation.entries_eq, fresh.requester_eq, fresh.controller_eq, fresh.parts]
  show 3 + 16 * trace.requests.length + 0 = _
  omega

/-- An accepted request pays for what the controller and memory make of it. -/
theorem entries_accepted {s : Simulation σ} {tick : Tick} {event : Event} {rest a : Agenda} {p : Packet}
    {r : Requester} {controller : Controller} {memory : Memory σ} {stats : Stats}
    (pop : s.agenda.pop = some (tick, event, rest)) (next : s.requester.next = some (p, r))
    (enough : a.spent + outstandingWork controller ≤
      rest.spent + outstandingWork s.controller + 15) :
    entries { s with
      agenda := a.followUp s.issueGap (r.accepted p.needsResponse) p
      controller, memory
      requester := r.accepted p.needsResponse
      stats } ≤ s.entries := by
  have hp := Agenda.spent_of_pop pop
  have hfollow := a.spent_followUp s.issueGap (r.accepted p.needsResponse) p
  obtain ⟨hremaining, _⟩ := Requester.remaining_of_next next
  have hback : (r.accepted p.needsResponse).remaining = r.remaining := rfl
  simp only [entries_eq, hback]
  omega

/-- A miss that is served pays for the end of its request. -/
theorem entries_served {s : Simulation σ} {tick : Tick} {event : Event} {rest : Agenda} {p : Packet}
    {c : Controller} {way : Nat} {l : Line} {status : Status} {stats : Stats}
    (pop : s.agenda.pop = some (tick, event, rest)) (outstanding : 5 ≤ missWork s.controller.miss)
    (nothing : c.miss = none) (owed : c.retryOwed = s.controller.retryOwed) :
    entries { s with
      agenda := rest.scheduleIn s.controller.latency p.ended
      controller := c.finish p way l status
      stats } ≤ s.entries := by
  have hp := Agenda.spent_of_pop pop
  have hentry := rest.spent_scheduleIn s.controller.latency p.ended
  have hwork := work_finish_le c p way l status
  have hleft := le_outstandingWork s.controller
  rw [nothing, owed, missWork] at hwork
  simp only [entries_eq, hentry]
  omega

variable [LatencyModel σ]

/-- No move makes an entry that the work left did not account for. -/
theorem Move.entries {s t : Simulation σ} {a : Option Acceptance} (hs : s.Sound) (h : s.Move a t) :
    t.entries ≤ s.entries := by
  cases h with
  | wake pop =>
    have hp := Agenda.spent_of_pop pop
    simp only [entries_eq]
    omega
  | @refuse _ _ _ p r _ pop _ next =>
    have hp := Agenda.spent_of_pop pop
    obtain ⟨hremaining, hheld⟩ := Requester.remaining_of_next next
    have hback : (r.rejected p).remaining = r.remaining + 1 := by
      simp [Requester.rejected, Requester.remaining, hheld]
    have hretry := retryWork_le true
    simp only [entries_eq, hback, outstandingWork]
    omega
  | bypass pop _ next => exact entries_accepted pop next (Nat.le_add_right _ _)
  | @hit _ _ rest p _ _ way pop _ next =>
    refine entries_accepted pop next ?_
    have hentry := rest.spent_scheduleIn s.controller.latency p.ended
    have hwork := work_finish_le s.controller p way
      ((s.controller.grid.cell (s.controller.grid.setOf p.block) way).served p) .hitPending
    have hleft := le_outstandingWork s.controller
    omega
  | @miss _ _ rest _ _ _ _ done response pop _ next idle =>
    refine entries_accepted pop next ?_
    have hentry := rest.spent_schedule done (.memoryResponse response)
    obtain ⟨_, hnone, _⟩ := hs.phase.of_idle idle
    simp only [outstandingWork, hnone, missWork]
    omega
  | @deliver tick rest q pop response =>
    have hp := Agenda.spent_of_pop pop
    have hretried := rest.spent_retried s.controller.retryOwed
    have hoffer := (rest.retried s.controller.retryOwed).spent_offerNext s.issueGap
      (s.requester.receive q tick)
    have hback : (s.requester.receive q tick).remaining = s.requester.remaining := rfl
    have howed := retryWork_le s.controller.retryOwed
    have hnone : responseWork (some q) = 3 ∧ responseWork none = 0 ∧ retryWork false = 0 :=
      ⟨rfl, rfl, rfl⟩
    simp only [entries_eq, hback, outstandingWork, response, hnone]
    omega
  | @release _ rest pop =>
    have hp := Agenda.spent_of_pop pop
    have hretried := rest.spent_retried s.controller.retryOwed
    have howed := retryWork_le s.controller.retryOwed
    have hnone : retryWork false = 0 := rfl
    simp only [entries_eq, outstandingWork, hretried, hnone]
    omega
  | fill pop miss => exact entries_served pop (by rw [miss, missWork]; decide) rfl rfl
  | @evict _ rest _ _ _ _ done response pop miss =>
    have hp := Agenda.spent_of_pop pop
    have hentry := rest.spent_schedule done (.memoryResponse response)
    have hsame : s.controller.consulted.response = s.controller.response ∧
        s.controller.consulted.retryOwed = s.controller.retryOwed := ⟨rfl, rfl⟩
    simp only [entries_eq, hentry, outstandingWork, missWork, miss, hsame]
    omega
  | acknowledge pop miss => exact entries_served pop (by rw [miss]; exact Nat.le_refl 5) rfl rfl

/-- The use of a line that an outstanding miss will make. -/
def toUse (miss : Option Miss) : Nat := if miss.isSome then 1 else 0

/-- A line is used for a request accepted, at once or once its miss is served. -/
theorem Move.clock {s t : Simulation σ} {a : Option Acceptance} (hs : s.Sound) (h : s.Move a t) :
    t.controller.grid.clock + toUse t.controller.miss ≤
      s.controller.grid.clock + toUse s.controller.miss + a.toList.length := by
  cases h with
  | wake | refuse | deliver | release => exact Nat.le_refl _
  | bypass => exact Nat.le_succ _
  | @hit _ _ _ _ _ _ _ _ _ _ idle =>
    obtain ⟨_, hnone, _⟩ := hs.phase.of_idle idle
    simp only [Controller.miss_finish, hnone]
    exact Nat.le_refl _
  | miss _ _ _ idle =>
    obtain ⟨_, hnone, _⟩ := hs.phase.of_idle idle
    simp only [hnone]
    exact Nat.le_refl _
  | fill _ miss | evict _ miss | acknowledge _ miss =>
    rw [miss]
    exact Nat.le_refl _

/-- Every number that only ever grows fits into a word. -/
structure InWords (s : Simulation σ) : Prop where
  stamp : s.agenda.stamp < UInt64.size
  clock : s.controller.grid.clock < UInt64.size
  issued : s.requester.issued < UInt64.size
  log : s.memory.log.length < UInt64.size

/-- Over few requests, and with few offers entered by hand, nothing leaves a word. -/
theorem Fresh.inWords {config : CacheConfig} {policy : Policy} {trace : Trace} {s t : Simulation σ}
    {log : List Acceptance} {entered : Nat} (fresh : Fresh config policy trace s) (hs : s.Sound)
    (few : 16 * trace.requests.length + 3 * entered + 3 < UInt64.size) (run : s.Run log entered t) :
    t.InWords := by
  obtain ⟨_, _, hbuild, _⟩ := controller_of_config fresh.controller
  have start : s.controller.grid.clock + toUse s.controller.miss = 0 := by
    rw [Grid.clock_of_build hbuild, fresh.nothing_outstanding]
    rfl
  obtain ⟨_, hentries, hclock⟩ := run.invariant
    (P := fun log entered t => t.entries ≤ s.entries + 3 * entered ∧
      t.controller.grid.clock + toUse t.controller.miss ≤ log.length)
    hs ⟨Nat.le_refl _, Nat.le_of_eq start⟩
    (fun ht h hm => ⟨Nat.le_trans (hm.entries ht) h.1, by
      have hused := hm.clock ht
      rw [List.length_append]
      omega⟩)
    (fun tick _ h _ => ⟨by rw [entries_inject]; omega, h.2⟩)
  obtain ⟨hall, hissued⟩ := run.history hs
  replace hall := congrArg List.length hall
  have tally := run.tallied hs (fresh.tallied fresh.unlogged)
  have hfilled := (run.balanced hs fresh.balanced).filled
  have hmisses : log.countP (·.lookup = .miss) ≤ log.length := List.countP_le_length
  have hfetches := tally.fetches
  have hlog := t.memory.length_log
  rw [fresh.entries_eq, Simulation.entries] at hentries
  rw [fresh.requester_eq] at hall hissued
  simp only [Option.toList_none, List.nil_append, List.length_append, List.length_map] at hall
  exact ⟨by omega, by omega, by rw [hissued]; show 0 + log.length < _; omega, by omega⟩

end Simulation

end WritebackCache
