import WritebackCache.Proofs.Move
import WritebackCache.Proofs.Timeline

/-! Whose turn it is. While a request is served there is one event to come that carries its service on,
and there may be an offer of the next request: not if a response is awaited or nothing is left to
offer; otherwise the offer comes up before that event or behind it, until it was refused. Which of them
comes first in the end settles whether the next request came too early, so that the retries of a run
can be told without its events. -/

namespace WritebackCache

namespace Service

theorem late_iff {gap : Tick} {e : Service} : e.late gap = true ↔
    e.packet.isWrite = true ∧ e.packet.needsResponse = false ∧
      ((Word.saturatingAdd e.accepted gap).toNat < e.finished.toNat ∨
        Word.saturatingAdd e.accepted gap = e.finished ∧ e.lookup = .miss) := by
  simp [late, and_assoc]

theorem late_of_needsResponse {gap : Tick} {e : Service} (h : e.packet.needsResponse = true) :
    e.late gap = false := by
  simp [late, h]

theorem le_of_late {gap : Tick} {e : Service} (h : e.late gap = true) :
    (Word.saturatingAdd e.accepted gap).toNat ≤ e.finished.toNat := by
  obtain ⟨_, _, hlt | ⟨he, _⟩⟩ := late_iff.mp h
  · exact Nat.le_of_lt hlt
  · exact Nat.le_of_eq (congrArg UInt64.toNat he)

end Service

/-- How the offer of the next request stands while `e` is served by an event of `tick`: what comes up
before that event, what comes up behind it, and whether a retry is owed. With the `final` event the
service ends. -/
inductive Turn (gap : Tick) (e : Service) (left : List Packet) (tick : Tick) (final : Prop) :
    List (Tick × Event) → List (Tick × Event) → Bool → Prop
  | none (h : e.packet.needsResponse = true ∨ left = []) : Turn gap e left tick final [] [] false
  | before (posted : e.packet.needsResponse = false) (more : left ≠ [])
      (late : e.late gap = true) :
      Turn gap e left tick final [(Word.saturatingAdd e.accepted gap, .issue)] [] false
  | behind (posted : e.packet.needsResponse = false) (more : left ≠ [])
      (le : tick.toNat ≤ (Word.saturatingAdd e.accepted gap).toNat)
      (early : final → e.late gap = false) :
      Turn gap e left tick final [] [(Word.saturatingAdd e.accepted gap, .issue)] false
  | refused (posted : e.packet.needsResponse = false) (more : left ≠ [])
      (late : e.late gap = true) : Turn gap e left tick final [] [] true

namespace Turn

variable {gap : Tick} {e : Service} {left : List Packet} {tick : Tick} {final : Prop}

/-- After an accepted request the offer of the next one is entered behind the event of its service. -/
theorem start {a : Agenda} {r : Requester} {event : Event} (ha : a.order = [(tick, event)])
    (hnow : a.now = e.accepted) (hleft : r.held.toList ++ r.queue = left)
    (write : e.packet.needsResponse = false → e.packet.isWrite = true)
    (hle : tick.toNat ≤ e.finished.toNat)
    (hfinal : final → tick = e.finished ∧ e.lookup = .hit) :
    ∃ before behind, (a.followUp gap r e.packet).order = before ++ (tick, event) :: behind ∧
      Turn gap e left tick final before behind false := by
  unfold Agenda.followUp Agenda.offerNext
  have hremaining : 0 < r.remaining ↔ left ≠ [] := by
    rw [Requester.remaining_eq, hleft, List.length_pos_iff]
  by_cases hn : e.packet.needsResponse = true
  · rw [if_pos hn]
    exact ⟨[], [], ha, .none (.inl hn)⟩
  · have posted : e.packet.needsResponse = false := eq_false_of_ne_true hn
    rw [if_neg hn]
    by_cases more : left = []
    · rw [if_neg fun h => hremaining.mp h more]
      exact ⟨[], [], ha, .none (.inr more)⟩
    · rw [if_pos (hremaining.mpr more), Agenda.order_scheduleIn, ha, hnow]
      simp only [Agenda.enter]
      -- the offer is entered last, so at equal ticks it stays behind the event of the service
      split
      · next hlt =>
        refine ⟨[_], [], rfl, .before posted more (Service.late_iff.mpr ⟨write posted, posted, ?_⟩)⟩
        exact .inl (Nat.lt_of_lt_of_le hlt hle)
      · next hge =>
        refine ⟨[], [_], rfl, .behind posted more (Nat.le_of_not_lt hge) fun hf => ?_⟩
        obtain ⟨rfl, hit⟩ := hfinal hf
        refine Bool.eq_false_iff.mpr fun hl => ?_
        obtain ⟨_, _, hlt | ⟨_, hm⟩⟩ := Service.late_iff.mp hl
        · exact hge hlt
        · rw [hit] at hm; cases hm

/-- The event of the service of a miss makes way for the next one, which comes up behind the offer if
they meet at a tick. -/
theorem carry {rest : Agenda} {behind : List (Tick × Event)} {owed : Bool} {tick' : Tick}
    {final' : Prop} (event : Event) (h : Turn gap e left tick final [] behind owed)
    (hrest : rest.order = behind) (hnow : rest.now = tick) (hmiss : e.lookup = .miss)
    (write : e.packet.needsResponse = false → e.packet.isWrite = true)
    (hlater : tick.toNat ≤ tick'.toNat) (hle : tick'.toNat ≤ e.finished.toNat)
    (hfinal : final' → tick' = e.finished) :
    ∃ before' behind', (rest.schedule tick' event).order = before' ++ (tick', event) :: behind' ∧
      Turn gap e left tick' final' before' behind' owed := by
  rw [Agenda.order_schedule_of_le event (by rw [hnow]; exact hlater), hrest]
  cases h with
  | none h => exact ⟨[], [], rfl, .none h⟩
  | refused posted more late => exact ⟨[], [], rfl, .refused posted more late⟩
  | behind posted more le early =>
    simp only [Agenda.enter]
    -- here the offer was entered first: it is late already if the ticks are equal
    split
    · next hlt =>
      refine ⟨[], [_], rfl, .behind posted more (Nat.le_of_lt hlt) fun hf => ?_⟩
      rw [hfinal hf] at hlt
      exact Bool.eq_false_iff.mpr fun hl => Nat.not_le_of_lt hlt (Service.le_of_late hl)
    · next hge =>
      refine ⟨[_], [], rfl, .before posted more (Service.late_iff.mpr ⟨write posted, posted, ?_⟩)⟩
      rcases Nat.lt_or_eq_of_le (Nat.le_trans (Nat.le_of_not_lt hge) hle) with hlt | heq
      · exact .inl hlt
      · exact .inr ⟨UInt64.toNat_inj.mp heq, hmiss⟩

/-- At the end of a service it is settled whether the next request came too early. -/
theorem late_eq {behind : List (Tick × Event)} {owed : Bool} (h : Turn gap e left tick True [] behind owed)
    (more : left ≠ []) : e.late gap = owed := by
  cases h with
  | none h => exact Service.late_of_needsResponse (h.resolve_right more)
  | behind _ _ _ early => exact early trivial
  | refused _ _ late => exact late

/-- The last request of all has no offer behind it. -/
theorem last {behind : List (Tick × Event)} {owed : Bool} (h : Turn gap e left tick final [] behind owed)
    (hl : left = []) : behind = [] ∧ owed = false := by
  cases h with
  | none => exact ⟨rfl, rfl⟩
  | behind _ more | refused _ more => exact (more hl).elim

/-- Nor has one whose response was awaited. -/
theorem answered {behind : List (Tick × Event)} {owed : Bool}
    (h : Turn gap e left tick final [] behind owed) (hn : e.packet.needsResponse = true) :
    behind = [] ∧ owed = false := by
  cases h with
  | none => exact ⟨rfl, rfl⟩
  | behind posted | refused posted => rw [hn] at posted; cases posted

/-- Once a posted write is done, the next request is offered at the later of the tick that is due and
that of the end. -/
theorem released {rest : Agenda} {behind : List (Tick × Event)} {owed : Bool}
    (h : Turn gap e left e.finished True [] behind owed) (hrest : rest.order = behind)
    (hnow : rest.now = e.finished) (posted : e.packet.needsResponse = false) (more : left ≠ []) :
    ∃ event : Event, event.isOffer = true ∧ (rest.retried owed).order =
      [(Word.later (Word.saturatingAdd e.accepted gap) e.finished, event)] := by
  cases h with
  | none h =>
    rcases h with hn | hl
    · rw [posted] at hn; cases hn
    · exact (more hl).elim
  | behind _ _ le _ => exact ⟨.issue, rfl, by rw [Word.later_of_ge le]; exact hrest⟩
  | refused _ _ late =>
    refine ⟨.retry, rfl, ?_⟩
    show (rest.scheduleIn 0 .retry).order = _
    rw [Agenda.order_scheduleIn, hrest, hnow, Word.saturatingAdd_zero,
      Word.later_of_le (Service.le_of_late late)]
    rfl

end Turn

end WritebackCache
