import Mathlib.Data.List.Nodup
import WritebackCache.Agenda

/-! The agenda as a list in the order in which its events come up. Taking the next event takes the head
of the list, and a new event is entered behind all that come up no later: events of one tick keep the
order in which they were entered. -/

namespace WritebackCache.Agenda

/-- The entry does not come up after the other one. -/
def Entry.notAfter (x y : Entry) : Bool := !y.before x

theorem Entry.notAfter_iff {x y : Entry} : x.notAfter y = true ↔
    x.tick.toNat < y.tick.toNat ∨ (x.tick.toNat = y.tick.toNat ∧ x.stamp ≤ y.stamp) := by
  rw [notAfter, Bool.not_eq_true', Bool.eq_false_iff, ne_eq, before_iff]
  omega

/-- The entries in the order in which they come up. -/
def sorted (a : Agenda) : List Entry := a.entries.mergeSort Entry.notAfter

/-- The events in the order in which they come up, each with its tick. -/
def order (a : Agenda) : List (Tick × Event) := a.sorted.map fun e => (e.tick, e.event)

theorem pairwise_sorted (a : Agenda) : a.sorted.Pairwise fun x y => x.notAfter y = true := by
  refine @List.pairwise_mergeSort _ Entry.notAfter ?_ ?_ a.entries
  · intro x y z hxy hyz
    rw [Entry.notAfter_iff] at *
    omega
  · intro x y
    rw [Bool.or_eq_true, Entry.notAfter_iff, Entry.notAfter_iff]
    omega

/-- An order is settled by its entries: no two of them share a stamp. -/
theorem eq_sorted {a : Agenda} {l : List Entry} (hp : l.Perm a.entries)
    (hl : l.Pairwise fun x y => x.notAfter y = true) : l = a.sorted := by
  refine List.Perm.eq_of_pairwise ?_ hl a.pairwise_sorted (hp.trans (List.mergeSort_perm _ _).symm)
  intro x y hx hy hxy hyx
  rw [Entry.notAfter_iff] at hxy hyx
  have hinj := List.inj_on_of_nodup_map a.nodup
  exact hinj (hp.subset hx) (List.mem_mergeSort.mp hy) (by omega)

/-- Enters something under a tick, behind all that comes up no later. -/
def enter {α : Type} (tick : α → Nat) (x : α) : List α → List α
  | [] => [x]
  | y :: ys => if tick x < tick y then x :: y :: ys else y :: enter tick x ys

theorem enter_perm {α : Type} (tick : α → Nat) (x : α) (ys : List α) :
    (enter tick x ys).Perm (x :: ys) := by
  induction ys with
  | nil => exact .refl _
  | cons y ys ih =>
    unfold enter
    split
    · exact .refl _
    · exact (ih.cons y).trans (.swap x y ys)

theorem map_enter {α β : Type} (tick : α → Nat) (tick' : β → Nat) (f : α → β) (x : α) (ys : List α)
    (h : ∀ y, tick' (f y) = tick y) : (enter tick x ys).map f = enter tick' (f x) (ys.map f) := by
  induction ys with
  | nil => rfl
  | cons y ys ih =>
    simp only [enter, List.map_cons, h]
    split
    · rfl
    · rw [List.map_cons, ih]

theorem enter_first {α : Type} {tick : α → Nat} {x : α} {ys : List α}
    (h : ∀ y ∈ ys, tick x < tick y) : enter tick x ys = x :: ys := by
  cases ys with
  | nil => rfl
  | cons y ys => exact if_pos (h y List.mem_cons_self)

theorem enter_last {α : Type} {tick : α → Nat} {x : α} {ys : List α}
    (h : ∀ y ∈ ys, tick y ≤ tick x) : enter tick x ys = ys ++ [x] := by
  induction ys with
  | nil => rfl
  | cons y ys ih =>
    rw [enter, if_neg (Nat.not_lt_of_le (h y List.mem_cons_self)),
      ih fun z hz => h z (List.mem_cons_of_mem _ hz)]
    rfl

/-- What is picked out of a list in the order of its ticks does not see the entries left out, and a new
entry that is picked goes behind those picked that come up no later. -/
theorem filterMap_enter {α β : Type} {tick : α → Nat} {tick' : β → Nat} {f : α → Option β}
    (same : ∀ y z, f y = some z → tick' z = tick y) {x : α} {ys : List α}
    (sorted : ys.Pairwise fun y z => tick y ≤ tick z) : (enter tick x ys).filterMap f =
      match f x with
      | none => ys.filterMap f
      | some z => enter tick' z (ys.filterMap f) := by
  induction ys with
  | nil => cases hx : f x <;> simp [enter, hx]
  | cons y ys ih =>
    obtain ⟨hy, hys⟩ := List.pairwise_cons.mp sorted
    rw [enter]
    split
    · next hlt =>
      rw [List.filterMap_cons]
      cases hx : f x with
      | none => rfl
      | some z =>
        refine (enter_first fun w hw => ?_).symm
        obtain ⟨u, hu, hf⟩ := List.mem_filterMap.mp hw
        rw [same x z hx, same u w hf]
        rcases List.mem_cons.mp hu with rfl | hu
        · exact hlt
        · exact Nat.lt_of_lt_of_le hlt (hy u hu)
    · next hge =>
      rw [List.filterMap_cons, List.filterMap_cons, ih hys]
      cases hf : f y with
      | none => rfl
      | some w =>
        cases hx : f x with
        | none => rfl
        | some z =>
          have later : ¬ tick' z < tick' w := by rwa [same x z hx, same y w hf]
          exact (if_neg later).symm

theorem filter_enter {α : Type} {tick : α → Nat} (p : α → Bool) {x : α} {ys : List α}
    (sorted : ys.Pairwise fun y z => tick y ≤ tick z) : (enter tick x ys).filter p =
      if p x then enter tick x (ys.filter p) else ys.filter p := by
  have same : ∀ y z, Option.guard p y = some z → tick z = tick y := by
    intro y z h
    rw [(Option.guard_eq_some_iff.mp h).1]
  rw [← List.filterMap_eq_filter, filterMap_enter same sorted]
  by_cases h : p x = true <;> simp [Option.guard, h]

/-- The place of a new entry: its stamp is the greatest, so only its tick counts. -/
theorem pairwise_enter {x : Entry} {ys : List Entry} (hs : ∀ y ∈ ys, y.stamp < x.stamp)
    (hp : ys.Pairwise fun x y => x.notAfter y = true) :
    (enter (fun e => e.tick.toNat) x ys).Pairwise fun x y => x.notAfter y = true := by
  induction ys with
  | nil => exact List.pairwise_singleton _ _
  | cons y ys ih =>
    obtain ⟨hy, hys⟩ := List.pairwise_cons.mp hp
    unfold enter
    split
    · next hlt =>
      refine List.pairwise_cons.mpr ⟨fun z hz => ?_, hp⟩
      rcases List.mem_cons.mp hz with rfl | hz
      · exact Entry.notAfter_iff.mpr (.inl hlt)
      · have := Entry.notAfter_iff.mp (hy z hz)
        exact Entry.notAfter_iff.mpr (by omega)
    · next hge =>
      refine List.pairwise_cons.mpr ⟨fun z hz => ?_, ih (fun z hz => hs z (.tail _ hz)) hys⟩
      rcases List.mem_cons.mp ((enter_perm _ x ys).subset hz) with rfl | hz
      · have := hs y List.mem_cons_self
        exact Entry.notAfter_iff.mpr (by omega)
      · exact hy z hz

theorem pairwise_order (a : Agenda) : a.order.Pairwise fun x y => x.1.toNat ≤ y.1.toNat := by
  refine List.pairwise_map.mpr (a.pairwise_sorted.imp fun h => ?_)
  rcases Entry.notAfter_iff.mp h with hlt | ⟨heq, _⟩
  · exact Nat.le_of_lt hlt
  · exact Nat.le_of_eq heq

/-- A new event goes behind all that come up no later. -/
theorem order_schedule (a : Agenda) (tick : Tick) (event : Event) :
    (a.schedule tick event).order =
      enter (fun e => e.1.toNat) (Word.later tick a.now, event) a.order := by
  have hmem : ∀ e ∈ a.sorted, e.stamp < a.stamp := fun e he =>
    a.stamp_lt e (List.mem_mergeSort.mp he)
  have hsorted : enter (fun e => e.tick.toNat) ⟨Word.later tick a.now, a.stamp, event⟩ a.sorted =
      (a.schedule tick event).sorted :=
    eq_sorted ((enter_perm _ _ _).trans ((List.mergeSort_perm _ _).cons _))
      (pairwise_enter hmem a.pairwise_sorted)
  rw [order, ← hsorted]
  exact map_enter _ _ _ _ _ fun _ => rfl

/-- Events of some kind are entered among themselves, and the other ones do not matter to them. -/
theorem filter_schedule (a : Agenda) (kind : Event → Bool) (tick : Tick) (event : Event) :
    ((a.schedule tick event).order.filter fun x => kind x.2) =
      if kind event then enter (fun x => x.1.toNat) (Word.later tick a.now, event)
        (a.order.filter fun x => kind x.2)
      else a.order.filter fun x => kind x.2 := by
  rw [order_schedule, filter_enter _ a.pairwise_order]

/-- An event entered for a tick that is not past keeps its tick. -/
theorem order_schedule_of_le {a : Agenda} {tick : Tick} (event : Event) (h : a.now.toNat ≤ tick.toNat) :
    (a.schedule tick event).order = enter (fun e => e.1.toNat) (tick, event) a.order := by
  rw [order_schedule, Word.later_of_ge h]

theorem order_scheduleIn (a : Agenda) (delay : Tick) (event : Event) :
    (a.scheduleIn delay event).order =
      enter (fun e => e.1.toNat) (Word.saturatingAdd a.now delay, event) a.order :=
  order_schedule_of_le event (Word.le_saturatingAdd _ _)

/-- What comes up next is the head of the order. -/
theorem order_of_pop {a rest : Agenda} {tick : Tick} {event : Event}
    (h : a.pop = some (tick, event, rest)) :
    a.order = (tick, event) :: rest.order ∧ rest.now = tick ∧ a.now.toNat ≤ tick.toNat := by
  obtain ⟨e, rfl, rfl, now, perm, greatest⟩ := greatest_of_pop h
  refine ⟨?_, now, a.now_le _ (perm.subset List.mem_cons_self)⟩
  have hsorted : e :: rest.sorted = a.sorted := by
    refine eq_sorted (((List.mergeSort_perm _ _).cons _).trans perm) ?_
    refine List.pairwise_cons.mpr ⟨fun x hx => ?_, rest.pairwise_sorted⟩
    have hx : x ∈ a.entries := perm.subset (.tail _ (List.mem_mergeSort.mp hx))
    rw [Entry.notAfter, Entry.compare_isLE_iff.mp (greatest x hx), Bool.not_false]
  rw [order, ← hsorted]
  rfl

theorem order_eq_nil_iff {a : Agenda} : a.order = [] ↔ a.isEmpty = true := by
  rw [order, sorted, List.map_eq_nil_iff, ← List.length_eq_zero_iff, List.length_mergeSort, isEmpty,
    List.length_eq_zero_iff, List.isEmpty_iff]

theorem pop_eq_none_iff_order {a : Agenda} : a.pop = none ↔ a.order = [] :=
  pop_eq_none_iff.trans order_eq_nil_iff.symm

/-- No pending tick lies before the clock. -/
theorem now_le_order {a : Agenda} {x : Tick × Event} (h : x ∈ a.order) :
    a.now.toNat ≤ x.1.toNat := by
  obtain ⟨e, he, rfl⟩ := List.mem_map.mp h
  exact a.now_le e (List.mem_mergeSort.mp he)

end WritebackCache.Agenda
