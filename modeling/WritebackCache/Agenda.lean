import WritebackCache.Event
import WritebackCache.Word

/-! The agenda of pending events, and the clock. An event is entered under a tick that is never in the
past and under a stamp that counts the entries made so far; the entry that comes up next is the one
with the least tick and, among those, the least stamp, so events of one tick come up in the order
they were entered. Entries are kept in no particular order. Stamps are distinct, so that the next
entry is unique, and no pending tick lies before the clock: both are part of the type. -/

namespace WritebackCache

namespace Agenda

structure Entry where
  tick : Tick
  stamp : Nat
  event : Event

/-- Both keys are reversed, so that the greatest entry is the one that comes up first. -/
instance : Ord Entry where
  compare a b := (compare b.tick a.tick).then (compare b.stamp a.stamp)

/-- The order in which entries come up. -/
def Entry.before (a b : Entry) : Bool :=
  decide (a.tick.toNat < b.tick.toNat) ||
    (decide (a.tick.toNat = b.tick.toNat) && decide (a.stamp < b.stamp))

/-- The entry that comes up first among `e` and the entries given, and the others. -/
def takeFirst (e : Entry) : List Entry → Entry × List Entry
  | [] => (e, [])
  | x :: xs =>
    if x.before e then
      let r := takeFirst x xs
      (r.1, e :: r.2)
    else
      let r := takeFirst e xs
      (r.1, x :: r.2)

theorem takeFirst_perm (e : Entry) (xs : List Entry) :
    ((takeFirst e xs).1 :: (takeFirst e xs).2).Perm (e :: xs) := by
  induction xs generalizing e with
  | nil => exact .refl _
  | cons x xs ih =>
    unfold takeFirst
    split
    · exact (List.Perm.swap _ _ _).trans ((ih x).cons e)
    · exact (List.Perm.swap _ _ _).trans (((ih e).cons x).trans (.swap _ _ _))

theorem Entry.before_iff {a b : Entry} : a.before b = true ↔
    a.tick.toNat < b.tick.toNat ∨ (a.tick.toNat = b.tick.toNat ∧ a.stamp < b.stamp) := by
  simp [Entry.before]

/-- What comes up before another entry is greater. -/
theorem Entry.compare_eq_gt_iff {a b : Entry} : compare a b = .gt ↔ a.before b = true := by
  show (compare b.tick a.tick).then (compare b.stamp a.stamp) = .gt ↔ _
  have same : b.tick = a.tick ↔ a.tick.toNat = b.tick.toNat := by rw [eq_comm, UInt64.toNat_inj]
  rw [Ordering.then_eq_gt, before_iff, Std.compare_eq_gt, Std.compare_eq_gt, Std.compare_eq_iff_eq,
    UInt64.lt_iff_toNat_lt, same]

theorem Entry.compare_isLE_iff {a b : Entry} : (compare a b).isLE = true ↔ a.before b = false := by
  rw [Bool.eq_false_iff, ne_eq, ← compare_eq_gt_iff]
  cases compare a b <;> simp

theorem takeFirst_le (e : Entry) (xs : List Entry) :
    ∀ x ∈ e :: xs, x.before (takeFirst e xs).1 = false := by
  induction xs generalizing e with
  | nil =>
    intro x hx
    simp only [List.mem_singleton] at hx
    subst hx
    simp [takeFirst, Entry.before]
  | cons y ys ih =>
    intro x hx
    unfold takeFirst
    split
    · next h =>
      rcases List.mem_cons.mp hx with rfl | hx
      · have hy := ih y y List.mem_cons_self
        simp only [Bool.eq_false_iff, ne_eq, Entry.before_iff] at *
        omega
      · exact ih y x hx
    · next h =>
      rcases List.mem_cons.mp hx with rfl | hx
      · exact ih x x List.mem_cons_self
      · rcases List.mem_cons.mp hx with rfl | hx
        · have he := ih e e List.mem_cons_self
          simp only [Bool.eq_false_iff, ne_eq, Entry.before_iff] at *
          omega
        · exact ih e x (List.mem_cons_of_mem _ hx)

end Agenda

structure Agenda where
  /-- The tick of the entry that came up last. -/
  now : Tick
  /-- The number of entries made so far. -/
  stamp : Nat
  entries : List Agenda.Entry
  now_le : ∀ e ∈ entries, now.toNat ≤ e.tick.toNat
  stamp_lt : ∀ e ∈ entries, e.stamp < stamp
  nodup : (entries.map Agenda.Entry.stamp).Nodup

namespace Agenda

def empty : Agenda := ⟨0, 0, [], by simp, by simp, by simp⟩

/-- Enters an event under a tick; a tick in the past counts as the present one. -/
def schedule (a : Agenda) (tick : Tick) (event : Event) : Agenda where
  now := a.now
  stamp := a.stamp + 1
  entries := ⟨Word.later tick a.now, a.stamp, event⟩ :: a.entries
  now_le := by
    intro e he
    rcases List.mem_cons.mp he with rfl | he
    · rw [Word.toNat_later]
      omega
    · exact a.now_le e he
  stamp_lt := by
    intro e he
    rcases List.mem_cons.mp he with rfl | he
    · exact Nat.lt_succ_self _
    · exact Nat.lt_succ_of_lt (a.stamp_lt e he)
  nodup := by
    simp only [List.map_cons, List.nodup_cons, List.mem_map, not_exists, not_and]
    exact ⟨fun e he h => Nat.ne_of_lt (a.stamp_lt e he) h, a.nodup⟩

/-- Enters an event `delay` ticks from now; the clock does not run past the largest tick. -/
def scheduleIn (a : Agenda) (delay : Tick) (event : Event) : Agenda :=
  a.schedule (Word.saturatingAdd a.now delay) event

/-- Moves the clock to an entry and takes it off. -/
def advance (a : Agenda) (e : Entry) (rest : List Entry) (perm : (e :: rest).Perm a.entries)
    (first : ∀ x ∈ rest, x.before e = false) : Agenda where
  now := e.tick
  stamp := a.stamp
  entries := rest
  now_le := by
    intro x hx
    have h := first x hx
    simp only [Bool.eq_false_iff, ne_eq, Entry.before_iff] at h
    omega
  stamp_lt := fun x hx => a.stamp_lt x (perm.subset (List.mem_cons_of_mem _ hx))
  nodup := (List.nodup_cons.mp ((perm.map Entry.stamp).nodup_iff.mpr a.nodup)).2

/-- The entry that comes up next, with the agenda after it. -/
def pop (a : Agenda) : Option (Tick × Event × Agenda) :=
  match h : a.entries with
  | [] => none
  | e :: rest =>
    let r := takeFirst e rest
    some (r.1.tick, r.1.event, a.advance r.1 r.2 (h ▸ takeFirst_perm e rest) fun x hx =>
      takeFirst_le e rest x ((takeFirst_perm e rest).subset (List.mem_cons_of_mem _ hx)))

/-- The tick that comes up next. -/
def peek (a : Agenda) : Option Tick := a.pop.map fun r => r.1

def length (a : Agenda) : Nat := a.entries.length

def isEmpty (a : Agenda) : Bool := a.entries.isEmpty

@[simp] theorem length_schedule (a : Agenda) (tick : Tick) (event : Event) :
    (a.schedule tick event).length = a.length + 1 := rfl

@[simp] theorem length_scheduleIn (a : Agenda) (delay : Tick) (event : Event) :
    (a.scheduleIn delay event).length = a.length + 1 := rfl

/-- What comes up next is a greatest entry, and all the others stay. -/
theorem greatest_of_pop {a rest : Agenda} {tick : Tick} {event : Event}
    (h : a.pop = some (tick, event, rest)) : ∃ e, e.tick = tick ∧ e.event = event ∧ rest.now = tick ∧
      (e :: rest.entries).Perm a.entries ∧ ∀ x ∈ a.entries, (compare x e).isLE = true := by
  unfold pop at h
  split at h
  · cases h
  · next e es he =>
    obtain ⟨rfl, rfl, rfl⟩ : _ ∧ _ ∧ _ := by simpa only [Option.some.injEq, Prod.mk.injEq] using h
    refine ⟨(takeFirst e es).1, rfl, rfl, rfl, (takeFirst_perm e es).trans (.of_eq he.symm), fun x hx => ?_⟩
    rw [he] at hx
    exact Entry.compare_isLE_iff.mpr (takeFirst_le e es x hx)

theorem length_of_pop {a rest : Agenda} {tick : Tick} {event : Event}
    (h : a.pop = some (tick, event, rest)) : rest.length + 1 = a.length := by
  obtain ⟨e, -, -, -, perm, -⟩ := greatest_of_pop h
  exact perm.length_eq

theorem pop_eq_none_iff {a : Agenda} : a.pop = none ↔ a.isEmpty = true := by
  unfold pop isEmpty
  split
  · next h => simp [h]
  · next h => simp [h]

end Agenda

end WritebackCache
