import WritebackCache.Proofs.AgendaOrder

/-! The agenda is a stable queue with a clock that never goes back. Beside it stands a calendar: a clock
and a plain list of entries, in which a new entry goes behind all that come up no later, and from which
the first one is taken. Whatever is asked of the two, they show the same. What came up and what is still
to come is then what was entered: sorted by ticks, and within one tick in the order of entering, also
where the tick is not the one asked for, because that one was past or beyond the largest tick. -/

namespace WritebackCache

open Agenda (enter enter_last filter_enter)

/-- What can be asked of an agenda. -/
inductive Operation
  | schedule (tick : Tick) (event : Event)
  | scheduleIn (delay : Tick) (event : Event)
  | pop

/-- What there is to see after an operation, and what it took off. -/
structure Reading where
  popped : Option (Nat × Event)
  now : Nat
  peek : Option Nat
  length : Nat
  isEmpty : Bool

structure Calendar where
  now : Nat
  /-- The entries still to come, in the order in which they come up. -/
  entries : List (Nat × Event)

namespace Calendar

variable (c : Calendar)

def blank : Calendar := ⟨0, []⟩

/-- The entry that an operation makes, under the tick at which it comes up. -/
def entry : Operation → Option (Nat × Event)
  | .schedule tick event => some (max tick.toNat c.now, event)
  | .scheduleIn delay event => some (min (c.now + delay.toNat) (UInt64.size - 1), event)
  | .pop => none

/-- The calendar after an operation, and what was taken off. -/
def perform (op : Operation) : Calendar × Option (Nat × Event) :=
  match c.entry op with
  | some x => ({ c with entries := enter Prod.fst x c.entries }, none)
  | none =>
    match c.entries with
    | [] => (c, none)
    | x :: rest => (⟨x.1, rest⟩, some x)

def after (ops : List Operation) : Calendar := ops.foldl (fun c op => (c.perform op).1) c

/-- The entries that operations make, in the order in which they are made. -/
def entered (c : Calendar) : List Operation → List (Nat × Event)
  | [] => []
  | op :: rest => (c.entry op).toList ++ (c.perform op).1.entered rest

/-- What operations take off, in the order in which it comes up. -/
def popped (c : Calendar) : List Operation → List (Nat × Event)
  | [] => []
  | op :: rest => (c.perform op).2.toList ++ (c.perform op).1.popped rest

def reading (popped : Option (Nat × Event)) : Reading :=
  ⟨popped, c.now, c.entries.head?.map Prod.fst, c.entries.length, c.entries.isEmpty⟩

def readings (c : Calendar) : List Operation → List Reading
  | [] => []
  | op :: rest => (c.perform op).1.reading (c.perform op).2 :: (c.perform op).1.readings rest

variable {c}

/-- An operation makes an entry, finds nothing to take off, or takes the first entry off. -/
theorem perform_cases (c : Calendar) (op : Operation) :
    (∃ x, c.entry op = some x ∧
      c.perform op = ({ c with entries := enter Prod.fst x c.entries }, none)) ∨
    (c.entry op = none ∧ c.perform op = (c, none)) ∨
    ∃ x rest, c.entry op = none ∧ c.entries = x :: rest ∧ c.perform op = (⟨x.1, rest⟩, some x) := by
  unfold perform
  cases c.entry op with
  | some x => exact .inl ⟨x, rfl, rfl⟩
  | none =>
    cases c.entries with
    | nil => exact .inr (.inl ⟨rfl, rfl⟩)
    | cons x rest => exact .inr (.inr ⟨x, rest, rfl, rfl, rfl⟩)

/-- Of the entries of one tick, a new one is the last. -/
theorem filter_enter_tick {x : Nat × Event} {entries : List (Nat × Event)} {tick : Nat}
    (sorted : entries.Pairwise fun y z => y.1 ≤ z.1) :
    (enter Prod.fst x entries).filter (fun y => y.1 = tick) =
      (entries ++ [x]).filter fun y => y.1 = tick := by
  rw [filter_enter _ sorted, List.filter_append]
  by_cases here : x.1 = tick
  · have last : ∀ y ∈ entries.filter (fun y => y.1 = tick), y.1 ≤ x.1 := by
      intro y hy
      have there : y.1 = tick := of_decide_eq_true (List.mem_filter.mp hy).2
      exact Nat.le_of_eq (there.trans here.symm)
    rw [enter_last last]
    simp [here]
  · simp [here]

theorem popped_readings (c : Calendar) (ops : List Operation) :
    (c.readings ops).filterMap Reading.popped = c.popped ops := by
  induction ops generalizing c with
  | nil => rfl
  | cons op rest ih =>
    rw [readings, popped, List.filterMap_cons, ih, reading]
    cases (c.perform op).2 <;> rfl

/-- The clock stands at the tick that came up last. -/
theorem now_after (c : Calendar) (ops : List Operation) :
    (c.after ops).now = ((c.popped ops).getLast?.map Prod.fst).getD c.now := by
  induction ops generalizing c with
  | nil => rfl
  | cons op rest ih =>
    show ((c.perform op).1.after rest).now = _
    rw [ih, popped]
    rcases c.perform_cases op with ⟨x, -, performed⟩ | ⟨-, performed⟩ | ⟨x, rest', -, -, performed⟩
    · rw [performed]
      rfl
    · rw [performed]
      rfl
    · rw [performed, Option.toList_some, List.singleton_append, List.getLast?_cons]
      cases List.getLast? _ <;> rfl

end Calendar

namespace Agenda

/-- An entry with its tick as a number. -/
def counted (x : Tick × Event) : Nat × Event := (x.1.toNat, x.2)

/-- What an agenda looks like as a calendar. -/
def calendar (a : Agenda) : Calendar := ⟨a.now.toNat, a.order.map counted⟩

/-- The agenda after an operation, and what was taken off. -/
def perform (a : Agenda) : Operation → Agenda × Option (Tick × Event)
  | .schedule tick event => (a.schedule tick event, none)
  | .scheduleIn delay event => (a.scheduleIn delay event, none)
  | .pop =>
    match a.pop with
    | none => (a, none)
    | some (tick, event, rest) => (rest, some (tick, event))

def after (a : Agenda) (ops : List Operation) : Agenda := ops.foldl (fun a op => (a.perform op).1) a

def reading (a : Agenda) (popped : Option (Tick × Event)) : Reading :=
  ⟨popped.map counted, a.now.toNat, a.peek.map UInt64.toNat, a.length, a.isEmpty⟩

def readings (a : Agenda) : List Operation → List Reading
  | [] => []
  | op :: rest => (a.perform op).1.reading (a.perform op).2 :: (a.perform op).1.readings rest

variable (a : Agenda)

theorem sorted_calendar : a.calendar.entries.Pairwise fun x y => x.1 ≤ y.1 :=
  List.pairwise_map.mpr a.pairwise_order

theorem calendar_schedule (tick : Tick) (event : Event) : (a.schedule tick event).calendar =
    { a.calendar with
      entries := enter Prod.fst (max tick.toNat a.now.toNat, event) a.calendar.entries } := by
  have entered := map_enter (fun e => e.1.toNat) Prod.fst counted (Word.later tick a.now, event)
    a.order fun _ => rfl
  rw [calendar, order_schedule, entered, counted, Word.toNat_later]
  rfl

theorem calendar_scheduleIn (delay : Tick) (event : Event) : (a.scheduleIn delay event).calendar =
    { a.calendar with
      entries := enter Prod.fst (min (a.now.toNat + delay.toNat) (UInt64.size - 1), event)
        a.calendar.entries } := by
  have ahead := Word.le_saturatingAdd a.now delay
  rw [scheduleIn, calendar_schedule, Nat.max_eq_left ahead, Word.toNat_saturatingAdd]

/-- What is asked of an agenda does to its calendar what is asked of that. -/
theorem calendar_perform (op : Operation) : a.calendar.perform op =
    ((a.perform op).1.calendar, (a.perform op).2.map counted) := by
  cases op with
  | schedule tick event => exact Prod.ext (calendar_schedule a tick event).symm rfl
  | scheduleIn delay event => exact Prod.ext (calendar_scheduleIn a delay event).symm rfl
  | pop =>
    unfold perform
    cases pop : a.pop with
    | none =>
      have empty : a.calendar.entries = [] := by
        rw [calendar, pop_eq_none_iff_order.mp pop]
        rfl
      simp only [Calendar.perform, Calendar.entry, empty]
      rfl
    | some r =>
      obtain ⟨tick, event, rest⟩ := r
      obtain ⟨order, now, -⟩ := order_of_pop pop
      have first : a.calendar.entries = counted (tick, event) :: rest.calendar.entries := by
        rw [calendar, order]
        rfl
      simp only [Calendar.perform, Calendar.entry, first]
      rw [calendar, now]
      rfl

theorem calendar_next (op : Operation) :
    (a.perform op).1.calendar = (a.calendar.perform op).1 :=
  congrArg Prod.fst (a.calendar_perform op).symm

theorem calendar_after (ops : List Operation) : (a.after ops).calendar = a.calendar.after ops := by
  induction ops generalizing a with
  | nil => rfl
  | cons op rest ih =>
    show ((a.perform op).1.after rest).calendar = (a.calendar.perform op).1.after rest
    rw [ih, calendar_next]

theorem reading_calendar (popped : Option (Tick × Event)) :
    a.reading popped = a.calendar.reading (popped.map counted) := by
  have peek : a.peek.map UInt64.toNat = a.calendar.entries.head?.map Prod.fst := by
    cases pop : a.pop with
    | none =>
      rw [Agenda.peek, pop, calendar, pop_eq_none_iff_order.mp pop]
      rfl
    | some r =>
      obtain ⟨tick, event, rest⟩ := r
      rw [Agenda.peek, pop, calendar, (order_of_pop pop).1]
      rfl
  have length : a.length = a.calendar.entries.length := by
    rw [calendar, List.length_map, order, List.length_map, sorted, List.length_mergeSort]
    rfl
  have isEmpty : a.isEmpty = a.calendar.entries.isEmpty := by
    rw [Bool.eq_iff_iff, ← order_eq_nil_iff, List.isEmpty_iff, calendar, List.map_eq_nil_iff]
  rw [reading, peek, length, isEmpty]
  rfl

theorem readings_calendar (ops : List Operation) : a.readings ops = a.calendar.readings ops := by
  induction ops generalizing a with
  | nil => rfl
  | cons op rest ih =>
    rw [readings, Calendar.readings, calendar_perform, reading_calendar, ih]

theorem now_le_calendar : ∀ x ∈ a.calendar.entries, a.calendar.now ≤ x.1 := by
  intro x hx
  obtain ⟨y, hy, rfl⟩ := List.mem_map.mp hx
  exact now_le_order hy

/-- What comes up and what is still to come is sorted, and none of it is past. -/
theorem sorted_popped (ops : List Operation) :
    (a.calendar.popped ops ++ (a.calendar.after ops).entries).Pairwise (fun x y => x.1 ≤ y.1) ∧
      ∀ x ∈ a.calendar.popped ops ++ (a.calendar.after ops).entries, a.calendar.now ≤ x.1 := by
  induction ops generalizing a with
  | nil => exact ⟨a.sorted_calendar, a.now_le_calendar⟩
  | cons op rest ih =>
    have next := ih (a.perform op).1
    rw [calendar_next] at next
    have later := a.now_le_calendar
    unfold Calendar.popped
    rw [Calendar.after, List.foldl_cons, ← Calendar.after]
    rcases a.calendar.perform_cases op with
      ⟨x, -, performed⟩ | ⟨-, performed⟩ | ⟨x, rest', -, first, performed⟩
    · rw [performed] at next ⊢
      exact next
    · rw [performed] at next ⊢
      exact next
    · rw [performed] at next ⊢
      rw [first] at later
      have ahead := later x List.mem_cons_self
      refine ⟨List.pairwise_cons.mpr ⟨next.2, next.1⟩, fun y hy => ?_⟩
      rcases List.mem_cons.mp hy with rfl | hy
      · exact ahead
      · exact Nat.le_trans ahead (next.2 y hy)

/-- Of one tick, what comes up and what is still to come is what there was and what was entered, in
that order. -/
theorem in_turn (ops : List Operation) (tick : Nat) :
    (a.calendar.popped ops ++ (a.calendar.after ops).entries).filter (fun x => x.1 = tick) =
      (a.calendar.entries ++ a.calendar.entered ops).filter (fun x => x.1 = tick) := by
  induction ops generalizing a with
  | nil => rw [Calendar.popped, Calendar.entered, List.append_nil]; rfl
  | cons op rest ih =>
    have next := ih (a.perform op).1
    rw [calendar_next] at next
    have sorted := a.sorted_calendar
    unfold Calendar.popped Calendar.entered
    rw [Calendar.after, List.foldl_cons, ← Calendar.after]
    rcases a.calendar.perform_cases op with
      ⟨x, made, performed⟩ | ⟨made, performed⟩ | ⟨x, rest', made, first, performed⟩
    · rw [performed] at next ⊢
      rw [made]
      refine next.trans ?_
      rw [List.filter_append, Calendar.filter_enter_tick sorted, ← List.filter_append,
        List.append_assoc]
      rfl
    · rw [performed] at next ⊢
      rw [made]
      exact next
    · rw [performed] at next ⊢
      simp only [made, first, Option.toList_some, Option.toList_none, List.nil_append,
        List.cons_append, List.filter_cons, next]

end Agenda

theorem perm_of_ticks {xs ys : List (Nat × Event)}
    (h : ∀ tick, xs.filter (fun x => x.1 = tick) = ys.filter (fun x => x.1 = tick)) : xs.Perm ys := by
  refine List.perm_iff_count.mpr fun x => ?_
  have here (l : List (Nat × Event)) : (l.filter fun y => y.1 = x.1).count x = l.count x :=
    List.count_filter (decide_eq_true rfl)
  rw [← here xs, h, here]

/-- However entries and takings interleave, an agenda shows what a calendar shows. What came up is
sorted by ticks and its last tick is the clock's; together with what is still to come it is all that
was entered and nothing else, and among the events of any one tick the order of entering is kept. -/
theorem Agenda.readings_eq_calendar (ops : List Operation) :
    Agenda.empty.readings ops = Calendar.blank.readings ops ∧
      ((Agenda.empty.readings ops).filterMap Reading.popped).Pairwise (fun x y => x.1 ≤ y.1) ∧
      (Agenda.empty.after ops).now.toNat =
        (((Agenda.empty.readings ops).filterMap Reading.popped).getLast?.map Prod.fst).getD 0 ∧
      ((Agenda.empty.readings ops).filterMap Reading.popped ++
        (Calendar.blank.after ops).entries).Perm (Calendar.blank.entered ops) ∧
      ∀ tick, ((Agenda.empty.readings ops).filterMap Reading.popped ++
          (Calendar.blank.after ops).entries).filter (fun x => x.1 = tick) =
        (Calendar.blank.entered ops).filter fun x => x.1 = tick := by
  have blank : Agenda.empty.calendar = Calendar.blank := by
    rw [Agenda.calendar, Agenda.order_eq_nil_iff.mpr rfl]
    rfl
  have shown := Agenda.empty.readings_calendar ops
  rw [blank] at shown
  have popped := Calendar.blank.popped_readings ops
  have now := congrArg Calendar.now (Agenda.empty.calendar_after ops)
  have sorted := (Agenda.empty.sorted_popped ops).1
  have turn := Agenda.empty.in_turn ops
  rw [blank] at now sorted turn
  rw [shown, popped]
  refine ⟨rfl, (List.pairwise_append.mp sorted).1, ?_, perm_of_ticks turn, turn⟩
  exact now.trans (Calendar.blank.now_after ops)

/-- A past tick counts as the present one, and events that meet there keep their order. -/
example : (Agenda.empty.readings [.schedule 5 .unblock, .pop, .schedule 3 .retry, .scheduleIn 0 .issue,
    .pop, .pop]).filterMap Reading.popped = [(5, .unblock), (5, .retry), (5, .issue)] := by decide

end WritebackCache
