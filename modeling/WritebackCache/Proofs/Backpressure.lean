import Mathlib.Data.List.DropRight
import WritebackCache.Bench
import WritebackCache.Proofs.Calls

/-! Requests that are turned away. However many there were, the next release enters one retry for them,
at the present tick; and that retry is all there is to tell of them. A bench on which they are not
even offered does the same otherwise: the same answers, the same packets for memory, the same events at
the same ticks in the same order. Such a bench is carried along beside the first one. It stands still
while a request is turned away or a retry is taken off, and takes every other step too. -/

namespace WritebackCache

namespace Agenda

/-- The retries still to come. -/
def retries (a : Agenda) : List (Tick × Event) := a.order.filter fun x => x.2 = .retry

/-- The events still to come that are no retries. -/
def others (a : Agenda) : List (Tick × Event) := a.order.filter fun x => x.2 ≠ .retry

/-- The second agenda is the first one without its retries, all of which are due by now. -/
structure Pruned (a t : Agenda) : Prop where
  now : t.now = a.now
  order : t.order = a.others
  due : ∀ x ∈ a.retries, x.1 = a.now

variable {a t rest : Agenda} {tick : Tick} {event : Event}

theorem others_schedule (a : Agenda) (tick : Tick) (event : Event) :
    (a.schedule tick event).others = if event = .retry then a.others else
      enter (fun x => x.1.toNat) (Word.later tick a.now, event) a.others := by
  rw [others, filter_schedule a fun e => e ≠ .retry]
  by_cases retry : event = .retry <;> simp [retry, others]

theorem retries_schedule (a : Agenda) (tick : Tick) (event : Event) :
    (a.schedule tick event).retries = if event = .retry then
      enter (fun x => x.1.toNat) (Word.later tick a.now, event) a.retries else a.retries := by
  rw [retries, filter_schedule a fun e => e = .retry]
  simp only [decide_eq_true_eq, retries]

/-- What is entered without delay is entered at the present tick. -/
theorem scheduleIn_zero (a : Agenda) (event : Event) : a.scheduleIn 0 event = a.schedule a.now event := by
  rw [scheduleIn, Word.saturatingAdd_zero]

namespace Pruned

theorem of_nothing (nothing : a.retries = []) : a.Pruned a := by
  refine ⟨rfl, (List.filter_eq_self.mpr fun x hx => ?_).symm, by simp [nothing]⟩
  simpa using List.filter_eq_nil_iff.mp nothing x hx

theorem schedule (h : a.Pruned t) (tick : Tick) (other : event ≠ .retry) :
    (a.schedule tick event).Pruned (t.schedule tick event) where
  now := h.now
  order := by rw [order_schedule, others_schedule, if_neg other, h.order, h.now]
  due := by
    rw [retries_schedule, if_neg other]
    exact h.due

theorem scheduleIn (h : a.Pruned t) (delay : Tick) (other : event ≠ .retry) :
    (a.scheduleIn delay event).Pruned (t.scheduleIn delay event) := by
  rw [Agenda.scheduleIn, Agenda.scheduleIn, h.now]
  exact h.schedule _ other

theorem retried (h : a.Pruned t) : (a.scheduleIn 0 .retry).Pruned t := by
  rw [scheduleIn_zero]
  refine ⟨h.now, ?_, fun x hx => ?_⟩
  · rw [others_schedule, if_pos rfl, h.order]
  · rw [retries_schedule, if_pos rfl] at hx
    rcases List.mem_cons.mp ((enter_perm _ _ _).subset hx) with rfl | hx
    · exact Word.later_of_le (Nat.le_refl _)
    · exact h.due x hx

/-- What is taken off the agenda is taken off the pruned one too. -/
theorem pop (h : a.Pruned t) (pop : a.pop = some (tick, event, rest)) (other : event ≠ .retry) :
    ∃ next, t.pop = some (tick, event, next) ∧ rest.Pruned next := by
  obtain ⟨order, now, present⟩ := order_of_pop pop
  have first : t.order = (tick, event) :: rest.others := by
    rw [h.order, others, order]
    exact List.filter_cons_of_pos (by simpa using other)
  cases taken : t.pop with
  | none =>
    rw [pop_eq_none_iff_order.mp taken] at first
    cases first
  | some r =>
    obtain ⟨tick', event', next⟩ := r
    obtain ⟨order', now', _⟩ := order_of_pop taken
    obtain ⟨same, later⟩ := List.cons.inj (order'.symm.trans first)
    cases same
    refine ⟨next, rfl, now'.trans now.symm, later, fun x hx => ?_⟩
    -- a retry that was due, and yet comes up later than this event, shows that no time has passed
    obtain ⟨pending, _⟩ := List.mem_filter.mp hx
    have sorted := a.pairwise_order
    rw [order] at sorted
    have ahead : tick.toNat ≤ x.1.toNat := List.rel_of_pairwise_cons sorted pending
    have due : x.1 = a.now := h.due x (by
      rw [retries, order]
      exact (List.sublist_cons_self ..).filter _ |>.subset hx)
    rw [due] at ahead ⊢
    rw [now]
    exact UInt64.toNat_inj.mp (Nat.le_antisymm present ahead)

/-- The pruned agenda has nothing to do with a retry that is taken off. -/
theorem pop_retry (h : a.Pruned t) (pop : a.pop = some (tick, .retry, rest)) : rest.Pruned t := by
  obtain ⟨order, now, _⟩ := order_of_pop pop
  have split : a.retries = (tick, .retry) :: rest.retries := by
    rw [retries, order]
    exact List.filter_cons_of_pos (by simp)
  have due := h.due
  rw [split] at due
  have present : rest.now = a.now := now.trans (due _ List.mem_cons_self)
  refine ⟨h.now.trans present.symm, ?_, fun x hx => (due x (.tail _ hx)).trans present.symm⟩
  rw [h.order, others, order]
  exact List.filter_cons_of_neg (by simp)

theorem pop_none (h : a.Pruned t) (nothing : a.pop = none) : t.pop = none := by
  rw [pop_eq_none_iff_order] at *
  rw [h.order, others, nothing]
  rfl

end Pruned

end Agenda

/-! ## Calls -/

namespace Controller

/-- The controller as it would be if it owed no retry. -/
def quiet (c : Controller) : Controller := { c with retryOwed := false }

/-- What a call comes to, beside what it comes to if no retry is owed: the debt is settled by a release
that succeeds, and by nothing else, and nothing else depends on it. -/
inductive Alike (c : Controller) {α : Type} : Bool → Reaction α → Reaction α → Prop
  | work {next action answer} (owed : next.retryOwed = c.retryOwed)
      (other : ∀ delay, action ≠ some (.schedule delay .retry)) :
      Alike c false (.done next action answer) (.done next.quiet action answer)
  | release {next answer} (settled : next.retryOwed = false) :
      Alike c true (.done next (if c.retryOwed then some (.schedule 0 .retry) else none) answer)
        (.done next.quiet none answer)
  | failure {release next why} (owed : next.retryOwed = c.retryOwed) :
      Alike c release (.failed next why) (.failed next.quiet why)

variable {c : Controller}

theorem ending_ne_retry (c : Controller) (p : Packet) (delay : Tick) :
    some (c.ending p) ≠ some (.schedule delay .retry) := by
  unfold ending Packet.ended
  split <;> simp

/-- A free controller accepts whatever it is offered. -/
theorem alike_accepted (idle : c.status = .idle) (p : Packet) : ∃ next action lookup,
    c.request p = .done next action (.accepted lookup) ∧
      c.Alike false (c.request p) (c.quiet.request p) := by
  by_cases kind : p.kind = .other
  · have twin := request_bypass (c := c.quiet) idle kind
    rw [request_bypass idle kind, twin]
    exact ⟨_, _, _, rfl, .work rfl fun _ => nofun⟩
  · cases found : c.grid.lookup p.block with
    | some way =>
      have twin := request_hit (c := c.quiet) idle kind found
      rw [request_hit idle kind found, twin]
      exact ⟨_, _, _, rfl, .work rfl (c.ending_ne_retry p)⟩
    | none =>
      have twin := request_miss (c := c.quiet) idle kind found
      rw [request_miss idle kind found, twin]
      exact ⟨_, _, _, rfl, .work rfl fun _ => nofun⟩

theorem Secure.alike_answer (h : c.Secure) (q : Packet) :
    c.Alike false (c.answer q) (c.quiet.answer q) := by
  cases outstanding : c.miss with
  | none =>
    have twin := answer_stray (c := c.quiet) q outstanding
    rw [answer_stray q outstanding, twin]
    exact .failure rfl
  | some m =>
    obtain ⟨p, stage⟩ := m
    cases stage with
    | fetching =>
      by_cases expected : q.isRead = true ∧ q.block = p.block
      · obtain ⟨read, block⟩ := expected
        by_cases inSet : c.victim p < c.grid.ways
        · cases dirty : (c.grid.cell (c.grid.setOf p.block) (c.victim p)).valid &&
              (c.grid.cell (c.grid.setOf p.block) (c.victim p)).dirty with
          | false =>
            have twin := answer_fill (c := c.quiet) outstanding read block inSet dirty
            rw [answer_fill outstanding read block inSet dirty, twin]
            exact .work rfl (c.ending_ne_retry p)
          | true =>
            have twin := answer_evict (c := c.quiet) outstanding read block inSet rfl dirty
            rw [answer_evict outstanding read block inSet rfl dirty, twin]
            exact .work rfl fun _ => nofun
        · have twin := answer_outside (c := c.quiet) outstanding read block inSet
          rw [answer_outside outstanding read block inSet, twin]
          exact .failure rfl
      · have twin := answer_mismatched (c := c.quiet) outstanding expected
        rw [answer_mismatched outstanding expected, twin]
        exact .failure rfl
    | writingBack way victim fetched =>
      by_cases expected : q.isWrite = true ∧ q.block = victim
      · obtain ⟨write, block⟩ := expected
        have twin := answer_acknowledge (c := c.quiet) outstanding write block (h.inSet outstanding)
        rw [answer_acknowledge outstanding write block (h.inSet outstanding), twin]
        exact .work rfl (c.ending_ne_retry p)
      · have twin := answer_unacknowledged (c := c.quiet) outstanding expected
        rw [answer_unacknowledged outstanding expected, twin]
        exact .failure rfl

theorem alike_unblock (c : Controller) : c.Alike true c.unblock c.quiet.unblock := by
  by_cases nothing : c.miss = none
  · have twin := unblock_eq (c := c.quiet) nothing
    rw [unblock_eq nothing, twin]
    exact .release rfl
  · have twin := unblock_outstanding (c := c.quiet) nothing
    rw [unblock_outstanding nothing, twin]
    exact .failure rfl

theorem alike_deliver (c : Controller) : c.Alike true c.deliver c.quiet.deliver := by
  cases response : c.response with
  | none =>
    have twin := deliver_nothing (c := c.quiet) response
    rw [deliver_nothing response, twin]
    exact .failure rfl
  | some q =>
    by_cases nothing : c.miss = none
    · have twin := deliver_eq (c := c.quiet) response nothing
      rw [deliver_eq response nothing, twin]
      exact .release rfl
    · have twin := deliver_outstanding (c := c.quiet) response nothing
      rw [deliver_outstanding response nothing, twin]
      exact .failure rfl

end Controller

/-! ## A bench, and the same bench without the requests that were turned away -/

/-- What a bench can be made to do: a call of the controller, an entry that somebody else makes on the
agenda (memory for its answers, say, but nobody enters a retry), or taking the next event off. -/
inductive Stimulus
  | call (call : Call)
  | enter (tick : Tick) (event : Event) (other : event ≠ .retry)
  | pop

/-- What comes of it. -/
inductive Outcome
  | offered (result : Except (Failure ProtocolError) Offer)
  | answered (result : Except (Failure ProtocolError) Unit)
  | delivered (result : Except (Failure ProtocolError) Packet)
  | released (result : Except (Failure ProtocolError) Unit)
  | entered
  | popped (entry : Option (Tick × Event))

namespace Outcome

/-- The packet that comes back when a request is turned away. -/
def turnedAway : Outcome → Option Packet
  | offered (.ok (.busy p)) => some p
  | _ => none

/-- The controller was released, by itself or after a delivery. -/
def frees : Outcome → Bool
  | delivered result => result.isOk
  | released result => result.isOk
  | _ => false

/-- Neither a request turned away nor a retry taken off. -/
def stays : Outcome → Bool
  | offered (.ok (.busy _)) => false
  | popped (some (_, .retry)) => false
  | _ => true

end Outcome

/-- A stimulus, the bench before and after it, and what came of it. -/
structure Episode where
  stimulus : Stimulus
  before : Bench
  after : Bench
  outcome : Outcome

/-- A request was turned away after the last release. -/
def Episode.owed (past : List Episode) : Bool :=
  (past.rtakeWhile fun x => !x.outcome.frees).any fun x => x.outcome.turnedAway.isSome

theorem Episode.owed_append (past : List Episode) (x : Episode) : owed (past ++ [x]) =
    (!x.outcome.frees && (owed past || x.outcome.turnedAway.isSome)) := by
  rw [owed, List.rtakeWhile_concat]
  cases x.outcome.frees <;> simp [owed]

namespace Bench

def stimulate (b : Bench) : Stimulus → Bench × Outcome
  | .call (.request p) => Prod.map id .offered (b.offer p)
  | .call (.answer p) => Prod.map id .answered (b.answer p)
  | .call .deliver => Prod.map id .delivered b.deliver
  | .call .unblock => Prod.map id .released b.unblock
  | .enter tick event _ => ({ b with agenda := b.agenda.schedule tick event }, .entered)
  | .pop =>
    match b.agenda.pop with
    | none => (b, .popped none)
    | some (tick, event, agenda) => ({ b with agenda }, .popped (some (tick, event)))

def episode (b : Bench) (s : Stimulus) : Episode := ⟨s, b, (b.stimulate s).1, (b.stimulate s).2⟩

def episodes (b : Bench) : List Stimulus → List Episode
  | [] => []
  | s :: rest => b.episode s :: (b.stimulate s).1.episodes rest

def afterAll (b : Bench) (stimuli : List Stimulus) : Bench :=
  stimuli.foldl (fun b s => (b.stimulate s).1) b

/-- The episodes but for the requests turned away and the retries taken off. -/
def kept (b : Bench) (stimuli : List Stimulus) : List Episode :=
  (b.episodes stimuli).filter fun x => x.outcome.stays

/-- The bench with another agenda, its controller owing no retry. -/
def quieted (b : Bench) (agenda : Agenda) : Bench := { b with controller := b.controller.quiet, agenda }

/-- The second bench is the first one, but for a retry that is owed or is still to come. -/
inductive Agrees (b : Bench) : Bench → Prop
  | intro {a} (pruned : b.agenda.Pruned a) : Agrees b (b.quieted a)

end Bench

/-- What an episode does about retries, given those before it. -/
structure Episode.Settles (past : List Episode) (x : Episode) : Prop where
  freed : x.outcome.frees = true → x.after.agenda = if owed past = true then
    x.before.agenda.schedule x.before.agenda.now .retry else x.before.agenda
  held : x.outcome.frees = false → x.stimulus ≠ .pop → x.after.agenda.retries = x.before.agenda.retries
  returned : ∀ {p}, x.outcome.turnedAway = some p → x.stimulus = .call (.request p)

/-- The two episodes have the same outcome, and leave the same behind. -/
structure Episode.Matches (x y : Episode) : Prop where
  stimulus : y.stimulus = x.stimulus
  outcome : y.outcome = x.outcome
  after : x.after.Agrees y.after

namespace Bench

open Controller Agenda

variable {b t : Bench} {α : Type} {release : Bool} {r r' : Reaction α} {action : Option Action}

theorem controller_react (b : Bench) (call : Call) (r : Reaction α) :
    (b.react r).1.controller = (r.exchange call b.controller).after := by
  cases r with
  | done => exact controller_perform ..
  | failed => rfl

theorem stimulate_busy (blocked : b.controller.status ≠ .idle) (p : Packet) :
    b.stimulate (.call (.request p)) =
      ({ b with controller := { b.controller with retryOwed := true } }, .offered (.ok (.busy p))) := by
  rw [stimulate, offer, request_busy p blocked]
  rfl

theorem stimulate_accepted (idle : b.controller.status = .idle) (p : Packet) :
    ∃ lookup, (b.stimulate (.call (.request p))).2 = .offered (.ok (.accepted lookup)) := by
  obtain ⟨_, _, lookup, accepted, _⟩ := alike_accepted idle p
  refine ⟨lookup, ?_⟩
  rw [stimulate, offer, accepted]
  rfl

theorem stimulate_pop {tick : Tick} {event : Event} {rest : Agenda}
    (pop : b.agenda.pop = some (tick, event, rest)) :
    b.stimulate .pop = ({ b with agenda := rest }, .popped (some (tick, event))) := by
  rw [stimulate, pop]

theorem stimulate_empty (nothing : b.agenda.pop = none) : b.stimulate .pop = (b, .popped none) := by
  rw [stimulate, nothing]

theorem stimulate_popped (b : Bench) : (b.stimulate .pop).1.controller = b.controller ∧
    ∃ entry, (b.stimulate .pop).2 = .popped entry := by
  cases pop : b.agenda.pop with
  | none =>
    rw [stimulate_empty pop]
    exact ⟨rfl, _, rfl⟩
  | some r =>
    rw [stimulate_pop pop]
    exact ⟨rfl, _, rfl⟩

theorem secure_stimulate (secure : b.controller.Secure) (s : Stimulus) :
    (b.stimulate s).1.controller.Secure := by
  have called {α : Type} (call : Call) (r : Reaction α)
      (same : r.exchange call b.controller = b.controller.exchange call) :
      (b.react r).1.controller.Secure := by
    rw [controller_react, same]
    exact secure.after (secure.effect call)
  cases s with
  | call call =>
    cases call with
    | request p => exact called (.request p) _ rfl
    | answer q => exact called (.answer q) _ rfl
    | deliver => exact called .deliver _ rfl
    | unblock => exact called .unblock _ rfl
  | enter => exact secure
  | pop => rwa [b.stimulate_popped.1]

theorem retries_perform (other : ∀ delay, action ≠ some (.schedule delay .retry)) :
    (b.perform action).agenda.retries = b.agenda.retries := by
  rcases action with _ | _ | ⟨delay, event⟩
  · rfl
  · rfl
  · have regular : event ≠ .retry := fun retry => other delay (by rw [retry])
    exact (retries_schedule ..).trans (if_neg regular)

/-! ### What a call does about the retry -/

theorem owed_react (alike : b.controller.Alike release r r') :
    (b.react r).1.controller.retryOwed =
      (!(release && (b.react r).2.isOk) && b.controller.retryOwed) := by
  cases alike with
  | work owed => simpa [react] using owed
  | release settled => simpa [react, Except.isOk, Except.toBool] using settled
  | failure owed => simpa [react, Except.isOk, Except.toBool] using owed

theorem freed_react (alike : b.controller.Alike true r r') (ok : (b.react r).2.isOk = true) :
    (b.react r).1.agenda = if b.controller.retryOwed = true then
      b.agenda.schedule b.agenda.now .retry else b.agenda := by
  cases alike with
  | release =>
    show (perform _ _).agenda = _
    split
    · exact scheduleIn_zero ..
    · rfl
  | failure => cases ok

theorem held_react (alike : b.controller.Alike release r r')
    (held : (release && (b.react r).2.isOk) = false) :
    (b.react r).1.agenda.retries = b.agenda.retries := by
  cases alike with
  | work _ other => exact retries_perform other
  | release => cases held
  | failure => rfl

namespace Agrees

theorem perform (h : b.Agrees t) (other : ∀ delay, action ≠ some (.schedule delay .retry)) :
    (b.perform action).Agrees (t.perform action) := by
  obtain ⟨pruned⟩ := h
  rcases action with _ | p | ⟨delay, event⟩
  · exact .intro pruned
  · exact .intro (b := b.perform (some (.send p))) pruned
  · have regular : event ≠ .retry := fun retry => other delay (by rw [retry])
    exact .intro (b := b.perform (some (.schedule delay event))) (pruned.scheduleIn delay regular)

/-- Agreement is about the controller as it would be if it owed nothing. -/
theorem goOn (h : b.Agrees t) (next : Controller) :
    Agrees { b with controller := next } { t with controller := next.quiet } := by
  obtain ⟨pruned⟩ := h
  exact .intro (b := { b with controller := next }) pruned

theorem react (h : b.Agrees t) (alike : b.controller.Alike release r r') :
    (b.react r).1.Agrees (t.react r').1 ∧ (t.react r').2 = (b.react r).2 := by
  cases alike with
  | work _ other => exact ⟨(h.goOn _).perform other, rfl⟩
  | failure => exact ⟨h.goOn _, rfl⟩
  | @release next answer =>
    refine ⟨?_, rfl⟩
    obtain ⟨pruned⟩ := h
    show Agrees (Bench.perform _ (if _ then _ else _)) _
    split
    · exact .intro (b := Bench.perform { b with controller := next } (some (.schedule 0 .retry)))
        pruned.retried
    · exact .intro (b := { b with controller := next }) pruned

/-- Whatever stays is done on the second bench too, and comes to the same. -/
theorem stimulate (h : b.Agrees t) (secure : b.controller.Secure) {s : Stimulus}
    (stays : (b.stimulate s).2.stays = true) :
    (b.stimulate s).1.Agrees (t.stimulate s).1 ∧ (t.stimulate s).2 = (b.stimulate s).2 := by
  have called {α : Type} {release : Bool} {r r' : Reaction α}
      (f : Except (Failure ProtocolError) α → Outcome) (alike : b.controller.Alike release r r') :
      (b.react r).1.Agrees (t.react r').1 ∧ f (t.react r').2 = f (b.react r).2 :=
    (h.react alike).imp id (congrArg f)
  have quiet : t.controller = b.controller.quiet := by
    obtain ⟨_⟩ := h
    rfl
  cases s with
  | call call =>
    cases call with
    | request p =>
      by_cases idle : b.controller.status = .idle
      · obtain ⟨_, _, _, _, alike⟩ := alike_accepted idle p
        rw [← quiet] at alike
        exact called .offered alike
      · rw [stimulate_busy idle] at stays
        cases stays
    | answer q =>
      have alike := secure.alike_answer q
      rw [← quiet] at alike
      exact called .answered alike
    | deliver => exact called .delivered (quiet ▸ b.controller.alike_deliver)
    | unblock => exact called .released (quiet ▸ b.controller.alike_unblock)
  | enter tick event other =>
    obtain ⟨pruned⟩ := h
    refine ⟨?_, rfl⟩
    exact .intro (b := { b with agenda := b.agenda.schedule tick event }) (pruned.schedule tick other)
  | pop =>
    obtain ⟨pruned⟩ := h
    cases pop : b.agenda.pop with
    | none =>
      rw [stimulate_empty pop, stimulate_empty (pruned.pop_none pop)]
      exact ⟨.intro pruned, rfl⟩
    | some r =>
      obtain ⟨tick, event, rest⟩ := r
      rw [stimulate_pop pop] at stays ⊢
      have other : event ≠ .retry := by
        rintro rfl
        cases stays
      obtain ⟨next, taken, pruned⟩ := pruned.pop pop other
      rw [stimulate_pop taken]
      exact ⟨.intro (b := { b with agenda := rest }) pruned, rfl⟩

/-- The second bench stands still while something happens on the first one that does not stay. -/
theorem stutter (h : b.Agrees t) {s : Stimulus} (gone : (b.stimulate s).2.stays = false) :
    (b.stimulate s).1.Agrees t := by
  cases s with
  | call call =>
    cases call with
    | request p =>
      by_cases idle : b.controller.status = .idle
      · obtain ⟨_, accepted⟩ := stimulate_accepted idle p
        rw [accepted] at gone
        cases gone
      · obtain ⟨pruned⟩ := h
        rw [stimulate_busy idle]
        exact .intro (b := { b with controller := { b.controller with retryOwed := true } }) pruned
    | answer | deliver | unblock => cases gone
  | enter => cases gone
  | pop =>
    obtain ⟨pruned⟩ := h
    cases pop : b.agenda.pop with
    | none =>
      rw [stimulate_empty pop] at gone
      cases gone
    | some r =>
      obtain ⟨tick, event, rest⟩ := r
      rw [stimulate_pop pop] at gone ⊢
      cases event with
      | retry => exact .intro (b := { b with agenda := rest }) (pruned.pop_retry pop)
      | issue | deliver | unblock | memoryResponse => cases gone

end Agrees

/-! ### Runs -/

/-- The debt is settled by a release, and a request that is turned away makes one. -/
theorem owed_stimulate (secure : b.controller.Secure) (s : Stimulus) :
    (b.stimulate s).1.controller.retryOwed = (!(b.stimulate s).2.frees &&
      (b.controller.retryOwed || (b.stimulate s).2.turnedAway.isSome)) := by
  cases s with
  | call call =>
    cases call with
    | request p =>
      by_cases idle : b.controller.status = .idle
      · obtain ⟨_, _, _, _, alike⟩ := alike_accepted idle p
        obtain ⟨_, accepted⟩ := stimulate_accepted idle p
        rw [accepted]
        exact (owed_react alike).trans (Bool.or_false _).symm
      · rw [stimulate_busy idle]
        exact (Bool.or_true _).symm
    | answer q => exact (owed_react (secure.alike_answer q)).trans (Bool.or_false _).symm
    | deliver =>
      exact (owed_react b.controller.alike_deliver).trans (congrArg _ (Bool.or_false _).symm)
    | unblock =>
      exact (owed_react b.controller.alike_unblock).trans (congrArg _ (Bool.or_false _).symm)
  | enter => exact (Bool.or_false _).symm
  | pop =>
    obtain ⟨same, _, popped⟩ := b.stimulate_popped
    rw [same, popped]
    exact (Bool.or_false _).symm

/-- A release that succeeds enters the retry that is owed, at the present tick, and nothing else. -/
theorem freed_stimulate {s : Stimulus} (frees : (b.stimulate s).2.frees = true) :
    (b.stimulate s).1.agenda = if b.controller.retryOwed = true then
      b.agenda.schedule b.agenda.now .retry else b.agenda := by
  cases s with
  | call call =>
    cases call with
    | request | answer => cases frees
    | deliver => exact freed_react b.controller.alike_deliver frees
    | unblock => exact freed_react b.controller.alike_unblock frees
  | enter => cases frees
  | pop =>
    obtain ⟨_, _, popped⟩ := b.stimulate_popped
    rw [popped] at frees
    cases frees

/-- Whatever else is done, no retry is entered. -/
theorem held_stimulate (secure : b.controller.Secure) {s : Stimulus}
    (held : (b.stimulate s).2.frees = false) (pop : s ≠ .pop) :
    (b.stimulate s).1.agenda.retries = b.agenda.retries := by
  cases s with
  | call call =>
    cases call with
    | request p =>
      by_cases idle : b.controller.status = .idle
      · obtain ⟨_, _, _, _, alike⟩ := alike_accepted idle p
        exact held_react alike rfl
      · rw [stimulate_busy idle]
    | answer q => exact held_react (secure.alike_answer q) rfl
    | deliver => exact held_react b.controller.alike_deliver held
    | unblock => exact held_react b.controller.alike_unblock held
  | enter tick event other => exact (retries_schedule ..).trans (if_neg other)
  | pop => exact (pop rfl).elim

/-- What comes back is the packet that was offered. -/
theorem returned_stimulate {s : Stimulus} {q : Packet} (away : (b.stimulate s).2.turnedAway = some q) :
    s = .call (.request q) := by
  cases s with
  | call call =>
    cases call with
    | request p =>
      by_cases idle : b.controller.status = .idle
      · obtain ⟨_, accepted⟩ := stimulate_accepted idle p
        rw [accepted] at away
        cases away
      · rw [stimulate_busy idle] at away
        cases away
        rfl
    | answer | deliver | unblock => cases away
  | enter => cases away
  | pop =>
    obtain ⟨_, _, popped⟩ := b.stimulate_popped
    rw [popped] at away
    cases away

/-- Whether a retry is owed is known at every point from the episodes before it. -/
theorem settles (earlier : List Episode) (secure : b.controller.Secure) {past later : List Episode}
    {x : Episode} {stimuli : List Stimulus} (owed : b.controller.retryOwed = Episode.owed earlier)
    (run : b.episodes stimuli = past ++ x :: later) : x.Settles (earlier ++ past) := by
  induction stimuli generalizing b earlier past with
  | nil => cases past <;> cases run
  | cons s rest ih =>
    cases past with
    | nil =>
      obtain ⟨rfl, _⟩ := List.cons.inj run
      rw [List.append_nil]
      exact ⟨fun frees => by rw [← owed]; exact freed_stimulate frees, held_stimulate secure,
        returned_stimulate⟩
    | cons y past =>
      obtain ⟨rfl, onwards⟩ := List.cons.inj run
      have next : (b.stimulate s).1.controller.retryOwed = Episode.owed (earlier ++ [b.episode s]) := by
        rw [Episode.owed_append, ← owed]
        exact owed_stimulate secure s
      have settled := ih _ (secure_stimulate secure s) next onwards
      rwa [List.append_assoc, List.singleton_append] at settled

/-- Two benches that agree go on to agree, the second one being left out of what does not stay. -/
theorem Agrees.run (h : b.Agrees t) (secure : b.controller.Secure) (stimuli : List Stimulus) :
    List.Forall₂ Episode.Matches (b.kept stimuli)
        (t.episodes ((b.kept stimuli).map Episode.stimulus)) ∧
      (b.afterAll stimuli).Agrees (t.afterAll ((b.kept stimuli).map Episode.stimulus)) := by
  induction stimuli generalizing b t with
  | nil => exact ⟨.nil, h⟩
  | cons s rest ih =>
    have next := secure_stimulate secure s
    cases stays : (b.stimulate s).2.stays with
    | false =>
      have gone : b.kept (s :: rest) = (b.stimulate s).1.kept rest :=
        List.filter_cons_of_neg (by simp [episode, stays])
      rw [gone]
      exact ih (h.stutter stays) next
    | true =>
      have here : b.kept (s :: rest) = b.episode s :: (b.stimulate s).1.kept rest :=
        List.filter_cons_of_pos stays
      rw [here]
      obtain ⟨agrees, same⟩ := h.stimulate secure stays
      obtain ⟨each, final⟩ := ih agrees next
      exact ⟨.cons ⟨rfl, same, agrees⟩ each, final⟩

/-- A release that succeeds enters one retry, at the present tick, exactly if a request was turned away
since the release before it; nothing else enters a retry, and a request that is turned away comes back
as it was. Where these requests are not offered in the first place, and the retries are not there to be
taken off, every episode that remains has the same outcome, and leaves the same behind: the same lines,
the same miss and response, the same packets for memory, and the same other events at the same ticks and
in the same order. -/
theorem rejections_leave_one_retry {config : CacheConfig} {policy : Policy} {b : Bench}
    (stimuli : List Stimulus) (assembled : ofConfig config policy = .ok b.controller)
    (nothing : b.agenda.retries = []) :
    (∀ past x later, b.episodes stimuli = past ++ x :: later → x.Settles past) ∧
      List.Forall₂ Episode.Matches (b.kept stimuli)
        (b.episodes ((b.kept stimuli).map Episode.stimulus)) ∧
      (b.afterAll stimuli).Agrees (b.afterAll ((b.kept stimuli).map Episode.stimulus)) := by
  have secure := Secure.of_config assembled
  obtain ⟨_, _, _, new⟩ := Simulation.controller_of_config assembled
  have owed : b.controller.retryOwed = false := by rw [new]
  have quiet : b.quieted b.agenda = b := by rw [quieted, Controller.quiet, ← owed]
  have alone : b.Agrees b := by
    have agrees := Agrees.intro (Pruned.of_nothing nothing)
    rwa [quiet] at agrees
  exact ⟨fun _ _ _ run => settles [] secure owed run, alone.run secure stimuli⟩

/-- Two requests are turned away during a miss, whose fetched block finds no way to go to. -/
theorem rejections_leave_one_retry_erratic : ∃ (b : Bench) (stimuli : List Stimulus),
    (b.episodes stimuli).countP (fun x => x.outcome.turnedAway.isSome) = 2 ∧
      ((b.afterAll stimuli).stimulate (.call .unblock)).1.agenda =
        (b.afterAll stimuli).agenda.schedule (b.afterAll stimuli).agenda.now .retry ∧
      (b.kept (stimuli ++ [.call .unblock])).length = 3 ∧
      (b.afterAll (stimuli ++ [.call .unblock])).Agrees
        (b.afterAll ((b.kept (stimuli ++ [.call .unblock])).map Episode.stimulus)) := by
  let b : Bench := { controller := erratic }
  let stimuli : List Stimulus := [.call (.request unruly.write), .call (.request unruly.read),
    .call (.request unruly.read), .call (.answer (.blockRead ⟨0⟩))]
  have nothing : b.agenda.retries = [] := by
    rw [retries, order_eq_nil_iff.mpr rfl]
    rfl
  obtain ⟨settles, _, final⟩ :=
    rejections_leave_one_retry (stimuli ++ [.call .unblock]) erratic_eq nothing
  have freed := (settles (b.episodes stimuli) ((b.afterAll stimuli).episode (.call .unblock)) [] rfl).freed
    (by rfl)
  rw [if_pos (by rfl)] at freed
  exact ⟨b, stimuli, by rfl, freed, by rfl, final⟩

end Bench

end WritebackCache
