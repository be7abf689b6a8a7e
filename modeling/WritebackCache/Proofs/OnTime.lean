import WritebackCache.Proofs.Schedule

/-! A whole run on the timeline. A move goes on with the service of a request, begins it, or ends it, and
records of it what the timeline has. So a run that has come to its end has served the requests of its
trace one after the other, each accepted and finished at the ticks of the timeline, has had memory do
what the timeline has it do at the ticks it has for that, and has turned away the offers that the
timeline has come too early. -/

namespace WritebackCache

namespace Simulation

variable {σ : Type} [LatencyModel σ]

/-- What a move does about the requests, and what it records of it. -/
inductive Keeps (t : Timeline σ) (past : List Service) (s u : Simulation σ) :
    Option Packet → List Packet → Option Acceptance → Prop
  | goesOn {p left} (course : Course t past u (some p) left) (ending : s.ending? = none)
      (completions : u.requester.completions = s.requester.completions) :
      Keeps t past s u (some p) left none
  | begins {p left} (course : Course t past u (some p) left) (ending : s.ending? = none)
      (completions : u.requester.completions = s.requester.completions) :
      Keeps t past s u none (p :: left) (some (t.service p).acceptance)
  | passes {p left} (at_rest : Resting (t.next p) (past ++ [t.service p]) left u)
      (ending : s.ending? = some (t.service p).finished) (quiet : p.needsResponse = false)
      (completions : u.requester.completions = s.requester.completions) :
      Keeps t past s u none (p :: left) (some (t.service p).acceptance)
  | ends {p left} (at_rest : Resting (t.next p) (past ++ [t.service p]) left u)
      (ending : s.ending? = some (t.service p).finished)
      (completions : u.requester.completions.map Completion.mark =
        s.requester.completions.map Completion.mark ++
          if p.needsResponse then [(t.service p).mark] else []) :
      Keeps t past s u (some p) left none

section

variable {t : Timeline σ} {past : List Service} {p : Packet} {left : List Packet}
  {s u : Simulation σ} {a : Option Acceptance}

theorem Paced.move (h : Paced t s) (m : s.Move a u) : Paced t u := by
  cases m <;> exact ⟨h.latency, h.gap, h.policy⟩

/-- A request that is taken up is the first of those left. -/
theorem Resting.begins {k : Tick} {ev : Event} {rest : Agenda} {r : Requester} {lookup : Lookup}
    (h : Resting t past left s) (pop : s.agenda.pop = some (k, ev, rest))
    (offer : ev.isOffer = true) (next : s.requester.next = some (p, r))
    (label : s.acceptance? = some ⟨k, p, lookup⟩) (hk : k = t.now)
    (hlookup : t.lists.lookup p = lookup) (stays : lookup ≠ .bypass)
    (course : Course t past u (some p) r.queue) (same : u.requester.completions = r.completions) :
    Keeps t past s u none left (some ⟨k, p, lookup⟩) := by
  obtain ⟨hleft, _⟩ := h.accepted next
  obtain ⟨_, _, _, _, _, hcompletions⟩ := Requester.next_some next
  have hending := ending?_of_offer pop offer
  rw [label, if_neg (by simpa using stays)] at hending
  subst hk hleft hlookup
  exact .begins course hending (same.trans hcompletions)

/-- A move between two requests accepts the next one. -/
theorem Resting.keeps (h : Resting t past left s) (hs : s.Sound) (paced : Paced t s)
    (m : s.Move a u) (label : s.acceptance? = a) : Keeps t past s u none left a := by
  cases m with
  | wake pop _ next => exact (h.next_ne_none hs pop next).elim
  | refuse _ _ _ busy => exact (busy h.idle).elim
  | deliver pop | release pop | fill pop | evict pop | acknowledge pop =>
    obtain ⟨_, offer, _⟩ := h.pop pop
    cases offer
  | bypass pop offer next _ kind counted =>
    have request := hs.isRequest next
    obtain ⟨hleft, _⟩ := h.accepted next
    obtain ⟨_, _, _, _, _, hcompletions⟩ := Requester.next_some next
    obtain ⟨hk, hlookup, after⟩ := h.bypass paced pop next request kind counted
    have hending := ending?_of_offer pop offer
    rw [label] at hending
    subst hk hleft
    rw [← hlookup]
    refine .passes after ?_ (Packet.needsResponse_of_other request kind) hcompletions
    rw [hending, Timeline.finished_of_other kind]
    rfl
  | hit pop offer next _ kind found counted =>
    obtain ⟨hk, hlookup, course⟩ := h.hit hs paced pop next kind found counted
    exact h.begins pop offer next label hk hlookup (by simp) course rfl
  | miss pop offer next _ kind absent fetched counted =>
    obtain ⟨hk, hlookup, course⟩ := h.miss hs paced pop next kind absent fetched counted
    exact h.begins pop offer next label hk hlookup (by simp) course rfl

/-- A move while a request is served goes on with it or ends it. -/
theorem Course.keeps (c : Course t past s (some p) left) (hs : s.Sound) (paced : Paced t s)
    (m : s.Move a u) (label : s.acceptance? = a) : Keeps t past s u (some p) left a := by
  obtain ⟨_, _, _, h⟩ := c.serving
  cases m with
  | wake pop offer next => exact (h.next_ne_none pop offer next).elim
  | bypass _ _ _ idle | hit _ _ _ idle | miss _ _ _ idle => exact (h.busy idle).elim
  | refuse pop offer next _ counted =>
    obtain ⟨_, _, _, _, _, hcompletions⟩ := Requester.next_some next
    have hending := ending?_of_offer pop offer
    rw [label] at hending
    exact .goesOn (c.refuse pop offer next counted) hending hcompletions
  | fill pop miss clean =>
    exact .goesOn (c.fill hs paced pop miss clean) (ending?_of_answer pop) rfl
  | evict pop miss line dirty sent =>
    exact .goesOn (c.evict hs paced pop miss line dirty sent) (ending?_of_answer pop) rfl
  | acknowledge pop miss =>
    exact .goesOn (c.acknowledge hs paced pop miss) (ending?_of_answer pop) rfl
  | deliver pop queued =>
    obtain ⟨hn, rfl, hmark, after⟩ := c.deliver paced pop queued
    refine .ends after (ending?_of_due pop (.inl rfl)) ?_
    rw [if_pos hn, ← hmark, Requester.receive, List.map_append]
    rfl
  | release pop =>
    obtain ⟨posted, rfl, after⟩ := c.release pop
    refine .ends after (ending?_of_due pop (.inr rfl)) ?_
    rw [posted]
    exact (List.append_nil _).symm

end

/-! ## Runs -/

/-- The ticks at which the requests of a run are finished, in order. -/
def endings (s : Simulation σ) : List Tick := observed ending? (s.work + 1) s

/-- The machine has come to `t` on the timeline that starts with `start` and serves `requests`: what was
recorded up to now is what the timeline has for the services of `past`, and the rest is to come. -/
structure OnTime (start : Timeline σ) (requests : List Packet) (t : Timeline σ)
    (past : List Service) (current : Option Packet) (left : List Packet) (log : List Acceptance)
    (ends : List Tick) (s : Simulation σ) : Prop where
  course : Course t past s current left
  paced : Paced t s
  gap : t.gap = start.gap
  services : start.services requests = past ++ t.services (current.toList ++ left)
  log : log = past.map Service.acceptance ++ (current.map t.service).toList.map Service.acceptance
  ends : ends = past.map Service.finished
  completions : s.requester.completions.map Completion.mark =
    (past.filter (·.packet.needsResponse)).map Service.mark

section

variable {start t : Timeline σ} {requests : List Packet} {past : List Service}
  {current : Option Packet} {left : List Packet} {log : List Acceptance} {ends : List Tick}
  {s u : Simulation σ} {a : Option Acceptance}

/-- A service done joins those that are past. -/
theorem OnTime.done {p : Packet} {others : List Packet}
    (on : OnTime start requests t past current left log ends s) (pace : Paced t u)
    (todo : current.toList ++ left = p :: others)
    (at_rest : Resting (t.next p) (past ++ [t.service p]) others u)
    (received : u.requester.completions.map Completion.mark =
      s.requester.completions.map Completion.mark ++
        if p.needsResponse then [(t.service p).mark] else [])
    (recorded : (current.map t.service).toList.map Service.acceptance ++ a.toList =
      [(t.service p).acceptance]) :
    OnTime start requests (t.next p) (past ++ [t.service p]) none others (log ++ a.toList)
      (ends ++ [(t.service p).finished]) u := by
  refine ⟨.resting at_rest, ⟨pace.latency, pace.gap, pace.policy⟩, on.gap, ?_, ?_, ?_, ?_⟩
  · rw [on.services, todo, List.append_assoc]
    rfl
  · rw [on.log, List.append_assoc, recorded, List.map_append]
    exact (List.append_nil _).symm
  · rw [on.ends, List.map_append]
    rfl
  · rw [received, on.completions, List.filter_append, List.map_append, List.filter_singleton]
    congr 1
    show _ = List.map _ (bif p.needsResponse then _ else _)
    cases p.needsResponse <;> rfl

/-- Every move keeps the machine on time. -/
theorem OnTime.move (on : OnTime start requests t past current left log ends s) (hs : s.Sound)
    (m : s.Move a u) (label : s.acceptance? = a) : ∃ t' past' current' left',
      OnTime start requests t' past' current' left' (log ++ a.toList) (ends ++ s.ending?.toList) u := by
  have pace := on.paced.move m
  have keeps : Keeps t past s u current left a := by
    have course := on.course
    cases current with
    | none => cases course with | resting at_rest => exact at_rest.keeps hs on.paced m label
    | some p => exact course.keeps hs on.paced m label
  cases keeps with
  | goesOn course ending same =>
    rw [ending, Option.toList_none, Option.toList_none, List.append_nil, List.append_nil]
    exact ⟨t, past, _, left, course, pace, on.gap, on.services, on.log, on.ends,
      same ▸ on.completions⟩
  | @begins p others course ending same =>
    rw [ending, Option.toList_none, List.append_nil]
    refine ⟨t, past, some p, others, course, pace, on.gap, on.services, ?_, on.ends,
      same ▸ on.completions⟩
    rw [on.log, Option.map_none, Option.toList_none, List.map_nil, List.append_nil]
    rfl
  | passes at_rest ending quiet same =>
    rw [ending]
    refine ⟨_, _, none, _, on.done pace rfl at_rest ?_ rfl⟩
    rw [same, quiet]
    exact (List.append_nil _).symm
  | ends at_rest ending received =>
    rw [ending]
    exact ⟨_, _, none, _, on.done pace rfl at_rest received rfl⟩

/-- And so does every number of steps that return. -/
theorem OnTime.advance {fuel : Nat} (on : OnTime start requests t past current left log ends s)
    (hs : s.Sound) (h : advance fuel s = (u, .ok ())) : ∃ t' past' current' left',
      OnTime start requests t' past' current' left' (log ++ observed acceptance? fuel s)
        (ends ++ observed ending? fuel s) u := by
  -- on the steps left: a move changes the place on the timeline and all that was recorded
  induction fuel generalizing s t past current left log ends with
  | zero =>
    cases h
    rw [observed, observed, List.append_nil, List.append_nil]
    exact ⟨t, past, current, left, on⟩
  | succ fuel ih =>
    cases hstep : s.step with
    | mk after r =>
    simp only [Simulation.advance, observed, hstep] at h ⊢
    rcases outcome_of_step hs hstep with ⟨rfl, rfl, _⟩ | ⟨rfl, m⟩ | ⟨f, rfl, _⟩
    · cases h
      rw [List.append_nil, List.append_nil]
      exact ⟨t, past, current, left, on⟩
    · obtain ⟨t', past', current', left', on'⟩ := on.move hs m rfl
      rw [← List.append_assoc, ← List.append_assoc]
      exact ih on' (hs.move m) h
    · cases h

/-- Once no event is left the whole timeline is past. -/
theorem OnTime.finished (on : OnTime start requests t past current left log ends s) (hs : s.Sound)
    (he : s.agenda.isEmpty = true) : current = none ∧ left = [] ∧ past = start.services requests ∧
      Resting t past [] s := by
  obtain ⟨idle, _, _, _, hleft⟩ := hs.finished he
  obtain ⟨course, _, _, services, _⟩ := on
  cases current with
  | some p =>
    obtain ⟨_, _, _, h⟩ := course.serving
    exact (h.busy idle).elim
  | none =>
    cases course with
    | resting at_rest =>
      rw [at_rest.remaining] at hleft
      subst hleft
      exact ⟨rfl, rfl, by rw [services]; exact (List.append_nil _).symm, at_rest⟩

end

/-- A machine of fresh parts is at the beginning of its timeline. -/
theorem Fresh.onTime {config : Config} {trace : Trace} {s : Simulation σ}
    (fresh : Fresh config.cache Replacement.lru trace s) (ready : s.memory.readyAt = 0)
    (log : s.memory.log = []) (gap : s.issueGap = config.requester.issueGap)
    (nonempty : trace.requests ≠ []) :
    OnTime (.ofConfig config s.memory.timing) trace.requests (.ofConfig config s.memory.timing) []
      none trace.requests [] [] s := by
  have hc := fresh.controller_eq
  refine ⟨.resting ⟨?_, ?_, fresh.refines.mirrors, rfl, ?_, ?_, log, ?_, ?_⟩, ⟨?_, gap, ?_⟩, rfl, rfl,
    rfl, rfl, ?_⟩
  · rw [hc]
  · rw [fresh.requester_eq]
    rfl
  · rw [ready]
    exact Nat.le_refl _
  · rw [Agenda.Awaits, if_neg nonempty]
    exact ⟨.issue, rfl, fresh.order_eq⟩
  · rw [fresh.stats_eq, if_neg nonempty]
    rfl
  · intro e he
    cases he
  · rw [hc]
    rfl
  · rw [hc]
  · rw [fresh.requester_eq]
    rfl

/-- In a run of the machine with least recently used replacement every request of the trace is accepted
and finished at the ticks of the timeline, the response of each is received when it is finished, memory
is made to do what the timeline has it do at the ticks it has for that and never two things at a time,
and the offers turned away are those that follow a posted write too early. The run returns if latencies
fit into a word and the requests into the counters. -/
theorem run_follows_timeline {config : Config} {trace : Trace} {s : Simulation Timing}
    (assembled : ofConfig config trace = .ok s) (requests : ∀ p ∈ trace.requests, p.IsRequest)
    (nonempty : trace.requests ≠ []) : ∃ timing served,
      Timing.ofConfig config.memory = .ok timing ∧
      (Timeline.ofConfig config timing).services trace.requests = served ∧
      (∀ u stats, s.run = (u, .ok stats) →
        s.trail = served.map Service.acceptance ∧
        s.endings = served.map Service.finished ∧
        u.requester.completions.map Completion.mark =
          (served.filter (·.packet.needsResponse)).map Service.mark ∧
        u.memory.log = served.flatMap Service.accesses ∧
        u.memory.log.Pairwise (fun m n => m.completed.toNat ≤ n.issued.toNat) ∧
        stats.retries.toNat = served.dropLast.countP (Service.late config.requester.issueGap) ∧
        served.getLast?.map Service.finished = some stats.ticks) ∧
      (config.memory.Steady → 2 * trace.requests.length + 2 < UInt64.size →
        ∃ u stats, s.run = (u, .ok stats)) := by
  obtain ⟨_, hwith⟩ := ofConfigWith_lru assembled
  obtain ⟨fresh, htiming, ready, log, gap⟩ := Fresh.of_configWith hwith
  have hs := fresh.sound requests fresh.lru_inRange
  refine ⟨_, _, htiming, rfl, ?_, returns_of_configWith hwith requests fresh.lru_inRange .start⟩
  intro u stats h
  obtain ⟨v, hadvance, hempty, rfl, hstats⟩ := advance_of_run h
  obtain ⟨t, past, current, left, on⟩ := (fresh.onTime ready log gap nonempty).advance hs hadvance
  obtain ⟨rfl, rfl, rfl, at_rest⟩ := on.finished (hs.run (Run.start.advance hadvance)) hempty
  have htrail := on.log
  refine ⟨?_, on.ends, on.completions, at_rest.log, ?_, ?_, ?_⟩
  · rw [Option.map_none, Option.toList_none, List.map_nil, List.append_nil] at htrail
    exact htrail
  · rw [show v.memory.log = _ from at_rest.log]
    exact Timeline.pairwise_accesses _ _
  · have hretries := at_rest.retries
    rw [if_pos rfl, on.gap] at hretries
    rw [hstats]
    exact hretries
  · cases hlast : ((Timeline.ofConfig config s.memory.timing).services trace.requests).getLast? with
    | none =>
      obtain ⟨p, rest, hcons⟩ := List.exists_cons_of_ne_nil nonempty
      rw [hcons, List.getLast?_eq_none_iff] at hlast
      cases hlast
    | some e =>
      rw [hstats]
      exact congrArg some (at_rest.ticks e hlast).symm

/-- One line and a memory that takes no time: two posted writes, the first a miss and the second a hit,
that are both done at the very tick at which the request after them is offered. -/
def tie : Simulation Timing :=
  ofParts { grid := .oneSet 1 Nat.one_pos, policy := Replacement.lru, latency := 1 }
    (.empty (.fixed 0)) { queue := requests } 1
where
  requests : List Packet :=
    [.byte ⟨0⟩ .write 7 false, .byte ⟨0⟩ .write 8 false, .other ⟨0⟩]

theorem run_follows_timeline_tie : ∃ u stats, tie.run = (u, .ok stats) ∧
    tie.trail.map (·.tick) = [0, 1, 2] ∧ tie.endings = [1, 2, 2] ∧
    u.memory.log = [⟨.fetch, ⟨0⟩, 0, 0⟩] ∧ stats.retries.toNat = 1 ∧ stats.ticks = 2 := by
  have hassembled : ofConfig { cache := { sizeBytes := 64, ways := 1 }, memory := { latency := 0 } }
      { requests := tie.requests } = .ok tie := by rfl
  have hrequests : ∀ p ∈ tie.requests, p.IsRequest := by
    simp only [tie.requests, List.forall_mem_cons]
    refine ⟨?_, ?_, .other, fun _ h => by cases h⟩
    · exact @Packet.IsRequest.postedWrite ⟨0⟩ [7] _ rfl
    · exact @Packet.IsRequest.postedWrite ⟨0⟩ [8] _ rfl
  obtain ⟨_, _, htiming, rfl, hruns, hreturns⟩ :=
    run_follows_timeline hassembled hrequests (by simp [tie.requests])
  cases htiming
  obtain ⟨u, stats, h⟩ := hreturns (fun hd => by cases hd) (by decide)
  obtain ⟨htrail, hendings, _, hlog, _, hretries, hticks⟩ := hruns u stats h
  refine ⟨u, stats, h, ?_, hendings.trans (by decide), hlog.trans (by decide),
    hretries.trans (by decide), ?_⟩
  · rw [htrail]
    decide
  · exact Option.some.inj (hticks.symm.trans (by decide))

/-- A retry is made although no posted write is done after the offer that follows it. -/
theorem retry_without_delay : ofConfig
      { cache := { sizeBytes := 64, ways := 1 }, memory := { latency := 0 } }
      { requests := tie.requests } = .ok tie ∧
    (tie.trail.map (·.tick) = [0, 1, 2] ∧ tie.endings = [1, 2, 2] ∧
      (tie.trail.zip tie.endings).dropLast.countP (fun x =>
        x.1.packet.isWrite && !x.1.packet.needsResponse &&
          decide ((Word.saturatingAdd x.1.tick tie.issueGap).toNat < x.2.toNat)) = 0) ∧
    ∃ u stats, tie.run = (u, .ok stats) ∧ stats.retries = 1 := by
  refine ⟨rfl, ⟨by rfl, by rfl, by rfl⟩, ?_⟩
  exact ⟨_, _, rfl, rfl⟩

end Simulation

end WritebackCache
