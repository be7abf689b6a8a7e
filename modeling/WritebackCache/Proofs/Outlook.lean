import WritebackCache.Proofs.Coherence

/-! A controller in any surroundings. Of the world around it three things matter: the contents of memory
once everything sent to memory was served, the answers that memory then owes, and the events entered.
How long memory takes does not matter, since nothing else is sent meanwhile: a writeback on its way
counts as done. In every such world each call of the controller succeeds and keeps it faithful to a flat
memory. A request takes effect there when it is accepted if it hits, and when its block is filled in
if it misses, which in either case is before the next request is accepted. -/

namespace WritebackCache

/-- What is in store for a controller. -/
structure Outlook where
  /-- The contents of memory once everything sent to it was served. -/
  memory : SparseMemory
  /-- The answers that memory owes. -/
  answers : List Packet
  /-- The events entered, offers aside. -/
  events : List Event

namespace Outlook

/-- Nothing is to come. -/
def calm (m : SparseMemory) : Outlook := ⟨m, [], []⟩

def due (o : Outlook) : List Event := o.events ++ o.answers.map .memoryResponse

/-- The outlook once an action is performed. -/
def after (o : Outlook) : Option Action → Outlook
  | none => o
  | some (.send p) =>
    { o with memory := (o.memory.serve p).1, answers := o.answers ++ [(o.memory.serve p).2] }
  | some (.schedule _ event) =>
    if event.isOffer then o else { o with events := o.events ++ [event] }

theorem eq_calm {o : Outlook} (h : o.due = []) : o = calm o.memory := by
  obtain ⟨he, ha⟩ := List.append_eq_nil_iff.mp h
  obtain ⟨m, answers, events⟩ := o
  rw [show events = [] from he, show answers = [] from List.map_eq_nil_iff.mp ha]
  rfl

theorem after_ending (m : SparseMemory) (c : Controller) (p : Packet) :
    (calm m).after (some (c.ending p)) = ⟨m, [], [p.ended]⟩ := by
  simp only [Controller.ending, after, p.ended_not_offer, Bool.false_eq_true, if_false]
  rfl

theorem after_blockRead {m : SparseMemory} {b : BlockNumber} (h : b.InSpace) :
    (calm m).after (some (.send (.blockRead b))) =
      ⟨m, [((Packet.blockRead b).filledFrom (m.readBlock b)).asResponse], []⟩ := by
  show Outlook.mk m [((Packet.blockRead b).filledFrom
    (m.readBlock (Packet.blockRead b).block)).asResponse] [] = _
  rw [Packet.block_blockRead h]

theorem after_blockWrite {m : SparseMemory} {b : BlockNumber} (h : b.InSpace) (data : Block) :
    (calm m).after (some (.send (.blockWrite b data))) =
      ⟨m.writeBlock b data, [(Packet.blockWrite b data).asResponse], []⟩ := by
  show Outlook.mk (m.writeBlock (Packet.blockWrite b data).block (Packet.blockWrite b data).blockData)
    _ _ = _
  rw [Packet.block_blockWrite h, Packet.blockData_blockWrite]
  rfl

/-- A retry is an offer: it is not something that the controller waits for. -/
theorem after_retry (o : Outlook) (owed : Bool) :
    o.after (if owed then some (.schedule 0 .retry) else none) = o := by
  cases owed <;> rfl

end Outlook

/-- The packets that an offer takes from whoever made it. -/
def Offer.taken (p : Packet) : Offer → List Packet
  | .accepted _ => [p]
  | .busy _ => []

namespace Controller

/-- What the grid shows over memory, and what was delivered or waits to be, is what a flat memory makes of
the requests accepted, one by one in their order; that of an outstanding miss has yet to take effect. -/
structure Faithful (f : FlatMemory) (accepted delivered : List Packet) (c : Controller) (o : Outlook) :
    Prop where
  grid : c.grid.Sound
  policy : c.policy.InRange c.grid.ways
  phase : Phase c o.memory o.due
  /-- The answers of memory do not come as events. -/
  own : ∀ q, .memoryResponse q ∉ o.events
  missing : ∀ x, c.miss = some x → x.request.kind ≠ .other
  linear : ∃ served, accepted = served ++ (c.miss.map Miss.request).toList ∧
    c.grid.Shows o.memory (f.after served) ∧ delivered ++ c.response.toList = f.responses served
  /-- A response that waits is owed to the request accepted last. -/
  last : c.response.isSome = true → ∃ earlier p, accepted = earlier ++ [p] ∧ p.needsResponse = true

variable {f : FlatMemory} {accepted delivered : List Packet} {c : Controller} {o : Outlook}
  {m : SparseMemory} {p q : Packet}

namespace Faithful

/-- With nothing outstanding every request accepted has taken effect and was answered. -/
theorem settled (h : Faithful f accepted delivered c o) (miss : c.miss = none)
    (response : c.response = none) :
    c.grid.Shows o.memory (f.after accepted) ∧ delivered = f.responses accepted := by
  obtain ⟨served, rfl, shows, answers⟩ := h.linear
  rw [miss, Option.map_none, Option.toList_none, List.append_nil]
  rw [response, Option.toList_none, List.append_nil] at answers
  exact ⟨shows, answers⟩

/-- All but the request of an outstanding miss have taken effect and were answered. -/
theorem pending {stage : Stage} (h : Faithful f accepted delivered c o) (miss : c.miss = some ⟨p, stage⟩)
    (response : c.response = none) : ∃ served, accepted = served ++ [p] ∧
      c.grid.Shows o.memory (f.after served) ∧ delivered = f.responses served := by
  obtain ⟨served, rfl, shows, answers⟩ := h.linear
  rw [response, Option.toList_none, List.append_nil] at answers
  exact ⟨served, by rw [miss]; rfl, shows, answers⟩

/-- A request takes effect on a line that has the contents of its block, and its end is entered. -/
theorem finish {served : List Packet} {way : Nat} {l : Line} {status : Status}
    (hs : status = .hitPending ∨ status = .unblockPending) (miss : c.miss = none)
    (response : c.response = none) (kind : p.kind ≠ .other)
    (policy : c.policy.InRange c.grid.ways)
    (grid : (c.grid.use (c.grid.setOf p.block) way (l.served p)).Sound)
    (shows : (c.grid.use (c.grid.setOf p.block) way (l.served p)).Shows m ((f.after served).apply p))
    (hd : l.data = (f.after served).block p.block) (answers : delivered = f.responses served) :
    Faithful f (served ++ [p]) delivered (c.finish p way (l.served p) status) ⟨m, [], [p.ended]⟩ where
  grid := grid
  policy := policy
  phase := .finish p way _ hs miss response
  own := by
    intro q hq
    rcases p.deliver_or_unblock with ⟨_, h⟩ | ⟨_, h⟩ <;> simp [h] at hq
  missing := by
    intro x hx
    rw [miss_finish, miss] at hx
    cases hx
  linear := by
    refine ⟨served ++ [p], by rw [miss_finish, miss]; simp, ?_, ?_⟩
    · rw [FlatMemory.after_append]
      exact shows
    · rw [FlatMemory.responses_append, response_finish,
        toList_reply kind response (Line.data_served hd), answers]
  last := by
    intro hr
    rw [response_finish, reply, response] at hr
    cases hn : p.needsResponse
    · rw [hn] at hr; cases hr
    · exact ⟨served, p, rfl, hn⟩

/-- The block of a miss is filled into a way whose line is in memory as it is. -/
theorem fill {way : Nat} {fetched : Block} {stage : Stage} {next : Controller}
    (h : Faithful f accepted delivered c o) (miss : c.miss = some ⟨p, stage⟩)
    (response : c.response = none) (absent : c.grid.lookup p.block = none) (inSet : way < c.grid.ways)
    (read : fetched = o.memory.readBlock p.block)
    (hold : ∀ b, (c.grid.cell (c.grid.setOf p.block) way).holds b = true →
      (c.grid.cell (c.grid.setOf p.block) way).data = o.memory.readBlock b)
    (grid : next.grid = c.grid) (policy : next.policy = c.policy) (idle : next.miss = none)
    (noResponse : next.response = none) :
    Faithful f accepted delivered (next.finish p way (Line.filled p fetched) .unblockPending)
      ⟨o.memory, [], [p.ended]⟩ := by
  obtain ⟨served, rfl, shows, answers⟩ := h.pending miss response
  obtain ⟨hshows, hd⟩ := shows.fill h.grid absent inSet hold
  subst read
  let l : Line := ⟨true, false, p.block, 0, o.memory.readBlock p.block⟩
  refine finish (l := l) (.inr rfl) idle noResponse (h.missing _ miss) ?_ ?_ ?_ hd answers
  · rw [policy, grid]; exact h.policy
  · rw [grid]; exact h.grid.fill inSet absent _
  · rw [grid]; exact hshows

/-- Every request accepted was answered if it is to be, but for the last one at most. -/
theorem answered (h : Faithful f accepted delivered c o) : delivered = f.responses accepted ∨
    ∃ earlier p, accepted = earlier ++ [p] ∧ p.needsResponse = true ∧
      delivered = f.responses earlier := by
  cases response : c.response with
  | some q =>
    -- the response that waits is the last of the answers, so the others are those to the requests before
    obtain ⟨earlier, p, rfl, hp⟩ := h.last (by rw [response]; rfl)
    obtain ⟨served, haccepted, _, answers⟩ := h.linear
    have miss : c.miss = none := h.phase.one_at_a_time.resolve_right (by rw [response]; simp)
    rw [miss, Option.map_none, Option.toList_none, List.append_nil] at haccepted
    rw [← haccepted, FlatMemory.responses_append, hp, response] at answers
    exact .inr ⟨earlier, p, rfl, hp, List.append_inj_left' answers rfl⟩
  | none =>
    cases miss : c.miss with
    | none => exact .inl (h.settled miss response).2
    | some x =>
      obtain ⟨p, stage⟩ := x
      obtain ⟨served, rfl, _, answers⟩ := h.pending miss response
      cases hp : p.needsResponse with
      | false => exact .inl (by rw [FlatMemory.responses_append, hp, answers]; simp)
      | true => exact .inr ⟨served, p, rfl, hp, answers⟩

/-! ## Calls -/

/-- A free controller drops traffic that is neither read nor write. -/
theorem bypass (h : Faithful f accepted delivered c o) (hp : p.IsRequest) (idle : c.status = .idle)
    (kind : p.kind = .other) : Faithful f (accepted ++ [p]) delivered c o := by
  obtain ⟨_, miss, response, _⟩ := h.phase.of_idle idle
  obtain ⟨shows, answers⟩ := h.settled miss response
  refine { h with linear := ⟨accepted ++ [p], ?_, ?_, ?_⟩, last := fun hr => ?_ }
  · rw [miss]; exact (List.append_nil _).symm
  · have hw : p.isWrite = false := by simp [Packet.isWrite, kind]
    rw [FlatMemory.after_append, FlatMemory.apply, hw]
    exact shows
  · rw [FlatMemory.responses_append, Packet.needsResponse_of_other hp kind, response, answers]
    simp
  · rw [response] at hr; cases hr

/-- A free controller serves a request that hits, and fetches the block of one that misses. -/
theorem accept (h : Faithful f accepted delivered c (.calm m)) (idle : c.status = .idle)
    (kind : p.kind ≠ .other) : ∃ next action lookup, c.request p = .done next action (.accepted lookup) ∧
      Faithful f (accepted ++ [p]) delivered next ((Outlook.calm m).after action) := by
  obtain ⟨_, miss, response, _⟩ := h.phase.of_idle idle
  obtain ⟨shows, answers⟩ := h.settled miss response
  cases found : c.grid.lookup p.block with
  | some way =>
    obtain ⟨hshows, hd⟩ := shows.hit h.grid found
    refine ⟨_, _, _, request_hit idle kind found, ?_⟩
    rw [Outlook.after_ending]
    exact finish (.inl rfl) miss response kind h.policy (h.grid.hit found) hshows hd answers
  | none =>
    refine ⟨_, _, _, request_miss idle kind found, ?_⟩
    rw [Outlook.after_blockRead (b := p.block) p.addr.inSpace_block]
    exact {
      grid := h.grid
      policy := h.policy
      phase := .fetching rfl rfl response found
      own := fun _ hq => by cases hq
      missing := fun x hx => by cases hx; exact kind
      linear := ⟨accepted, rfl, shows, by rw [response, answers]; exact List.append_nil _⟩
      last := fun hr => by rw [response] at hr; cases hr }

/-- A request that is offered is turned away or accepted. -/
theorem request (h : Faithful f accepted delivered c o) (hp : p.IsRequest) :
    ∃ next action offer, c.request p = .done next action offer ∧ (action = none ∨ o.due = []) ∧
      Faithful f (accepted ++ offer.taken p) delivered next (o.after action) := by
  by_cases idle : c.status = .idle
  · by_cases kind : p.kind = .other
    · exact ⟨_, _, _, request_bypass idle kind, .inl rfl, h.bypass hp idle kind⟩
    · have calm := (h.phase.of_idle idle).1
      rw [Outlook.eq_calm calm] at h ⊢
      obtain ⟨next, action, lookup, he, hf⟩ := h.accept idle kind
      exact ⟨next, action, _, he, .inr rfl, hf⟩
  · refine ⟨_, _, _, request_busy p idle, .inl rfl, ?_⟩
    rw [Offer.taken, List.append_nil]
    exact { h with phase := h.phase.owe idle }

/-- The block of a miss is there: it is filled in, or the dirty line in its way is sent to memory. -/
theorem fetched (h : Faithful f accepted delivered c ⟨m, [q], []⟩)
    (miss : c.miss = some ⟨p, .fetching⟩) : ∃ next action, c.answer q = .done next action () ∧
      Faithful f accepted delivered next ((Outlook.calm m).after action) := by
  have phase : Phase c m [.memoryResponse q] := h.phase
  obtain ⟨hdue, _, response, absent⟩ := phase.of_fetching miss
  obtain ⟨served, haccepted, shows, answers⟩ := h.pending miss response
  cases hdue
  have hw := victim_lt h.policy p
  have hcell := Grid.has_setOf hw p.block
  have hblock := Packet.block_blockRead p.addr.inSpace_block
  have hread := Packet.blockData_fetched p.block (m.readBlock p.block)
  cases dirty : (c.grid.cell (c.grid.setOf p.block) (c.victim p)).valid &&
      (c.grid.cell (c.grid.setOf p.block) (c.victim p)).dirty with
  | false =>
    refine ⟨_, _, answer_fill miss rfl hblock hw dirty, ?_⟩
    rw [Outlook.after_ending]
    exact h.fill miss response absent hw hread (fun b hb => shows.in_memory h.grid hw dirty hb)
      rfl rfl rfl response
  | true =>
    obtain ⟨hv, hd⟩ := Bool.and_eq_true_iff.mp dirty
    refine ⟨_, _, answer_evict miss rfl hblock hw rfl dirty, ?_⟩
    rw [Outlook.after_blockWrite (h.grid.inSpace_of_cell hcell rfl hv), hread]
    exact {
      grid := h.grid
      policy := h.policy
      phase := .evict hw rfl dirty response absent
      own := fun _ hq => by cases hq
      missing := fun x hx => by cases hx; exact h.missing ⟨p, .fetching⟩ miss
      linear := ⟨served, haccepted, shows.writeback (h.grid.find_tag hcell hv) hd, by
        show delivered ++ c.response.toList = _
        rw [response, answers]; exact List.append_nil _⟩
      last := h.last }

/-- The answer that memory owes is taken. -/
theorem answer (h : Faithful f accepted delivered c ⟨m, [q], []⟩) :
    ∃ next action, c.answer q = .done next action () ∧
      Faithful f accepted delivered next ((Outlook.calm m).after action) := by
  have phase : Phase c m [.memoryResponse q] := h.phase
  cases phase with
  | fetching _ miss => exact h.fetched miss
  | @writingBack p way victim _ miss response absent inSet held _ written =>
    obtain ⟨hv, ht⟩ := Grid.holds_iff.mp held
    have hspace : victim.InSpace := ht ▸ h.grid.inSpace (Grid.has_setOf inSet p.block) hv
    have hblock := Packet.block_blockWrite hspace (c.grid.cell (c.grid.setOf p.block) way).data
    refine ⟨_, _, answer_acknowledge miss rfl hblock inSet, ?_⟩
    rw [Outlook.after_ending]
    refine h.fill miss response absent inSet rfl ?_ rfl rfl rfl response
    intro b hb
    rw [← written, ← ht, (Grid.holds_iff.mp hb).2]

/-- The response that is due is handed out. -/
theorem deliver (h : Faithful f accepted delivered c ⟨m, [], [.deliver]⟩) :
    ∃ next action q, c.deliver = .done next action q ∧
      Faithful f accepted (delivered ++ [q]) next ((Outlook.calm m).after action) := by
  have phase : Phase c m [.deliver] := h.phase
  cases phase with
  | @delivering q _ miss response =>
    obtain ⟨served, haccepted, shows, answers⟩ := h.linear
    refine ⟨_, _, q, deliver_eq response miss, ?_⟩
    rw [Outlook.after_retry]
    rw [response] at answers
    exact {
      grid := h.grid
      policy := h.policy
      phase := .idle rfl miss rfl rfl
      own := fun _ hq => by cases hq
      missing := h.missing
      linear := ⟨served, haccepted, shows, (List.append_nil _).trans answers⟩
      last := fun hr => by cases hr }

/-- The release that is due sets the controller free. -/
theorem unblock (h : Faithful f accepted delivered c ⟨m, [], [.unblock]⟩) :
    ∃ next action, c.unblock = .done next action () ∧
      Faithful f accepted delivered next ((Outlook.calm m).after action) := by
  have phase : Phase c m [.unblock] := h.phase
  cases phase with
  | releasing _ miss response =>
    refine ⟨_, _, unblock_eq miss, ?_⟩
    rw [Outlook.after_retry]
    exact {
      grid := h.grid
      policy := h.policy
      phase := .idle rfl miss response rfl
      own := fun _ hq => by cases hq
      missing := h.missing
      linear := h.linear
      last := h.last }

end Faithful

end Controller

end WritebackCache
