import Mathlib.Algebra.Ring.Nat
import WritebackCache.Proofs.MemoryPort
import WritebackCache.Proofs.Run

/-! A controller among callers that keep to nothing. Requests are offered at any time, memory is
said to answer what it was never asked, releases come early or twice, and the policy may name a way
that the set does not have; a call that fails is followed by further calls. There are sixteen things
that a call can do, whatever the controller is like. None of them spoils the grid, because lines are
only written while the controller is free or with a miss in hand whose block no line holds; and none
is a fault, except for a release while a miss is outstanding. -/

namespace WritebackCache

/-- A call of the controller, whoever makes it. -/
inductive Call
  | request (p : Packet)
  | answer (p : Packet)
  | deliver
  | unblock

/-- One call, and what became of it. -/
structure Exchange where
  call : Call
  before : Controller
  after : Controller
  action : Option Action
  failure : Option (Failure ProtocolError)

def Reaction.exchange {α : Type} (call : Call) (before : Controller) : Reaction α → Exchange
  | .done next action _ => ⟨call, before, next, action, none⟩
  | .failed next why => ⟨call, before, next, none, some why⟩

namespace Controller

def exchange (c : Controller) (call : Call) : Exchange :=
  match call with
  | .request p => (c.request p).exchange call c
  | .answer p => (c.answer p).exchange call c
  | .deliver => c.deliver.exchange call c
  | .unblock => c.unblock.exchange call c

/-- The controller after some calls, the failed ones among them included. -/
def afterCalls (c : Controller) (calls : List Call) : Controller :=
  calls.foldl (fun c call => (c.exchange call).after) c

/-- What the calls of a sequence come to, one after the other. -/
def exchanges (c : Controller) : List Call → List Exchange
  | [] => []
  | call :: rest => c.exchange call :: (c.exchange call).after.exchanges rest

theorem call_exchange (c : Controller) (call : Call) : (c.exchange call).call = call := by
  have recorded {α : Type} (r : Reaction α) : (r.exchange call c).call = call := by cases r <;> rfl
  cases call <;> exact recorded _

theorem afterCalls_append (c : Controller) (calls : List Call) (call : Call) :
    c.afterCalls (calls ++ [call]) = ((c.afterCalls calls).exchange call).after := by
  simp [afterCalls]

theorem exchanges_append (c : Controller) (calls more : List Call) :
    c.exchanges (calls ++ more) = c.exchanges calls ++ (c.afterCalls calls).exchanges more := by
  induction calls generalizing c with
  | nil => rfl
  | cons call rest ih =>
    rw [List.cons_append, exchanges, exchanges, ih, List.cons_append]
    rfl

/-! ## What a call can do -/

inductive Effect (c : Controller) : Exchange → Prop
  | busy {p} (blocked : c.status ≠ .idle) :
      Effect c ⟨.request p, c, { c with retryOwed := true }, none, none⟩
  | bypass {p} (idle : c.status = .idle) (kind : p.kind = .other) :
      Effect c ⟨.request p, c, c, none, none⟩
  | hit {p way} (idle : c.status = .idle) (kind : p.kind ≠ .other)
      (found : c.grid.lookup p.block = some way) :
      Effect c ⟨.request p, c, c.finish p way
        ((c.grid.cell (c.grid.setOf p.block) way).served p) .hitPending, some (c.ending p), none⟩
  | miss {p} (idle : c.status = .idle) (kind : p.kind ≠ .other) (absent : c.grid.lookup p.block = none) :
      Effect c ⟨.request p, c, { c with miss := some ⟨p, .fetching⟩, status := .awaitFetch },
        some (.send (.blockRead p.block)), none⟩
  /-- An answer comes while no miss is outstanding. -/
  | stray {q} (nothing : c.miss = none) :
      Effect c ⟨.answer q, c, c, none, some (.refused (.unexpectedResponse q.addr))⟩
  | mismatch {p q} (outstanding : c.miss = some ⟨p, .fetching⟩)
      (other : ¬ (q.isRead = true ∧ q.block = p.block)) :
      Effect c ⟨.answer q, c, c.abandon, none,
        some (.refused (.mismatchedResponse p.block q.block))⟩
  /-- The policy names a way outside the set. -/
  | outside {p q} (outstanding : c.miss = some ⟨p, .fetching⟩) (read : q.isRead = true)
      (block : q.block = p.block) (beyond : ¬ c.victim p < c.grid.ways) :
      Effect c ⟨.answer q, c, c.consulted, none,
        some (.refused (.victimOutOfRange (c.victim p) c.grid.ways))⟩
  | fill {p q} (outstanding : c.miss = some ⟨p, .fetching⟩) (read : q.isRead = true)
      (block : q.block = p.block) (inSet : c.victim p < c.grid.ways)
      (clean : ((c.grid.cell (c.grid.setOf p.block) (c.victim p)).valid &&
        (c.grid.cell (c.grid.setOf p.block) (c.victim p)).dirty) = false) :
      Effect c ⟨.answer q, c, c.consulted.finish p (c.victim p) (Line.filled p q.blockData)
        .unblockPending, some (c.ending p), none⟩
  | evict {p q l} (outstanding : c.miss = some ⟨p, .fetching⟩) (read : q.isRead = true)
      (block : q.block = p.block) (inSet : c.victim p < c.grid.ways)
      (line : c.grid.cell (c.grid.setOf p.block) (c.victim p) = l)
      (dirty : (l.valid && l.dirty) = true) :
      Effect c ⟨.answer q, c, { c.consulted with
        miss := some ⟨p, .writingBack (c.victim p) l.tag q.blockData⟩, status := .awaitWriteback },
        some (.send (.blockWrite l.tag l.data)), none⟩
  /-- What should acknowledge a writeback does not. -/
  | unacknowledged {p q way victim fetched}
      (outstanding : c.miss = some ⟨p, .writingBack way victim fetched⟩)
      (other : ¬ (q.isWrite = true ∧ q.block = victim)) :
      Effect c ⟨.answer q, c, c.abandon, none, some (.refused (.unexpectedAck q.addr))⟩
  | acknowledge {p q way victim fetched}
      (outstanding : c.miss = some ⟨p, .writingBack way victim fetched⟩) (write : q.isWrite = true)
      (block : q.block = victim) (inSet : way < c.grid.ways) :
      Effect c ⟨.answer q, c, c.abandon.finish p way (Line.filled p fetched) .unblockPending,
        some (c.ending p), none⟩
  | undelivered (nothing : c.response = none) :
      Effect c ⟨.deliver, c, c, none, some (.refused .noQueuedResponse)⟩
  | deliver {q} (response : c.response = some q) (nothing : c.miss = none) :
      Effect c ⟨.deliver, c, { c with response := none, status := .idle, retryOwed := false },
        if c.retryOwed then some (.schedule 0 .retry) else none, none⟩
  /-- A response that should not be there is lost before the release fails. -/
  | lost {q} (response : c.response = some q) (outstanding : c.miss ≠ none) :
      Effect c ⟨.deliver, c, { c with response := none }, none, some (.fault .missOutstanding)⟩
  | release (nothing : c.miss = none) :
      Effect c ⟨.unblock, c, { c with status := .idle, retryOwed := false },
        if c.retryOwed then some (.schedule 0 .retry) else none, none⟩
  | unreleased (outstanding : c.miss ≠ none) :
      Effect c ⟨.unblock, c, c, none, some (.fault .missOutstanding)⟩

/-- What an outstanding miss waits for. Its block is in no line, and a line that is being written
back is where it was, as it was. -/
inductive Awaits (c : Controller) : Miss → Prop
  | fetch {p} (status : c.status = .awaitFetch) (absent : c.grid.lookup p.block = none) :
      Awaits c ⟨p, .fetching⟩
  | acknowledgement {p way victim fetched} (status : c.status = .awaitWriteback)
      (absent : c.grid.lookup p.block = none) (inSet : way < c.grid.ways)
      (held : (c.grid.cell (c.grid.setOf p.block) way).holds victim = true)
      (dirty : (c.grid.cell (c.grid.setOf p.block) way).dirty = true) :
      Awaits c ⟨p, .writingBack way victim fetched⟩

/-- What no call can spoil. -/
structure Secure (c : Controller) : Prop where
  grid : c.grid.Sound
  awaits : ∀ {x}, c.miss = some x → c.Awaits x

variable {c d : Controller} {x : Exchange}

theorem Awaits.absent {m : Miss} (h : c.Awaits m) : c.grid.lookup m.request.block = none := by
  cases h with
  | fetch _ absent | acknowledgement _ absent => exact absent

theorem Awaits.of_same {m : Miss} (h : c.Awaits m) (status : d.status = c.status)
    (grid : d.grid = c.grid) : d.Awaits m := by
  cases h with
  | fetch hs absent => exact .fetch (status.trans hs) (by rw [grid]; exact absent)
  | acknowledgement hs absent inSet held dirty =>
    exact .acknowledgement (status.trans hs) (by rw [grid]; exact absent) (by rw [grid]; exact inSet)
      (by rw [grid]; exact held) (by rw [grid]; exact dirty)

namespace Secure

/-- A free controller has no miss outstanding. -/
theorem nothing (h : c.Secure) (idle : c.status = .idle) : c.miss = none := by
  cases outstanding : c.miss with
  | none => rfl
  | some m =>
    cases h.awaits outstanding with
    | fetch status | acknowledgement status => rw [idle] at status; cases status

/-- The way of a line that is being written back is one of the set. -/
theorem inSet {p : Packet} {way : Nat} {victim : BlockNumber} {fetched : Block} (h : c.Secure)
    (outstanding : c.miss = some ⟨p, .writingBack way victim fetched⟩) : way < c.grid.ways := by
  cases h.awaits outstanding with
  | acknowledgement _ _ inSet => exact inSet

/-- Every call does one of the sixteen things. -/
theorem effect (h : c.Secure) (call : Call) : c.Effect (c.exchange call) := by
  cases call with
  | request p =>
    show c.Effect ((c.request p).exchange _ c)
    by_cases idle : c.status = .idle
    · by_cases kind : p.kind = .other
      · rw [request_bypass idle kind]
        exact .bypass idle kind
      · cases found : c.grid.lookup p.block with
        | some way =>
          rw [request_hit idle kind found]
          exact .hit idle kind found
        | none =>
          rw [request_miss idle kind found]
          exact .miss idle kind found
    · rw [request_busy p idle]
      exact .busy idle
  | answer q =>
    show c.Effect ((c.answer q).exchange _ c)
    cases outstanding : c.miss with
    | none =>
      rw [answer_stray q outstanding]
      exact .stray outstanding
    | some m =>
      obtain ⟨p, stage⟩ := m
      cases stage with
      | fetching =>
        by_cases expected : q.isRead = true ∧ q.block = p.block
        · obtain ⟨read, block⟩ := expected
          by_cases inSet : c.victim p < c.grid.ways
          · cases dirty : (c.grid.cell (c.grid.setOf p.block) (c.victim p)).valid &&
                (c.grid.cell (c.grid.setOf p.block) (c.victim p)).dirty with
            | false =>
              rw [answer_fill outstanding read block inSet dirty]
              exact .fill outstanding read block inSet dirty
            | true =>
              rw [answer_evict outstanding read block inSet rfl dirty]
              exact .evict outstanding read block inSet rfl dirty
          · rw [answer_outside outstanding read block inSet]
            exact .outside outstanding read block inSet
        · rw [answer_mismatched outstanding expected]
          exact .mismatch outstanding expected
      | writingBack way victim fetched =>
        by_cases expected : q.isWrite = true ∧ q.block = victim
        · obtain ⟨write, block⟩ := expected
          rw [answer_acknowledge outstanding write block (h.inSet outstanding)]
          exact .acknowledge outstanding write block (h.inSet outstanding)
        · rw [answer_unacknowledged outstanding expected]
          exact .unacknowledged outstanding expected
  | deliver =>
    show c.Effect (c.deliver.exchange _ c)
    cases response : c.response with
    | none =>
      rw [deliver_nothing response]
      exact .undelivered response
    | some q =>
      by_cases nothing : c.miss = none
      · rw [deliver_eq response nothing]
        exact .deliver response nothing
      · rw [deliver_outstanding response nothing]
        exact .lost response nothing
  | unblock =>
    show c.Effect (c.unblock.exchange _ c)
    by_cases nothing : c.miss = none
    · rw [unblock_eq nothing]
      exact .release nothing
    · rw [unblock_outstanding nothing]
      exact .unreleased nothing

/-- A controller that has given up its miss, or never had one, has only its grid to care for. -/
theorem of_nothing (grid : d.grid.Sound) (nothing : d.miss = none) : d.Secure :=
  ⟨grid, fun hm => by rw [nothing] at hm; cases hm⟩

theorem of_same (h : c.Secure) (grid : d.grid = c.grid) (miss : d.miss = c.miss)
    (status : d.status = c.status) : d.Secure :=
  ⟨by rw [grid]; exact h.grid, fun hm => (h.awaits (miss ▸ hm)).of_same status grid⟩

/-- No call spoils a controller. -/
theorem after (h : c.Secure) (effect : c.Effect x) : x.after.Secure := by
  cases effect with
  | bypass | stray | undelivered | unreleased => exact h
  | busy | lost => exact h.of_same rfl rfl rfl
  | hit idle _ found => exact of_nothing (h.grid.hit found) (h.nothing idle)
  | miss _ _ absent =>
    exact ⟨h.grid, fun hm => by cases hm; exact .fetch rfl absent⟩
  | mismatch | outside | unacknowledged => exact of_nothing h.grid rfl
  -- since the lookup that missed no call has touched a line, so the block is still in none
  | fill outstanding _ _ inSet =>
    exact of_nothing (h.grid.fill inSet (h.awaits outstanding).absent _) rfl
  | @evict p _ l outstanding _ _ inSet line dirty =>
    obtain ⟨hv, hd⟩ := Bool.and_eq_true_iff.mp dirty
    subst line
    exact ⟨h.grid, fun hm => by
      cases hm
      exact .acknowledgement rfl (h.awaits outstanding).absent inSet (Grid.holds_iff.mpr ⟨hv, rfl⟩) hd⟩
  | acknowledge outstanding _ _ inSet =>
    exact of_nothing (h.grid.fill inSet (h.awaits outstanding).absent _) rfl
  | deliver _ nothing | release nothing => exact of_nothing h.grid nothing

theorem afterCalls (h : c.Secure) (calls : List Call) : (c.afterCalls calls).Secure := by
  induction calls generalizing c with
  | nil => exact h
  | cons call rest ih => exact ih (h.after (h.effect call))

/-- A new controller is secure, whatever its policy. -/
theorem of_config {config : CacheConfig} {policy : Policy}
    (assembled : ofConfig config policy = .ok c) : c.Secure := by
  obtain ⟨_, _, hbuild, hc⟩ := Simulation.controller_of_config assembled
  exact of_nothing (Grid.sound_of_build hbuild) (by rw [hc])

/-- The address of a block that a line holds leads back to the block. -/
theorem writeback_address (h : c.Secure) {set way : Nat} (has : c.grid.Has set way)
    (valid : (c.grid.cell set way).valid = true) : (c.grid.cell set way).tag.val.toNat < 2 ^ 58 ∧
      ∀ data, (Packet.blockWrite (c.grid.cell set way).tag data).block = (c.grid.cell set way).tag := by
  have inSpace := h.grid.inSpace has valid
  refine ⟨?_, fun data => Packet.block_blockWrite inSpace data⟩
  simp only [BlockNumber.InSpace, blockSize, UInt64.size] at inSpace
  omega

/-- A block lies in one line of the whole grid at most. -/
theorem alone (h : c.Secure) {set way set' way' : Nat} (has : c.grid.Has set way)
    (has' : c.grid.Has set' way') (valid : (c.grid.cell set way).valid = true)
    (valid' : (c.grid.cell set' way').valid = true)
    (same : (c.grid.cell set way).tag = (c.grid.cell set' way').tag) : set = set' ∧ way = way' := by
  have home : set = set' := by
    rw [← h.grid.home has valid, same, h.grid.home has' valid']
  subst home
  exact ⟨rfl, h.grid.once has has' valid valid' same⟩

end Secure

namespace Effect

/-- A call stamps one line at most. -/
theorem clock_le (effect : c.Effect x) : x.after.grid.clock ≤ c.grid.clock + 1 := by
  cases effect with
  | hit | fill | acknowledge => exact Nat.le_refl _
  | _ => exact Nat.le_succ _

/-- What a call fails with: a reason, though never that a dirty line would be overwritten, or else a
release while a miss is outstanding. -/
theorem failure (effect : c.Effect x) {why : Failure ProtocolError} (failed : x.failure = some why) :
    (∃ reason, why = .refused reason ∧ ∀ set way tag, reason ≠ .dirtyOverwrite set way tag) ∨
      why = .fault .missOutstanding ∧ c.miss ≠ none ∧ (x.call = .deliver ∨ x.call = .unblock) := by
  cases effect with
  | stray | mismatch | outside | unacknowledged | undelivered =>
    cases failed
    exact .inl ⟨_, rfl, fun _ _ _ => by simp⟩
  | lost _ outstanding =>
    cases failed
    exact .inr ⟨rfl, outstanding, .inl rfl⟩
  | unreleased outstanding =>
    cases failed
    exact .inr ⟨rfl, outstanding, .inr rfl⟩
  | _ => cases failed

end Effect

theorem Secure.clock_afterCalls (h : c.Secure) (calls : List Call) :
    (c.afterCalls calls).grid.clock ≤ c.grid.clock + calls.length := by
  induction calls generalizing c with
  | nil => exact Nat.le_refl _
  | cons call rest ih =>
    have step := (h.effect call).clock_le
    have later := ih (h.after (h.effect call))
    rw [List.length_cons]
    exact Nat.le_trans later (by omega)

/-- After any calls whatever, those that failed included, the grid is sound, each of its valid lines
holds a block of its own and of the address space, and an outstanding miss is one of two kinds. A
further call neither overwrites a dirty line nor faults, except by a release while a miss is
outstanding. -/
theorem secure_after_any_calls {config : CacheConfig} {policy : Policy} (calls : List Call)
    (assembled : ofConfig config policy = .ok c) (reached : c.afterCalls calls = d) :
    (d.grid.Sound ∧ d.grid.clock ≤ calls.length) ∧
      (∀ {set way}, d.grid.Has set way → (d.grid.cell set way).valid = true →
        (d.grid.cell set way).tag.val.toNat < 2 ^ 58 ∧
          ∀ data, (Packet.blockWrite (d.grid.cell set way).tag data).block =
            (d.grid.cell set way).tag) ∧
      (∀ {set way set' way'}, d.grid.Has set way → d.grid.Has set' way' →
        (d.grid.cell set way).valid = true → (d.grid.cell set' way').valid = true →
          (d.grid.cell set way).tag = (d.grid.cell set' way').tag → set = set' ∧ way = way') ∧
      (∀ {m}, d.miss = some m → d.Awaits m) ∧
      ∀ call why, (d.exchange call).failure = some why →
        (∃ reason, why = .refused reason ∧ ∀ set way tag, reason ≠ .dirtyOverwrite set way tag) ∨
          why = .fault .missOutstanding ∧ d.miss ≠ none ∧ (call = .deliver ∨ call = .unblock) := by
  obtain ⟨_, _, build, new⟩ := Simulation.controller_of_config assembled
  have start := Secure.of_config assembled
  have clock := start.clock_afterCalls calls
  have unused : c.grid.clock = 0 := by rw [new]; exact Grid.clock_of_build build
  rw [unused, Nat.zero_add, reached] at clock
  have secure : d.Secure := reached ▸ start.afterCalls calls
  refine ⟨⟨secure.grid, clock⟩, secure.writeback_address, secure.alone, secure.awaits, ?_⟩
  intro call why failed
  have outcome := (secure.effect call).failure failed
  rwa [call_exchange] at outcome

/-- A single line, and a policy that at first names a way that is not there. -/
def erratic : Controller :=
  { grid := Grid.oneSet 1 Nat.one_pos, policy := Replacement.scripted [1, 0], latency := 1 }

theorem erratic_eq : ofConfig { sizeBytes := 64, ways := 1 } (Replacement.scripted [1, 0]) =
    .ok erratic := by rfl

/-- A write takes two attempts, and leaves a dirty line that a read of another block is to evict.
Both are released too early, and memory answers more than once. -/
def unruly : List Call :=
  [.request write, .unblock, .answer (.blockRead ⟨0⟩), .answer (.blockRead ⟨0⟩), .deliver, .unblock,
    .request write, .request read, .answer (.blockRead ⟨0⟩), .deliver, .request read, .unblock,
    .answer (.blockRead ⟨1⟩)]
where
  write : Packet := .byte ⟨0⟩ .write 7 true
  read : Packet := .byte ⟨64⟩ .read 0 true

/-- The read waits for the line that the write made dirty to be written back. -/
theorem secure_after_any_calls_erratic :
    (erratic.afterCalls unruly).miss = some ⟨unruly.read, .writingBack 0 ⟨0⟩ .zero⟩ ∧
      (erratic.afterCalls unruly).grid.cell 0 0 = ⟨true, true, ⟨0⟩, 1, Block.zero.patch 0 [7]⟩ ∧
      (erratic.afterCalls unruly).grid.Sound ∧
      (erratic.afterCalls unruly).Awaits ⟨unruly.read, .writingBack 0 ⟨0⟩ .zero⟩ := by
  obtain ⟨⟨sound, _⟩, _, _, awaits, _⟩ :=
    secure_after_any_calls unruly erratic_eq (Eq.refl (erratic.afterCalls unruly))
  exact ⟨by rfl, by rfl, sound, awaits (by rfl)⟩

end Controller

end WritebackCache
