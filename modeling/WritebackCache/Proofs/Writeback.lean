import Mathlib.Data.List.Induction
import WritebackCache.Proofs.Calls

/-! A dirty line is in memory before another block takes its place. A call that changes the block of
a line ends a miss, and that miss has one stretch of calls behind it, or two: in the first its block
is fetched, in the second the dirty line that is in the way is written back. A stretch opens with
the call that sends the request to memory; whatever is called after that, offers that are turned
away, releases that fail, does nothing and leaves the grid alone. So what was sent is what the line
held to the end. The callers are free to call what they like. -/

namespace WritebackCache

/-- The call changes the block that a line holds, or makes it hold one. -/
def Exchange.Replaces (x : Exchange) (set way : Nat) : Prop :=
  x.before.grid.Has set way ∧
    ((x.after.grid.cell set way).tag ≠ (x.before.grid.cell set way).tag ∨
      (x.after.grid.cell set way).valid ≠ (x.before.grid.cell set way).valid)

/-- The calls made while a miss is at one stage. The first brings it there and is the only one that
has anything done; the grid stays as it is, and so does the number of questions to the policy, which
is `asked` before the first call and `now` after it. -/
structure Stretch (m : Miss) (opening : Call) (action : Action) (grid : Grid) (asked now : Nat)
    (xs : List Exchange) : Prop where
  opens : ∃ first rest, xs = first :: rest ∧ first.call = opening ∧ first.before.asked = asked ∧
    first.action = some action ∧ rest.filterMap Exchange.action = []
  during : ∀ y ∈ xs, y.before.grid = grid ∧ y.after.grid = grid ∧ y.after.miss = some m ∧
    y.after.asked = now

/-- The block of a request is fetched. -/
abbrev Fetching (p : Packet) (grid : Grid) (asked : Nat) : List Exchange → Prop :=
  Stretch ⟨p, .fetching⟩ (.request p) (.send (.blockRead p.block)) grid asked asked

/-- The block is there, and a line is written back to make room for it. -/
abbrev WritingBack (p q : Packet) (way : Nat) (l : Line) (grid : Grid) (asked : Nat) :
    List Exchange → Prop :=
  Stretch ⟨p, .writingBack way l.tag q.blockData⟩ (.answer q) (.send (.blockWrite l.tag l.data)) grid
    asked (asked + 1)

/-- The call fills the way chosen for a miss, and with that schedules the end of its request. -/
structure Exchange.Fills (x : Exchange) (p : Packet) (policy : Policy) (latency : Tick)
    (asked set way : Nat) : Prop where
  home : set = x.before.grid.setOf p.block
  chosen : way = policy asked (x.before.grid.row set)
  tag : (x.after.grid.cell set way).tag = p.block
  once : x.after.asked = asked + 1
  ending : x.action = some (.schedule latency p.ended)

/-- What lies behind a call that fills a line with another block: the fetch of that block and, if
the line was valid and dirty, its writeback, of which the call brings the acknowledgement. -/
inductive Exchange.Refills (x : Exchange) (policy : Policy) (latency : Tick) (past : List Exchange)
    (set way : Nat) : Prop
  | clean {p q asked earlier fetch}
      (line : ((x.before.grid.cell set way).valid && (x.before.grid.cell set way).dirty) = false)
      (split : past = earlier ++ fetch) (fetched : Fetching p x.before.grid asked fetch)
      (call : x.call = .answer q) (read : q.isRead = true) (block : q.block = p.block)
      (fills : x.Fills p policy latency asked set way)
  | dirty {p q ack asked earlier fetch writeback}
      (line : ((x.before.grid.cell set way).valid && (x.before.grid.cell set way).dirty) = true)
      (split : past = earlier ++ fetch ++ writeback) (fetched : Fetching p x.before.grid asked fetch)
      (written : WritingBack p q way (x.before.grid.cell set way) x.before.grid asked writeback)
      (read : q.isRead = true) (block : q.block = p.block) (call : x.call = .answer ack)
      (write : ack.isWrite = true) (acknowledged : ack.block = (x.before.grid.cell set way).tag)
      (fills : x.Fills p policy latency asked set way)

namespace Stretch

variable {m : Miss} {opening : Call} {action : Action} {grid : Grid} {asked now : Nat}
  {xs : List Exchange} {y : Exchange}

theorem one (call : y.call = opening) (before : y.before.grid = grid) (unasked : y.before.asked = asked)
    (sent : y.action = some action) (after : y.after.grid = grid) (miss : y.after.miss = some m)
    (same : y.after.asked = now) : Stretch m opening action grid asked now [y] := by
  subst same
  exact ⟨⟨y, [], rfl, call, unasked, sent, rfl⟩, by simpa using ⟨before, after, miss⟩⟩

theorem extend (h : Stretch m opening action grid asked now xs) (before : y.before.grid = grid)
    (nothing : y.action = none) (after : y.after.grid = grid) (miss : y.after.miss = some m)
    (same : y.after.asked = now) : Stretch m opening action grid asked now (xs ++ [y]) := by
  obtain ⟨first, rest, rfl, call, unasked, sent, quiet⟩ := h.opens
  refine ⟨⟨first, rest ++ [y], rfl, call, unasked, sent, by simp [quiet, nothing]⟩, ?_⟩
  intro z hz
  rcases List.mem_append.mp hz with hz | hz
  · exact h.during z hz
  · rw [List.mem_singleton.mp hz]
    exact ⟨before, after, miss, same⟩

end Stretch

namespace Controller

variable {c d : Controller} {x : Exchange} {past : List Exchange} {m : Miss}

/-- How the calls made so far end, if a miss is outstanding after them. -/
inductive Underway (d : Controller) (past : List Exchange) : Miss → Prop
  | fetching {p earlier fetch} (split : past = earlier ++ fetch)
      (fetched : Fetching p d.grid d.asked fetch) : Underway d past ⟨p, .fetching⟩
  | writingBack {p q way l asked earlier fetch writeback} (split : past = earlier ++ fetch ++ writeback)
      (fetched : Fetching p d.grid asked fetch) (written : WritingBack p q way l d.grid asked writeback)
      (read : q.isRead = true) (block : q.block = p.block) (once : d.asked = asked + 1)
      (chosen : way = d.policy asked (d.grid.row (d.grid.setOf p.block)))
      (line : d.grid.cell (d.grid.setOf p.block) way = l) :
      Underway d past ⟨p, .writingBack way l.tag q.blockData⟩

/-- A call that does nothing and leaves the miss where it was is one more of its last stretch. -/
theorem Underway.extend (h : x.before.Underway past m) (nothing : x.action = none)
    (grid : x.after.grid = x.before.grid) (miss : x.after.miss = some m)
    (asked : x.after.asked = x.before.asked) (policy : x.after.policy = x.before.policy) :
    x.after.Underway (past ++ [x]) m := by
  cases h with
  | fetching split fetched =>
    subst split
    rw [← grid, ← asked] at fetched
    exact .fetching (List.append_assoc _ _ _) (fetched.extend grid.symm nothing rfl miss rfl)
  | writingBack split fetched written read block once chosen line =>
    subst split
    rw [← grid] at fetched written chosen line
    rw [← policy] at chosen
    rw [← asked] at once
    exact .writingBack (List.append_assoc _ _ _) fetched
      (written.extend grid.symm nothing rfl miss once) read block once chosen line

/-- What one call makes of the stretches behind it. -/
theorem Underway.after (secure : c.Secure) (h : ∀ m, c.miss = some m → c.Underway past m)
    (effect : c.Effect x) (outstanding : x.after.miss = some m) :
    x.after.Underway (past ++ [x]) m := by
  cases effect with
  -- the calls that come to nothing while a miss is outstanding
  | busy | undelivered | lost | unreleased =>
    exact Underway.extend (h m outstanding) rfl rfl outstanding rfl rfl
  | bypass idle | hit idle =>
    have free : c.miss = some m := outstanding
    rw [secure.nothing idle] at free
    cases free
  | miss _ _ _ =>
    cases outstanding
    exact .fetching rfl (.one rfl rfl rfl rfl rfl rfl rfl)
  -- no miss is outstanding when these begin, and none after them
  | stray nothing | deliver _ nothing | release nothing =>
    have free : c.miss = some m := outstanding
    rw [nothing] at free
    cases free
  | mismatch | outside | fill | unacknowledged | acknowledge => cases outstanding
  | evict fetching read block _ line =>
    cases outstanding
    cases h _ fetching with
    | fetching split fetched =>
      subst split
      exact .writingBack rfl fetched (.one rfl rfl rfl rfl rfl rfl rfl) read block rfl rfl line

theorem underway_of_calls (secure : c.Secure) (nothing : c.miss = none) (calls : List Call) :
    ∀ m, (c.afterCalls calls).miss = some m →
      (c.afterCalls calls).Underway (c.exchanges calls) m := by
  induction calls using List.reverseRecOn with
  | nil =>
    intro m outstanding
    have free : c.miss = some m := outstanding
    rw [nothing] at free
    cases free
  | append_singleton calls call ih =>
    intro m outstanding
    rw [afterCalls_append] at outstanding ⊢
    rw [exchanges_append]
    have now := secure.afterCalls calls
    exact Underway.after now ih (now.effect call) outstanding

/-- The policy and the latency of a controller stay. -/
theorem Effect.fixed (effect : c.Effect x) :
    x.after.policy = c.policy ∧ x.after.latency = c.latency := by
  cases effect <;> exact ⟨rfl, rfl⟩

theorem Secure.fixed (secure : c.Secure) (calls : List Call) :
    (c.afterCalls calls).policy = c.policy ∧ (c.afterCalls calls).latency = c.latency := by
  induction calls generalizing c with
  | nil => exact ⟨rfl, rfl⟩
  | cons call rest ih =>
    have effect := secure.effect call
    obtain ⟨policy, latency⟩ := ih (secure.after effect)
    exact ⟨policy.trans effect.fixed.1, latency.trans effect.fixed.2⟩

/-- One of several calls is made of the controller that the calls before it leave. -/
theorem exchanges_split {calls : List Call} {later : List Exchange}
    (split : c.exchanges calls = past ++ x :: later) :
    ∃ before call, past = c.exchanges before ∧ x = (c.afterCalls before).exchange call := by
  induction past generalizing c calls with
  | nil =>
    cases calls with
    | nil => cases split
    | cons call rest =>
      cases split
      exact ⟨[], call, rfl, rfl⟩
  | cons first past ih =>
    cases calls with
    | nil => cases split
    | cons call rest =>
      obtain ⟨rfl, tail⟩ := List.cons.inj split
      obtain ⟨before, last, rfl, made⟩ := ih tail
      exact ⟨call :: before, last, rfl, made⟩

/-- A line that was used keeps its block unless it is replaced by one that holds another. -/
theorem replaced_of_use {g : Grid} {b : BlockNumber} {used set way : Nat} {l : Line}
    (inSet : used < g.ways) (has : g.Has set way)
    (changed : ((g.use (g.setOf b) used l).cell set way).tag ≠ (g.cell set way).tag ∨
      ((g.use (g.setOf b) used l).cell set way).valid ≠ (g.cell set way).valid) :
    set = g.setOf b ∧ way = used ∧
      (l.tag ≠ (g.cell set way).tag ∨ l.valid ≠ (g.cell set way).valid) := by
  rw [Grid.cell_use l (Grid.has_setOf inSet b) has.2] at changed
  split at changed
  · next here => exact ⟨here.1, here.2, changed⟩
  · exact (changed.elim (· rfl) (· rfl)).elim

theorem tag_finish {p : Packet} {way : Nat} (inSet : way < c.grid.ways) (fetched : Block) :
    ((c.finish p way (Line.filled p fetched) .unblockPending).grid.cell
      (c.grid.setOf p.block) way).tag = p.block := by
  rw [grid_finish, Grid.cell_use_self _ (Grid.has_setOf inSet p.block)]
  rfl

/-- A call that changes the block of a line fills the way that was chosen for a miss. -/
theorem Effect.refills (secure : c.Secure) (underway : ∀ m, c.miss = some m → c.Underway past m)
    (effect : c.Effect x) {set way : Nat} (replaced : x.Replaces set way) :
    x.Refills c.policy c.latency past set way := by
  obtain ⟨has, changed⟩ := replaced
  cases effect with
  | hit idle kind found =>
    obtain ⟨inSet, held⟩ := Grid.holds_of_lookup found
    obtain ⟨rfl, rfl, changed⟩ := replaced_of_use inSet has changed
    exact (changed.elim (· rfl) (· rfl)).elim
  | fill fetching read block inSet clean =>
    obtain ⟨rfl, rfl, -⟩ := replaced_of_use inSet has changed
    cases underway _ fetching with
    | fetching split fetched =>
      exact .clean clean split fetched rfl read block
        ⟨rfl, rfl, tag_finish (c := c.consulted) inSet _, rfl, rfl⟩
  | @acknowledge p _ way _ fetched writing write block inSet =>
    obtain ⟨rfl, rfl, -⟩ := replaced_of_use inSet has changed
    cases secure.awaits writing with
    | acknowledgement _ _ _ held dirty =>
      cases underway _ writing with
      | writingBack split fetched written read fetchedBlock once chosen line =>
        subst line
        exact .dirty (by rw [(Grid.holds_iff.mp held).1, dirty]; rfl) split fetched written read
          fetchedBlock rfl write block
          ⟨rfl, chosen, tag_finish (c := c.abandon) inSet _, once, rfl⟩
  | _ => exact (changed.elim (· rfl) (· rfl)).elim

/-- Whenever a call changes the block of a line, it is the last of a miss. If the line was valid and
dirty, that call acknowledges its writeback, which took place while the line stayed as it was; if it
was not, there was no writeback. -/
theorem written_back_before_refilled {config : CacheConfig} {policy : Policy} {calls : List Call}
    {later : List Exchange} {set way : Nat} (assembled : ofConfig config policy = .ok c)
    (split : c.exchanges calls = past ++ x :: later) (replaced : x.Replaces set way) :
    x.Refills policy config.latency past set way := by
  obtain ⟨before, call, rfl, rfl⟩ := exchanges_split split
  obtain ⟨_, _, _, new⟩ := Simulation.controller_of_config assembled
  have start := Secure.of_config assembled
  have underway := underway_of_calls start (by rw [new]) before
  have now := start.afterCalls before
  have refills := (now.effect call).refills now underway replaced
  rw [(start.fixed before).1, (start.fixed before).2, new] at refills
  rw [new]
  exact refills

/-- The dirty line that is left by unruly calls goes when its writeback is acknowledged, after one
more release that came too early. -/
theorem written_back_before_refilled_erratic : ∃ past x,
    erratic.exchanges (unruly ++ [.unblock, .answer (.blockWrite ⟨0⟩ .zero)]) = past ++ [x] ∧
      ((x.before.grid.cell 0 0).valid && (x.before.grid.cell 0 0).dirty) = true ∧
      x.Refills (Replacement.scripted [1, 0]) 1 past 0 0 := by
  let before := unruly ++ [.unblock]
  let x := (erratic.afterCalls before).exchange (.answer (.blockWrite ⟨0⟩ .zero))
  have split : erratic.exchanges (unruly ++ [.unblock, .answer (.blockWrite ⟨0⟩ .zero)]) =
      erratic.exchanges before ++ [x] := exchanges_append erratic before [_]
  have replaced : x.Replaces 0 0 := ⟨⟨by decide, by decide⟩, .inl (by decide)⟩
  exact ⟨erratic.exchanges before, x, split, by decide,
    written_back_before_refilled erratic_eq split replaced⟩

end Controller

end WritebackCache
