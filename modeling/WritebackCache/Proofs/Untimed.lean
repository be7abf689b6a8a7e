import WritebackCache.Proofs.Run

/-! The machine with time left out: a grid in front of a memory that serves one request after the
other, at once. What it knows are the lines, the contents of memory, what memory was asked for and
how often the policy was. A miss is a fetch, a question to the policy, a writeback if the way named
holds a dirty line, and a fill; a simulation that has a miss outstanding is as far as the first or
as far as the third of these, and otherwise it is the untimed machine after the requests served.
Nothing in it depends on whether a request expects a response, and other traffic passes by. -/

namespace WritebackCache

structure Untimed where
  grid : Grid
  contents : SparseMemory
  /-- How often the policy was asked. -/
  asked : Nat
  /-- What memory was asked for. -/
  log : List (MemoryOp × BlockNumber)

namespace Untimed

def lookup (u : Untimed) (p : Packet) : Lookup :=
  if p.kind = .other then .bypass
  else match u.grid.lookup p.block with
    | some _ => .hit
    | none => .miss

def fetch (u : Untimed) (b : BlockNumber) : Untimed := { u with log := u.log ++ [(.fetch, b)] }

/-- The way that the policy names for a block. -/
def victim (policy : Policy) (u : Untimed) (b : BlockNumber) : Nat :=
  policy u.asked (u.grid.row (u.grid.setOf b))

def consulted (u : Untimed) : Untimed := { u with asked := u.asked + 1 }

def writeBack (u : Untimed) (l : Line) : Untimed :=
  { u with contents := u.contents.writeBlock l.tag l.data, log := u.log ++ [(.writeback, l.tag)] }

/-- A line of the set of a block is used. -/
def use (u : Untimed) (b : BlockNumber) (way : Nat) (l : Line) : Untimed :=
  { u with grid := u.grid.use (u.grid.setOf b) way l }

/-- The machine after a request. -/
def next (policy : Policy) (u : Untimed) (p : Packet) : Untimed :=
  if p.kind = .other then u
  else match u.grid.lookup p.block with
    | some way => u.use p.block way ((u.grid.cell (u.grid.setOf p.block) way).served p)
    | none =>
      let way := u.victim policy p.block
      let l := u.grid.cell (u.grid.setOf p.block) way
      let ready := (u.fetch p.block).consulted
      let clean := if l.valid && l.dirty then ready.writeBack l else ready
      clean.use p.block way (Line.filled p (u.contents.readBlock p.block))

def after (policy : Policy) (u : Untimed) (requests : List Packet) : Untimed :=
  requests.foldl (next policy) u

/-- What the requests meet with, one after the other. -/
def lookups (policy : Policy) (u : Untimed) : List Packet → List Lookup
  | [] => []
  | p :: rest => u.lookup p :: (u.next policy p).lookups policy rest

variable {policy : Policy} {u v : Untimed} {p : Packet}

theorem next_other (policy : Policy) (kind : p.kind = .other) :
    u.next policy p = u ∧ u.lookup p = .bypass :=
  ⟨if_pos kind, if_pos kind⟩

theorem next_hit {way : Nat} (policy : Policy) (kind : p.kind ≠ .other)
    (found : u.grid.lookup p.block = some way) :
    u.next policy p = u.use p.block way ((u.grid.cell (u.grid.setOf p.block) way).served p) ∧
      u.lookup p = .hit := by
  simp only [next, lookup, if_neg kind, found, and_self]

theorem lookup_miss (kind : p.kind ≠ .other) (absent : u.grid.lookup p.block = none) :
    u.lookup p = .miss := by
  simp only [lookup, if_neg kind, absent]

/-- A line that holds nothing dirty makes way at once. -/
theorem next_clean (kind : p.kind ≠ .other) (absent : u.grid.lookup p.block = none)
    (clean : ((u.grid.cell (u.grid.setOf p.block) (u.victim policy p.block)).valid &&
      (u.grid.cell (u.grid.setOf p.block) (u.victim policy p.block)).dirty) = false) :
    u.next policy p = (u.fetch p.block).consulted.use p.block (u.victim policy p.block)
      (Line.filled p (u.contents.readBlock p.block)) := by
  simp only [next, if_neg kind, absent, clean, Bool.false_eq_true, if_false]

/-- A dirty line is written back before. -/
theorem next_dirty {l : Line} (kind : p.kind ≠ .other) (absent : u.grid.lookup p.block = none)
    (line : u.grid.cell (u.grid.setOf p.block) (u.victim policy p.block) = l)
    (dirty : (l.valid && l.dirty) = true) : u.next policy p =
      ((u.fetch p.block).consulted.writeBack l).use p.block (u.victim policy p.block)
        (Line.filled p (u.contents.readBlock p.block)) := by
  simp only [next, if_neg kind, absent, line, dirty, if_true]

theorem after_append (requests more : List Packet) :
    u.after policy (requests ++ more) = (u.after policy requests).after policy more := by
  simp [after]

theorem lookups_append (requests : List Packet) : u.lookups policy (requests ++ [p]) =
    u.lookups policy requests ++ [(u.after policy requests).lookup p] := by
  induction requests generalizing u with
  | nil => rfl
  | cons q rest ih =>
    rw [List.cons_append, lookups, lookups, ih, List.cons_append]
    rfl

/-! ## Amid a miss -/

/-- What the machine has become while a miss is outstanding. -/
inductive Amid (policy : Policy) (u : Untimed) : Option Miss → Untimed → Prop
  | resting : Amid policy u none u
  | fetching {p : Packet} : Amid policy u (some ⟨p, .fetching⟩) (u.fetch p.block)
  | writingBack {p : Packet} {l : Line}
      (line : u.grid.cell (u.grid.setOf p.block) (u.victim policy p.block) = l)
      (dirty : (l.valid && l.dirty) = true) :
      Amid policy u
        (some ⟨p, .writingBack (u.victim policy p.block) l.tag (u.contents.readBlock p.block)⟩)
        ((u.fetch p.block).consulted.writeBack l)

theorem Amid.of_none (h : Amid policy u none v) : v = u := by
  cases h
  rfl

theorem Amid.of_fetching (h : Amid policy u (some ⟨p, .fetching⟩) v) : v = u.fetch p.block := by
  cases h
  rfl

theorem Amid.of_writingBack {way : Nat} {victim : BlockNumber} {fetched : Block}
    (h : Amid policy u (some ⟨p, .writingBack way victim fetched⟩) v) :
    ∃ l, u.grid.cell (u.grid.setOf p.block) way = l ∧ (l.valid && l.dirty) = true ∧
      way = u.victim policy p.block ∧ fetched = u.contents.readBlock p.block ∧
        v = (u.fetch p.block).consulted.writeBack l := by
  cases h with
  | writingBack line dirty => exact ⟨_, line, dirty, rfl, rfl, rfl⟩

end Untimed

namespace Simulation

open Untimed (Amid)

variable {σ : Type}

/-- A simulation with time left out. -/
def untimed (s : Simulation σ) : Untimed :=
  ⟨s.controller.grid, s.memory.contents, s.controller.asked,
    s.memory.log.map fun a => (a.op, a.block)⟩

variable [LatencyModel σ]

theorem Move.policy_eq {s t : Simulation σ} {a : Option Acceptance} (h : s.Move a t) :
    t.controller.policy = s.controller.policy := by
  cases h <;> rfl

/-- A move serves at most one request, as the untimed machine does, or is a part of its service. -/
theorem Move.untimed {s t : Simulation σ} {a : Option Acceptance} {u : Untimed} (hs : s.Sound)
    (h : s.Move a t) (amid : Amid s.controller.policy u s.controller.miss s.untimed) :
    ∃ more, Amid s.controller.policy (u.after s.controller.policy more) t.controller.miss t.untimed ∧
      (s.controller.miss.map Miss.request).toList ++ a.toList.map (·.packet) =
        more ++ (t.controller.miss.map Miss.request).toList ∧
      ∀ x ∈ a, s.controller.miss = none ∧ x.lookup = u.lookup x.packet := by
  cases h with
  | wake | release | refuse | deliver => exact ⟨[], amid, by simp, fun x hx => by cases hx⟩
  | @bypass _ _ _ p _ _ _ _ _ idle kind =>
    obtain ⟨_, miss, _⟩ := hs.phase.of_idle idle
    obtain ⟨next, lookup⟩ := u.next_other s.controller.policy kind
    refine ⟨[p], ?_, by simp [miss], fun x hx => by cases hx; exact ⟨miss, lookup.symm⟩⟩
    show Amid _ (u.next _ p) _ _
    rw [next]
    exact amid
  | @hit _ _ _ p _ _ way _ _ _ idle kind found =>
    obtain ⟨_, miss, _⟩ := hs.phase.of_idle idle
    rw [miss] at amid
    have same := amid.of_none
    subst same
    obtain ⟨next, lookup⟩ := s.untimed.next_hit s.controller.policy kind found
    refine ⟨[p], ?_, by simp [miss], fun x hx => by cases hx; exact ⟨miss, lookup.symm⟩⟩
    show Amid _ (s.untimed.next _ p) s.controller.miss _
    rw [next, miss]
    exact .resting
  | @miss _ _ _ p _ _ memory _ _ _ _ _ idle kind absent fetched =>
    obtain ⟨_, miss, _⟩ := hs.phase.of_idle idle
    rw [miss] at amid
    have same := amid.of_none
    subst same
    obtain ⟨contents, _, _, took⟩ := Memory.serve_fetch (b := p.block) p.addr.inSpace_block fetched
    refine ⟨[], ?_, by simp [miss], fun x hx => by
      cases hx; exact ⟨miss, (Untimed.lookup_miss kind absent).symm⟩⟩
    show Amid _ s.untimed _ ⟨_, memory.contents, _, memory.log.map _⟩
    rw [contents, took.logged, List.map_append]
    exact .fetching
  | @fill _ _ q p pop miss clean =>
    obtain ⟨_, block, _, absent⟩ := hs.fetched pop miss
    have kind := (hs.missing ⟨p, .fetching⟩ miss).2
    rw [miss] at amid
    obtain ⟨grid, contents, asked, log⟩ := u
    obtain ⟨rfl, rfl, rfl, sent⟩ := Untimed.mk.inj amid.of_fetching
    refine ⟨[p], ?_, by simp [miss], fun x hx => by cases hx⟩
    show Amid _ (Untimed.next _ _ p) none ⟨_, _, _, _⟩
    have next := @Untimed.next_clean s.controller.policy
      ⟨s.controller.grid, s.memory.contents, s.controller.asked, log⟩ p kind absent clean
    rw [next, sent, block]
    exact .resting
  | @evict _ _ q p l memory _ _ pop miss line dirty sent =>
    obtain ⟨_, block, _, absent⟩ := hs.fetched pop miss
    rw [miss] at amid
    obtain ⟨grid, contents, asked, log⟩ := u
    obtain ⟨rfl, rfl, rfl, fetched⟩ := Untimed.mk.inj amid.of_fetching
    obtain ⟨contents, _, _, took⟩ := hs.evicted line dirty sent
    refine ⟨[], ?_, by simp [miss], fun x hx => by cases hx⟩
    show Amid _ _ (some ⟨p, .writingBack _ _ q.blockData⟩) ⟨_, memory.contents, _, memory.log.map _⟩
    rw [contents, took.logged, List.map_append, fetched, block]
    exact .writingBack line dirty
  | @acknowledge _ _ _ p way victim fetched pop miss =>
    obtain ⟨_, _, _, absent, _⟩ := (hs.phase_of_pop pop rfl).of_writingBack miss
    have kind := (hs.missing ⟨p, .writingBack way victim fetched⟩ miss).2
    rw [miss] at amid
    obtain ⟨l, line, dirty, rfl, rfl, same⟩ := amid.of_writingBack
    -- memory holds the line already, so the untimed machine is behind in all but the grid
    obtain ⟨grid, contents, asked, log⟩ := u
    obtain ⟨rfl, written, consulted, sent⟩ := Untimed.mk.inj same
    refine ⟨[p], ?_, by simp [miss], fun x hx => by cases hx⟩
    show Amid _ (Untimed.next _ _ p) none ⟨_, _, s.controller.asked, _⟩
    have next := @Untimed.next_dirty s.controller.policy ⟨s.controller.grid, contents, asked, log⟩ p
      l kind absent line dirty
    rw [next, written, consulted, sent]
    exact .resting

/-- All along a run the simulation is the untimed machine after the requests served, or amid the
miss that is outstanding, and the requests accepted have met with what they meet with there. -/
theorem Run.untimed {s t : Simulation σ} {log : List Acceptance} {entered : Nat} {policy : Policy}
    (hs : s.Sound) (given : s.controller.policy = policy) (nothing : s.controller.miss = none)
    (run : s.Run log entered t) : ∃ served,
      log.map (·.packet) = served ++ (t.controller.miss.map Miss.request).toList ∧
        log.map (·.lookup) = s.untimed.lookups policy (log.map (·.packet)) ∧
        t.controller.policy = policy ∧
        Amid policy (s.untimed.after policy served) t.controller.miss t.untimed := by
  refine run.serves (R := fun served t => t.controller.policy = policy ∧
    Amid policy (s.untimed.after policy served) t.controller.miss t.untimed) hs
    ⟨given, by rw [nothing]; exact .resting⟩ nothing rfl (fun _ _ => Untimed.lookups_append _) ?_
    fun _ beside => beside
  intro served t u a ht beside hm
  obtain ⟨same, amid⟩ := beside
  subst same
  obtain ⟨more, after, pending, accepted⟩ := hm.untimed ht amid
  exact ⟨more, ⟨hm.policy_eq, by rw [Untimed.after_append]; exact after⟩, pending, accepted⟩

end Simulation

end WritebackCache
