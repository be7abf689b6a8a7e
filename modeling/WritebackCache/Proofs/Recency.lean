import WritebackCache.Proofs.Ranking
import WritebackCache.Proofs.Run

/-! A cache out of the textbook: for each set a list of the blocks it holds, the one used last in front,
each with whether it was written. It knows no ticks, stamps, ways or events. The grid mirrors it: the
lines of a set in the order of their last use are the list of the set, a line used goes to the front as
its block does, and the line that the least recently used policy gives up is that of the last block of
a full list. -/

namespace WritebackCache

structure Recency where
  sets : Nat
  ways : Nat
  /-- The blocks of each set, the most recently used first, and whether they were written. -/
  rows : Nat → List (BlockNumber × Bool)

namespace Recency

/-- What an access meets with, what it has memory do, and the list of its set after it. -/
structure Access where
  lookup : Lookup
  traffic : List (MemoryOp × BlockNumber)
  row : List (BlockNumber × Bool)
  deriving DecidableEq

/-- An access to one set. A listed block goes to the front; any other is fetched and pushed in front,
for which the last block of a full list goes, back to memory if it was written. -/
def access (ways : Nat) (row : List (BlockNumber × Bool)) (b : BlockNumber) (write : Bool) : Access :=
  match row.lookup b with
  | some dirty => ⟨.hit, [], (b, dirty || write) :: row.filter fun e => e.1 ≠ b⟩
  | none =>
    if row.length < ways then ⟨.miss, [(.fetch, b)], (b, write) :: row⟩
    else
      let evicted := (row.getLast?.filter (·.2)).toList.map fun e => (MemoryOp.writeback, e.1)
      ⟨.miss, (.fetch, b) :: evicted, (b, write) :: row.dropLast⟩

/-- Empty lists for the geometry described. -/
def start (c : CacheConfig) : Recency :=
  ⟨c.sizeBytes.toNat / (64 * c.ways.toNat), c.ways.toNat, fun _ => []⟩

def setOf (r : Recency) (b : BlockNumber) : Nat := b.val.toNat % r.sets

def accessed (r : Recency) (p : Packet) : Access :=
  access r.ways (r.rows (r.setOf p.block)) p.block p.isWrite

/-- What a request meets with; traffic that is neither read nor write passes by. -/
def lookup (r : Recency) (p : Packet) : Lookup :=
  if p.kind = .other then .bypass else (r.accessed p).lookup

/-- What a request has memory do. -/
def traffic (r : Recency) (p : Packet) : List (MemoryOp × BlockNumber) :=
  if p.kind = .other then [] else (r.accessed p).traffic

/-- The lists after a request. -/
def next (r : Recency) (p : Packet) : Recency :=
  if p.kind = .other then r
  else { r with rows := fun set => if set = r.setOf p.block then (r.accessed p).row else r.rows set }

def after (r : Recency) (requests : List Packet) : Recency := requests.foldl next r

/-- What the requests meet with, one after the other. -/
def lookups (r : Recency) : List Packet → List Lookup
  | [] => []
  | p :: rest => r.lookup p :: (r.next p).lookups rest

/-- What the requests have memory do, one after the other. -/
def log (r : Recency) : List Packet → List (MemoryOp × BlockNumber)
  | [] => []
  | p :: rest => r.traffic p ++ (r.next p).log rest

theorem after_append (r : Recency) (xs : List Packet) (p : Packet) :
    r.after (xs ++ [p]) = (r.after xs).next p := by simp [after]

theorem lookups_append (r : Recency) (xs : List Packet) (p : Packet) :
    r.lookups (xs ++ [p]) = r.lookups xs ++ [(r.after xs).lookup p] := by
  induction xs generalizing r with
  | nil => rfl
  | cons x xs ih =>
    rw [List.cons_append, lookups, lookups, ih, List.cons_append]
    rfl

theorem log_append (r : Recency) (xs : List Packet) (p : Packet) :
    r.log (xs ++ [p]) = r.log xs ++ (r.after xs).traffic p := by
  induction xs generalizing r with
  | nil => exact List.append_nil _
  | cons x xs ih =>
    rw [List.cons_append, log, log, ih, List.append_assoc]
    rfl

theorem sets_after (r : Recency) (xs : List Packet) : (r.after xs).sets = r.sets := by
  induction xs generalizing r with
  | nil => rfl
  | cons x xs ih =>
    refine (ih (r.next x)).trans ?_
    unfold next
    split <;> rfl

theorem next_other (r : Recency) {p : Packet} (h : p.kind = .other) :
    r.next p = r ∧ r.lookup p = .bypass ∧ r.traffic p = [] :=
  ⟨if_pos h, if_pos h, if_pos h⟩

end Recency

/-! ## One set -/

/-- What the lists keep of a line. -/
def Line.entry (l : Line) : BlockNumber × Bool := (l.tag, l.dirty)

namespace Grid

/-- A block that a line of the set holds is listed, with that line's mark. -/
theorem Ranked.access_hit {g : Grid} {set way : Nat} {lines : List Line} {b : BlockNumber}
    (h : g.Ranked set lines) (hg : g.Sound) (hc : g.Has set way)
    (hh : (g.cell set way).holds b = true) (write : Bool) :
    Recency.access g.ways (lines.map Line.entry) b write =
      ⟨.hit, [], (b, (g.cell set way).dirty || write) ::
        (lines.erase (g.cell set way)).map Line.entry⟩ := by
  obtain ⟨hv, ht⟩ := holds_iff.mp hh
  have hmem : g.cell set way ∈ lines := h.mem_iff.mpr ⟨way, hc.2, rfl, hv⟩
  have hself : ∀ k ∈ lines, k.tag = b → k = g.cell set way := fun k hk hkt =>
    h.eq_of_tag hg hc.1 hk hmem (hkt.trans ht.symm)
  have hlookup : (lines.map Line.entry).lookup b = some (g.cell set way).dirty := by
    obtain ⟨before, rest, rfl⟩ := List.append_of_mem hmem
    refine List.lookup_eq_some_iff.mpr ⟨before.map Line.entry, rest.map Line.entry, ?_, ?_⟩
    · rw [List.map_append, List.map_cons, Line.entry, ht]
    · intro e he
      obtain ⟨k, hk, rfl⟩ := List.mem_map.mp he
      refine bne_iff_ne.mpr fun hkt => ?_
      have hsame := hself k (List.mem_append_left _ hk) hkt.symm
      have hlt := (List.pairwise_append.mp h.recent).2.2 k hk (g.cell set way) List.mem_cons_self
      rw [hsame] at hlt
      exact Nat.lt_irrefl _ hlt
  have hfilter : (lines.map Line.entry).filter (fun e => e.1 ≠ b) =
      (lines.erase (g.cell set way)).map Line.entry := by
    rw [h.nodup.erase_eq_filter, List.filter_map]
    refine congrArg _ (List.filter_congr fun k hk => ?_)
    by_cases hkt : k.tag = b
    · rw [hself k hk hkt]
      simp [Line.entry, ht]
    · have hne : k ≠ g.cell set way := fun he => hkt (by rw [he]; exact ht)
      simp [Line.entry, hkt, hne]
  rw [Recency.access, hlookup]
  simp only [hfilter]

/-- A block that no line of the set holds is not listed; what goes for it is what the line given up by
the least recently used policy held. -/
theorem Ranked.access_miss {g : Grid} {set : Nat} {lines : List Line} {b : BlockNumber} {l : Line}
    (h : g.Ranked set lines) (absent : ∀ w, w < g.ways → (g.cell set w).holds b = false)
    (hl : g.cell set (Replacement.victim (g.row set)) = l) (write : Bool) :
    Recency.access g.ways (lines.map Line.entry) b write =
      ⟨.miss, (.fetch, b) :: if l.valid && l.dirty then [(.writeback, l.tag)] else [],
        (b, write) :: (lines.erase l).map Line.entry⟩ := by
  have hlookup : (lines.map Line.entry).lookup b = none := by
    refine List.lookup_eq_none_iff.mpr fun e he => ?_
    obtain ⟨k, hk, rfl⟩ := List.mem_map.mp he
    obtain ⟨w, hw, rfl, hv⟩ := h.mem_iff.mp hk
    refine bne_iff_ne.mpr fun hb => ?_
    have := absent w hw
    rw [holds_iff.mpr ⟨hv, hb.symm⟩] at this
    cases this
  rw [Recency.access, hlookup, List.length_map]
  by_cases room : lines.length < g.ways
  · obtain ⟨hv, herase⟩ := h.victim_room room
    rw [hl] at hv herase
    simp only [if_pos room, hv, herase, Bool.false_and, Bool.false_eq_true, if_false]
  · obtain ⟨hv, hlast, herase⟩ := h.victim_last room
    rw [hl] at hv hlast herase
    have hevicted : ((lines.map Line.entry).getLast?.filter (·.2)).toList.map
        (fun e => (MemoryOp.writeback, e.1)) = if l.dirty then [(.writeback, l.tag)] else [] := by
      rw [List.getLast?_map, hlast]
      cases hd : l.dirty <;> simp [Line.entry, Option.filter, hd]
    simp only [if_neg room, hevicted, hv, herase, Bool.true_and, List.map_dropLast]

end Grid

end WritebackCache
