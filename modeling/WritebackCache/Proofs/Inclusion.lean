import Mathlib.Data.List.Nodup
import WritebackCache.Proofs.Recency

/-! More ways never hurt. Of two caches with the same sets, the one with more ways holds in each set
what the other holds, and further blocks behind that in the order of their last use; an access puts
its block in front of both lists, so it stays so. What the smaller cache hits, the larger one hits.
Writebacks are paid for in advance: a block that is dirty in the larger cache only was written back
by the smaller one before it came to be so, and the larger one owes that writeback until it makes
it. -/

namespace WritebackCache

namespace Recency

/-- The blocks of a list. -/
def blocks (row : List (BlockNumber × Bool)) : List BlockNumber := row.map Prod.fst

/-- The block that an access has written back. -/
def evicted (ways : Nat) (row : List (BlockNumber × Bool)) (b : BlockNumber) : Option BlockNumber :=
  if b ∉ blocks row ∧ ways ≤ row.length then (row.getLast?.filter (·.2)).map Prod.fst else none

/-- A list that a set with that many ways can have. -/
structure Proper (ways : Nat) (row : List (BlockNumber × Bool)) : Prop where
  nodup : (blocks row).Nodup
  fits : row.length ≤ ways

variable {ways : Nat} {row : List (BlockNumber × Bool)} {b k : BlockNumber} {write : Bool}

theorem mem_blocks : b ∈ blocks row ↔ ∃ dirty, (b, dirty) ∈ row := by simp [blocks]

theorem lookup_eq_none : row.lookup b = none ↔ b ∉ blocks row := by
  simp only [List.lookup_eq_none_iff, mem_blocks, bne_iff_ne]
  constructor
  · rintro h ⟨dirty, mem⟩
    exact h _ mem rfl
  · rintro h ⟨_, dirty⟩ mem rfl
    exact h ⟨dirty, mem⟩

theorem Proper.eq_of_mem (h : Proper ways row) {d d' : Bool} (mem : (b, d) ∈ row)
    (mem' : (b, d') ∈ row) : d = d' :=
  congrArg Prod.snd (List.inj_on_of_nodup_map h.nodup mem mem' rfl)

theorem mem_of_lookup {d : Bool} (h : row.lookup b = some d) : (b, d) ∈ row := by
  obtain ⟨before, after, rfl, _⟩ := List.lookup_eq_some_iff.mp h
  simp

/-- The list of a block that was listed. -/
theorem access_listed {d : Bool} (h : row.lookup b = some d) : access ways row b write =
    ⟨.hit, [], (b, d || write) :: row.filter fun e => decide (e.1 ≠ b)⟩ := by
  rw [access, h]

theorem access_room (absent : b ∉ blocks row) (room : row.length < ways) :
    access ways row b write = ⟨.miss, [(.fetch, b)], (b, write) :: row⟩ := by
  rw [access, lookup_eq_none.mpr absent]
  exact if_pos room

theorem access_full (absent : b ∉ blocks row) (full : ¬ row.length < ways) :
    access ways row b write =
      ⟨.miss, (.fetch, b) :: (row.getLast?.filter (·.2)).toList.map fun e => (.writeback, e.1),
        (b, write) :: row.dropLast⟩ := by
  rw [access, lookup_eq_none.mpr absent]
  exact if_neg full

/-- An access puts its block in front, as dirty as it was or as it is written, and leaves of the
others as many as there is room for. -/
theorem Proper.row_access (h : Proper ways row) (b : BlockNumber) (write : Bool) :
    ∃ dirty rest, (access ways row b write).row = (b, dirty) :: rest ∧
      (dirty = true ↔ (b, true) ∈ row ∨ write = true) ∧ rest.Sublist row ∧
      blocks rest = ((blocks row).erase b).take (ways - 1) := by
  have length : (blocks row).length = row.length := List.length_map _
  have fits := h.fits
  cases listed : row.lookup b with
  | some d =>
    have mem := mem_of_lookup listed
    have erased := List.length_erase_of_mem (mem_blocks.mpr ⟨d, mem⟩)
    have same : (b, true) ∈ row ↔ true = d := ⟨fun dirty => h.eq_of_mem dirty mem, fun he => he ▸ mem⟩
    rw [access_listed listed]
    refine ⟨_, _, rfl, ?_, List.filter_sublist, ?_⟩
    · rw [same, Bool.or_eq_true, eq_comm]
    · rw [List.take_of_length_le (by omega), h.nodup.erase_eq_filter, blocks, blocks, List.filter_map]
      exact congrArg _ (List.filter_congr fun e _ => by by_cases he : e.1 = b <;> simp [he])
  | none =>
    have absent := lookup_eq_none.mp listed
    have nowhere : (b, true) ∉ row := fun mem => absent (mem_blocks.mpr ⟨true, mem⟩)
    rw [List.erase_of_not_mem absent]
    by_cases room : row.length < ways
    · rw [access_room absent room]
      exact ⟨_, _, rfl, by simp [nowhere], List.Sublist.refl row,
        (List.take_of_length_le (by omega)).symm⟩
    · rw [access_full absent room]
      refine ⟨_, _, rfl, by simp [nowhere], List.dropLast_sublist row, ?_⟩
      rw [blocks, List.map_dropLast, List.dropLast_eq_take, List.length_map,
        show row.length - 1 = ways - 1 by omega]
      rfl

theorem Proper.blocks_access (h : Proper ways row) (pos : 0 < ways) (b : BlockNumber) (write : Bool) :
    blocks (access ways row b write).row = (b :: (blocks row).erase b).take ways := by
  obtain ⟨dirty, rest, front, _, _, others⟩ := h.row_access b write
  obtain ⟨n, rfl⟩ := Nat.exists_eq_succ_of_ne_zero (Nat.pos_iff_ne_zero.mp pos)
  rw [front, List.take_succ_cons]
  exact congrArg _ others

theorem Proper.access (h : Proper ways row) (pos : 0 < ways) (b : BlockNumber) (write : Bool) :
    Proper ways (access ways row b write).row := by
  have front := h.blocks_access pos b write
  refine ⟨?_, ?_⟩
  · rw [front]
    have distinct : (b :: (blocks row).erase b).Nodup :=
      List.nodup_cons.mpr ⟨h.nodup.not_mem_erase, h.nodup.erase b⟩
    exact distinct.sublist (List.take_sublist _ _)
  · have length := congrArg List.length front
    rw [blocks, List.length_map] at length
    rw [length]
    exact List.length_take_le _ _

theorem Proper.front_access (h : Proper ways row) (b : BlockNumber) (write : Bool) :
    b ∈ blocks (Recency.access ways row b write).row := by
  obtain ⟨_, _, front, _⟩ := h.row_access b write
  rw [front]
  exact List.mem_cons_self

/-- A block is dirty after an access if it is still listed and was dirty before or is written. -/
theorem Proper.dirty_access (h : Proper ways row) :
    (k, true) ∈ (Recency.access ways row b write).row ↔
      k ∈ blocks (Recency.access ways row b write).row ∧ ((k, true) ∈ row ∨ k = b ∧ write = true) := by
  obtain ⟨dirty, rest, front, flag, sublist, others⟩ := h.row_access b write
  rw [front]
  by_cases first : k = b
  · subst first
    have absent : (k, true) ∉ rest := fun mem => by
      have listed := mem_blocks.mpr ⟨true, mem⟩
      rw [others] at listed
      exact h.nodup.not_mem_erase (List.mem_of_mem_take listed)
    simp [absent, eq_comm, flag, blocks]
  · constructor
    · intro mem
      have later : (k, true) ∈ rest :=
        (List.mem_cons.mp mem).resolve_left fun he => first (congrArg Prod.fst he)
      exact ⟨mem_blocks.mpr ⟨true, mem⟩, .inl (sublist.subset later)⟩
    · rintro ⟨still, before⟩
      obtain ⟨d, mem⟩ := mem_blocks.mp still
      have later : (k, d) ∈ rest :=
        (List.mem_cons.mp mem).resolve_left fun he => first (congrArg Prod.fst he)
      have before : (k, true) ∈ row := before.resolve_right fun written => first written.1
      rw [h.eq_of_mem before (sublist.subset later)]
      exact mem

/-- An access to a block that is listed, or for which there is room, makes nothing go. -/
theorem Proper.stays_listed (h : Proper ways row) (pos : 0 < ways) (write : Bool)
    (stays : ¬ (b ∉ blocks row ∧ ways ≤ row.length)) (mem : k ∈ blocks row) :
    k ∈ blocks (Recency.access ways row b write).row := by
  have length : (blocks row).length = row.length := List.length_map _
  have fits := h.fits
  have room : (b :: (blocks row).erase b).length ≤ ways := by
    rw [List.length_cons]
    by_cases listed : b ∈ blocks row
    · have positive := List.length_pos_of_mem listed
      have erased := List.length_erase_of_mem listed
      omega
    · rw [List.erase_of_not_mem listed]
      have short : ¬ ways ≤ row.length := fun full => stays ⟨listed, full⟩
      omega
  rw [h.blocks_access pos, List.take_of_length_le room]
  by_cases first : k = b
  · rw [first]
    exact List.mem_cons_self
  · exact .tail _ ((List.mem_erase_of_ne first).mpr mem)

/-- What is written back is the dirty block that is listed no longer. -/
theorem Proper.evicted_iff (h : Proper ways row) (pos : 0 < ways) (write : Bool) :
    evicted ways row b = some k ↔
      (k, true) ∈ row ∧ k ∉ blocks (Recency.access ways row b write).row := by
  by_cases goes : b ∉ blocks row ∧ ways ≤ row.length
  · obtain ⟨absent, full⟩ := goes
    rw [evicted, if_pos ⟨absent, full⟩, access_full absent (Nat.not_lt_of_le full)]
    rcases List.eq_nil_or_concat' row with rfl | ⟨kept, ⟨last, dirty⟩, rfl⟩
    · exact absurd full (Nat.not_le_of_lt pos)
    · have distinct : ∀ d, (last, d) ∉ kept := by
        have nodup := h.nodup
        rw [blocks, List.map_append, List.nodup_append] at nodup
        exact fun d mem => nodup.2.2 last (mem_blocks.mpr ⟨d, mem⟩) last List.mem_cons_self rfl
      rw [List.dropLast_concat, List.getLast?_concat]
      constructor
      · intro victim
        cases dirty with
        | false => cases victim
        | true =>
          cases victim
          refine ⟨by simp, fun still => ?_⟩
          rcases List.mem_cons.mp still with rfl | still
          · exact absent (mem_blocks.mpr ⟨true, by simp⟩)
          · obtain ⟨d, mem⟩ := mem_blocks.mp still
            exact distinct d mem
      · rintro ⟨mem, gone⟩
        rcases List.mem_append.mp mem with mem | mem
        · exact (gone (.tail _ (mem_blocks.mpr ⟨true, mem⟩))).elim
        · cases List.mem_singleton.mp mem
          rfl
  · rw [evicted, if_neg goes]
    constructor
    · intro victim
      cases victim
    · rintro ⟨mem, gone⟩
      exact (gone (h.stays_listed pos write goes (mem_blocks.mpr ⟨true, mem⟩))).elim

theorem access_lookup : (access ways row b write).lookup = if b ∈ blocks row then .hit else .miss := by
  cases listed : row.lookup b with
  | some d => rw [access_listed listed, if_pos (mem_blocks.mpr ⟨d, mem_of_lookup listed⟩)]
  | none =>
    have absent := lookup_eq_none.mp listed
    rw [if_neg absent]
    by_cases room : row.length < ways
    · rw [access_room absent room]
    · rw [access_full absent room]

theorem access_traffic : (access ways row b write).traffic =
    (if b ∈ blocks row then [] else [(.fetch, b)]) ++
      (evicted ways row b).toList.map fun k => (.writeback, k) := by
  cases listed : row.lookup b with
  | some d =>
    have mem := mem_blocks.mpr ⟨d, mem_of_lookup listed⟩
    rw [access_listed listed, if_pos mem, evicted, if_neg fun h => h.1 mem]
    rfl
  | none =>
    have absent := lookup_eq_none.mp listed
    rw [if_neg absent]
    by_cases room : row.length < ways
    · rw [access_room absent room, evicted, if_neg fun h => Nat.not_le_of_lt room h.2]
      rfl
    · rw [access_full absent room, evicted, if_pos ⟨absent, Nat.le_of_not_lt room⟩]
      cases row.getLast?.filter (·.2) <;> rfl

/-! ## One set with fewer and with more ways -/

/-- The list of the set with fewer ways is the front of the other, and what is dirty in it is dirty
there. -/
structure Within (ways ways' : Nat) (small big : List (BlockNumber × Bool)) : Prop where
  front : blocks small = (blocks big).take ways
  proper : Proper ways' big
  dirty : ∀ k, (k, true) ∈ small → (k, true) ∈ big

/-- A block taken out of the front of a list makes room for the one behind it. -/
theorem take_erase (l : List BlockNumber) (b : BlockNumber) (n : Nat) :
    ((l.take (n + 1)).erase b).take n = (l.erase b).take n := by
  induction l generalizing n with
  | nil => simp
  | cons a l ih =>
    rw [List.take_succ_cons]
    by_cases here : a = b
    · subst here
      rw [List.erase_cons_head, List.erase_cons_head, List.take_take, Nat.min_self]
    · rw [List.erase_cons_tail (by simpa using here), List.erase_cons_tail (by simpa using here)]
      cases n with
      | zero => rfl
      | succ n => rw [List.take_succ_cons, List.take_succ_cons, ih]

namespace Within

variable {ways ways' : Nat} {small big : List (BlockNumber × Bool)} {b k : BlockNumber}

theorem proper_front (h : Within ways ways' small big) : Proper ways small := by
  refine ⟨?_, ?_⟩
  · rw [h.front]
    exact h.proper.nodup.sublist (List.take_sublist _ _)
  · have length := congrArg List.length h.front
    rw [blocks, List.length_map] at length
    rw [length]
    exact List.length_take_le _ _

theorem listed (h : Within ways ways' small big) (mem : k ∈ blocks small) : k ∈ blocks big := by
  rw [h.front] at mem
  exact List.mem_of_mem_take mem

/-- An access keeps the one list in front of the other. -/
theorem access (h : Within ways ways' small big) (pos : 0 < ways) (more : ways ≤ ways')
    (b : BlockNumber) (write : Bool) :
    Within ways ways' (access ways small b write).row (access ways' big b write).row := by
  have pos' : 0 < ways' := Nat.lt_of_lt_of_le pos more
  have front : blocks (Recency.access ways small b write).row =
      (blocks (Recency.access ways' big b write).row).take ways := by
    rw [h.proper_front.blocks_access pos, h.proper.blocks_access pos', h.front, List.take_take,
      Nat.min_eq_left more]
    obtain ⟨n, rfl⟩ := Nat.exists_eq_succ_of_ne_zero (Nat.pos_iff_ne_zero.mp pos)
    rw [List.take_succ_cons, List.take_succ_cons, take_erase]
  refine ⟨front, h.proper.access pos' b write, fun k mem => ?_⟩
  obtain ⟨still, dirty⟩ := (h.proper_front.dirty_access).mp mem
  rw [front] at still
  exact (h.proper.dirty_access).mpr
    ⟨List.mem_of_mem_take still, dirty.imp_left (h.dirty k)⟩

/-- What the larger set writes back was dirty there only, or is written back by the smaller one as
well. -/
theorem evicted (h : Within ways ways' small big) (pos : 0 < ways) (more : ways ≤ ways')
    (victim : evicted ways' big b = some k) :
    ((k, true) ∈ big ∧ (k, true) ∉ small) ∨ Recency.evicted ways small b = some k := by
  obtain ⟨dirty, gone⟩ := (h.proper.evicted_iff (Nat.lt_of_lt_of_le pos more) false).mp victim
  -- the smaller set has no room for what the larger one gives up
  by_cases mem : (k, true) ∈ small
  · exact .inr ((h.proper_front.evicted_iff pos false).mpr
      ⟨mem, fun still => gone ((h.access pos more b false).listed still)⟩)
  · exact .inl ⟨dirty, mem⟩

/-- What is dirty in the larger set only was so before, or has just been written back by the smaller
one; and the larger one has not written it back. -/
theorem owed (h : Within ways ways' small big) (pos : 0 < ways) (more : ways ≤ ways') {write : Bool}
    (dirty : (k, true) ∈ (Recency.access ways' big b write).row)
    (clean : (k, true) ∉ (Recency.access ways small b write).row) :
    Recency.evicted ways' big b ≠ some k ∧
      (((k, true) ∈ big ∧ (k, true) ∉ small) ∨ Recency.evicted ways small b = some k) := by
  have pos' : 0 < ways' := Nat.lt_of_lt_of_le pos more
  obtain ⟨still, before⟩ := (h.proper.dirty_access).mp dirty
  refine ⟨fun victim => ((h.proper.evicted_iff pos' write).mp victim).2 still, ?_⟩
  rcases before with before | written
  · by_cases mem : (k, true) ∈ small
    · refine .inr ((h.proper_front.evicted_iff pos write).mpr ⟨mem, fun kept => ?_⟩)
      exact clean ((h.proper_front.dirty_access).mpr ⟨kept, .inl mem⟩)
    · exact .inl ⟨before, mem⟩
  · -- a block that is written is dirty in front of both lists
    refine (clean ((h.proper_front.dirty_access).mpr ⟨?_, .inr written⟩)).elim
    rw [written.1]
    exact h.proper_front.front_access b write

/-- The larger set's writeback is struck from what is owed, once that of the smaller one was added.
-/
theorem pays (h : Within ways ways' small big) (pos : 0 < ways) (more : ways ≤ ways') {set : Nat}
    {debt : List (Nat × BlockNumber)}
    (owes : ∀ k, (k, true) ∈ big → (k, true) ∉ small → (set, k) ∈ debt) (b : BlockNumber)
    (write : Bool) : ∃ left : List (Nat × BlockNumber),
      (Recency.evicted ways' big b).toList.length + left.length ≤
        (Recency.evicted ways small b).toList.length + debt.length ∧
      (∀ k, (k, true) ∈ (Recency.access ways' big b write).row →
        (k, true) ∉ (Recency.access ways small b write).row → (set, k) ∈ left) ∧
      ∀ x ∈ debt, x.1 ≠ set → x ∈ left := by
  let added := (Recency.evicted ways small b).toList.map fun k => (set, k)
  have known : ∀ k, ((k, true) ∈ big ∧ (k, true) ∉ small) ∨ Recency.evicted ways small b = some k →
      (set, k) ∈ added ++ debt := by
    rintro k (⟨dirty, clean⟩ | victim)
    · exact List.mem_append_right _ (owes k dirty clean)
    · exact List.mem_append_left _ (List.mem_map.mpr ⟨k, by rw [victim]; simp, rfl⟩)
  have length : (added ++ debt).length =
      (Recency.evicted ways small b).toList.length + debt.length := by
    rw [List.length_append, List.length_map]
  cases victim : Recency.evicted ways' big b with
  | none =>
    refine ⟨added ++ debt, ?_, fun k dirty clean => ?_, fun x mem _ => List.mem_append_right _ mem⟩
    · rw [length]
      exact Nat.le_of_eq (Nat.zero_add _)
    · exact known k (h.owed pos more dirty clean).2
  | some v =>
    have mem : (set, v) ∈ added ++ debt := known v (h.evicted pos more victim)
    refine ⟨(added ++ debt).erase (set, v), ?_, fun k dirty clean => ?_, fun x mem other => ?_⟩
    · have positive := List.length_pos_of_mem mem
      rw [List.length_erase_of_mem mem, ← length]
      exact Nat.le_of_eq (Nat.add_sub_cancel' positive)
    · obtain ⟨unpaid, before⟩ := h.owed pos more dirty clean
      refine (List.mem_erase_of_ne fun same => unpaid ?_).mpr (known k before)
      rw [victim, (Prod.mk.inj same).2]
    · exact (List.mem_erase_of_ne fun same => other (by rw [same])).mpr (List.mem_append_right _ mem)

end Within

/-! ## All sets -/

/-- The cache with fewer ways is part of the one with more. -/
structure Includes (small big : Recency) : Prop where
  sets : small.sets = big.sets
  pos : 0 < small.ways
  more : small.ways ≤ big.ways
  rows : ∀ set, Within small.ways big.ways (small.rows set) (big.rows set)

/-- The writebacks that the larger cache has still to make and the smaller one has made. -/
def Owes (small big : Recency) (debt : List (Nat × BlockNumber)) : Prop :=
  ∀ set k, (k, true) ∈ big.rows set → (k, true) ∉ small.rows set → (set, k) ∈ debt

/-- How often memory is made to do something. -/
def times (op : MemoryOp) (traffic : List (MemoryOp × BlockNumber)) : Nat :=
  traffic.countP fun e => decide (e.1 = op)

theorem times_access (ways : Nat) (row : List (BlockNumber × Bool)) (b : BlockNumber) (write : Bool) :
    times .fetch (access ways row b write).traffic = (if b ∈ blocks row then 0 else 1) ∧
      times .writeback (access ways row b write).traffic = (evicted ways row b).toList.length := by
  rw [access_traffic]
  constructor
  · split <;> cases evicted ways row b <;> simp [times]
  · split <;> cases evicted ways row b <;> simp [times]

namespace Includes

variable {small big : Recency} {debt : List (Nat × BlockNumber)}

theorem setOf (h : Includes small big) (b : BlockNumber) : small.setOf b = big.setOf b := by
  rw [Recency.setOf, Recency.setOf, h.sets]

/-- Both accesses of a request, each to the list of its cache. -/
theorem accessed (h : Includes small big) (p : Packet) :
    small.accessed p = access small.ways (small.rows (big.setOf p.block)) p.block p.isWrite ∧
      big.accessed p = access big.ways (big.rows (big.setOf p.block)) p.block p.isWrite :=
  ⟨by rw [Recency.accessed, h.setOf], rfl⟩

/-- A request replaces the list of its set in both caches. -/
theorem rows_next (h : Includes small big) {p : Packet} (kind : p.kind ≠ .other) (set : Nat) :
    (small.next p).rows set = (if set = big.setOf p.block then
        (access small.ways (small.rows (big.setOf p.block)) p.block p.isWrite).row
      else small.rows set) ∧
    (big.next p).rows set = (if set = big.setOf p.block then
        (access big.ways (big.rows (big.setOf p.block)) p.block p.isWrite).row
      else big.rows set) := by
  obtain ⟨first, second⟩ := h.accessed p
  rw [← first, ← second, Recency.next, Recency.next, if_neg kind, if_neg kind, ← h.setOf]
  exact ⟨rfl, rfl⟩

theorem next (h : Includes small big) (p : Packet) : Includes (small.next p) (big.next p) := by
  by_cases kind : p.kind = .other
  · rw [(small.next_other kind).1, (big.next_other kind).1]
    exact h
  · have dims (r : Recency) : (r.next p).sets = r.sets ∧ (r.next p).ways = r.ways := by
      rw [Recency.next, if_neg kind]
      exact ⟨rfl, rfl⟩
    refine ⟨?_, ?_, ?_, fun set => ?_⟩
    · rw [(dims small).1, (dims big).1, h.sets]
    · rw [(dims small).2]
      exact h.pos
    · rw [(dims small).2, (dims big).2]
      exact h.more
    rw [(dims small).2, (dims big).2, (h.rows_next kind set).1, (h.rows_next kind set).2]
    split
    · exact (h.rows _).access h.pos h.more p.block p.isWrite
    · exact h.rows set

theorem hit (h : Includes small big) {p : Packet} (hit : small.lookup p = .hit) :
    big.lookup p = .hit := by
  by_cases kind : p.kind = .other
  · rw [(small.next_other kind).2.1] at hit
    cases hit
  · obtain ⟨first, second⟩ := h.accessed p
    rw [Recency.lookup, if_neg kind, first, access_lookup] at hit
    rw [Recency.lookup, if_neg kind, second, access_lookup]
    split at hit
    · next mem => exact if_pos ((h.rows _).listed mem)
    · cases hit

/-- The larger cache fetches no block that the smaller one does not. -/
theorem fetches (h : Includes small big) (p : Packet) :
    times .fetch (big.traffic p) ≤ times .fetch (small.traffic p) := by
  by_cases kind : p.kind = .other
  · exact Nat.le_of_eq (by rw [(small.next_other kind).2.2, (big.next_other kind).2.2])
  · obtain ⟨first, second⟩ := h.accessed p
    rw [Recency.traffic, Recency.traffic, if_neg kind, if_neg kind, first, second,
      (times_access _ _ _ _).1, (times_access _ _ _ _).1]
    split
    · exact Nat.zero_le _
    · next absent => exact Nat.le_of_eq (if_neg fun mem => absent ((h.rows _).listed mem)).symm

/-- A writeback of the smaller cache adds to what the larger one owes, and one of the larger cache
is paid for by what it owes. -/
theorem pays (h : Includes small big) (owes : Owes small big debt) (p : Packet) :
    ∃ left, Owes (small.next p) (big.next p) left ∧
      times .writeback (big.traffic p) + left.length ≤
        times .writeback (small.traffic p) + debt.length := by
  by_cases kind : p.kind = .other
  · rw [(small.next_other kind).1, (big.next_other kind).1, (small.next_other kind).2.2,
      (big.next_other kind).2.2]
    exact ⟨debt, owes, Nat.le_refl _⟩
  · obtain ⟨first, second⟩ := h.accessed p
    rw [Recency.traffic, Recency.traffic, if_neg kind, if_neg kind, first, second,
      (times_access _ _ _ _).2, (times_access _ _ _ _).2]
    obtain ⟨left, length, here, there⟩ := (h.rows (big.setOf p.block)).pays h.pos h.more
      (owes (big.setOf p.block)) p.block p.isWrite
    refine ⟨left, fun set k dirty clean => ?_, length⟩
    rw [(h.rows_next kind set).2] at dirty
    rw [(h.rows_next kind set).1] at clean
    split at dirty
    · next home =>
      subst home
      rw [if_pos rfl] at clean
      exact here k dirty clean
    · next other =>
      rw [if_neg other] at clean
      exact there (set, k) (owes set k dirty clean) other

/-! ## Whole traces -/

theorem after (h : Includes small big) (requests : List Packet) :
    Includes (small.after requests) (big.after requests) := by
  induction requests generalizing small big with
  | nil => exact h
  | cons p rest ih => exact ih (h.next p)

theorem hits (h : Includes small big) (requests : List Packet) (i : Nat)
    (hit : (small.lookups requests)[i]? = some .hit) : (big.lookups requests)[i]? = some .hit := by
  induction requests generalizing small big i with
  | nil => cases hit
  | cons p rest ih =>
    rw [lookups] at hit ⊢
    cases i with
    | zero => exact congrArg some (h.hit (Option.some.inj hit))
    | succ i => exact ih (h.next p) i hit

theorem fetches_log (h : Includes small big) (requests : List Packet) :
    times .fetch (big.log requests) ≤ times .fetch (small.log requests) := by
  induction requests generalizing small big with
  | nil => exact Nat.le_refl _
  | cons p rest ih =>
    rw [log, log, times, times, List.countP_append, List.countP_append]
    exact Nat.add_le_add (h.fetches p) (ih (h.next p))

theorem writebacks_log (h : Includes small big) (owes : Owes small big debt) (requests : List Packet) :
    times .writeback (big.log requests) ≤ times .writeback (small.log requests) + debt.length := by
  induction requests generalizing small big debt with
  | nil => exact Nat.zero_le _
  | cons p rest ih =>
    obtain ⟨left, owes', paid⟩ := h.pays owes p
    have later := ih (h.next p) owes'
    rw [log, log, times, times, List.countP_append, List.countP_append]
    show times _ _ + times _ _ ≤ times _ _ + times _ _ + _
    omega

end Includes

end Recency

end WritebackCache
