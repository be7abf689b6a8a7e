import Mathlib.Data.List.Nodup
import WritebackCache.Proofs.GridMap
import WritebackCache.Proofs.Victim

/-! The valid lines of a set by recency, the one used last in front. Stamps are unique, so there is one
such order. Using a line moves it to the front, whatever was in its place before. The least recently
used policy takes a way that holds nothing as long as there is one, and after that the way of the last
line of the order. -/

namespace WritebackCache

namespace Grid

/-- The valid lines of a set, the most recently used first. -/
structure Ranked (g : Grid) (set : Nat) (lines : List Line) : Prop where
  perm : lines.Perm ((g.row set).filter (·.valid))
  recent : lines.Pairwise fun a b => b.lastUse < a.lastUse

theorem mem_row {g : Grid} {set : Nat} {l : Line} :
    l ∈ g.row set ↔ ∃ w, w < g.ways ∧ g.cell set w = l := by
  simp [row]

theorem Ranked.mem_iff {g : Grid} {set : Nat} {lines : List Line} (h : g.Ranked set lines) {l : Line} :
    l ∈ lines ↔ ∃ w, w < g.ways ∧ g.cell set w = l ∧ l.valid = true := by
  rw [h.perm.mem_iff, List.mem_filter, mem_row]
  constructor
  · rintro ⟨⟨w, hw, hl⟩, hv⟩
    exact ⟨w, hw, hl, hv⟩
  · rintro ⟨w, hw, hl, hv⟩
    exact ⟨⟨w, hw, hl⟩, hv⟩

theorem Ranked.nodup {g : Grid} {set : Nat} {lines : List Line} (h : g.Ranked set lines) :
    lines.Nodup :=
  h.recent.imp fun hlt he => by rw [he] at hlt; exact Nat.lt_irrefl _ hlt

/-- No two lines of the order hold the same block. -/
theorem Ranked.eq_of_tag {g : Grid} {set : Nat} {lines : List Line} (h : g.Ranked set lines)
    (hg : g.Sound) (hs : set < g.sets) {l k : Line} (hl : l ∈ lines) (hk : k ∈ lines)
    (ht : l.tag = k.tag) : l = k := by
  obtain ⟨w, hw, rfl, hv⟩ := h.mem_iff.mp hl
  obtain ⟨w', hw', rfl, hv'⟩ := h.mem_iff.mp hk
  rw [hg.once ⟨hs, hw⟩ ⟨hs, hw'⟩ hv hv' ht]

/-- The valid lines of a set sorted by their last use, the latest first. -/
def byRecency (g : Grid) (set : Nat) : List Line :=
  ((g.row set).filter (·.valid)).mergeSort fun a b => decide (b.lastUse ≤ a.lastUse)

/-- Sorting the lines of a set gives their order. -/
theorem Ranked.byRecency_eq {g : Grid} {set : Nat} {lines : List Line} (h : g.Ranked set lines) :
    g.byRecency set = lines := by
  have hsorted : (g.byRecency set).Pairwise fun a b => decide (b.lastUse ≤ a.lastUse) = true := by
    refine @List.pairwise_mergeSort _ (fun a b : Line => decide (b.lastUse ≤ a.lastUse)) ?_ ?_ _
    · intro a b c hab hbc
      rw [decide_eq_true_iff] at *
      exact Nat.le_trans hbc hab
    · intro a b
      rw [Bool.or_eq_true, decide_eq_true_iff, decide_eq_true_iff]
      exact Nat.le_total _ _
  have hperm : (g.byRecency set).Perm lines := (List.mergeSort_perm _ _).trans h.perm.symm
  have hstamps : (lines.map Line.lastUse).Nodup :=
    List.pairwise_map.mpr (h.recent.imp fun hlt => Nat.ne_of_gt hlt)
  refine List.Perm.eq_of_pairwise ?_ hsorted
    (h.recent.imp fun hlt => decide_eq_true (Nat.le_of_lt hlt)) hperm
  intro a b ha hb hab hba
  rw [decide_eq_true_iff] at hab hba
  exact List.inj_on_of_nodup_map hstamps (hperm.subset ha) hb (Nat.le_antisymm hba hab)

/-- A grid that holds nothing has nothing to order. -/
theorem ranked_build {sets ways : Nat} {g : Grid} (h : build sets ways = .ok g) (set : Nat) :
    g.Ranked set [] := by
  have hnone : (g.row set).filter (·.valid) = [] := by
    refine List.filter_eq_nil_iff.mpr fun l hl => ?_
    obtain ⟨w, _, rfl⟩ := mem_row.mp hl
    rw [cell_build h]
    exact Bool.false_ne_true
  exact ⟨by rw [hnone], List.Pairwise.nil⟩

/-! ## Using a line -/

/-- A replaced element in a filtered list: the new one joins, the old one leaves. -/
theorem filter_set_perm {α : Type} [DecidableEq α] (p : α → Bool) {xs : List α} {i : Nat} {x y : α}
    (hx : xs[i]? = some x) (hy : p y = true) :
    ((xs.set i y).filter p).Perm (y :: (xs.filter p).erase x) := by
  obtain ⟨hi, rfl⟩ := List.getElem?_eq_some_iff.mp hx
  have hset : xs.set i y = xs.take i ++ y :: xs.drop (i + 1) := by
    rw [List.set_eq_take_append_cons_drop, if_pos hi]
  have hold : xs = xs.take i ++ xs[i] :: xs.drop (i + 1) := by
    rw [← List.drop_eq_getElem_cons hi, List.take_append_drop]
  have hnew : (xs.set i y).filter p = (xs.take i).filter p ++ y :: (xs.drop (i + 1)).filter p := by
    rw [hset, List.filter_append, List.filter_cons_of_pos hy]
  rw [hnew]
  refine List.perm_middle.trans (List.Perm.cons y ?_)
  by_cases hpx : p xs[i] = true
  · have hfilter : xs.filter p = (xs.take i).filter p ++ xs[i] :: (xs.drop (i + 1)).filter p := by
      conv => lhs; rw [hold]
      rw [List.filter_append, List.filter_cons_of_pos hpx]
    rw [hfilter]
    have herase := (@List.perm_middle _ xs[i] ((xs.take i).filter p)
      ((xs.drop (i + 1)).filter p)).erase xs[i]
    rw [List.erase_cons_head] at herase
    exact herase.symm
  · have hfilter : xs.filter p = (xs.take i).filter p ++ (xs.drop (i + 1)).filter p := by
      conv => lhs; rw [hold]
      rw [List.filter_append, List.filter_cons_of_neg hpx]
    have hmem : xs[i] ∉ xs.filter p := fun h => hpx (List.mem_filter.mp h).2
    rw [List.erase_of_not_mem hmem, hfilter]

theorem row_use {g : Grid} {set way : Nat} (l : Line) (h : g.Has set way) :
    (g.use set way l).row set = (g.row set).set way { l with lastUse := g.clock + 1 } := by
  apply List.ext_getElem?
  intro i
  rw [List.getElem?_set, length_row]
  by_cases hi : i < g.ways
  · have hrow : ∀ g' : Grid, i < g'.ways → (g'.row set)[i]? = some (g'.cell set i) :=
      fun g' h => by simp [row, h]
    rw [hrow (g.use set way l) hi, hrow g hi, cell_use l h hi]
    by_cases hw : way = i
    · rw [if_pos ⟨rfl, hw.symm⟩, if_pos hw, if_pos h.2]
    · rw [if_neg fun he => hw he.2.symm, if_neg hw]
  · have hnone : ∀ g' : Grid, ¬ i < g'.ways → (g'.row set)[i]? = none :=
      fun g' h => List.getElem?_eq_none (by rw [length_row]; exact Nat.le_of_not_lt h)
    rw [hnone (g.use set way l) hi, hnone g hi, if_neg fun (he : way = i) => hi (he ▸ h.2)]

theorem row_use_other {g : Grid} {set way s : Nat} (l : Line) (h : g.Has set way) (hs : s ≠ set) :
    (g.use set way l).row s = g.row s :=
  List.map_congr_left fun w hw => by
    rw [cell_use l h (List.mem_range.mp hw), if_neg fun he => hs he.1]

/-- A line that is used goes to the front of its set. -/
theorem Ranked.use {g : Grid} {set way : Nat} {l : Line} {lines : List Line} (h : g.Ranked set lines)
    (hg : g.Sound) (hc : g.Has set way) (hv : l.valid = true) : (g.use set way l).Ranked set
      ({ l with lastUse := g.clock + 1 } :: lines.erase (g.cell set way)) := by
  constructor
  · rw [row_use l hc]
    have hcell : (g.row set)[way]? = some (g.cell set way) := by simp [row, hc.2]
    have hset := @filter_set_perm _ _ (·.valid) _ _ _ { l with lastUse := g.clock + 1 } hcell hv
    exact ((h.perm.erase _).cons _).trans hset.symm
  · refine List.pairwise_cons.mpr ⟨fun k hk => ?_, h.recent.sublist List.erase_sublist⟩
    obtain ⟨w, hw, rfl, hkv⟩ := h.mem_iff.mp (List.mem_of_mem_erase hk)
    exact Nat.lt_succ_of_le (hg.lastUse_le ⟨hc.1, hw⟩ hkv)

theorem Ranked.use_other {g : Grid} {set way s : Nat} {l : Line} {lines : List Line}
    (h : g.Ranked s lines) (hc : g.Has set way) (hs : s ≠ set) : (g.use set way l).Ranked s lines :=
  ⟨by rw [row_use_other l hc hs]; exact h.perm, h.recent⟩

/-! ## Choosing a line -/

/-- There is room in a set as long as one of its lines holds nothing. -/
theorem Ranked.room_iff {g : Grid} {set : Nat} {lines : List Line} (h : g.Ranked set lines) :
    lines.length < g.ways ↔ ∃ l ∈ g.row set, l.valid = false := by
  rw [h.perm.length_eq, ← length_row g set]
  constructor
  · intro hlt
    by_contra hn
    have hall : ∀ l ∈ g.row set, l.valid = true := fun l hl =>
      eq_true_of_ne_false fun hv => hn ⟨l, hl, hv⟩
    rw [List.filter_eq_self.mpr hall] at hlt
    exact Nat.lt_irrefl _ hlt
  · rintro ⟨l, hl, hv⟩
    refine Nat.lt_of_le_of_ne (List.length_filter_le _ _) fun he => ?_
    have := List.length_filter_eq_length_iff.mp he l hl
    rw [hv] at this
    cases this

theorem cell_of_row {g : Grid} {set way : Nat} {l : Line} (h : (g.row set)[way]? = some l) :
    g.cell set way = l := by
  obtain ⟨hlt, hl⟩ := List.getElem?_eq_some_iff.mp h
  rw [← hl, getElem_row]

/-- While there is room, the least recently used policy takes a line that holds nothing. -/
theorem Ranked.victim_room {g : Grid} {set : Nat} {lines : List Line} (h : g.Ranked set lines)
    (room : lines.length < g.ways) :
    (g.cell set (Replacement.victim (g.row set))).valid = false ∧
      lines.erase (g.cell set (Replacement.victim (g.row set))) = lines := by
  obtain ⟨l, hl⟩ := Replacement.victim_free (h.room_iff.mp room)
  rw [cell_of_row hl.there]
  refine ⟨hl.free, List.erase_of_not_mem fun hm => ?_⟩
  obtain ⟨_, _, _, hv⟩ := h.mem_iff.mp hm
  rw [hl.free] at hv
  cases hv

/-- In a full set it takes the last line of the order. -/
theorem Ranked.victim_last {g : Grid} {set : Nat} {lines : List Line} (h : g.Ranked set lines)
    (full : ¬ lines.length < g.ways) :
    (g.cell set (Replacement.victim (g.row set))).valid = true ∧
      lines.getLast? = some (g.cell set (Replacement.victim (g.row set))) ∧
      lines.erase (g.cell set (Replacement.victim (g.row set))) = lines.dropLast := by
  have hall : ∀ l ∈ g.row set, l.valid = true := fun l hl =>
    eq_true_of_ne_false fun hv => full (h.room_iff.mpr ⟨l, hl, hv⟩)
  have hne : g.row set ≠ [] := by
    rw [← List.length_pos_iff, length_row]
    exact g.ways_pos
  obtain ⟨l, hl⟩ := Replacement.victim_full hne hall
  rw [cell_of_row hl.there]
  have hrow := List.mem_of_getElem? hl.there
  have hmem : l ∈ lines := h.perm.mem_iff.mpr (List.mem_filter.mpr ⟨hrow, hall l hrow⟩)
  obtain ⟨init, last, rfl⟩ : ∃ init last, lines = init ++ [last] :=
    ⟨_, _, (List.dropLast_append_getLast (List.ne_nil_of_mem hmem)).symm⟩
  have hlast : last ∈ g.row set :=
    (List.mem_filter.mp (h.perm.mem_iff.mp (List.mem_append_right _ (List.mem_singleton.mpr rfl)))).1
  have hinit : l ∉ init := fun hi => by
    have hlt := (List.pairwise_append.mp h.recent).2.2 l hi last (List.mem_singleton.mpr rfl)
    exact Nat.not_le_of_lt hlt (hl.le last hlast)
  have heq : l = last := by
    rcases List.mem_append.mp hmem with hi | hi
    · exact (hinit hi).elim
    · exact List.mem_singleton.mp hi
  subst heq
  refine ⟨hall l hrow, List.getLast?_concat, ?_⟩
  rw [List.erase_append_right _ hinit, List.erase_cons_head, List.append_nil, List.dropLast_concat]

end Grid

end WritebackCache
