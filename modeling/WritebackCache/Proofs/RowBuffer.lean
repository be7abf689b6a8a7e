import Mathlib.Logic.Basic
import WritebackCache.Latency

/-! Rows of memory. The mask of a row buffer takes an address down to the start of its row, so that two
addresses are told apart by it exactly if they are by a division. Which latencies a sequence of accesses
asks for is then settled by the rows it goes to: the first access opens a row, the others stay in it or
change it, and the time to change it is the longest. A sum of latencies that leaves the word faults. -/

namespace WritebackCache

theorem isPowerOfTwo_iff {n : UInt64} : isPowerOfTwo n = true ↔ n.toNat.isPowerOfTwo := by
  simp only [← Nat.ne_zero_and_sub_one_eq_zero_iff_isPowerOfTwo, isPowerOfTwo, Bool.and_eq_true,
    decide_eq_true_iff, ne_eq]
  refine and_congr (not_congr UInt64.toNat_inj.symm) ?_
  rcases Nat.eq_zero_or_pos n.toNat with h | h
  · rw [show n = 0 from UInt64.toNat_inj.mp h]
    decide
  · have hle : 1 ≤ n := UInt64.le_iff_toNat_le.mpr h
    rw [← UInt64.toNat_inj, UInt64.toNat_and, UInt64.toNat_sub_of_le _ _ hle]
    rfl

/-- The bits that a mask keeps and those that it drops make up the word. -/
theorem toNat_and_not (a m : UInt64) : (a &&& ~~~m).toNat + (a &&& m).toNat = a.toNat := by
  have disjoint : (a.toBitVec &&& ~~~m.toBitVec) &&& (a.toBitVec &&& m.toBitVec) = 0#64 := by
    ext i
    simp only [BitVec.getElem_and, BitVec.getElem_not]
    cases a.toBitVec[i] <;> cases m.toBitVec[i] <;> simp
  have join : (a.toBitVec &&& ~~~m.toBitVec) ||| (a.toBitVec &&& m.toBitVec) = a.toBitVec := by
    ext i
    simp only [BitVec.getElem_or, BitVec.getElem_and, BitVec.getElem_not]
    cases a.toBitVec[i] <;> cases m.toBitVec[i] <;> rfl
  have hsum := BitVec.toNat_add_of_and_eq_zero disjoint
  rw [BitVec.add_eq_or_of_and_eq_zero _ _ disjoint, join] at hsum
  exact hsum.symm

/-- The mask for rows of a power of two takes an address down to a multiple of that power. -/
theorem toNat_row {size : UInt64} (h : size.toNat.isPowerOfTwo) (a : UInt64) :
    (a &&& ~~~(size - 1)).toNat = a.toNat / size.toNat * size.toNat := by
  have hle : 1 ≤ size := UInt64.le_iff_toNat_le.mpr (Nat.pos_of_isPowerOfTwo h)
  have hbelow : (size - 1).toNat = size.toNat - 1 := UInt64.toNat_sub_of_le _ _ hle
  have hlow : (a &&& (size - 1)).toNat = a.toNat % size.toNat := by
    obtain ⟨k, hk⟩ := h
    rw [UInt64.toNat_and, hbelow, hk, Nat.and_two_pow_sub_one_eq_mod]
  have hsplit := toNat_and_not a (size - 1)
  have hdiv := Nat.div_add_mod' a.toNat size.toNat
  omega

theorem row_eq_iff {size : UInt64} (h : size.toNat.isPowerOfTwo) (a b : UInt64) :
    a &&& ~~~(size - 1) = b &&& ~~~(size - 1) ↔ a.toNat / size.toNat = b.toNat / size.toNat := by
  rw [← UInt64.toNat_inj, toNat_row h, toNat_row h]
  exact Nat.mul_left_inj (Nat.ne_of_gt (Nat.pos_of_isPowerOfTwo h))

namespace LatencyModel

variable {σ : Type} [LatencyModel σ]

/-- Accesses one after the other, up to the first whose time cannot be told. -/
def accessAll (x : σ) : List Address → σ × Except Fault Unit
  | [] => (x, .ok ())
  | a :: rest =>
    match access x a with
    | (next, .ok _) => accessAll next rest
    | (next, .error f) => (next, .error f)

theorem accessAll_append {x y : σ} {xs : List Address} (h : accessAll x xs = (y, .ok ()))
    (ys : List Address) : accessAll x (xs ++ ys) = accessAll y ys := by
  induction xs generalizing x with
  | nil => cases h; rfl
  | cons a rest ih =>
    simp only [List.cons_append, accessAll] at h ⊢
    split at h
    · exact ih h
    · cases h

theorem accessAll_untold {x y : σ} {xs : List Address} {a : Address} {f : Fault}
    (h : accessAll x xs = (y, .ok ())) (untold : (access y a).2 = .error f) (rest : List Address) :
    (accessAll x (xs ++ a :: rest)).2 = .error f := by
  rw [accessAll_append h, accessAll]
  cases ha : access y a with
  | mk next told =>
    rw [ha] at untold
    subst untold
    rfl

end LatencyModel

open LatencyModel

namespace RowBuffer

variable {r : RowBuffer} {held : UInt64} {a : Address}

/-- The row of an address. -/
def row (r : RowBuffer) (a : Address) : UInt64 := a.val &&& r.rowMask

/-- The time to change the row does not fit into a word. -/
def Slow (r : RowBuffer) : Prop := UInt64.size ≤ r.tPre.toNat + r.tRas.toNat + r.tCas.toNat

instance (r : RowBuffer) : Decidable r.Slow := inferInstanceAs (Decidable (_ ≤ _))

theorem access_closed (h : r.openRow = none) :
    r.access a = ({ r with openRow := some (r.row a) }, Word.add r.tRas r.tCas) := by
  simp only [access, row, h]

theorem access_same (h : r.openRow = some held) (same : r.row a = held) :
    r.access a = (r, .ok r.tCas) := by
  subst same
  have hstays : { r with openRow := some (r.row a) } = r := by rw [← h]
  simp only [access, h]
  exact Prod.ext hstays (if_pos rfl)

theorem access_other (h : r.openRow = some held) (other : r.row a ≠ held) :
    r.access a = ({ r with openRow := some (r.row a) },
      (Word.add r.tPre r.tRas).bind fun opened => Word.add opened r.tCas) := by
  simp only [access, row, h]
  rw [if_neg (fun e => other e.symm)]

/-- The time to change the row can be told unless it is too long. -/
theorem change_eq (r : RowBuffer) :
    (r.Slow ∧ (Word.add r.tPre r.tRas).bind (fun opened => Word.add opened r.tCas) =
      .error .addOverflow) ∨
    (¬ r.Slow ∧ ∃ latency, (Word.add r.tPre r.tRas).bind (fun opened => Word.add opened r.tCas) =
      .ok latency) := by
  unfold Slow
  rcases Nat.lt_or_ge (r.tPre.toNat + r.tRas.toNat) UInt64.size with h | h
  · have hadd : Word.add r.tPre r.tRas = .ok (r.tPre + r.tRas) := if_pos h
    rw [hadd]
    have hopened := Word.toNat_of_add hadd
    rcases Nat.lt_or_ge ((r.tPre + r.tRas).toNat + r.tCas.toNat) UInt64.size with h' | h'
    · exact .inr ⟨by omega, _, if_pos h'⟩
    · exact .inl ⟨by omega, if_neg (by omega)⟩
  · have hadd : Word.add r.tPre r.tRas = .error .addOverflow := if_neg (by omega)
    exact .inl ⟨by omega, by rw [hadd]; rfl⟩

/-- With a row open, accesses fault exactly if the time to change the row is too long and one of them
goes to another row. -/
theorem accessAll_open (h : r.openRow = some held) (addrs : List Address) :
    (accessAll (Timing.rows r) addrs).2 =
      if r.Slow ∧ ∃ a ∈ addrs, r.row a ≠ held then .error .addOverflow else .ok () := by
  induction addrs generalizing r held with
  | nil => simp [accessAll]
  | cons a rest ih =>
    have hstep : LatencyModel.access (Timing.rows r) a = (r.access a).map Timing.rows id := rfl
    rw [accessAll, hstep]
    by_cases same : r.row a = held
    · rw [access_same h same]
      refine (ih h).trans (if_congr ?_ rfl rfl)
      simp only [List.mem_cons, exists_eq_or_imp, same, ne_eq, not_true, false_or]
    · rw [access_other h same]
      rcases r.change_eq with ⟨slow, hchange⟩ | ⟨fast, latency, hchange⟩
      · rw [hchange, if_pos ⟨slow, a, List.mem_cons_self, same⟩]
        rfl
      · rw [hchange, if_neg fun hs => fast hs.1]
        exact (ih (r := { r with openRow := some (r.row a) }) rfl).trans (if_neg fun hs => fast hs.1)

/-- A buffer that has no row open yet opens one first. -/
theorem accessAll_closed (h : r.openRow = none) (addrs : List Address) :
    (accessAll (Timing.rows r) addrs).2 =
      if (addrs ≠ [] ∧ UInt64.size ≤ r.tRas.toNat + r.tCas.toNat) ∨
          (r.Slow ∧ ∃ a ∈ addrs, ∃ b ∈ addrs, r.row a ≠ r.row b) then .error .addOverflow
      else .ok () := by
  cases addrs with
  | nil => simp [accessAll]
  | cons a rest =>
    have hstep : LatencyModel.access (Timing.rows r) a = (r.access a).map Timing.rows id := rfl
    rw [accessAll, hstep, access_closed h]
    rcases Nat.lt_or_ge (r.tRas.toNat + r.tCas.toNat) UInt64.size with hlt | hge
    · rw [show Word.add r.tRas r.tCas = .ok (r.tRas + r.tCas) from if_pos hlt]
      refine (accessAll_open (r := { r with openRow := some (r.row a) }) rfl rest).trans
        (if_congr ?_ rfl rfl)
      rw [or_iff_right fun hs => absurd hs.2 (Nat.not_le.mpr hlt)]
      refine and_congr_right fun _ => ⟨fun ⟨b, hb, hne⟩ => ?_, fun ⟨b, hb, c, hc, hne⟩ => ?_⟩
      · exact ⟨b, List.mem_cons_of_mem a hb, a, List.mem_cons_self, hne⟩
      · -- one of two different rows is not that of the first access
        by_cases hba : r.row b = r.row a
        · rcases List.mem_cons.mp hc with rfl | hc
          · exact (hne hba).elim
          · exact ⟨c, hc, fun hca => hne (hba.trans hca.symm)⟩
        · rcases List.mem_cons.mp hb with rfl | hb
          · exact (hba rfl).elim
          · exact ⟨b, hb, hba⟩
    · rw [show Word.add r.tRas r.tCas = .error .addOverflow from if_neg (Nat.not_lt.mpr hge),
        if_pos (.inl ⟨List.cons_ne_nil a rest, hge⟩)]
      rfl

end RowBuffer

namespace MemoryConfig

variable {c : MemoryConfig}

/-- The buffer for these rows; `last` is the access before, if there is one. -/
def buffer (c : MemoryConfig) (last : Option Address) : RowBuffer where
  tCas := c.tCas
  tRas := c.tRas
  tPre := c.tPre
  rowMask := ~~~(c.rowBytes - 1)
  openRow := last.map fun b => b.val &&& ~~~(c.rowBytes - 1)

theorem validate_eq_ok_iff_isPowerOfTwo : c.validate = .ok () ↔ c.rowBytes.toNat.isPowerOfTwo := by
  rw [← isPowerOfTwo_iff, validate]
  split <;> simp_all

theorem ofRowBytes_eq (valid : c.rowBytes.toNat.isPowerOfTwo) :
    RowBuffer.ofRowBytes c.tCas c.tRas c.tPre c.rowBytes = .ok (c.buffer none) := by
  have hbelow : Word.sub c.rowBytes 1 = .ok (c.rowBytes - 1) :=
    if_pos (Nat.pos_of_isPowerOfTwo valid)
  rw [RowBuffer.ofRowBytes, hbelow]
  rfl

end MemoryConfig

/-- A latency that the description asks for, if these addresses are accessed one after the other, does not
fit into a word: the first access opens a row, and two of them lie in different rows. -/
def MemoryConfig.Overflows (c : MemoryConfig) (addrs : List Address) : Prop :=
  c.controller = .dram ∧
    ((addrs ≠ [] ∧ UInt64.size ≤ c.tRas.toNat + c.tCas.toNat) ∨
      (UInt64.size ≤ c.tPre.toNat + c.tRas.toNat + c.tCas.toNat ∧
        ∃ a ∈ addrs, ∃ b ∈ addrs,
          a.val.toNat / c.rowBytes.toNat ≠ b.val.toNat / c.rowBytes.toNat))

instance (c : MemoryConfig) : DecidablePred c.Overflows := fun addrs =>
  inferInstanceAs (Decidable (_ ∧ (_ ∨ (_ ∧ ∃ a ∈ addrs, ∃ b ∈ addrs, _))))

namespace Timing

theorem accessAll_fixed (latency : Tick) (addrs : List Address) :
    (accessAll (fixed latency) addrs).2 = .ok () := by
  induction addrs with
  | nil => rfl
  | cons a rest ih => exact ih

/-- Accesses to a memory of a sound description fault exactly if a latency overflows. -/
theorem accessAll_of_config {c : MemoryConfig} {t : Timing} (h : ofConfig c = .ok t)
    (addrs : List Address) :
    (accessAll t addrs).2 = if c.Overflows addrs then .error .addOverflow else .ok () := by
  unfold ofConfig at h
  split at h
  · cases h
  · next hv =>
    have power := MemoryConfig.validate_eq_ok_iff_isPowerOfTwo.mp hv
    split at h
    · next simple =>
      cases h
      rw [accessAll_fixed, if_neg]
      rintro ⟨dram, _⟩
      rw [simple] at dram
      cases dram
    · next dram =>
      rw [MemoryConfig.ofRowBytes_eq power] at h
      cases h
      rw [RowBuffer.accessAll_closed rfl]
      refine if_congr ?_ rfl rfl
      simp only [MemoryConfig.Overflows, dram, true_and, RowBuffer.Slow, RowBuffer.row,
        MemoryConfig.buffer, ne_eq, row_eq_iff power]

end Timing

end WritebackCache
