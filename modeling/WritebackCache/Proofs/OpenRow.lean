import Mathlib.Algebra.Ring.Nat
import Mathlib.Order.Bounds.Basic
import WritebackCache.Proofs.RowBuffer

/-! The law of the row buffer. What a row buffer knows of the past is the access before: its row is open,
and an access to the same row has only to select a column, one to any other row has to close it first. So
the buffer after any accesses is given by the last of them, and the time for the next one by that and
the next one. Sizes of rows are powers of two, and the start of the open row is the last multiple of the
size up to the address. -/

namespace WritebackCache

instance : LatencyModel RowBuffer := ⟨RowBuffer.access⟩

namespace MemoryConfig

variable {c : MemoryConfig}

/-- The time that an access to `a` takes after an access to `last`. -/
def rowTime (c : MemoryConfig) (last : Option Address) (a : Address) : Nat :=
  match last with
  | none => c.tRas.toNat + c.tCas.toNat
  | some b =>
    if a.val.toNat / c.rowBytes.toNat = b.val.toNat / c.rowBytes.toNat then c.tCas.toNat
    else c.tPre.toNat + c.tRas.toNat + c.tCas.toNat

theorem isPowerOfTwo_iff_exists_lt (n : UInt64) : n.toNat.isPowerOfTwo ↔ ∃ k < 64, n.toNat = 2 ^ k := by
  constructor
  · rintro ⟨k, hk⟩
    refine ⟨k, ?_, hk⟩
    have hlt : 2 ^ k < 2 ^ 64 := hk ▸ n.toNat_lt
    exact (Nat.pow_lt_pow_iff_right (by decide)).mp hlt
  · rintro ⟨k, -, hk⟩
    exact ⟨k, hk⟩

section Law

variable (valid : c.rowBytes.toNat.isPowerOfTwo)
  (fits : c.tPre.toNat + c.tRas.toNat + c.tCas.toNat < UInt64.size)
include valid fits

/-- One access: the buffer is then that for the access, and the time is that of the law. -/
theorem access_buffer (last : Option Address) (a : Address) : ∃ latency,
    (c.buffer last).access a = (c.buffer (some a), .ok latency) ∧ latency.toNat = c.rowTime last a := by
  cases last with
  | none =>
    have hadd : Word.add c.tRas c.tCas = .ok (c.tRas + c.tCas) := if_pos (by omega)
    refine ⟨c.tRas + c.tCas, ?_, Word.toNat_of_add hadd⟩
    rw [RowBuffer.access_closed rfl]
    exact Prod.ext rfl hadd
  | some b =>
    have hrow : (c.buffer (some b)).row a = (b.val &&& ~~~(c.rowBytes - 1)) ↔
        a.val.toNat / c.rowBytes.toNat = b.val.toNat / c.rowBytes.toNat := row_eq_iff valid a.val b.val
    by_cases same : a.val.toNat / c.rowBytes.toNat = b.val.toNat / c.rowBytes.toNat
    · refine ⟨c.tCas, ?_, (if_pos same).symm⟩
      have hstays : c.buffer (some b) = c.buffer (some a) := by
        simp only [buffer, Option.map_some, RowBuffer.mk.injEq, true_and, Option.some.injEq]
        exact (hrow.mpr same).symm
      rw [RowBuffer.access_same rfl (hrow.mpr same), hstays]
      rfl
    · have hopen : Word.add c.tPre c.tRas = .ok (c.tPre + c.tRas) := if_pos (by omega)
      have hopened := Word.toNat_of_add hopen
      have hadd : Word.add (c.tPre + c.tRas) c.tCas = .ok (c.tPre + c.tRas + c.tCas) :=
        if_pos (by omega)
      refine ⟨c.tPre + c.tRas + c.tCas, ?_, ?_⟩
      · rw [RowBuffer.access_other rfl (mt hrow.mp same)]
        refine Prod.ext rfl ?_
        show (Word.add c.tPre c.tRas).bind _ = _
        rw [hopen]
        exact hadd
      · rw [Word.toNat_of_add hadd, hopened]
        exact (if_neg same).symm

/-- Any accesses: the buffer is then that for the last of them. -/
theorem accessAll_buffer (last : Option Address) (addrs : List Address) :
    LatencyModel.accessAll (c.buffer last) addrs = (c.buffer (addrs.getLast?.or last), .ok ()) := by
  induction addrs generalizing last with
  | nil => rfl
  | cons a rest ih =>
    obtain ⟨latency, haccess, -⟩ := access_buffer valid fits last a
    have hstep : LatencyModel.access (c.buffer last) a = (c.buffer (some a), .ok latency) := haccess
    rw [LatencyModel.accessAll, hstep]
    refine (ih (some a)).trans ?_
    rw [List.getLast?_cons]
    cases rest.getLast? <;> rfl

end Law

/-- The row that is open after an access starts at the last multiple of its size up to the address. -/
theorem isGreatest_openRow (valid : c.rowBytes.toNat.isPowerOfTwo) (a : Address) :
    ∃ row, (c.buffer (some a)).openRow = some row ∧
      IsGreatest {start | c.rowBytes.toNat ∣ start ∧ start ≤ a.val.toNat} row.toNat := by
  refine ⟨_, rfl, ?_⟩
  rw [toNat_row valid]
  refine ⟨⟨Nat.dvd_mul_left _ _, Nat.div_mul_le_self _ _⟩, ?_⟩
  rintro start ⟨⟨n, rfl⟩, hle⟩
  rw [Nat.mul_comm]
  exact Nat.mul_le_mul_right _ ((Nat.le_div_iff_mul_le (Nat.pos_of_isPowerOfTwo valid)).mpr
    (by rwa [Nat.mul_comm]))

/-- The law of the row buffer. Sizes of rows are sound if they are powers of two that fit into a word. If
the longest time fits into a word too, every access after any others is told the time for its row and the
row of the access just before, and leaves its row open. -/
theorem row_buffer_law (c : MemoryConfig) :
    (c.validate = .ok () ↔ ∃ k < 64, c.rowBytes.toNat = 2 ^ k) ∧
    (c.validate = .ok () → c.tPre.toNat + c.tRas.toNat + c.tCas.toNat < UInt64.size →
      ∃ r, RowBuffer.ofRowBytes c.tCas c.tRas c.tPre c.rowBytes = .ok r ∧
        ∀ before a, ∃ held next latency row,
          LatencyModel.accessAll r before = (held, .ok ()) ∧
          held.access a = (next, .ok latency) ∧
          latency.toNat = c.rowTime before.getLast? a ∧
          next.openRow = some row ∧
          IsGreatest {start | c.rowBytes.toNat ∣ start ∧ start ≤ a.val.toNat} row.toNat) := by
  rw [validate_eq_ok_iff_isPowerOfTwo]
  refine ⟨isPowerOfTwo_iff_exists_lt c.rowBytes, fun valid fits => ?_⟩
  refine ⟨c.buffer none, ofRowBytes_eq valid, fun before a => ?_⟩
  obtain ⟨latency, haccess, htime⟩ := access_buffer valid fits before.getLast? a
  obtain ⟨row, hopen, hrow⟩ := isGreatest_openRow valid a
  have hbefore := accessAll_buffer valid fits none before
  rw [Option.or_none] at hbefore
  exact ⟨_, _, latency, row, hbefore, haccess, htime, hopen, hrow⟩

/-- Two rows that halve the address space: the last byte of the one and the first of the other. -/
theorem row_buffer_law_halves :
    let c : MemoryConfig := { tCas := 3, tRas := 5, tPre := 7, rowBytes := 0x8000000000000000 }
    c.validate = .ok () ∧ c.tPre.toNat + c.tRas.toNat + c.tCas.toNat < UInt64.size ∧
      ∃ r, RowBuffer.ofRowBytes c.tCas c.tRas c.tPre c.rowBytes = .ok r ∧
        ∃ held next latency row,
          LatencyModel.accessAll r [⟨0⟩, ⟨0x7fffffffffffffff⟩] = (held, .ok ()) ∧
          held.access ⟨0x8000000000000000⟩ = (next, .ok latency) ∧ latency.toNat = 15 ∧
          next.openRow = some row ∧
          IsGreatest {start | 2 ^ 63 ∣ start ∧ start ≤ 2 ^ 63} row.toNat := by
  intro c
  have valid : c.validate = .ok () := by decide
  have fits : c.tPre.toNat + c.tRas.toNat + c.tCas.toNat < UInt64.size := by decide
  obtain ⟨r, hr, law⟩ := (row_buffer_law c).2 valid fits
  obtain ⟨held, next, latency, row, hbefore, haccess, htime, hopen, hrow⟩ :=
    law [⟨0⟩, ⟨0x7fffffffffffffff⟩] ⟨0x8000000000000000⟩
  have hother : c.rowTime (some ⟨0x7fffffffffffffff⟩) ⟨0x8000000000000000⟩ = 15 := by decide
  have hsize : c.rowBytes.toNat = 2 ^ 63 := by decide
  rw [hsize] at hrow
  exact ⟨valid, fits, r, hr, held, next, latency, row, hbefore, haccess, htime.trans hother, hopen,
    hrow⟩

end MemoryConfig

end WritebackCache
