import WritebackCache.SparseMemory

/-! The cursor that lays byte strings down in memory and takes them up again. It goes over a range of
addresses in pieces, each of which lies in one block, so that no piece goes beyond the last address; but
where one ends there, the cursor faults when it is moved on. -/

namespace WritebackCache

/-- An address is the start of its block and an offset. -/
theorem Address.toNat_eq (a : Address) :
    a.val.toNat = a.block.val.toNat * blockSize + a.offset := by
  rw [Address.toNat_block]
  exact (Nat.div_add_mod' a.val.toNat blockSize).symm

namespace SparseMemory

theorem span_le (addr : Address) (len : Nat) : span addr len ≤ len := Nat.min_le_left _ _

theorem offset_span_le (addr : Address) (len : Nat) : addr.offset + span addr len ≤ blockSize := by
  have hlt := addr.offset_lt
  have hle : span addr len ≤ blockSize - addr.offset := Nat.min_le_right _ _
  omega

/-- No piece goes beyond the end of the address space, because no block does. -/
theorem add_span_le (addr : Address) (len : Nat) :
    addr.val.toNat + span addr len ≤ UInt64.size := by
  have haddr := addr.toNat_eq
  have hspan := offset_span_le addr len
  have hblock : addr.block.val.toNat < UInt64.size / blockSize := by
    rw [Address.toNat_block]
    exact Nat.div_lt_of_lt_mul addr.val.toNat_lt_size
  simp only [blockSize, UInt64.size] at *
  omega

theorem toNat_span (addr : Address) (len : Nat) :
    (UInt64.ofNat (span addr len)).toNat = span addr len := by
  have hle := offset_span_le addr len
  apply UInt64.toNat_ofNat_of_lt'
  simp only [blockSize, UInt64.size] at *
  omega

theorem add_span {addr : Address} {len : Nat} (h : addr.val.toNat + span addr len < UInt64.size) :
    ∃ next, Word.add addr.val (.ofNat (span addr len)) = .ok next ∧
      next.toNat = addr.val.toNat + span addr len := by
  have hadd : Word.add addr.val (.ofNat (span addr len)) = .ok (addr.val + .ofNat (span addr len)) :=
    if_pos (by rw [toNat_span]; exact h)
  exact ⟨_, hadd, by rw [Word.toNat_of_add hadd, toNat_span]⟩

/-- Behind the last address there is nowhere to go. -/
theorem add_span_end {addr : Address} {len : Nat} (h : addr.val.toNat + span addr len = UInt64.size) :
    Word.add addr.val (.ofNat (span addr len)) = .error .addOverflow :=
  if_neg (by rw [toNat_span, h]; exact Nat.lt_irrefl _)

/-- What holds of an empty range, of a range if it holds of what the cursor leaves of it, and of a range
whose first piece ends with the last address, holds of every range. -/
theorem range_induction {motive : Address → Nat → Prop} (empty : ∀ addr, motive addr 0)
    (piece : ∀ addr len next, len ≠ 0 → Word.add addr.val (.ofNat (span addr len)) = .ok next →
      next.toNat = addr.val.toNat + span addr len → motive ⟨next⟩ (len - span addr len) →
      motive addr len)
    (last : ∀ addr len, len ≠ 0 → addr.val.toNat + span addr len = UInt64.size →
      Word.add addr.val (.ofNat (span addr len)) = .error .addOverflow → motive addr len)
    (addr : Address) (len : Nat) : motive addr len := by
  induction len using Nat.strongRecOn generalizing addr with
  | ind len ih =>
    by_cases h0 : len = 0
    · rw [h0]
      exact empty addr
    · rcases Nat.lt_or_eq_of_le (add_span_le addr len) with h | h
      · obtain ⟨next, hadd, hnext⟩ := add_span h
        have hpos := span_pos addr h0
        exact piece addr len next h0 hadd hnext (ih _ (by omega) ⟨next⟩)
      · exact last addr len h0 h (add_span_end h)

/-- What becomes of a cursor that goes over a range: it faults if it has to go behind the last address. -/
def passes (addr : Address) (len : Nat) : Except Fault Unit :=
  if addr.val.toNat + len < UInt64.size then .ok () else .error .addOverflow

theorem passes_zero (addr : Address) : passes addr 0 = .ok () := if_pos addr.val.toNat_lt_size

theorem passes_piece {addr : Address} {len : Nat} {next : UInt64}
    (hnext : next.toNat = addr.val.toNat + span addr len) :
    passes ⟨next⟩ (len - span addr len) = passes addr len := by
  have hle := span_le addr len
  have hsum : next.toNat + (len - span addr len) = addr.val.toNat + len := by omega
  simp only [passes, hsum]

theorem passes_last {addr : Address} {len : Nat} (h : addr.val.toNat + span addr len = UInt64.size) :
    passes addr len = .error .addOverflow := by
  have hle := span_le addr len
  exact if_neg (by omega)

/-! ## Loading -/

/-- Memory with the first piece of a byte string in it. -/
def withPiece (m : SparseMemory) (addr : Address) (bytes : List UInt8) : SparseMemory :=
  m.writeBlock addr.block
    ((m.readBlock addr.block).patch addr.offset (bytes.take (span addr bytes.length)))

theorem load_empty (m : SparseMemory) (addr : Address) : m.load addr [] = (m, .ok ()) := by
  rw [load, dif_pos List.length_nil]

/-- A byte string is empty, or its first piece is laid down and the cursor is moved on to the rest, or it
ends with the last address. -/
theorem load_induction {motive : SparseMemory → Address → List UInt8 → Prop}
    (empty : ∀ m addr, motive m addr [])
    (piece : ∀ m addr bytes next, bytes.length ≠ 0 →
      next.toNat = addr.val.toNat + span addr bytes.length →
      m.load addr bytes = (m.withPiece addr bytes).load ⟨next⟩ (bytes.drop (span addr bytes.length)) →
      motive (m.withPiece addr bytes) ⟨next⟩ (bytes.drop (span addr bytes.length)) →
      motive m addr bytes)
    (last : ∀ m addr bytes, bytes.length ≠ 0 →
      addr.val.toNat + span addr bytes.length = UInt64.size →
      m.load addr bytes = (m.withPiece addr bytes, .error .addOverflow) → motive m addr bytes)
    (m : SparseMemory) (addr : Address) (bytes : List UInt8) : motive m addr bytes := by
  induction hlen : bytes.length using Nat.strongRecOn generalizing m addr bytes with
  | ind len ih =>
    subst hlen
    by_cases h0 : bytes.length = 0
    · rw [List.length_eq_zero_iff.mp h0]
      exact empty m addr
    · rcases Nat.lt_or_eq_of_le (add_span_le addr bytes.length) with h | h
      · obtain ⟨next, hadd, hnext⟩ := add_span h
        refine piece m addr bytes next h0 hnext ?_ ?_
        · conv => lhs; rw [load, dif_neg h0]
          simp only [hadd]
          rfl
        · have hpos := span_pos addr h0
          exact ih _ (by rw [List.length_drop]; omega) _ _ _ rfl
      · refine last m addr bytes h0 h ?_
        rw [load, dif_neg h0]
        simp only [add_span_end h]
        rfl

theorem load_passes (m : SparseMemory) (addr : Address) (bytes : List UInt8) :
    (m.load addr bytes).2 = passes addr bytes.length := by
  induction m, addr, bytes using load_induction with
  | empty m addr => rw [load_empty, List.length_nil, passes_zero]
  | piece m addr bytes next h0 hnext hload ih => rw [hload, ih, List.length_drop, passes_piece hnext]
  | last m addr bytes h0 hend hload => rw [hload, passes_last hend]

end SparseMemory

end WritebackCache
