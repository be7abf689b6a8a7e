import WritebackCache.Fault

/-! Arithmetic on 64-bit words. A sum, difference or product that leaves the word is a fault; the
clock alone uses the sum that stops at the largest word, and the later of two words. -/

namespace WritebackCache.Word

def add (a b : UInt64) : Except Fault UInt64 :=
  if a.toNat + b.toNat < UInt64.size then .ok (a + b) else .error .addOverflow

def sub (a b : UInt64) : Except Fault UInt64 :=
  if b.toNat ≤ a.toNat then .ok (a - b) else .error .subOverflow

def mul (a b : UInt64) : Except Fault UInt64 :=
  if a.toNat * b.toNat < UInt64.size then .ok (a * b) else .error .mulOverflow

def saturatingAdd (a b : UInt64) : UInt64 :=
  if a.toNat + b.toNat < UInt64.size then a + b else .ofNat (UInt64.size - 1)

def later (a b : UInt64) : UInt64 := if a.toNat ≤ b.toNat then b else a

theorem toNat_of_add {a b c : UInt64} (h : add a b = .ok c) : c.toNat = a.toNat + b.toNat := by
  unfold add at h
  split at h
  · next hlt =>
    cases h
    rw [UInt64.toNat_add]
    exact Nat.mod_eq_of_lt hlt
  · cases h

theorem toNat_of_mul {a b c : UInt64} (h : mul a b = .ok c) : c.toNat = a.toNat * b.toNat := by
  unfold mul at h
  split at h
  · cases h
    rw [UInt64.toNat_mul, Nat.mod_eq_of_lt (by assumption)]
  · cases h

theorem toNat_saturatingAdd (a b : UInt64) :
    (saturatingAdd a b).toNat = min (a.toNat + b.toNat) (UInt64.size - 1) := by
  unfold saturatingAdd
  split
  · next hlt =>
    rw [UInt64.toNat_add, Nat.mod_eq_of_lt hlt]
    exact (Nat.min_eq_left (Nat.le_pred_of_lt hlt)).symm
  · rw [show (UInt64.ofNat (UInt64.size - 1)).toNat = UInt64.size - 1 from by decide]
    omega

theorem toNat_later (a b : UInt64) : (later a b).toNat = max a.toNat b.toNat := by
  unfold later
  split <;> omega

theorem le_saturatingAdd (a b : UInt64) : a.toNat ≤ (saturatingAdd a b).toNat := by
  rw [toNat_saturatingAdd]
  have := a.toNat_lt_size
  omega

theorem saturatingAdd_zero (a : UInt64) : saturatingAdd a 0 = a := by
  apply UInt64.toNat_inj.mp
  rw [toNat_saturatingAdd]
  have := a.toNat_lt_size
  show min (a.toNat + 0) _ = _
  omega

theorem later_of_le {a b : UInt64} (h : a.toNat ≤ b.toNat) : later a b = b := if_pos h

theorem later_of_ge {a b : UInt64} (h : b.toNat ≤ a.toNat) : later a b = a := by
  apply UInt64.toNat_inj.mp
  rw [toNat_later]
  omega

end WritebackCache.Word
