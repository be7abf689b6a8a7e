import WritebackCache.Proofs.Geometry
import WritebackCache.Proofs.RowBuffer
import WritebackCache.Proofs.StoredBytes
import WritebackCache.Trace.Reader

/-! The end of the address space. Every address has a byte in memory, the last one included, and a byte
string that ends there is stored like any other. But the cursor that lays it down or takes it up is then
asked to move on, and there is no address behind the last: both end in a fault. So a machine can be put
together from a sound description unless its lines take up too much room or some byte string of the
trace reaches the end. -/

namespace WritebackCache

namespace FlatMemory

/-- Bytes are read back from where they were stored. -/
theorem read_store (m : FlatMemory) (addr : Nat) (bytes : List UInt8) :
    (m.store addr bytes).read addr bytes.length = bytes := by
  apply List.ext_getElem?
  intro i
  rcases Nat.lt_or_ge i bytes.length with h | h
  · rw [getElem?_read _ _ h, store, if_neg (by omega), Nat.add_sub_cancel_left,
      List.getElem?_eq_getElem h, Option.getD_some]
  · rw [List.getElem?_eq_none (by rwa [length_read]), List.getElem?_eq_none h]

end FlatMemory

namespace SparseMemory

/-- The byte at an address. -/
def byteAt (m : SparseMemory) : FlatMemory :=
  fun a => (m.readBlock ⟨.ofNat (a / blockSize)⟩)[a % blockSize]?.getD 0

theorem readBlock_eq (m : SparseMemory) (b : BlockNumber) : m.readBlock b = m.byteAt.block b := by
  apply Vector.ext
  intro i hi
  have hdiv : (b.val.toNat * blockSize + i) / blockSize = b.val.toNat := by
    simp only [blockSize] at *
    omega
  have hmod : (b.val.toNat * blockSize + i) % blockSize = i := by
    simp only [blockSize] at *
    omega
  simp [FlatMemory.getElem_block, byteAt, hdiv, hmod, hi]

theorem byteAt_eq {m : SparseMemory} {f : FlatMemory} (hm : ∀ b, m.readBlock b = f.block b) {a : Nat}
    (h : a < UInt64.size) : m.byteAt a = f a := by
  have hdiv : (UInt64.ofNat (a / blockSize)).toNat = a / blockSize :=
    UInt64.toNat_ofNat_of_lt' (Nat.lt_of_le_of_lt (Nat.div_le_self _ _) h)
  have hmod : a % blockSize < blockSize := Nat.mod_lt _ (by decide)
  rw [byteAt, hm, Vector.getElem?_eq_getElem hmod, FlatMemory.getElem_block, hdiv, Option.getD_some,
    Nat.div_add_mod']

/-- A byte string that lies within the address space is stored, and it is read back unless a cursor has to
go behind the last address. -/
theorem load_then_read (m : SparseMemory) {addr : Address} {bytes : List UInt8}
    (h : addr.val.toNat + bytes.length ≤ UInt64.size) :
    ∃ stored, m.load addr bytes = (stored, passes addr bytes.length) ∧
      (∀ a, a < UInt64.size → stored.byteAt a = m.byteAt.store addr.val.toNat bytes a) ∧
      stored.collect addr bytes.length = (passes addr bytes.length).map fun _ => bytes := by
  have hstores := load_stores m.readBlock_eq h
  refine ⟨(m.load addr bytes).1, Prod.ext rfl (load_passes m addr bytes), ?_, ?_⟩
  · intro a ha
    exact byteAt_eq hstores ha
  · rw [collect_passes hstores, FlatMemory.read_store]

end SparseMemory

namespace Simulation

variable {σ : Type}

/-- Some byte string reaches the end of the address space or lies beyond it. -/
def ReachesEnd (preloads : List (Address × List UInt8)) : Prop :=
  ∃ entry ∈ preloads, UInt64.size ≤ entry.1.val.toNat + entry.2.length

instance (preloads : List (Address × List UInt8)) : Decidable (ReachesEnd preloads) :=
  inferInstanceAs (Decidable (∃ entry ∈ preloads, UInt64.size ≤ entry.1.val.toNat + entry.2.length))

theorem preload_outcome (m : Memory σ) (preloads : List (Address × List UInt8)) :
    (preload m preloads).map (fun _ => ()) =
      if ReachesEnd preloads then .error .addOverflow else .ok () := by
  induction preloads generalizing m with
  | nil => simp [preload, ReachesEnd, Except.map]
  | cons entry rest ih =>
    obtain ⟨addr, bytes⟩ := entry
    have hload : m.load addr bytes =
        ((m.load addr bytes).1, SparseMemory.passes addr bytes.length) :=
      Prod.ext rfl (SparseMemory.load_passes m.contents addr bytes)
    rw [preload, hload, SparseMemory.passes]
    by_cases h : addr.val.toNat + bytes.length < UInt64.size
    · have hrest : ReachesEnd ((addr, bytes) :: rest) ↔ ReachesEnd rest := by
        simp [ReachesEnd, h]
      simp only [if_pos h, ih, hrest]
    · have hends : ReachesEnd ((addr, bytes) :: rest) :=
        ⟨_, List.mem_cons_self, Nat.not_lt.mp h⟩
      simp only [if_neg h, if_pos hends, Except.map]

theorem validate_parts {config : Config} (valid : config.validate = .ok ()) :
    config.cache.validate = .ok () ∧ config.memory.validate = .ok () := by
  unfold Config.validate at valid
  split at valid
  · next hcache =>
    refine ⟨hcache, ?_⟩
    cases hm : config.memory.validate with
    | error e => rw [hm] at valid; cases valid
    | ok u => rfl
  · cases valid

/-- A grid for a sound geometry has a line for each block of the capacity, if there is room for them. -/
theorem controller_outcome {config : CacheConfig} (valid : config.validate = .ok ()) (policy : Policy) :
    (Controller.ofConfig config policy).map (fun _ => ()) =
      if Grid.maxLines < config.sizeBytes.toNat / blockSize then .error (.fault .indexRange)
      else .ok () := by
  obtain ⟨hw, hs, hd⟩ := CacheConfig.validate_eq_ok_iff.mp valid
  obtain ⟨sets, hsets, hpos, hsize⟩ := CacheConfig.sets_of_whole hw hs hd
  have hlines : config.sizeBytes.toNat / blockSize = sets.toNat * config.ways.toNat := by
    rw [← hsize]
    exact Nat.mul_div_cancel _ (by decide)
  have hword : sets.toNat * config.ways.toNat < UInt64.size := by
    have hlt := config.sizeBytes.toNat_lt_size
    omega
  rw [hlines, Controller.ofConfig, valid, hsets]
  simp only [Except.bind, Grid.build]
  rw [dif_pos ⟨hpos, hw⟩, if_neg (Nat.not_le.mpr hword)]
  split <;> rfl

theorem timing_of_valid {config : MemoryConfig} (valid : config.validate = .ok ()) :
    ∃ timing, Timing.ofConfig config = .ok timing := by
  have power : isPowerOfTwo config.rowBytes = true := by
    by_contra h
    rw [MemoryConfig.validate, if_neg h] at valid
    cases valid
  have hrow : 1 ≤ config.rowBytes.toNat := Nat.pos_of_isPowerOfTwo (isPowerOfTwo_iff.mp power)
  unfold Timing.ofConfig
  rw [valid]
  cases config.controller with
  | simple => exact ⟨_, rfl⟩
  | dram =>
    have hmask : Word.sub config.rowBytes 1 = .ok (config.rowBytes - 1) := if_pos hrow
    exact ⟨_, by simp only [RowBuffer.ofRowBytes, hmask]; rfl⟩

/-- What becomes of a machine of a sound description. -/
theorem ofConfig_outcome {config : Config} (valid : config.validate = .ok ()) (trace : Trace) :
    (ofConfig config trace).map (fun _ => ()) =
      if Grid.maxLines < config.cache.sizeBytes.toNat / blockSize then .error (.fault .indexRange)
      else if ReachesEnd trace.preloads then .error (.fault .addOverflow) else .ok () := by
  obtain ⟨hcache, hmemory⟩ := validate_parts valid
  obtain ⟨timing, htiming⟩ := timing_of_valid hmemory
  have hcontroller := controller_outcome hcache Replacement.lru
  have hpreload := preload_outcome (.empty timing) trace.preloads
  simp only [ofConfig, valid, htiming, bind, Except.bind]
  cases hc : Controller.ofConfig config.cache Replacement.lru with
  | error e =>
    rw [hc] at hcontroller
    split at hcontroller
    · next hlarge =>
      cases hcontroller
      rw [if_pos hlarge]
      rfl
    · cases hcontroller
  | ok controller =>
    rw [hc] at hcontroller
    split at hcontroller
    · cases hcontroller
    · next hroom =>
      rw [if_neg hroom]
      cases hp : preload (.empty timing) trace.preloads with
      | error f =>
        rw [hp] at hpreload
        split at hpreload
        · next hends =>
          cases hpreload
          rw [if_pos hends]
          rfl
        · cases hpreload
      | ok memory =>
        rw [hp] at hpreload
        split at hpreload
        · cases hpreload
        · next hends =>
          rw [if_neg hends]
          rfl

/-- A byte string that lies within the address space is stored, the last address included; but where it
reaches that one, both loading and reading it fault behind its last byte. Hence a machine of a sound
description can be put together exactly if there is room for its lines and no byte string of the trace
reaches the end. -/
theorem faults_behind_last_address {config : Config} (valid : config.validate = .ok ()) (trace : Trace) :
    (∀ (m : SparseMemory) (addr : Address) (bytes : List UInt8),
      addr.val.toNat + bytes.length ≤ UInt64.size → ∃ stored,
        m.load addr bytes = (stored, if addr.val.toNat + bytes.length < UInt64.size then .ok ()
          else .error .addOverflow) ∧
        (∀ a, a < UInt64.size → stored.byteAt a = m.byteAt.store addr.val.toNat bytes a) ∧
        stored.readBytes addr bytes.length =
          if UInt64.size / 2 ≤ bytes.length then .error .indexRange
          else if addr.val.toNat + bytes.length < UInt64.size then .ok bytes
          else .error .addOverflow) ∧
    (ofConfig config trace).map (fun _ => ()) =
      if Grid.maxLines < config.cache.sizeBytes.toNat / blockSize then .error (.fault .indexRange)
      else if ReachesEnd trace.preloads then .error (.fault .addOverflow) else .ok () := by
  refine ⟨?_, ofConfig_outcome valid trace⟩
  intro m addr bytes h
  obtain ⟨stored, hload, hbytes, hread⟩ := m.load_then_read h
  refine ⟨stored, hload, hbytes, ?_⟩
  rw [SparseMemory.readBytes, hread, SparseMemory.passes]
  split
  · rfl
  · split <;> rfl

/-- One byte at the last address: it is there, but cannot be read. -/
theorem faults_behind_last_address_one_byte :
    ∃ stored, SparseMemory.empty.load ⟨18446744073709551615⟩ [7] = (stored, .error .addOverflow) ∧
      stored.byteAt 18446744073709551615 = 7 ∧
      stored.readBytes ⟨18446744073709551615⟩ 1 = .error .addOverflow ∧
      (ofConfig {} { preloads := [(⟨18446744073709551615⟩, [7])] }).map (fun _ => ()) =
        .error (.fault .addOverflow) := by
  obtain ⟨hbytes, hmachine⟩ := @faults_behind_last_address {} (by rfl)
    { preloads := [(⟨18446744073709551615⟩, [7])] }
  obtain ⟨stored, hload, hstored, hread⟩ := hbytes .empty ⟨18446744073709551615⟩ [7] (by decide)
  refine ⟨stored, hload, ?_, hread, hmachine⟩
  rw [hstored _ (by decide)]
  decide

/-- A trace that puts one byte at the last address, read from its text, stops the machine before it
runs. -/
theorem last_address_stops_machine :
    (18446744073709551615 : UInt64).toNat + [(7 : UInt8)].length ≤ UInt64.size ∧
      (SparseMemory.empty.load ⟨18446744073709551615⟩ [7]).2 = .error .addOverflow ∧
      Trace.parse "I 0xffffffffffffffff 07\n" = .ok { preloads := [(⟨18446744073709551615⟩, [7])] } ∧
      Config.validate {} = .ok () ∧
      ofConfig {} { preloads := [(⟨18446744073709551615⟩, [7])] } = .error (.fault .addOverflow) := by
  refine ⟨by decide, SparseMemory.load_passes _ _ _, by rfl, by rfl, ?_⟩
  have houtcome := @ofConfig_outcome {} (by rfl) { preloads := [(⟨18446744073709551615⟩, [7])] }
  cases h : ofConfig {} { preloads := [(⟨18446744073709551615⟩, [7])] } with
  | error why =>
    rw [h] at houtcome
    cases houtcome
    rfl
  | ok s =>
    rw [h] at houtcome
    cases houtcome

end Simulation

end WritebackCache
