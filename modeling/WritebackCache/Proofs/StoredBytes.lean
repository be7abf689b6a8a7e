import Mathlib.Data.Set.Card
import WritebackCache.Proofs.FlatMemory

/-! Main memory under stores that overlap in any way. Byte strings are laid down and taken up by a cursor
that goes from block to block, and blocks are replaced as a whole; what counts in the end is that every
address gives back the byte stored there last, and that a block is kept exactly if some store touched it.
Both cursors cut a range of addresses into the same pieces, so there is one induction over the pieces. -/

namespace WritebackCache

theorem BlockNumber.toNat_base_of_inSpace {b : BlockNumber} (h : b.InSpace) :
    b.base.val.toNat = b.val.toNat * blockSize := by
  rw [toNat_base, Nat.mod_eq_of_lt h]

namespace FlatMemory

theorem length_read (m : FlatMemory) (addr len : Nat) : (m.read addr len).length = len := by
  simp [read]

theorem getElem?_read (m : FlatMemory) (addr : Nat) {len i : Nat} (h : i < len) :
    (m.read addr len)[i]? = some (m (addr + i)) := by
  rw [read, List.getElem?_map, List.getElem?_range h, Option.map_some]

theorem read_add (m : FlatMemory) (addr n k : Nat) :
    m.read addr (n + k) = m.read addr n ++ m.read (addr + n) k := by
  simp only [read, List.range_add, List.map_append, List.map_map, Function.comp_def, Nat.add_assoc]

/-- The bytes of a block, laid down from its first address on, replace it and no other. -/
theorem block_store_block (m : FlatMemory) {block : BlockNumber} (h : block.InSpace) (data : Block)
    (b : BlockNumber) : (m.store (block.val.toNat * blockSize) data.toList).block b =
      if b = block then data else m.block b := by
  have hbase := BlockNumber.toNat_base_of_inSpace h
  have hlen : data.toList.length = blockSize := Vector.length_toList
  have hstore := block_store m block.base data.toList
    (by rw [BlockNumber.offset_base, hlen, Nat.zero_add]) b
  rw [hbase, BlockNumber.block_base h, BlockNumber.offset_base] at hstore
  rw [hstore]
  refine if_congr Iff.rfl (Vector.ext fun i hi => ?_) rfl
  rw [Block.getElem_patch _ _ _ _ hi, if_neg (Nat.not_lt_zero i), Nat.sub_zero,
    Vector.getElem?_toList, Vector.getElem?_eq_getElem hi, Option.getD_some]

end FlatMemory

/-- Some address among the `len` from `start` on lies in the block. -/
def BlockNumber.Meets (b : BlockNumber) (start len : Nat) : Prop :=
  ∃ a, start ≤ a ∧ a < start + len ∧ a / blockSize = b.val.toNat

theorem BlockNumber.not_meets_zero (b : BlockNumber) (start : Nat) : ¬ b.Meets start 0 := by
  rintro ⟨a, hle, hlt, _⟩
  omega

theorem BlockNumber.meets_add (b : BlockNumber) (start n k : Nat) :
    b.Meets start (n + k) ↔ b.Meets start n ∨ b.Meets (start + n) k := by
  constructor
  · rintro ⟨a, hle, hlt, hb⟩
    rcases Nat.lt_or_ge a (start + n) with h | h
    · exact .inl ⟨a, hle, h, hb⟩
    · exact .inr ⟨a, h, by omega, hb⟩
  · rintro (⟨a, hle, hlt, hb⟩ | ⟨a, hle, hlt, hb⟩)
    · exact ⟨a, hle, by omega, hb⟩
    · exact ⟨a, by omega, by omega, hb⟩

/-- Addresses of one block meet no other. -/
theorem BlockNumber.meets_iff_eq (b : BlockNumber) {addr : Address} {n : Nat} (pos : 0 < n)
    (h : addr.offset + n ≤ blockSize) : b.Meets addr.val.toNat n ↔ b = addr.block := by
  have haddr := addr.toNat_eq
  have hdiv : ∀ a, addr.val.toNat ≤ a → a < addr.val.toNat + n →
      a / blockSize = addr.block.val.toNat := by
    intro a hle hlt
    have hbase : addr.block.val.toNat * blockSize = addr.block.val.toNat * 64 := rfl
    have hsize : blockSize = 64 := rfl
    rw [Nat.div_eq_iff (by decide)]
    omega
  constructor
  · rintro ⟨a, hle, hlt, hb⟩
    cases b
    exact congrArg BlockNumber.mk (UInt64.toNat_inj.mp (hb.symm.trans (hdiv a hle hlt)))
  · rintro rfl
    exact ⟨addr.val.toNat, Nat.le_refl _, by omega, addr.toNat_block.symm⟩

namespace SparseMemory

/-- A store: bytes from an address on, or the contents of a block. -/
inductive Store
  | load (addr : Address) (bytes : List UInt8)
  | write (block : BlockNumber) (data : Block)

namespace Store

def start : Store → Nat
  | load addr _ => addr.val.toNat
  | write block _ => block.val.toNat * blockSize

def bytes : Store → List UInt8
  | load _ bytes => bytes
  | write _ data => data.toList

/-- The bytes, and the cursor behind those of a load, have addresses. -/
def InSpace : Store → Prop
  | load addr bytes => addr.val.toNat + bytes.length < UInt64.size
  | write block _ => block.InSpace

instance : DecidablePred InSpace
  | load addr bytes => inferInstanceAs (Decidable (addr.val.toNat + bytes.length < UInt64.size))
  | write block _ => inferInstanceAs (Decidable (block.val.toNat * blockSize < UInt64.size))

def Touches (x : Store) (b : BlockNumber) : Prop := b.Meets x.start x.bytes.length

/-- The byte stored at an address, if there is one. -/
def at? (x : Store) (a : Nat) : Option UInt8 := if a < x.start then none else x.bytes[a - x.start]?

end Store

/-- The byte most recently stored at each address. -/
def latest (stores : List Store) : FlatMemory :=
  fun a => (stores.reverse.findSome? (·.at? a)).getD 0

def store (m : SparseMemory) : Store → SparseMemory × Except Fault Unit
  | .load addr bytes => m.load addr bytes
  | .write block data => (m.writeBlock block data, .ok ())

/-- Stores one after the other, up to the first that faults. -/
def storeAll (m : SparseMemory) : List Store → SparseMemory × Except Fault Unit
  | [] => (m, .ok ())
  | x :: rest =>
    match m.store x with
    | (stored, .ok ()) => stored.storeAll rest
    | (stored, .error f) => (stored, .error f)

theorem latest_append (stores : List Store) (x : Store) :
    latest (stores ++ [x]) = (latest stores).store x.start x.bytes := by
  funext a
  simp only [latest, FlatMemory.store, List.reverse_append, List.reverse_singleton,
    List.singleton_append, List.findSome?_cons, Store.at?]
  by_cases h : a < x.start
  · simp only [if_pos h]
  · simp only [if_neg h]
    cases x.bytes[a - x.start]? <;> rfl

def Keeps (m : SparseMemory) (b : BlockNumber) : Prop := b ∈ m.blocks.map Prod.fst

theorem keeps_writeBlock (m : SparseMemory) (block : BlockNumber) (data : Block) (b : BlockNumber) :
    (m.writeBlock block data).Keeps b ↔ m.Keeps b ∨ b = block := by
  simp only [Keeps, writeBlock, keys_replace]
  split
  · next h => exact ⟨.inl, fun hb => hb.elim id fun e => e ▸ h⟩
  · rw [List.mem_append, List.mem_singleton]

/-- A load within the address space keeps the blocks that its range meets. -/
theorem keeps_load (m : SparseMemory) {addr : Address} {bytes : List UInt8} (b : BlockNumber) :
    addr.val.toNat + bytes.length ≤ UInt64.size →
    ((m.load addr bytes).1.Keeps b ↔ m.Keeps b ∨ b.Meets addr.val.toNat bytes.length) := by
  induction m, addr, bytes using load_induction with
  | empty m addr =>
    intro _
    rw [load_empty]
    exact ⟨.inl, fun hb => hb.elim id fun e => (b.not_meets_zero _ e).elim⟩
  | piece m addr bytes next h0 hnext hload ih =>
    intro h
    have hle := span_le addr bytes.length
    have hsplit := b.meets_add addr.val.toNat (span addr bytes.length)
      (bytes.length - span addr bytes.length)
    rw [Nat.add_sub_of_le hle, b.meets_iff_eq (span_pos addr h0) (offset_span_le addr _),
      ← hnext] at hsplit
    rw [List.length_drop] at ih
    rw [hload, ih (by simp only [hnext]; omega), withPiece, keeps_writeBlock, hsplit, or_assoc]
  | last m addr bytes h0 hend hload =>
    intro h
    have hle := span_le addr bytes.length
    have hall : span addr bytes.length = bytes.length := by omega
    have hfits := offset_span_le addr bytes.length
    rw [hall] at hfits
    rw [hload, withPiece, keeps_writeBlock, b.meets_iff_eq (Nat.pos_of_ne_zero h0) hfits]

/-- A range of addresses is read as the flat memory has it, unless the cursor faults behind it. -/
theorem collect_passes {m : SparseMemory} {f : FlatMemory} (hm : ∀ b, m.readBlock b = f.block b)
    (addr : Address) (len : Nat) :
    m.collect addr len = (passes addr len).map fun _ => f.read addr.val.toNat len := by
  induction addr, len using range_induction with
  | empty addr =>
    rw [collect, dif_pos rfl, passes_zero]
    rfl
  | piece addr len next h0 hadd hnext ih =>
    have hsplit := f.read_add addr.val.toNat (span addr len) (len - span addr len)
    rw [Nat.add_sub_of_le (span_le addr _), f.read_eq_slice addr _ (offset_span_le addr len),
      ← hm, ← hnext] at hsplit
    rw [collect, dif_neg h0, hsplit]
    simp only [hadd, ih, passes_piece hnext]
    cases passes addr len <;> rfl
  | last addr len h0 hend hadd =>
    rw [collect, dif_neg h0, passes_last hend]
    simp only [hadd]
    rfl

theorem readBytes_eq_read {m : SparseMemory} {f : FlatMemory} (hm : ∀ b, m.readBlock b = f.block b)
    {addr : Address} {len : Nat} (h : addr.val.toNat + len < UInt64.size)
    (half : len < UInt64.size / 2) : m.readBytes addr len = .ok (f.read addr.val.toNat len) := by
  rw [readBytes, if_neg (Nat.not_le.mpr half), collect_passes hm, passes, if_pos h, Except.map]

/-! ## Any sequence of stores -/

/-- A memory holds what was stored last, in the blocks that were touched. -/
structure Holds (m : SparseMemory) (stores : List Store) : Prop where
  reads : ∀ b, m.readBlock b = (latest stores).block b
  keeps : ∀ b, m.Keeps b ↔ ∃ x ∈ stores, x.Touches b

theorem holds_empty : empty.Holds [] where
  reads := readBlock_empty
  keeps b := by simp [Keeps, empty]

theorem Holds.store {m : SparseMemory} {stores : List Store} {x : Store} (h : m.Holds stores)
    (inSpace : x.InSpace) : ∃ stored, m.store x = (stored, .ok ()) ∧ stored.Holds (stores ++ [x]) := by
  have keeps : ∀ {stored : SparseMemory}, (∀ b, stored.Keeps b ↔ m.Keeps b ∨ x.Touches b) →
      ∀ b, stored.Keeps b ↔ ∃ y ∈ stores ++ [x], y.Touches b := by
    intro stored hx b
    simp only [hx b, h.keeps b, List.mem_append, List.mem_singleton, or_and_right, exists_or,
      exists_eq_left]
  cases x with
  | load addr bytes =>
    have hload : (m.load addr bytes).2 = .ok () := (m.load_passes addr bytes).trans (if_pos inSpace)
    refine ⟨(m.load addr bytes).1, Prod.ext rfl hload, fun b => ?_,
      keeps fun b => m.keeps_load b (Nat.le_of_lt inSpace)⟩
    rw [latest_append]
    exact load_stores h.reads (Nat.le_of_lt inSpace) b
  | write block data =>
    refine ⟨m.writeBlock block data, rfl, fun b => ?_, keeps fun b => ?_⟩
    · rw [latest_append, readBlock_writeBlock, h.reads b]
      exact (FlatMemory.block_store_block _ inSpace data b).symm
    · have hbase := BlockNumber.toNat_base_of_inSpace inSpace
      have hmeets := @BlockNumber.meets_iff_eq b block.base blockSize (by decide)
        (by rw [BlockNumber.offset_base, Nat.zero_add])
      rw [hbase, BlockNumber.block_base inSpace] at hmeets
      rw [keeps_writeBlock, ← hmeets]
      simp only [Store.Touches, Store.start, Store.bytes, Vector.length_toList]

theorem Holds.storeAll {m : SparseMemory} {stores : List Store} {rest : List Store}
    (h : m.Holds stores) (inSpace : ∀ x ∈ rest, x.InSpace) :
    ∃ stored, m.storeAll rest = (stored, .ok ()) ∧ stored.Holds (stores ++ rest) := by
  induction rest generalizing m stores with
  | nil => exact ⟨m, rfl, by rwa [List.append_nil]⟩
  | cons x rest ih =>
    obtain ⟨stored, hstore, hx⟩ := h.store (inSpace x List.mem_cons_self)
    obtain ⟨last, hrest, hlast⟩ := ih hx fun y hy => inSpace y (List.mem_cons_of_mem x hy)
    refine ⟨last, ?_, by rwa [List.append_assoc, List.singleton_append] at hlast⟩
    simp only [SparseMemory.storeAll, hstore]
    exact hrest

theorem Holds.read {m : SparseMemory} {stores : List Store} (h : m.Holds stores) {addr : Address}
    {len : Nat} (inSpace : addr.val.toNat + len < UInt64.size) (half : len < UInt64.size / 2) :
    m.readBytes addr len = .ok ((latest stores).read addr.val.toNat len) :=
  readBytes_eq_read h.reads inSpace half

/-- A block is what can be read from its first address on. -/
theorem Holds.readBlock {m : SparseMemory} {stores : List Store} (h : m.Holds stores)
    {b : BlockNumber} (inSpace : b.val.toNat * blockSize + blockSize < UInt64.size) :
    m.readBytes b.base blockSize = .ok (m.readBlock b).toList := by
  have hb : b.InSpace := Nat.lt_of_le_of_lt (Nat.le_add_right _ _) inSpace
  rw [h.read (by rwa [BlockNumber.toNat_base_of_inSpace hb]) (by decide),
    FlatMemory.read_eq_slice _ _ _ (by rw [BlockNumber.offset_base, Nat.zero_add]),
    BlockNumber.block_base hb, ← h.reads b, BlockNumber.offset_base, Block.slice, List.drop_zero,
    List.take_of_length_le (Nat.le_of_eq Vector.length_toList)]

theorem resident_eq_ncard (m : SparseMemory) : m.resident = {b | m.Keeps b}.ncard := by
  have hset : {b | m.Keeps b} = ((m.blocks.map Prod.fst).toFinset : Set BlockNumber) := by
    ext b
    simp [Keeps]
  rw [hset, Set.ncard_coe_finset, List.toFinset_card_of_nodup m.nodup, List.length_map, resident]

/-- After any stores within the address space, memory is a sparse array of bytes: every byte string that
can be read holds the bytes stored last, the blocks agree with it, and as many blocks are kept as were
touched. -/
theorem stored_bytes_are_latest {stores : List Store} (inSpace : ∀ x ∈ stores, x.InSpace) :
    ∃ m, empty.storeAll stores = (m, .ok ()) ∧
      (∀ addr len, addr.val.toNat + len < UInt64.size → len < UInt64.size / 2 →
        ∃ bytes, m.readBytes addr len = .ok bytes ∧ bytes.length = len ∧
          ∀ i, i < len → bytes[i]? = some (latest stores (addr.val.toNat + i))) ∧
      (∀ b, (∀ i, (h : i < blockSize) →
          (m.readBlock b)[i] = latest stores (b.val.toNat * blockSize + i)) ∧
        (b.val.toNat * blockSize + blockSize < UInt64.size →
          m.readBytes b.base blockSize = .ok (m.readBlock b).toList)) ∧
      m.resident = {b | ∃ x ∈ stores, x.Touches b}.ncard := by
  obtain ⟨m, hm, holds⟩ := holds_empty.storeAll inSpace
  rw [List.nil_append] at holds
  refine ⟨m, hm, fun addr len h half => ?_, fun b => ⟨fun i h => ?_, holds.readBlock⟩, ?_⟩
  · exact ⟨_, holds.read h half, FlatMemory.length_read _ _ _,
      fun i hi => FlatMemory.getElem?_read _ _ hi⟩
  · rw [holds.reads b, FlatMemory.getElem_block _ _ _ h]
  · simp only [resident_eq_ncard, holds.keeps]

/-- Two loads over a block boundary, with the first block replaced in between. -/
def overlapping : List Store :=
  [.load ⟨62⟩ [1, 2, 3, 4], .write ⟨0⟩ (Vector.replicate blockSize 7), .load ⟨63⟩ [9, 9]]

theorem stored_bytes_are_latest_overlapping : (∀ x ∈ overlapping, x.InSpace) ∧
    ∃ m, empty.storeAll overlapping = (m, .ok ()) ∧
      (∃ bytes, m.readBytes ⟨62⟩ 4 = .ok bytes ∧ bytes[0]? = some 7 ∧ bytes[1]? = some 9 ∧
        bytes[2]? = some 9 ∧ bytes[3]? = some 4) ∧
      m.resident = {b | ∃ x ∈ overlapping, x.Touches b}.ncard := by
  have inSpace : ∀ x ∈ overlapping, x.InSpace := by decide
  obtain ⟨m, hm, hread, _, hresident⟩ := stored_bytes_are_latest inSpace
  obtain ⟨bytes, hbytes, _, hget⟩ := hread ⟨62⟩ 4 (by decide) (by decide)
  refine ⟨inSpace, m, hm, ⟨bytes, hbytes, ?_, ?_, ?_, ?_⟩, hresident⟩
  · exact (hget 0 (by decide)).trans (by decide)
  · exact (hget 1 (by decide)).trans (by decide)
  · exact (hget 2 (by decide)).trans (by decide)
  · exact (hget 3 (by decide)).trans (by decide)

/-- Half the address space lies within it, but is more than a byte string can hold. -/
theorem half_the_space_is_not_read :
    (0 : UInt64).toNat + UInt64.size / 2 < UInt64.size ∧ latest [] 0 = 0 ∧
      empty.storeAll [] = (empty, .ok ()) ∧
      empty.readBytes ⟨0⟩ (UInt64.size / 2) = .error .indexRange :=
  ⟨by decide, rfl, rfl, if_pos (Nat.le_refl _)⟩

end SparseMemory

end WritebackCache
