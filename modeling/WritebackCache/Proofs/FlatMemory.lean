import WritebackCache.Proofs.Cursor
import WritebackCache.Simulation

/-! A flat memory: one byte at every address, and nothing else. It is what a cache in front of a memory
has to look like from the outside. Requests take effect on it one by one, and each that expects a
response gets its answer from the bytes as they stand then. Cut into blocks, it is what main memory
holds after its preloads. -/

namespace WritebackCache

abbrev FlatMemory := Nat → UInt8

namespace FlatMemory

def zero : FlatMemory := fun _ => 0

def store (m : FlatMemory) (addr : Nat) (bytes : List UInt8) : FlatMemory :=
  fun a => if a < addr then m a else bytes[a - addr]?.getD (m a)

def read (m : FlatMemory) (addr len : Nat) : List UInt8 := (List.range len).map fun i => m (addr + i)

/-- The byte strings of a trace, stored one after the other in zeroed memory. -/
def preloaded (preloads : List (Address × List UInt8)) : FlatMemory :=
  preloads.foldl (fun m entry => m.store entry.1.val.toNat entry.2) zero

/-- A write stores its payload; anything else changes nothing. -/
def apply (m : FlatMemory) (p : Packet) : FlatMemory :=
  if p.isWrite then m.store p.addr.val.toNat p.data else m

def after (m : FlatMemory) (requests : List Packet) : FlatMemory := requests.foldl apply m

/-- The answer to a request: a read carries the bytes away, a write its own payload. -/
def response (m : FlatMemory) (p : Packet) : Packet :=
  if p.isRead then
    ⟨p.addr, p.kind, m.read p.addr.val.toNat p.size, p.needsResponse, true, by
      simpa [read, Packet.size] using p.fits⟩
  else p.asResponse

/-- The answers to the requests that expect one, in order. -/
def responses (m : FlatMemory) : List Packet → List Packet
  | [] => []
  | p :: rest =>
    if p.needsResponse then m.response p :: (m.apply p).responses rest
    else (m.apply p).responses rest

def block (m : FlatMemory) (b : BlockNumber) : Block :=
  Vector.ofFn fun i => m (b.val.toNat * blockSize + i)

theorem after_append (m : FlatMemory) (xs : List Packet) (p : Packet) :
    m.after (xs ++ [p]) = (m.after xs).apply p := by simp [after]

theorem preloaded_append (preloads : List (Address × List UInt8)) (addr : Address)
    (bytes : List UInt8) : preloaded (preloads ++ [(addr, bytes)]) =
      (preloaded preloads).store addr.val.toNat bytes := by simp [preloaded]

theorem responses_append (m : FlatMemory) (xs : List Packet) (p : Packet) :
    m.responses (xs ++ [p]) = m.responses xs ++
      if p.needsResponse then [(m.after xs).response p] else [] := by
  induction xs generalizing m with
  | nil => simp [responses, after]
  | cons x xs ih =>
    simp only [List.cons_append, responses, ih]
    split <;> simp [after]

theorem getElem_block (m : FlatMemory) (b : BlockNumber) (i : Nat) (h : i < blockSize) :
    (m.block b)[i] = m (b.val.toNat * blockSize + i) := by simp [block]

@[simp] theorem store_nil (m : FlatMemory) (addr : Nat) : m.store addr [] = m := by
  funext a
  simp [store]

theorem store_append (m : FlatMemory) (addr : Nat) (xs ys : List UInt8) :
    (m.store addr xs).store (addr + xs.length) ys = m.store addr (xs ++ ys) := by
  funext a
  simp only [store]
  by_cases h : a < addr
  · simp [h, show a < addr + xs.length by omega]
  · by_cases h' : a < addr + xs.length
    · simp [h, h', List.getElem?_append_left (show a - addr < xs.length by omega)]
    · have hx : xs[a - addr]? = none := List.getElem?_eq_none (by omega)
      rw [if_neg h', if_neg h, if_neg h, List.getElem?_append_right (by omega), hx,
        show a - addr - xs.length = a - (addr + xs.length) by omega]
      rfl

/-- Bytes that stay within one block change that block, and there like bytes laid over it. -/
theorem block_store (m : FlatMemory) (addr : Address) (bytes : List UInt8)
    (h : addr.offset + bytes.length ≤ blockSize) (b : BlockNumber) :
    (m.store addr.val.toNat bytes).block b =
      if b = addr.block then (m.block b).patch addr.offset bytes else m.block b := by
  have haddr := addr.toNat_eq
  have hbase : b.val.toNat * blockSize = b.val.toNat * 64 := rfl
  have hbase' : addr.block.val.toNat * blockSize = addr.block.val.toNat * 64 := rfl
  have hsize : blockSize = 64 := rfl
  apply Vector.ext
  intro i hi
  rw [getElem_block _ _ _ hi]
  split
  · next he =>
    subst he
    rw [Block.getElem_patch _ _ _ _ hi, getElem_block _ _ _ hi]
    simp only [store]
    by_cases ho : i < addr.offset
    · rw [if_pos ho, if_pos (by omega)]
    · rw [if_neg ho, if_neg (by omega),
        show addr.block.val.toNat * blockSize + i - addr.val.toNat = i - addr.offset by omega]
  · next hne =>
    rw [getElem_block _ _ _ hi]
    have hval : b.val.toNat ≠ addr.block.val.toNat := by
      intro e
      cases b
      exact hne (congrArg BlockNumber.mk (UInt64.toNat_inj.mp e))
    simp only [store]
    split
    · rfl
    · rw [List.getElem?_eq_none (by omega)]
      rfl

theorem read_eq_slice (m : FlatMemory) (addr : Address) (len : Nat)
    (h : addr.offset + len ≤ blockSize) :
    m.read addr.val.toNat len = (m.block addr.block).slice addr.offset len := by
  have haddr := addr.toNat_eq
  apply List.ext_getElem?
  intro i
  rw [Block.getElem?_slice, read, List.getElem?_map]
  split
  · next hi =>
    have hlt : addr.offset + i < blockSize := by omega
    rw [List.getElem?_range hi, Vector.getElem?_eq_getElem hlt, getElem_block _ _ _ hlt,
      Option.map_some,
      show addr.val.toNat + i = addr.block.val.toNat * blockSize + (addr.offset + i) by omega]
  · next hi => rw [List.getElem?_eq_none (by simpa using hi)]; rfl

/-- What a packet does to a block. -/
theorem block_apply (m : FlatMemory) (p : Packet) (b : BlockNumber) :
    (m.apply p).block b =
      if p.isWrite = true ∧ b = p.block then (m.block b).patch p.offset p.data else m.block b := by
  unfold apply
  split
  · next hw => simp only [hw, true_and]; exact block_store m p.addr p.data p.fits b
  · next hw => simp [hw]

/-- The answer is the packet filled from its block, once the packet has taken effect on it. -/
theorem response_eq (m : FlatMemory) {p : Packet} (h : p.kind ≠ .other) :
    m.response p = (p.filledFrom ((m.apply p).block p.block)).asResponse := by
  have hread : m.apply p = m ∨ p.isWrite = true := by
    unfold apply
    split
    · next hw => exact .inr hw
    · exact .inl rfl
  cases hk : p.kind with
  | other => exact (h hk).elim
  | read =>
    have hr : p.isRead = true := by simp [Packet.isRead, hk]
    have hw : p.isWrite = false := by simp [Packet.isWrite, hk]
    have hm : m.apply p = m := by simp [apply, hw]
    simp only [response, hr, if_true, hm, Packet.filledFrom, Packet.asResponse, Packet.mk.injEq,
      true_and, and_true]
    exact read_eq_slice m p.addr p.size p.fits
  | write =>
    have hr : p.isRead = false := by simp [Packet.isRead, hk]
    have hw : p.isWrite = true := by simp [Packet.isWrite, hk]
    rw [block_apply, if_pos ⟨hw, rfl⟩]
    simp only [response, hr, Bool.false_eq_true, if_false, Packet.filledFrom, Packet.asResponse,
      Packet.mk.injEq, true_and, and_true]
    exact (Block.slice_patch _ p.fits).symm

end FlatMemory

/-! ## Main memory after its preloads -/

namespace SparseMemory

theorem lookup_replace (block b : BlockNumber) (data : Block) (kept : List (BlockNumber × Block)) :
    (replace block data kept).lookup b = if b = block then some data else kept.lookup b := by
  have cons : ∀ (k : BlockNumber) (d : Block) (rest : List (BlockNumber × Block)),
      ((k, d) :: rest).lookup b = if b = k then some d else rest.lookup b := by
    intro k d rest
    rw [List.lookup_cons]
    by_cases h : b = k
    · simp [h]
    · rw [if_neg h, beq_eq_false_iff_ne.mpr h]
  induction kept with
  | nil => rw [replace, cons]
  | cons entry rest ih =>
    obtain ⟨k, d⟩ := entry
    rw [replace]
    split
    · next hk => subst hk; rw [cons, cons]; split <;> rfl
    · next hk =>
      rw [cons, cons, ih]
      split
      · next h => rw [if_neg (h ▸ hk)]
      · rfl

theorem readBlock_writeBlock (m : SparseMemory) (block b : BlockNumber) (data : Block) :
    (m.writeBlock block data).readBlock b = if b = block then data else m.readBlock b := by
  simp only [readBlock, writeBlock, lookup_replace]
  split <;> rfl

theorem readBlock_empty (b : BlockNumber) : empty.readBlock b = FlatMemory.zero.block b := by
  apply Vector.ext
  intro i hi
  simp [empty, readBlock, Block.zero, FlatMemory.getElem_block, FlatMemory.zero]

/-- Bytes laid over a block in place, as the flat memory stores them. -/
theorem readBlock_patch {m : SparseMemory} {f : FlatMemory} (hm : ∀ b, m.readBlock b = f.block b)
    {addr : Address} {bytes : List UInt8} (h : addr.offset + bytes.length ≤ blockSize)
    (b : BlockNumber) :
    (m.writeBlock addr.block ((m.readBlock addr.block).patch addr.offset bytes)).readBlock b =
      (f.store addr.val.toNat bytes).block b := by
  rw [FlatMemory.block_store f addr bytes h b, readBlock_writeBlock]
  split
  · next he => rw [he, hm]
  · exact hm b

/-- All bytes of a range of addresses are stored, also where the cursor faults behind the last. -/
theorem load_stores {m : SparseMemory} {f : FlatMemory} (hm : ∀ b, m.readBlock b = f.block b)
    {addr : Address} {bytes : List UInt8} (h : addr.val.toNat + bytes.length ≤ UInt64.size)
    (b : BlockNumber) :
    (m.load addr bytes).1.readBlock b = (f.store addr.val.toNat bytes).block b := by
  induction m, addr, bytes using load_induction generalizing f with
  | empty m addr => rw [load_empty, FlatMemory.store_nil, hm]
  | piece m addr bytes next h0 hnext hload ih =>
    have hle := span_le addr bytes.length
    have htake : (bytes.take (span addr bytes.length)).length = span addr bytes.length :=
      List.length_take_of_le hle
    have hsplit := f.store_append addr.val.toNat (bytes.take (span addr bytes.length))
      (bytes.drop (span addr bytes.length))
    rw [htake, List.take_append_drop, ← hnext] at hsplit
    rw [hload, ← hsplit]
    exact ih (readBlock_patch hm (by rw [htake]; exact offset_span_le addr _))
      (by rw [List.length_drop, hnext]; omega)
  | last m addr bytes h0 hend hload =>
    have hle := span_le addr bytes.length
    have hall : span addr bytes.length = bytes.length := by omega
    have hfits := offset_span_le addr bytes.length
    rw [hall] at hfits
    rw [hload, withPiece, hall, List.take_length]
    exact readBlock_patch hm hfits b

/-- A load that succeeds makes of every block what the flat memory makes of it. -/
theorem readBlock_load {m stored : SparseMemory} {f : FlatMemory} {addr : Address}
    {bytes : List UInt8} (h : m.load addr bytes = (stored, .ok ()))
    (hm : ∀ b, m.readBlock b = f.block b) (b : BlockNumber) :
    stored.readBlock b = (f.store addr.val.toNat bytes).block b := by
  have hpasses := m.load_passes addr bytes
  rw [h, passes] at hpasses
  split at hpasses
  · next hlt =>
    have hstores := load_stores hm (Nat.le_of_lt hlt) b
    rwa [h] at hstores
  · cases hpasses

end SparseMemory

namespace Simulation

variable {σ : Type}

theorem preload_ok {m loaded : Memory σ} {f : FlatMemory} {preloads : List (Address × List UInt8)}
    (h : preload m preloads = .ok loaded) (hm : ∀ b, m.contents.readBlock b = f.block b) :
    (∀ b, loaded.contents.readBlock b =
      (preloads.foldl (fun m entry => m.store entry.1.val.toNat entry.2) f).block b) ∧
      loaded.timing = m.timing ∧ loaded.readyAt = m.readyAt ∧ loaded.log = m.log := by
  induction preloads generalizing m f with
  | nil => cases h; exact ⟨hm, rfl, rfl, rfl⟩
  | cons entry rest ih =>
    obtain ⟨addr, bytes⟩ := entry
    unfold preload at h
    split at h
    · next next hl =>
      obtain ⟨rfl, hr⟩ := Prod.mk.inj hl
      exact ih (m := { m with contents := (m.contents.load addr bytes).1 })
        (f := f.store addr.val.toNat bytes) h
        fun b => SparseMemory.readBlock_load (Prod.ext rfl hr) hm b
    · cases h

/-- Main memory after the preloads of a trace holds what the flat memory holds. -/
theorem readBlock_preload {timing : σ} {loaded : Memory σ} {preloads : List (Address × List UInt8)}
    (h : preload (.empty timing) preloads = .ok loaded) (b : BlockNumber) :
    loaded.contents.readBlock b = (FlatMemory.preloaded preloads).block b := by
  exact (preload_ok h SparseMemory.readBlock_empty).1 b

end Simulation

end WritebackCache
