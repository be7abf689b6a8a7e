import WritebackCache.Packet

/-! How packets are built. A draft says in one of six ways what a packet is to be. A draft of an access
whose size somebody chose is refused if that is no byte at all or spills out of the block; everything else
is built, and has the header and the bytes of its draft. -/

namespace WritebackCache

namespace Packet

/-- What stays the same from the time a packet is built. -/
structure Header where
  addr : Address
  kind : AccessKind
  size : Nat
  needsResponse : Bool

def header (p : Packet) : Header := ⟨p.addr, p.kind, p.size, p.needsResponse⟩

/-- At least a byte, and no more than the block has left from the address on. -/
def Header.Fits (h : Header) : Prop :=
  1 ≤ h.size ∧ h.size ≤ blockSize - h.addr.val.toNat % blockSize

theorem Header.fits_iff {h : Header} :
    h.Fits ↔ 1 ≤ h.size ∧ h.addr.offset + h.size ≤ blockSize := by
  have hoff : h.addr.val.toNat % blockSize = h.addr.offset := rfl
  have hlt := h.addr.offset_lt
  unfold Fits
  omega

end Packet

/-- The reason to refuse an access, if there is one. -/
def PacketError.Refuses (e : PacketError) (h : Packet.Header) : Prop :=
  h.size = 0 ∧ e = .empty h.addr ∨
    blockSize - h.addr.val.toNat % blockSize < h.size ∧ e = .crossesBlock h.addr h.size

namespace PacketError

variable {e e' : PacketError} {h : Packet.Header}

theorem Refuses.unique (refuses : e.Refuses h) (refuses' : e'.Refuses h) : e = e' := by
  rcases refuses with ⟨empty, rfl⟩ | ⟨spills, rfl⟩ <;>
    rcases refuses' with ⟨empty', rfl⟩ | ⟨spills', rfl⟩
  · rfl
  · omega
  · omega
  · rfl

theorem Refuses.not_fits (refuses : e.Refuses h) : ¬ h.Fits := by
  rintro ⟨pos, le⟩
  rcases refuses with ⟨empty, -⟩ | ⟨spills, -⟩ <;> omega

end PacketError

namespace Packet

/-- What a packet is built from. -/
inductive Draft
  | read (addr : Address) (size : Nat)
  | write (addr : Address) (data : List UInt8)
  | postedWrite (addr : Address) (data : List UInt8)
  | other (addr : Address)
  | blockRead (block : BlockNumber)
  | blockWrite (block : BlockNumber) (contents : Block)

namespace Draft

def packet : Draft → Except PacketError Packet
  | read addr size => Packet.read addr size
  | write addr data => Packet.write addr data
  | postedWrite addr data => Packet.postedWrite addr data
  | other addr => .ok (Packet.other addr)
  | blockRead block => .ok (Packet.blockRead block)
  | blockWrite block contents => .ok (Packet.blockWrite block contents)

/-- The header that the packet is to have. -/
def header : Draft → Header
  | read addr size => ⟨addr, .read, size, true⟩
  | write addr data => ⟨addr, .write, data.length, true⟩
  | postedWrite addr data => ⟨addr, .write, data.length, false⟩
  | other addr => ⟨addr, .other, 0, false⟩
  | blockRead block => ⟨block.base, .read, blockSize, true⟩
  | blockWrite block _ => ⟨block.base, .write, blockSize, true⟩

def data : Draft → List UInt8
  | read _ size => List.replicate size 0
  | write _ data | postedWrite _ data => data
  | other _ => []
  | blockRead _ => List.replicate blockSize 0
  | blockWrite _ contents => contents.toList

/-- An access of a size that somebody chose is checked; other traffic and whole blocks are not. -/
def isChecked : Draft → Bool
  | read .. | write .. | postedWrite .. => true
  | other _ | blockRead _ | blockWrite .. => false

/-- What building a packet can come to. -/
inductive Outcome (d : Draft) : Except PacketError Packet → Prop
  | refused {e : PacketError} : d.isChecked = true → e.Refuses d.header → Outcome d (.error e)
  | built {p : Packet} : (d.isChecked = true → d.header.Fits) → p.header = d.header →
      p.data = d.data → p.isResponse = false → Outcome d (.ok p)

theorem outcome_read (addr : Address) (size : Nat) :
    (read addr size).Outcome (Packet.read addr size) := by
  have hoff : addr.val.toNat % blockSize = addr.offset := rfl
  have hlt := addr.offset_lt
  unfold Packet.read
  split
  · next empty => exact .refused rfl (.inl ⟨empty, rfl⟩)
  · next empty =>
    split
    · next fits =>
      have hsize : (List.replicate size (0 : UInt8)).length = size := List.length_replicate
      refine .built (fun _ => Header.fits_iff.mpr ⟨Nat.pos_of_ne_zero empty, fits⟩) ?_ rfl rfl
      simp only [Packet.header, Packet.size, hsize, header]
    · next spills =>
      have room : blockSize - addr.val.toNat % blockSize < size := by omega
      exact .refused rfl (.inr ⟨room, rfl⟩)

/-- A write is built alike whether it is posted or not. -/
theorem outcome_store {d : Draft} {addr : Address} {data : List UInt8} {needsResponse : Bool}
    (header : d.header = ⟨addr, .write, data.length, needsResponse⟩) (bytes : d.data = data)
    (checked : d.isChecked = true) : d.Outcome (Packet.store addr data needsResponse) := by
  have hoff : addr.val.toNat % blockSize = addr.offset := rfl
  have hlt := addr.offset_lt
  unfold Packet.store
  split
  · next empty =>
    refine .refused checked (.inl ?_)
    rw [header, empty]
    exact ⟨rfl, rfl⟩
  · next empty =>
    split
    · next fits =>
      have hfits : d.header.Fits := by
        rw [header, Header.fits_iff]
        exact ⟨List.length_pos_iff.mpr empty, fits⟩
      exact .built (fun _ => hfits) header.symm bytes.symm rfl
    · next spills =>
      have room : blockSize - addr.val.toNat % blockSize < data.length := by omega
      refine .refused checked (.inr ?_)
      rw [header]
      exact ⟨room, rfl⟩

theorem outcome (d : Draft) : d.Outcome d.packet := by
  cases d with
  | read addr size => exact outcome_read addr size
  | write addr data => exact outcome_store rfl rfl rfl
  | postedWrite addr data => exact outcome_store rfl rfl rfl
  | other addr => exact .built (fun checked => by cases checked) rfl rfl rfl
  | blockRead block => exact .built (fun checked => by cases checked) rfl rfl rfl
  | blockWrite block contents =>
    have hsize : contents.toList.length = blockSize := Vector.length_toList
    refine .built (fun checked => by cases checked) ?_ rfl rfl
    simp only [Packet.header, Packet.blockWrite, Packet.size, hsize, header]

variable {d : Draft} {p : Packet} {e : PacketError}

theorem header_of_packet (h : d.packet = .ok p) : p.header = d.header := by
  have outcome := d.outcome
  rw [h] at outcome
  cases outcome with
  | built _ header _ _ => exact header

theorem fits_of_packet (h : d.packet = .ok p) (checked : d.isChecked = true) : d.header.Fits := by
  have outcome := d.outcome
  rw [h] at outcome
  cases outcome with
  | built fits _ _ _ => exact fits checked

theorem packet_eq_error_iff :
    d.packet = .error e ↔ d.isChecked = true ∧ e.Refuses d.header := by
  have outcome := d.outcome
  constructor
  · intro h
    rw [h] at outcome
    cases outcome with
    | refused checked refuses => exact ⟨checked, refuses⟩
  · rintro ⟨checked, refuses⟩
    generalize d.packet = result at outcome ⊢
    cases outcome with
    | refused _ refuses' => rw [refuses'.unique refuses]
    | built fits => exact (refuses.not_fits (fits checked)).elim

theorem exists_packet_iff :
    (∃ p, d.packet = .ok p) ↔ (d.isChecked = true → d.header.Fits) := by
  constructor
  · rintro ⟨p, h⟩ checked
    exact fits_of_packet h checked
  · intro fits
    cases h : d.packet with
    | ok p => exact ⟨p, rfl⟩
    | error e =>
      obtain ⟨checked, refuses⟩ := packet_eq_error_iff.mp h
      exact (refuses.not_fits (fits checked)).elim

end Draft

end Packet

end WritebackCache
