import WritebackCache.Proofs.GridFrame
import WritebackCache.Proofs.PacketDraft

/-! The shape of a packet. A loose packet is the fields alone: its size stands beside its bytes, and
nothing but the checks made when it is built ties the two to each other and to one block. To build it
takes a subtraction and an allocation, to fill it the bytes are cut out of a block, and each of these can
fault. Yet whatever is built, filled and turned into a response is, field by field, a packet whose type
holds it in shape, and no fault ever arises. So the bytes of a packet fit wherever its block lies: they can
be laid over any valid line, and a packet filled from that line again is what it was. -/

namespace WritebackCache

/-- The bytes cut out of a block, which must hold them all. -/
def Block.cut (b : Block) (offset len : Nat) : Except Fault (List UInt8) :=
  if UInt64.size ≤ offset + len then .error .addOverflow
  else if blockSize < offset + len then .error .indexRange
  else .ok (b.slice offset len)

namespace Packet

/-- What can be done to a packet. -/
inductive Alteration
  | fill (contents : Block)
  | respond

def alter (p : Packet) : Alteration → Packet
  | .fill contents => p.filledFrom contents
  | .respond => p.asResponse

def alterAll (p : Packet) (steps : List Alteration) : Packet := steps.foldl alter p

end Packet

structure LoosePacket extends Packet.Header where
  data : List UInt8
  isResponse : Bool

/-- The packet without what its type knows of it. -/
def Packet.loose (p : Packet) : LoosePacket := ⟨p.header, p.data, p.isResponse⟩

namespace LoosePacket

/-- Refuses an access without bytes, and one that spills out of its block. -/
def checkBounds (addr : Address) (size : Nat) : Except (Failure PacketError) Unit :=
  if size = 0 then .error (.refused (.empty addr))
  else if blockSize < addr.offset then .error (.fault .subOverflow)
  else if blockSize - addr.offset < size then .error (.refused (.crossesBlock addr size))
  else .ok ()

def checked (header : Packet.Header) (data : List UInt8) : Except (Failure PacketError) LoosePacket := do
  checkBounds header.addr header.size
  return ⟨header, data, false⟩

/-- A run of zeros; no byte string fills half the address space. -/
def zeros (size : Nat) : Except Fault (List UInt8) :=
  if UInt64.size / 2 ≤ size then .error .indexRange else .ok (List.replicate size 0)

/-- The size is checked before any bytes are allocated, and then once more. -/
def read (addr : Address) (size : Nat) : Except (Failure PacketError) LoosePacket := do
  checkBounds addr size
  let data ← orFault (zeros size)
  checked ⟨addr, .read, size, true⟩ data

def store (addr : Address) (data : List UInt8) (needsResponse : Bool) :
    Except (Failure PacketError) LoosePacket :=
  checked ⟨addr, .write, data.length, needsResponse⟩ data

def fill (q : LoosePacket) (contents : Block) : Except Fault LoosePacket :=
  (contents.cut q.addr.offset q.size).map fun data => { q with data }

def alter (q : LoosePacket) : Packet.Alteration → Except Fault LoosePacket
  | .fill contents => q.fill contents
  | .respond => .ok { q with isResponse := true }

def alterAll (q : LoosePacket) (steps : List Packet.Alteration) : Except Fault LoosePacket :=
  steps.foldlM alter q

end LoosePacket

def Packet.Draft.loose : Packet.Draft → Except (Failure PacketError) LoosePacket
  | read addr size => LoosePacket.read addr size
  | write addr data => LoosePacket.store addr data true
  | postedWrite addr data => LoosePacket.store addr data false
  | other addr => .ok ⟨⟨addr, .other, 0, false⟩, [], false⟩
  | blockRead block => .ok ⟨⟨block.base, .read, blockSize, true⟩, List.replicate blockSize 0, false⟩
  | blockWrite block contents => .ok ⟨⟨block.base, .write, blockSize, true⟩, contents.toList, false⟩

/-! ## Building a packet -/

namespace LoosePacket

variable {h : Packet.Header}

theorem checkBounds_fits (fits : h.Fits) : checkBounds h.addr h.size = .ok () := by
  obtain ⟨pos, le⟩ := Packet.Header.fits_iff.mp fits
  rw [checkBounds, if_neg (by omega), if_neg (by omega), if_neg (by omega)]

theorem checkBounds_refuses {e : PacketError} (refuses : e.Refuses h) :
    checkBounds h.addr h.size = .error (.refused e) := by
  have hoff : h.addr.val.toNat % blockSize = h.addr.offset := rfl
  have hlt := h.addr.offset_lt
  rcases refuses with ⟨empty, rfl⟩ | ⟨spills, rfl⟩
  · exact if_pos empty
  · rw [checkBounds, if_neg (by omega), if_neg (by omega), if_pos (by omega)]

theorem checked_eq (header : Packet.Header) (data : List UInt8) : checked header data =
    (checkBounds header.addr header.size).map fun () => ⟨header, data, false⟩ := by
  unfold checked
  cases checkBounds header.addr header.size <;> rfl

theorem read_eq (addr : Address) (size : Nat) : read addr size = (checkBounds addr size).map
    fun () => ⟨⟨addr, .read, size, true⟩, List.replicate size 0, false⟩ := by
  unfold read
  cases hcheck : checkBounds addr size with
  | error why => rfl
  | ok =>
    -- a size that cannot be allocated spills out of its block, and was refused before
    have half : ¬ UInt64.size / 2 ≤ size := by
      intro hle
      have hblock : blockSize < UInt64.size / 2 := by decide
      have spills : blockSize - addr.val.toNat % blockSize < size := by omega
      have refused := @checkBounds_refuses ⟨addr, .read, size, true⟩ _ (.inr ⟨spills, rfl⟩)
      rw [hcheck] at refused
      cases refused
    rw [zeros, if_neg half]
    show checked _ _ = _
    rw [checked_eq, hcheck]

end LoosePacket

namespace Packet.Draft

/-- A loose packet is as its draft has it, if the checks made of it let it through. -/
theorem loose_checks (d : Draft) : d.loose =
    (if d.isChecked then LoosePacket.checkBounds d.header.addr d.header.size else .ok ()).map
      fun () => ⟨d.header, d.data, false⟩ := by
  cases d with
  | read addr size => exact LoosePacket.read_eq addr size
  | write addr data => exact LoosePacket.checked_eq _ data
  | postedWrite addr data => exact LoosePacket.checked_eq _ data
  | other addr => rfl
  | blockRead block => rfl
  | blockWrite block contents => rfl

/-- The loose packets that come through the checks are the packets held in shape by their type. -/
theorem loose_eq (d : Draft) : d.loose = orRefuse (d.packet.map Packet.loose) := by
  have outcome := d.outcome
  rw [loose_checks]
  generalize d.packet = result at outcome ⊢
  cases outcome with
  | refused checked refuses =>
    rw [if_pos checked, LoosePacket.checkBounds_refuses refuses]
    rfl
  | @built p fits header data request =>
    have pass : (if d.isChecked then LoosePacket.checkBounds d.header.addr d.header.size
        else .ok ()) = .ok () := by
      split
      · next checked => exact LoosePacket.checkBounds_fits (fits checked)
      · rfl
    rw [pass, ← header, ← data, ← request]
    rfl

end Packet.Draft

/-! ## What is done to a packet -/

theorem Block.cut_eq (b : Block) {offset len : Nat} (h : offset + len ≤ blockSize) :
    b.cut offset len = .ok (b.slice offset len) := by
  have hword : ¬ UInt64.size ≤ offset + len :=
    Nat.not_le_of_lt (Nat.lt_of_le_of_lt h (by decide))
  rw [cut, if_neg hword, if_neg (Nat.not_lt_of_le h)]

namespace Packet

theorem header_alter (p : Packet) (a : Alteration) : (p.alter a).header = p.header := by
  cases a with
  | fill contents =>
    simp only [alter, header, size_filledFrom]
    rfl
  | respond => rfl

theorem header_alterAll (p : Packet) (steps : List Alteration) :
    (p.alterAll steps).header = p.header := by
  induction steps generalizing p with
  | nil => rfl
  | cons a rest ih => exact (ih (p.alter a)).trans (p.header_alter a)

theorem loose_fill (p : Packet) (contents : Block) :
    p.loose.fill contents = .ok (p.filledFrom contents).loose := by
  have hheader : (p.filledFrom contents).header = p.header := p.header_alter (.fill contents)
  have hcut : contents.cut p.offset p.size = .ok (contents.slice p.offset p.size) :=
    contents.cut_eq p.fits
  show (contents.cut p.offset p.size).map _ = _
  rw [hcut, loose, loose, hheader]
  rfl

/-- What is done to a packet can be done to its loose fields, without a fault. -/
theorem loose_alter (p : Packet) (a : Alteration) : p.loose.alter a = .ok (p.alter a).loose := by
  cases a with
  | fill contents => exact p.loose_fill contents
  | respond => rfl

theorem loose_alterAll (p : Packet) (steps : List Alteration) :
    p.loose.alterAll steps = .ok (p.alterAll steps).loose := by
  induction steps generalizing p with
  | nil => rfl
  | cons a rest ih =>
    rw [LoosePacket.alterAll, List.foldlM_cons, loose_alter]
    exact ih (p.alter a)

/-- A packet filled from a block over which its bytes were laid is what it was. -/
theorem filledFrom_patch (p : Packet) (contents : Block) :
    p.filledFrom (contents.patch p.offset p.data) = p := by
  have hslice := contents.slice_patch p.fits
  cases p
  simp only [filledFrom, offset, size, hslice]

end Packet

/-- A loose packet has the header it was made with, and its bytes fit wherever its block lies: it can be
filled from any block and laid over any valid line, and filled from that line again it is what it was. -/
structure LoosePacket.InShape (q : LoosePacket) (made : Packet.Header) : Prop where
  unchanged : q.toHeader = made
  length : q.data.length = q.size
  within : q.addr.offset + q.size ≤ blockSize
  fills : ∀ contents, ∃ r, q.fill contents = .ok r
  returns : ∀ {g : Grid} {set way : Nat} {l : Line} (dirty : Bool),
    g.line set way = .ok l → l.valid = true →
    ∃ g' l', g.write set way q.addr.offset q.data dirty = .ok g' ∧ g'.line set way = .ok l' ∧
      q.fill l'.data = .ok q

namespace Packet

theorem inShape_loose (p : Packet) : p.loose.InShape p.header where
  unchanged := rfl
  length := rfl
  within := p.fits
  fills contents := ⟨_, p.loose_fill contents⟩
  returns := by
    intro g set way l dirty hl valid
    obtain ⟨has, rfl⟩ := Grid.line_eq_ok.mp hl
    have hfill := p.loose_fill ((g.cell set way).data.patch p.offset p.data)
    rw [p.filledFrom_patch] at hfill
    exact ⟨_, _, Grid.write_eq has (fun _ => valid) p.fits,
      Grid.line_eq_ok.mpr ⟨has, Grid.cell_put_self _ has⟩, hfill⟩

/-- A packet keeps its shape. A draft is refused exactly if it is an access that is empty or spills out
of its block, and for that reason. Built loosely and altered in any number of steps it comes, without a
fault, to the fields of the packet so built and altered; and these are in shape. -/
theorem keeps_its_shape (d : Draft) (steps : List Alteration) :
    ((∃ p, d.packet = .ok p) ↔ (d.isChecked = true → d.header.Fits)) ∧
    (∀ e, d.packet = .error e ↔ d.isChecked = true ∧ e.Refuses d.header) ∧
    (d.loose.bind fun q => orFault (q.alterAll steps)) =
      orRefuse (d.packet.map fun p => (p.alterAll steps).loose) ∧
    ∀ p, d.packet = .ok p → (p.alterAll steps).loose.InShape d.header := by
  refine ⟨Draft.exists_packet_iff, fun e => Draft.packet_eq_error_iff, ?built, fun p made => ?kept⟩
  case built =>
    rw [Draft.loose_eq]
    cases d.packet with
    | error e => rfl
    | ok p => exact congrArg orFault (p.loose_alterAll steps)
  case kept =>
    have hheader : (p.alterAll steps).header = d.header :=
      (p.header_alterAll steps).trans (Draft.header_of_packet made)
    rw [← hheader]
    exact (p.alterAll steps).inShape_loose

/-- The last two bytes of the address space: filled with fives, turned into a response and laid over a
line of zeros. -/
theorem keeps_its_shape_at_end : ∃ (p q : Packet) (g g' : Grid) (l' : Line),
    (Draft.postedWrite ⟨18446744073709551614⟩ [7, 9]).packet = .ok p ∧
      q = p.alterAll [.fill (Vector.replicate blockSize 5), .respond] ∧ q.data = [5, 5] ∧
      q.loose.InShape ⟨⟨18446744073709551614⟩, .write, 2, false⟩ ∧
      g.line 0 0 = .ok ⟨true, false, ⟨3⟩, 0, .zero⟩ ∧ g.write 0 0 62 [5, 5] true = .ok g' ∧
      g'.line 0 0 = .ok l' ∧ q.loose.fill l'.data = .ok q.loose := by
  let g := (Grid.oneSet 1 Nat.one_pos).put 0 0 ⟨true, false, ⟨3⟩, 0, .zero⟩
  have line : g.line 0 0 = .ok ⟨true, false, ⟨3⟩, 0, .zero⟩ := rfl
  obtain ⟨-, -, -, keeps⟩ := keeps_its_shape (.postedWrite ⟨18446744073709551614⟩ [7, 9])
    [.fill (Vector.replicate blockSize 5), .respond]
  have shape := keeps _ rfl
  obtain ⟨g', l', written, held, same⟩ := shape.returns true line rfl
  exact ⟨_, _, g, g', l', rfl, rfl, by decide, shape, line, written, held, same⟩

end Packet

end WritebackCache
