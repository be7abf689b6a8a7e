import WritebackCache.AccessKind
import WritebackCache.Block

/-! Packets: the unit of traffic between requester, controller and memory. The bytes of a packet lie
within one block, which is part of its type; its size is their number. A packet turns into its own
response. -/

namespace WritebackCache

structure Packet where
  addr : Address
  kind : AccessKind
  data : List UInt8
  needsResponse : Bool
  isResponse : Bool := false
  fits : addr.offset + data.length ≤ blockSize
  deriving DecidableEq

inductive PacketError
  | empty (addr : Address)
  | crossesBlock (addr : Address) (size : Nat)
  deriving DecidableEq

def PacketError.message : PacketError → String
  | empty addr => s!"zero-length access at {addr.text}"
  | crossesBlock addr size =>
    "access of " ++ Numeral.decimal size ++ " bytes at " ++ addr.text ++ " crosses a block boundary"

namespace Packet

def read (addr : Address) (size : Nat) : Except PacketError Packet :=
  if size = 0 then .error (.empty addr)
  else if h : addr.offset + size ≤ blockSize then
    .ok ⟨addr, .read, List.replicate size 0, true, false, by simpa using h⟩
  else .error (.crossesBlock addr size)

/-- A write, which expects a response unless it is posted. -/
def store (addr : Address) (data : List UInt8) (needsResponse : Bool) : Except PacketError Packet :=
  if data = [] then .error (.empty addr)
  else if h : addr.offset + data.length ≤ blockSize then
    .ok ⟨addr, .write, data, needsResponse, false, h⟩
  else .error (.crossesBlock addr data.length)

def write (addr : Address) (data : List UInt8) : Except PacketError Packet := store addr data true

def postedWrite (addr : Address) (data : List UInt8) : Except PacketError Packet :=
  store addr data false

/-- Traffic that is neither read nor write: no bytes and no response. -/
def other (addr : Address) : Packet :=
  ⟨addr, .other, [], false, false, Nat.le_of_lt addr.offset_lt⟩

/-- The fetch of a whole block. -/
def blockRead (block : BlockNumber) : Packet :=
  ⟨block.base, .read, List.replicate blockSize 0, true, false, by simp⟩

/-- The writeback of a whole block. -/
def blockWrite (block : BlockNumber) (contents : Block) : Packet :=
  ⟨block.base, .write, contents.toList, true, false, by simp⟩

def size (p : Packet) : Nat := p.data.length

def offset (p : Packet) : Nat := p.addr.offset

def block (p : Packet) : BlockNumber := p.addr.block

def isRead (p : Packet) : Bool := p.kind = .read

def isWrite (p : Packet) : Bool := p.kind = .write

/-- The packet with the bytes that `contents` holds in its place. -/
def filledFrom (p : Packet) (contents : Block) : Packet :=
  { p with
    data := contents.slice p.offset p.size
    fits := Nat.le_trans (Nat.le_of_eq (congrArg _ (contents.length_slice p.fits))) p.fits }

def asResponse (p : Packet) : Packet := { p with isResponse := true }

/-- The bytes as a whole block; a shorter payload leaves zeros behind it. -/
def blockData (p : Packet) : Block := .ofBytes p.data

@[simp] theorem size_filledFrom (p : Packet) (contents : Block) :
    (p.filledFrom contents).size = p.size := contents.length_slice p.fits

end Packet

end WritebackCache
