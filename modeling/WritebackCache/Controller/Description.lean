import WritebackCache.Controller
import WritebackCache.Text.Record

/-! A controller in words. -/

namespace WritebackCache

open Text

def Address.describe (a : Address) : String := applied "PhysAddr" (Numeral.decimal a.val.toNat)

def BlockNumber.describe (b : BlockNumber) : String :=
  applied "BlockAddr" (Numeral.decimal b.val.toNat)

def describeBytes (bytes : List UInt8) : String :=
  listed (bytes.map fun b => Numeral.decimal b.toNat)

def Packet.describe (p : Packet) : String :=
  closedRecord "Packet"
    [("addr", p.addr.describe), ("cmd", p.kind.name), ("size", Numeral.decimal p.size),
     ("data", describeBytes p.data), ("needs_response", truth p.needsResponse),
     ("is_response", truth p.isResponse)]

def Stage.describe : Stage → String
  | fetching => "Fetching"
  | writingBack _ victim fetched =>
    closedRecord "WritingBack"
      [("victim", victim.describe), ("fetched", describeBytes fetched.toList)]

def Miss.describe (m : Miss) : String :=
  closedRecord "PendingTransaction"
    [("request", m.request.describe), ("chosen_way", optional (m.way?.map Numeral.decimal)),
     ("phase", m.stage.describe)]

def Controller.describe (c : Controller) : String :=
  openRecord "CacheController"
    [("num_sets", Numeral.decimal c.grid.sets), ("ways", Numeral.decimal c.grid.ways),
     ("latency", Numeral.decimal c.latency.toNat), ("state", c.status.name),
     ("pending", optional (c.miss.map Miss.describe)), ("need_retry", truth c.retryOwed)]

end WritebackCache
