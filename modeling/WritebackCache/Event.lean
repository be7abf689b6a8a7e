import WritebackCache.Packet

/-! Events: what can happen at a tick of the simulated clock. -/

namespace WritebackCache

abbrev Tick := UInt64

inductive Event
  /-- The requester offers its next request. -/
  | issue
  /-- The controller is free again after it turned a request away. -/
  | retry
  /-- The controller hands its response to the requester. -/
  | deliver
  /-- The controller becomes free without a response. -/
  | unblock
  /-- Memory has finished a fetch or a writeback. -/
  | memoryResponse (response : Packet)
  deriving DecidableEq

end WritebackCache
