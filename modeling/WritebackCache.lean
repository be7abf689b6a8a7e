import WritebackCache.Bench
import WritebackCache.Controller.Description
import WritebackCache.Main
import WritebackCache.Proofs.AgendaOrder
import WritebackCache.Proofs.Coherence
import WritebackCache.Proofs.Counters
import WritebackCache.Proofs.FlatMemory
import WritebackCache.Proofs.GridMap
import WritebackCache.Proofs.MemoryPort
import WritebackCache.Proofs.Move
import WritebackCache.Proofs.OnTime
import WritebackCache.Proofs.Protocol
import WritebackCache.Proofs.Ranking
import WritebackCache.Proofs.Recency
import WritebackCache.Proofs.Refinement
import WritebackCache.Proofs.Responses
import WritebackCache.Proofs.Run
import WritebackCache.Proofs.Schedule
import WritebackCache.Proofs.Service
import WritebackCache.Proofs.Timeline
import WritebackCache.Proofs.Turn
import WritebackCache.Simulation.Work
import WritebackCache.Proofs.Handshake
import WritebackCache.Proofs.Conclusion
import WritebackCache.Proofs.Outlook
import WritebackCache.Proofs.Linearizability
import WritebackCache.Proofs.Calls
import WritebackCache.Proofs.Writeback
import WritebackCache.Proofs.Untimed
import WritebackCache.Proofs.Inclusion
import WritebackCache.Proofs.TimingIndependence
import WritebackCache.Proofs.MoreWays
import WritebackCache.Proofs.Calendar
import WritebackCache.Proofs.AnswerOrder
import WritebackCache.Proofs.Backpressure
import WritebackCache.Proofs.Violations
import WritebackCache.Proofs.Traffic
import WritebackCache.Proofs.Geometry
import WritebackCache.Proofs.StoredBytes
import WritebackCache.Proofs.RowBuffer
import WritebackCache.Proofs.WordBounds
import WritebackCache.Proofs.Overflow
import WritebackCache.Proofs.LineByLine
import WritebackCache.Proofs.AddressSpace
import WritebackCache.Proofs.Numerals
import WritebackCache.Proofs.TraceGrammar
import WritebackCache.Proofs.TraceFlaws
import WritebackCache.Proofs.Layout
import WritebackCache.Proofs.TracePrinting
import WritebackCache.Proofs.Victim
import WritebackCache.Proofs.GridFrame
import WritebackCache.Proofs.OpenRow
import WritebackCache.Proofs.Settings
import WritebackCache.Proofs.PacketShape
import WritebackCache.Proofs.Nearest
import WritebackCache.Proofs.Transaction
