import WritebackCache.Memory

/-! What memory does with a request for a whole block. A fetch leaves the contents alone and carries the
block away, a writeback puts a block in place; either is logged, and its answer is promised for the
time at which its latency is over, or for that of the answer before it if that one is later. -/

namespace WritebackCache

theorem Packet.block_blockRead {b : BlockNumber} (h : b.InSpace) : (Packet.blockRead b).block = b :=
  BlockNumber.block_base h

theorem Packet.block_blockWrite {b : BlockNumber} (h : b.InSpace) (data : Block) :
    (Packet.blockWrite b data).block = b := BlockNumber.block_base h

/-- A packet that carries a whole block carries exactly that block. -/
theorem Block.ofBytes_toList (b : Block) : Block.ofBytes b.toList = b := by
  apply Vector.ext
  intro i hi
  rw [ofBytes, getElem_patch _ _ _ _ hi]
  simp [hi]

theorem Packet.blockData_blockWrite (b : BlockNumber) (data : Block) :
    (Packet.blockWrite b data).blockData = data := Block.ofBytes_toList data

/-- The answer to a fetch carries the whole block. -/
theorem Packet.data_fetched (b : BlockNumber) (data : Block) :
    ((Packet.blockRead b).filledFrom data).asResponse.data = data.toList := by
  have hoff : (Packet.blockRead b).offset = 0 := b.offset_base
  have hsize : (Packet.blockRead b).size = blockSize := List.length_replicate
  show data.slice (Packet.blockRead b).offset (Packet.blockRead b).size = _
  rw [Block.slice, hoff, hsize, List.drop_zero, List.take_of_length_le (by simp)]

theorem Packet.blockData_fetched (b : BlockNumber) (data : Block) :
    ((Packet.blockRead b).filledFrom data).asResponse.blockData = data := by
  rw [blockData, data_fetched]
  exact Block.ofBytes_toList data

namespace Memory

variable {σ : Type} [LatencyModel σ]

/-- Memory took one request for a block at a tick and promised the answer for another. -/
structure Took (m after : Memory σ) (op : MemoryOp) (block : BlockNumber) (now latency done : Tick) :
    Prop where
  accessed : LatencyModel.access m.timing block.base = (after.timing, .ok latency)
  promised : done = Word.later (Word.saturatingAdd now latency) m.readyAt
  ready : after.readyAt = done
  logged : after.log = m.log ++ [⟨op, block, now, done⟩]

theorem serve_fetch {m after : Memory σ} {now done : Tick} {b : BlockNumber} {response : Packet}
    (hb : b.InSpace) (h : m.serve now (.blockRead b) = (after, .ok (done, response))) :
    after.contents = m.contents ∧
      response = ((Packet.blockRead b).filledFrom (m.contents.readBlock b)).asResponse ∧
      ∃ latency, m.Took after .fetch b now latency done := by
  unfold serve at h
  split at h
  · cases h
  · next timing latency ha =>
    cases h
    rw [Packet.block_blockRead hb]
    exact ⟨rfl, rfl, latency, ha, rfl, rfl, rfl⟩

theorem serve_writeback {m after : Memory σ} {now done : Tick} {b : BlockNumber} {data : Block}
    {response : Packet} (hb : b.InSpace)
    (h : m.serve now (.blockWrite b data) = (after, .ok (done, response))) :
    after.contents = m.contents.writeBlock b data ∧
      response = (Packet.blockWrite b data).asResponse ∧
      ∃ latency, m.Took after .writeback b now latency done := by
  unfold serve at h
  split at h
  · cases h
  · next timing latency ha =>
    cases h
    rw [Packet.block_blockWrite hb, Packet.blockData_blockWrite]
    exact ⟨rfl, rfl, latency, ha, rfl, rfl, rfl⟩

/-- Only its timing keeps memory from serving a request. -/
theorem serve_error {m after : Memory σ} {now : Tick} {p : Packet} {f : Fault}
    (h : m.serve now p = (after, .error f)) : (LatencyModel.access m.timing p.addr).2 = .error f := by
  unfold serve at h
  split at h
  · next ha => cases h; rw [ha]
  · cases h

end Memory

end WritebackCache
