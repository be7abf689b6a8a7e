import WritebackCache.Controller
import WritebackCache.Proofs.GridMap
import WritebackCache.Proofs.PacketDraft

/-! What the controller does with a line. On a sound grid serving a hit, filling a block and finishing
after a writeback never fail, and all of them come down to one replaced line: the request takes effect
on it, the line gets the next stamp, and the end of the request is scheduled. -/

namespace WritebackCache

namespace Packet

/-- What a requester sends: a read, a write, a posted write or other traffic. -/
inductive IsRequest : Packet → Prop
  | read {addr size p} : Packet.read addr size = .ok p → IsRequest p
  | write {addr data p} : Packet.write addr data = .ok p → IsRequest p
  | postedWrite {addr data p} : Packet.postedWrite addr data = .ok p → IsRequest p
  | other {addr} : IsRequest (Packet.other addr)

/-- A request for a single byte. -/
def byte (addr : Address) (kind : AccessKind) (value : UInt8) (needsResponse : Bool) : Packet :=
  ⟨addr, kind, [value], needsResponse, false, addr.offset_lt⟩

/-- A read expects a response, other traffic does not, and a write may or may not. -/
theorem IsRequest.kinds {p : Packet} (h : p.IsRequest) : p.kind = .read ∧ p.needsResponse = true ∨
    p.kind = .write ∨ p.kind = .other ∧ p.needsResponse = false := by
  cases h with
  | @read addr size _ h =>
    have header := Draft.header_of_packet (d := .read addr size) h
    exact .inl ⟨congrArg Header.kind header, congrArg Header.needsResponse header⟩
  | @write addr data _ h =>
    have header := Draft.header_of_packet (d := .write addr data) h
    exact .inr (.inl (congrArg Header.kind header))
  | @postedWrite addr data _ h =>
    have header := Draft.header_of_packet (d := .postedWrite addr data) h
    exact .inr (.inl (congrArg Header.kind header))
  | other => exact .inr (.inr ⟨rfl, rfl⟩)

theorem needsResponse_of_other {p : Packet} (h : p.IsRequest) (ho : p.kind = .other) :
    p.needsResponse = false := by
  rcases h.kinds with ⟨hk, _⟩ | hk | ⟨_, hn⟩
  · rw [ho] at hk; cases hk
  · rw [ho] at hk; cases hk
  · exact hn

theorem isWrite_of_posted {p : Packet} (h : p.IsRequest) (kind : p.kind ≠ .other)
    (posted : p.needsResponse = false) : p.isWrite = true := by
  rcases h.kinds with ⟨_, hn⟩ | hk | ⟨hk, _⟩
  · rw [posted] at hn; cases hn
  · exact decide_eq_true hk
  · exact (kind hk).elim

theorem isReadOrWrite_iff {p : Packet} : p.kind.isReadOrWrite = true ↔ p.kind ≠ .other := by
  cases h : p.kind <;> simp [AccessKind.isReadOrWrite]

/-- The event that ends the service of a packet. -/
def ended (p : Packet) : Event := if p.needsResponse then .deliver else .unblock

end Packet

/-- The line after a request took effect on it. -/
def Line.served (l : Line) (p : Packet) : Line :=
  { l with
    data := if p.isWrite then l.data.patch p.offset p.data else l.data
    dirty := l.dirty || p.isWrite }

/-- A line filled with the block of a request, after that request took effect on it. -/
def Line.filled (p : Packet) (fetched : Block) : Line :=
  Line.served ⟨true, false, p.block, 0, fetched⟩ p

@[simp] theorem Line.tag_served (l : Line) (p : Packet) : (l.served p).tag = l.tag := rfl

@[simp] theorem Line.valid_served (l : Line) (p : Packet) : (l.served p).valid = l.valid := rfl

@[simp] theorem Line.tag_filled (p : Packet) (fetched : Block) :
    (Line.filled p fetched).tag = p.block := rfl

@[simp] theorem Line.valid_filled (p : Packet) (fetched : Block) :
    (Line.filled p fetched).valid = true := rfl

@[simp] theorem Line.dirty_filled (p : Packet) (fetched : Block) :
    (Line.filled p fetched).dirty = p.isWrite := rfl

/-- A grid stays sound when a request is served from the line found for it. -/
theorem Grid.Sound.hit {g : Grid} {p : Packet} {way : Nat} (h : g.Sound)
    (found : g.lookup p.block = some way) :
    (g.use (g.setOf p.block) way ((g.cell (g.setOf p.block) way).served p)).Sound := by
  obtain ⟨hw, hh⟩ := holds_of_lookup found
  obtain ⟨hv, ht⟩ := holds_iff.mp hh
  exact h.use (h.fits_of_holds hw hh hv ht)

/-- A grid stays sound when the block of a request that found no line is filled in. -/
theorem Grid.Sound.fill {g : Grid} {p : Packet} {way : Nat} (h : g.Sound) (inSet : way < g.ways)
    (absent : g.lookup p.block = none) (fetched : Block) :
    (g.use (g.setOf p.block) way (Line.filled p fetched)).Sound :=
  h.use (fits_of_lookup inSet absent p.addr.inSpace_block rfl rfl)

namespace Controller

/-- The end of a request: its response, or a mere release. -/
def ending (c : Controller) (p : Packet) : Action := .schedule c.latency p.ended

/-- The response that waits once a request is served from a block. -/
def reply (c : Controller) (p : Packet) (data : Block) : Option Packet :=
  if p.needsResponse then some (p.filledFrom data).asResponse else c.response

/-- The controller after a request was served from a way, with what the line is then. -/
def finish (c : Controller) (p : Packet) (way : Nat) (l : Line) (status : Status) : Controller :=
  { c with
    grid := c.grid.use (c.grid.setOf p.block) way l
    status
    response := c.reply p l.data }

@[simp] theorem grid_finish (c : Controller) (p : Packet) (way : Nat) (l : Line) (status : Status) :
    (c.finish p way l status).grid = c.grid.use (c.grid.setOf p.block) way l := rfl

@[simp] theorem status_finish (c : Controller) (p : Packet) (way : Nat) (l : Line) (status : Status) :
    (c.finish p way l status).status = status := rfl

@[simp] theorem miss_finish (c : Controller) (p : Packet) (way : Nat) (l : Line) (status : Status) :
    (c.finish p way l status).miss = c.miss := rfl

@[simp] theorem response_finish (c : Controller) (p : Packet) (way : Nat) (l : Line)
    (status : Status) : (c.finish p way l status).response = c.reply p l.data := rfl

@[simp] theorem miss_abandon (c : Controller) : c.abandon.miss = none := rfl

/-- Once a line was used for a request, what it holds is the answer. -/
theorem respond_finish {c : Controller} {p : Packet} {way : Nat} (hw : way < c.grid.ways) (l : Line)
    (status : Status) :
    respond { c with grid := c.grid.use (c.grid.setOf p.block) way l, status } p
      (c.grid.setOf p.block) way = .ok (c.finish p way l status, c.ending p) := by
  have hc := Grid.has_setOf hw p.block
  have hline : (c.grid.use (c.grid.setOf p.block) way l).line (c.grid.setOf p.block) way =
      .ok { l with lastUse := c.grid.clock + 1 } := by
    simp only [Grid.line, Grid.within, if_pos (show _ ∧ _ from Grid.has_use.mpr hc)]
    rw [Grid.cell_use_self l hc]
  unfold respond finish ending reply Packet.ended
  split
  · rw [hline]; rfl
  · rfl

/-- Laying a payload over a valid line: the line after the request took effect on it. -/
theorem apply_eq {g : Grid} {p : Packet} {set way : Nat} (h : g.Has set way)
    (hv : (g.cell set way).valid = true) :
    apply g p set way = .ok (g.put set way ((g.cell set way).served p)) := by
  unfold apply
  split
  · next hw =>
    have fits : p.offset + p.data.length ≤ blockSize := p.fits
    rw [Grid.write_eq h (fun _ => hv) fits]
    simp only [Line.served, hw, if_true]
  · next hw =>
    have hs : (g.cell set way).served p = g.cell set way := by simp [Line.served, hw]
    rw [hs, Grid.put_cell h]

theorem touch_eq {g : Grid} {set way : Nat} (h : g.Has set way) :
    g.touch set way = .ok (g.use set way (g.cell set way)) := by
  simp only [Grid.touch, Grid.within, if_pos (show _ ∧ _ from h), Grid.use]

/-- Serving a request from a valid line of its set. -/
theorem serve_eq {c : Controller} {p : Packet} {way : Nat} (hw : way < c.grid.ways)
    (hv : (c.grid.cell (c.grid.setOf p.block) way).valid = true) :
    c.serve p way = .ok (c.finish p way
      ((c.grid.cell (c.grid.setOf p.block) way).served p) .hitPending, c.ending p) := by
  have hc := Grid.has_setOf hw p.block
  have hcell := Grid.cell_use_self (c.grid.cell (c.grid.setOf p.block) way) hc
  have happly := apply_eq (p := p) (Grid.has_use.mpr hc) (by rw [hcell]; exact hv)
  rw [hcell] at happly
  replace happly := happly.trans (congrArg Except.ok (Grid.use_put c.grid (c.grid.setOf p.block) way
    _ ((c.grid.cell (c.grid.setOf p.block) way).served p)))
  unfold serve
  simp only [touch_eq hc, happly, bind, Except.bind]
  exact respond_finish hw _ _

/-- Filling a block into a way of its set that holds nothing dirty. -/
theorem fill_eq {c : Controller} {p : Packet} {way : Nat} {fetched : Block} (hw : way < c.grid.ways)
    (hd : ((c.grid.cell (c.grid.setOf p.block) way).valid &&
      (c.grid.cell (c.grid.setOf p.block) way).dirty) = false) :
    c.fill p way fetched =
      .ok (c.finish p way (Line.filled p fetched) .unblockPending, c.ending p) := by
  have hc := Grid.has_setOf hw p.block
  let l : Line := ⟨true, false, p.block, (c.grid.cell (c.grid.setOf p.block) way).lastUse, fetched⟩
  have hline : c.grid.line (c.grid.setOf p.block) way =
      .ok (c.grid.cell (c.grid.setOf p.block) way) := if_pos hc
  have hinstall : c.grid.install (c.grid.setOf p.block) way p.block fetched false =
      .ok (c.grid.put (c.grid.setOf p.block) way l) := if_pos hc
  have hcell := Grid.cell_put_self l hc
  have happly := apply_eq (g := c.grid.put (c.grid.setOf p.block) way l) (p := p) hc (by rw [hcell])
  rw [hcell, Grid.put_put] at happly
  have htouch := touch_eq (g := c.grid.put (c.grid.setOf p.block) way (l.served p)) hc
  rw [Grid.cell_put_self _ hc, Grid.put_use] at htouch
  unfold fill
  simp only [hline, hd, hinstall, happly, htouch, orFault_ok, bind, Except.bind, Bool.false_eq_true,
    if_false]
  have := respond_finish (c := c) (p := p) hw (l.served p) .unblockPending
  rw [this]
  rfl

/-- The line being written back is clean once that is acknowledged, and then filled. -/
theorem acknowledge_eq {c : Controller} {p : Packet} {way : Nat} {fetched : Block}
    (hw : way < c.grid.ways) : c.acknowledge p way fetched =
      .ok (c.finish p way (Line.filled p fetched) .unblockPending, c.ending p) := by
  have hc := Grid.has_setOf hw p.block
  let l : Line := { c.grid.cell (c.grid.setOf p.block) way with dirty := false }
  have hclean : c.grid.clean (c.grid.setOf p.block) way =
      .ok (c.grid.put (c.grid.setOf p.block) way l) := if_pos hc
  have hcell : (c.grid.put (c.grid.setOf p.block) way l).cell (c.grid.setOf p.block) way = l :=
    Grid.cell_put_self l hc
  have hdirty : (((c.grid.put (c.grid.setOf p.block) way l).cell (c.grid.setOf p.block) way).valid &&
      ((c.grid.put (c.grid.setOf p.block) way l).cell (c.grid.setOf p.block) way).dirty) = false := by
    rw [hcell]
    exact Bool.and_false _
  have hfill := @fill_eq { c with grid := c.grid.put (c.grid.setOf p.block) way l } p way fetched hw
    hdirty
  unfold acknowledge
  simp only [hclean, orFault_ok, bind, Except.bind]
  rw [hfill]
  simp only [finish, reply, ending]
  congr 3
  exact Grid.put_use c.grid _ way l _

/-- A fetched block finds a dirty line in the way chosen: the line is written back first. -/
theorem place_dirty {c : Controller} {p : Packet} {way : Nat} {fetched : Block} {l : Line}
    (hw : way < c.grid.ways) (hl : c.grid.cell (c.grid.setOf p.block) way = l)
    (hd : (l.valid && l.dirty) = true) : c.place p way fetched =
      .ok ({ c with miss := some ⟨p, .writingBack way l.tag fetched⟩, status := .awaitWriteback },
        .send (.blockWrite l.tag l.data)) := by
  have hline : c.grid.line (c.grid.setOf p.block) way = .ok l := by
    rw [← hl]; exact if_pos (Grid.has_setOf hw p.block)
  unfold place
  simp only [hline, orFault_ok, bind, Except.bind, hd, if_true]

/-- A fetched block finds no dirty line in the way chosen: it is filled in at once. -/
theorem place_clean {c : Controller} {p : Packet} {way : Nat} {fetched : Block}
    (hw : way < c.grid.ways)
    (hd : ((c.grid.cell (c.grid.setOf p.block) way).valid &&
      (c.grid.cell (c.grid.setOf p.block) way).dirty) = false) : c.place p way fetched =
      .ok (c.finish p way (Line.filled p fetched) .unblockPending, c.ending p) := by
  have hline : c.grid.line (c.grid.setOf p.block) way =
      .ok (c.grid.cell (c.grid.setOf p.block) way) := if_pos (Grid.has_setOf hw p.block)
  unfold place
  simp only [hline, orFault_ok, bind, Except.bind, hd, Bool.false_eq_true, if_false]
  exact fill_eq hw hd

/-! ## Calls -/

theorem request_busy {c : Controller} (p : Packet) (h : c.status ≠ .idle) :
    c.request p = .done { c with retryOwed := true } none (.busy p) := by
  unfold request isBlocked
  rw [if_pos (by simpa using h)]

theorem request_bypass {c : Controller} {p : Packet} (h : c.status = .idle) (hk : p.kind = .other) :
    c.request p = .done c none (.accepted .bypass) := by
  unfold request isBlocked
  rw [if_neg (by simp [h]), if_pos (by simp [hk, AccessKind.isReadOrWrite])]

theorem request_hit {c : Controller} {p : Packet} {way : Nat} (h : c.status = .idle)
    (hk : p.kind ≠ .other) (hl : c.grid.lookup p.block = some way) :
    c.request p = .done (c.finish p way
      ((c.grid.cell (c.grid.setOf p.block) way).served p) .hitPending) (some (c.ending p))
      (.accepted .hit) := by
  obtain ⟨hw, hh⟩ := Grid.holds_of_lookup hl
  unfold request isBlocked
  rw [if_neg (by simp [h]), if_neg (by simp [Packet.isReadOrWrite_iff.mpr hk]), hl]
  simp only [serve_eq hw (Grid.holds_iff.mp hh).1]

theorem request_miss {c : Controller} {p : Packet} (h : c.status = .idle) (hk : p.kind ≠ .other)
    (hl : c.grid.lookup p.block = none) :
    c.request p = .done { c with miss := some ⟨p, .fetching⟩, status := .awaitFetch }
      (some (.send (.blockRead p.block))) (.accepted .miss) := by
  unfold request isBlocked
  rw [if_neg (by simp [h]), if_neg (by simp [Packet.isReadOrWrite_iff.mpr hk]), hl]

/-- The way that is filled next for a request. -/
def victim (c : Controller) (p : Packet) : Nat := c.policy c.asked (c.grid.row (c.grid.setOf p.block))

/-- The controller while it works on the answer to a fetch. -/
def consulted (c : Controller) : Controller := { c.abandon with asked := c.asked + 1 }

@[simp] theorem miss_consulted (c : Controller) : c.consulted.miss = none := rfl

theorem answer_fetch {c : Controller} {p q : Packet} (hm : c.miss = some ⟨p, .fetching⟩)
    (hr : q.isRead = true) (hb : q.block = p.block) (hw : c.victim p < c.grid.ways) :
    c.answer q = settle c.consulted (c.consulted.place p (c.victim p) q.blockData) := by
  unfold answer
  rw [hm]
  simp only [hr, hb, decide_true, Bool.and_self, if_true]
  exact if_pos hw

/-- The fetched block goes into a way that holds nothing dirty. -/
theorem answer_fill {c : Controller} {p q : Packet} (hm : c.miss = some ⟨p, .fetching⟩)
    (hr : q.isRead = true) (hb : q.block = p.block) (hw : c.victim p < c.grid.ways)
    (hd : ((c.grid.cell (c.grid.setOf p.block) (c.victim p)).valid &&
      (c.grid.cell (c.grid.setOf p.block) (c.victim p)).dirty) = false) :
    c.answer q = .done (c.consulted.finish p (c.victim p) (Line.filled p q.blockData)
      .unblockPending) (some (c.ending p)) () := by
  rw [answer_fetch hm hr hb hw, place_clean (c := c.consulted) hw hd]
  rfl

/-- The fetched block waits for a dirty line to be written back. -/
theorem answer_evict {c : Controller} {p q : Packet} {l : Line} (hm : c.miss = some ⟨p, .fetching⟩)
    (hr : q.isRead = true) (hb : q.block = p.block) (hw : c.victim p < c.grid.ways)
    (hl : c.grid.cell (c.grid.setOf p.block) (c.victim p) = l)
    (hd : (l.valid && l.dirty) = true) :
    c.answer q = .done { c.consulted with
        miss := some ⟨p, .writingBack (c.victim p) l.tag q.blockData⟩, status := .awaitWriteback }
      (some (.send (.blockWrite l.tag l.data))) () := by
  rw [answer_fetch hm hr hb hw, place_dirty (c := c.consulted) hw hl hd]
  rfl

/-- The writeback is acknowledged, and the block that waited is filled in. -/
theorem answer_acknowledge {c : Controller} {p q : Packet} {way : Nat} {victim : BlockNumber}
    {fetched : Block} (hm : c.miss = some ⟨p, .writingBack way victim fetched⟩)
    (hr : q.isWrite = true) (hb : q.block = victim) (hw : way < c.grid.ways) :
    c.answer q = .done (c.abandon.finish p way (Line.filled p fetched) .unblockPending)
      (some (c.ending p)) () := by
  unfold answer
  rw [hm]
  simp only [hr, hb, decide_true, Bool.and_self, if_true]
  rw [acknowledge_eq (c := c.abandon) hw]
  rfl

theorem unblock_eq {c : Controller} (h : c.miss = none) :
    c.unblock = .done { c with status := .idle, retryOwed := false }
      (if c.retryOwed then some (.schedule 0 .retry) else none) () := by
  unfold unblock
  rw [h]
  rfl

theorem deliver_eq {c : Controller} {q : Packet} (hr : c.response = some q) (h : c.miss = none) :
    c.deliver = .done { c with response := none, status := .idle, retryOwed := false }
      (if c.retryOwed then some (.schedule 0 .retry) else none) q := by
  unfold deliver
  rw [hr]
  simp only [unblock_eq (c := { c with response := none }) h]

/-! ## Calls that fail -/

theorem answer_stray {c : Controller} (q : Packet) (hm : c.miss = none) :
    c.answer q = .failed c (.refused (.unexpectedResponse q.addr)) := by
  unfold answer
  rw [hm]

/-- A fetch is answered with something else: the miss is given up. -/
theorem answer_mismatched {c : Controller} {p q : Packet} (hm : c.miss = some ⟨p, .fetching⟩)
    (other : ¬ (q.isRead = true ∧ q.block = p.block)) :
    c.answer q = .failed c.abandon (.refused (.mismatchedResponse p.block q.block)) := by
  unfold answer
  rw [hm]
  exact if_neg (by simpa using other)

/-- The policy names a way that the set does not have: the miss is given up. -/
theorem answer_outside {c : Controller} {p q : Packet} (hm : c.miss = some ⟨p, .fetching⟩)
    (hr : q.isRead = true) (hb : q.block = p.block) (hw : ¬ c.victim p < c.grid.ways) :
    c.answer q = .failed c.consulted (.refused (.victimOutOfRange (c.victim p) c.grid.ways)) := by
  unfold answer
  rw [hm]
  simp only [hr, hb, decide_true, Bool.and_self, if_true]
  exact if_neg hw

/-- A writeback is acknowledged with something else: the miss is given up. -/
theorem answer_unacknowledged {c : Controller} {p q : Packet} {way : Nat} {victim : BlockNumber}
    {fetched : Block} (hm : c.miss = some ⟨p, .writingBack way victim fetched⟩)
    (other : ¬ (q.isWrite = true ∧ q.block = victim)) :
    c.answer q = .failed c.abandon (.refused (.unexpectedAck q.addr)) := by
  unfold answer
  rw [hm]
  exact if_neg (by simpa using other)

theorem unblock_outstanding {c : Controller} (hm : c.miss ≠ none) :
    c.unblock = .failed c (.fault .missOutstanding) :=
  if_pos (Option.isSome_iff_ne_none.mpr hm)

theorem deliver_nothing {c : Controller} (hr : c.response = none) :
    c.deliver = .failed c (.refused .noQueuedResponse) := by
  unfold deliver
  rw [hr]

/-- The response is gone by the time the release fails. -/
theorem deliver_outstanding {c : Controller} {q : Packet} (hr : c.response = some q)
    (hm : c.miss ≠ none) :
    c.deliver = .failed { c with response := none } (.fault .missOutstanding) := by
  unfold deliver
  rw [hr]
  simp only [unblock_outstanding (c := { c with response := none }) hm]

end Controller

end WritebackCache
