import WritebackCache.Proofs.AgendaOrder
import WritebackCache.Proofs.Counters
import WritebackCache.Proofs.MemoryPort

/-! Memory answers in the order in which it is asked, whatever its latencies. Any number of requests may
be outstanding, and others enter events of their own on the same agenda. An answer is promised for no
earlier tick than the one before it, and so it is entered behind it, even at the same tick; and it carries
what the block held when the request was sent, since a request reads and writes the contents at once. -/

namespace WritebackCache

/-- A request for a whole block. -/
inductive BlockRequest
  | fetch (block : BlockNumber)
  | writeback (block : BlockNumber) (data : Block)

namespace BlockRequest

def block : BlockRequest → BlockNumber
  | fetch b | writeback b _ => b

def op : BlockRequest → MemoryOp
  | fetch _ => .fetch
  | writeback _ _ => .writeback

def packet : BlockRequest → Packet
  | fetch b => .blockRead b
  | writeback b data => .blockWrite b data

/-- What the request writes to a block. -/
def written (b : BlockNumber) : BlockRequest → Option Block
  | fetch _ => none
  | writeback block data => if block = b then some data else none

/-- What was written last to a block, or what it held before any of the requests. -/
def lastWritten (initial : SparseMemory) (sent : List BlockRequest) (b : BlockNumber) : Block :=
  (sent.reverse.findSome? (written b)).getD (initial.readBlock b)

theorem fits_whole (b : BlockNumber) (data : Block) :
    b.base.offset + data.toList.length ≤ blockSize := by simp

/-- The answer to a request, if the blocks hold what is given: a fetch carries its block away, a
writeback brings its own back. -/
def answer (held : BlockNumber → Block) : BlockRequest → Packet
  | fetch b => ⟨b.base, .read, (held b).toList, true, true, fits_whole b (held b)⟩
  | writeback b data => ⟨b.base, .write, data.toList, true, true, fits_whole b data⟩

/-- The answers to requests sent one after the other, each from what was written last before it. -/
def answers (initial : SparseMemory) (earlier : List BlockRequest) : List BlockRequest → List Packet
  | [] => []
  | r :: rest => r.answer (lastWritten initial earlier) :: answers initial (earlier ++ [r]) rest

theorem lastWritten_append (initial : SparseMemory) (sent : List BlockRequest) (r : BlockRequest)
    (b : BlockNumber) :
    lastWritten initial (sent ++ [r]) b = (r.written b).getD (lastWritten initial sent b) := by
  rw [lastWritten, List.reverse_append, List.reverse_singleton, List.singleton_append,
    List.findSome?_cons]
  cases r.written b <;> rfl

theorem answers_append (initial : SparseMemory) (earlier sent : List BlockRequest) (r : BlockRequest) :
    answers initial earlier (sent ++ [r]) =
      answers initial earlier sent ++ [r.answer (lastWritten initial (earlier ++ sent))] := by
  induction sent generalizing earlier with
  | nil => rw [List.append_nil]; rfl
  | cons x rest ih => rw [List.cons_append, answers, answers, ih, List.append_assoc]; rfl

theorem length_answers (initial : SparseMemory) (earlier sent : List BlockRequest) :
    (answers initial earlier sent).length = sent.length := by
  induction sent generalizing earlier with
  | nil => rfl
  | cons r rest ih => rw [answers, List.length_cons, ih, List.length_cons]

end BlockRequest

def Event.response? : Event → Option Packet
  | .memoryResponse p => some p
  | .issue | .retry | .deliver | .unblock => none

/-- The answers of memory among some entries. -/
def responsesIn (entries : List (Tick × Event)) : List (Tick × Packet) :=
  entries.filterMap fun x => x.2.response?.map fun p => (x.1, p)

theorem responsesIn_schedule {a : Agenda} {tick : Tick} {event : Event} :
    responsesIn (a.schedule tick event).order =
      match event.response? with
      | none => responsesIn a.order
      | some p => Agenda.enter (fun x => x.1.toNat) (Word.later tick a.now, p) (responsesIn a.order) := by
  have same : ∀ (y : Tick × Event) (z : Tick × Packet),
      (y.2.response?.map fun p => (y.1, p)) = some z → z.1.toNat = y.1.toNat := by
    intro y z h
    obtain ⟨p, -, rfl⟩ := Option.map_eq_some_iff.mp h
    rfl
  rw [Agenda.order_schedule, responsesIn, Agenda.filterMap_enter same a.pairwise_order]
  cases event.response? <;> rfl

namespace Memory

variable {σ : Type} [LatencyModel σ]

/-- Memory reads and writes at once, and promises the answer for later. -/
theorem serve_request {m after : Memory σ} {now done : Tick} {r : BlockRequest} {response : Packet}
    (inSpace : r.block.InSpace) (h : m.serve now r.packet = (after, .ok (done, response))) :
    (∀ b, after.contents.readBlock b = (r.written b).getD (m.contents.readBlock b)) ∧
      response = r.answer m.contents.readBlock ∧
      ∃ latency, m.Took after r.op r.block now latency done := by
  cases r with
  | fetch b =>
    obtain ⟨contents, rfl, took⟩ := serve_fetch inSpace h
    refine ⟨fun k => by rw [contents]; rfl, ?_, took⟩
    simp only [BlockRequest.answer, ← Packet.data_fetched b]
    rfl
  | writeback b data =>
    obtain ⟨contents, rfl, took⟩ := serve_writeback inSpace h
    refine ⟨fun k => ?_, rfl, took⟩
    rw [contents, SparseMemory.readBlock_writeBlock]
    show (if k = b then data else _) = (if b = k then some data else none).getD _
    by_cases same : k = b
    · rw [if_pos same, if_pos same.symm]
      rfl
    · rw [if_neg same, if_neg fun e => same e.symm]
      rfl

theorem serve_returns {m : Memory σ} (unfailing : LatencyModel.Unfailing m.timing) (now : Tick)
    (p : Packet) : ∃ after done response, m.serve now p = (after, .ok (done, response)) ∧
      LatencyModel.Unfailing after.timing := by
  obtain ⟨P, told, keeps⟩ := unfailing
  obtain ⟨next, latency, access⟩ := keeps told p.addr
  have moved : LatencyModel.access m.timing p.addr =
      ((LatencyModel.access m.timing p.addr).1, .ok latency) := Prod.ext rfl access
  unfold serve
  rw [moved]
  exact ⟨_, _, _, rfl, P, next, keeps⟩

end Memory

/-- Memory, and the agenda on which it enters its answers. -/
structure Port (σ : Type) where
  memory : Memory σ
  agenda : Agenda

namespace Port

variable {σ : Type}

/-- Sends a request to memory, which serves it and enters the answer. -/
def send [LatencyModel σ] (s : Port σ) (p : Packet) : Port σ × Except Fault Unit :=
  match s.memory.serve s.agenda.now p with
  | (memory, .error f) => ({ s with memory }, .error f)
  | (memory, .ok (tick, response)) =>
    ({ memory, agenda := s.agenda.schedule tick (.memoryResponse response) }, .ok ())

/-- In a simulation requests are sent to memory in this way. -/
theorem perform_send [LatencyModel σ] (s : Simulation σ) (p : Packet) : s.perform (some (.send p)) =
    ({ s with memory := (send ⟨s.memory, s.agenda⟩ p).1.memory
              agenda := (send ⟨s.memory, s.agenda⟩ p).1.agenda },
      (send ⟨s.memory, s.agenda⟩ p).2) := by
  unfold send
  simp only [Simulation.perform]
  rcases s.memory.serve s.agenda.now p with ⟨memory, _ | ⟨tick, response⟩⟩ <;> rfl

/-- Any interleaving of requests for blocks, events entered by others, and events taken off. A run
carries the requests, each with the tick at which it was sent, and what came up. -/
inductive Run [LatencyModel σ] (start : Port σ) :
    List (Tick × BlockRequest) → List (Tick × Event) → Port σ → Prop
  | start : Run start [] [] start
  | send {sent popped s t r} (run : Run start sent popped s) (inSpace : r.block.InSpace)
      (step : s.send r.packet = (t, .ok ())) : Run start (sent ++ [(s.agenda.now, r)]) popped t
  | schedule {sent popped s event} (run : Run start sent popped s) (tick : Tick)
      (other : event.response? = none) :
      Run start sent popped { s with agenda := s.agenda.schedule tick event }
  | scheduleIn {sent popped s event} (run : Run start sent popped s) (delay : Tick)
      (other : event.response? = none) :
      Run start sent popped { s with agenda := s.agenda.scheduleIn delay event }
  | pop {sent popped s tick event rest} (run : Run start sent popped s)
      (step : s.agenda.pop = some (tick, event, rest)) :
      Run start sent (popped ++ [(tick, event)]) { s with agenda := rest }

/-- Nothing was asked of memory yet. -/
structure Fresh (s : Port σ) : Prop where
  unasked : s.memory.log = []
  unanswered : responsesIn s.agenda.order = []

/-- The answers promised so far: those that came up, and behind them those still to come. -/
structure Orderly (initial : SparseMemory) (sent : List (Tick × BlockRequest))
    (popped : List (Tick × Event)) (s : Port σ) : Prop where
  logged : s.memory.log.map (fun a => (a.issued, a.op, a.block)) =
    sent.map fun x => (x.1, x.2.op, x.2.block)
  rising : s.memory.log.Pairwise fun a b => a.completed.toNat ≤ b.completed.toNat
  notEarly : ∀ a ∈ s.memory.log, a.issued.toNat ≤ a.completed.toNat
  answered : responsesIn popped ++ responsesIn s.agenda.order =
    List.zipWith (fun a response => (a.completed, response)) s.memory.log
      (BlockRequest.answers initial [] (sent.map Prod.snd))
  contents : ∀ b, s.memory.contents.readBlock b =
    BlockRequest.lastWritten initial (sent.map Prod.snd) b
  /-- Everything is promised for the tick of the last answer at the latest. -/
  promised : ∀ a ∈ s.memory.log, a.completed.toNat ≤ s.memory.readyAt.toNat
  pending : ∀ x ∈ responsesIn s.agenda.order, x.1.toNat ≤ s.memory.readyAt.toNat

variable {start s t : Port σ} {initial : SparseMemory} {sent : List (Tick × BlockRequest)}
  {popped : List (Tick × Event)}

theorem Fresh.orderly (h : start.Fresh) : Orderly start.memory.contents [] [] start := by
  obtain ⟨unasked, unanswered⟩ := h
  refine ⟨?_, ?_, ?_, ?_, fun b => rfl, ?_, ?_⟩
  · rw [unasked]
    rfl
  · rw [unasked]
    exact .nil
  · rw [unasked]
    exact List.forall_mem_nil _
  · rw [unasked, unanswered]
    rfl
  · rw [unasked]
    exact List.forall_mem_nil _
  · rw [unanswered]
    exact List.forall_mem_nil _

namespace Orderly

/-- The answer to a new request is entered behind those to the others. -/
theorem send [LatencyModel σ] {r : BlockRequest} (h : Orderly initial sent popped s)
    (inSpace : r.block.InSpace) (step : s.send r.packet = (t, .ok ())) :
    Orderly initial (sent ++ [(s.agenda.now, r)]) popped t := by
  unfold Port.send at step
  split at step
  · cases step
  · next memory done response served =>
    cases step
    obtain ⟨contents, rfl, latency, took⟩ := Memory.serve_request inSpace served
    have notPast : s.agenda.now.toNat ≤ done.toNat := by
      have := Word.le_saturatingAdd s.agenda.now latency
      rw [took.promised, Word.toNat_later]
      omega
    have behind : s.memory.readyAt.toNat ≤ done.toNat := by
      rw [took.promised, Word.toNat_later]
      omega
    have entered : responsesIn (s.agenda.schedule done
        (.memoryResponse (r.answer s.memory.contents.readBlock))).order =
        responsesIn s.agenda.order ++ [(done, r.answer s.memory.contents.readBlock)] := by
      rw [responsesIn_schedule, Word.later_of_ge notPast]
      exact Agenda.enter_last fun y hy => Nat.le_trans (h.pending y hy) behind
    have asked : s.memory.log.length =
        (BlockRequest.answers initial [] (sent.map Prod.snd)).length := by
      have := congrArg List.length h.logged
      rwa [List.length_map, List.length_map, ← List.length_map (f := Prod.snd),
        ← BlockRequest.length_answers initial []] at this
    have held : s.memory.contents.readBlock =
        BlockRequest.lastWritten initial ([] ++ sent.map Prod.snd) := funext h.contents
    refine ⟨?_, ?_, ?_, ?_, ?_, ?_, ?_⟩
    · rw [took.logged, List.map_append, List.map_append, h.logged]
      rfl
    · rw [took.logged, List.pairwise_append]
      refine ⟨h.rising, List.pairwise_singleton _ _, fun a ha b hb => ?_⟩
      rw [List.mem_singleton.mp hb]
      exact Nat.le_trans (h.promised a ha) behind
    · rw [took.logged, List.forall_mem_append]
      exact ⟨h.notEarly, by simpa using notPast⟩
    · rw [entered, ← List.append_assoc, h.answered, took.logged, List.map_append, List.map_cons,
        List.map_nil, BlockRequest.answers_append, List.zipWith_append asked, ← held]
      rfl
    · intro b
      rw [contents, h.contents, List.map_append, List.map_cons, List.map_nil,
        BlockRequest.lastWritten_append]
    · rw [took.logged, took.ready, List.forall_mem_append]
      exact ⟨fun a ha => Nat.le_trans (h.promised a ha) behind, by simp⟩
    · rw [entered, took.ready, List.forall_mem_append]
      exact ⟨fun x hx => Nat.le_trans (h.pending x hx) behind, by simp⟩

/-- What others enter leaves the answers as they are. -/
theorem schedule {event : Event} (h : Orderly initial sent popped s) (tick : Tick)
    (other : event.response? = none) :
    Orderly initial sent popped { s with agenda := s.agenda.schedule tick event } := by
  have same : responsesIn (s.agenda.schedule tick event).order = responsesIn s.agenda.order := by
    rw [responsesIn_schedule, other]
  exact ⟨h.logged, h.rising, h.notEarly, same ▸ h.answered, h.contents, h.promised, same ▸ h.pending⟩

theorem pop {tick : Tick} {event : Event} {rest : Agenda} (h : Orderly initial sent popped s)
    (step : s.agenda.pop = some (tick, event, rest)) :
    Orderly initial sent (popped ++ [(tick, event)]) { s with agenda := rest } := by
  have first : responsesIn s.agenda.order = responsesIn [(tick, event)] ++ responsesIn rest.order := by
    rw [(Agenda.order_of_pop step).1, ← List.singleton_append, responsesIn, List.filterMap_append]
    rfl
  have answered := h.answered
  have pending := h.pending
  rw [first] at answered pending
  refine ⟨h.logged, h.rising, h.notEarly, ?_, h.contents, h.promised, fun x hx =>
    pending x (List.mem_append_right _ hx)⟩
  rw [← answered, ← List.append_assoc, responsesIn, List.filterMap_append]
  rfl

end Orderly

theorem Run.orderly [LatencyModel σ] (run : start.Run sent popped s) (h : start.Fresh) :
    Orderly start.memory.contents sent popped s := by
  induction run with
  | start => exact h.orderly
  | send _ inSpace step ih => exact ih.send inSpace step
  | schedule _ tick other ih => exact ih.schedule tick other
  | scheduleIn _ delay other ih => exact ih.schedule _ other
  | pop _ step ih => exact ih.pop step

/-- If the time of every access can be told, every request is served. -/
theorem send_returns [LatencyModel σ] (unfailing : LatencyModel.Unfailing s.memory.timing) (p : Packet) :
    ∃ t, s.send p = (t, .ok ()) ∧ LatencyModel.Unfailing t.memory.timing := by
  obtain ⟨memory, done, response, served, next⟩ := Memory.serve_returns unfailing s.agenda.now p
  unfold send
  rw [served]
  exact ⟨_, rfl, next⟩

theorem Run.unfailing [LatencyModel σ] (run : start.Run sent popped s)
    (unfailing : LatencyModel.Unfailing start.memory.timing) :
    LatencyModel.Unfailing s.memory.timing := by
  induction run with
  | start => exact unfailing
  | @send _ _ _ _ r _ _ step ih =>
    obtain ⟨t, returned, next⟩ := send_returns ih r.packet
    rw [step] at returned
    cases returned
    exact next
  | schedule _ _ _ ih | scheduleIn _ _ _ ih | pop _ _ ih => exact ih

/-- However requests, events of others and takings interleave, every request is logged with the tick
at which it was sent; the ticks promised never decrease, and none is past. The answers that came up,
followed by those still to come, are those to the requests in the order in which they were sent, each
once and at the tick that was logged for it, and a fetch carries what was written last to its block
before it was sent. If the time of every access can be told, a request is never left unserved. -/
theorem answers_in_order [LatencyModel σ] (fresh : start.Fresh) (run : start.Run sent popped s) :
    s.memory.log.map (fun a => (a.issued, a.op, a.block)) =
        sent.map (fun x => (x.1, x.2.op, x.2.block)) ∧
      s.memory.log.Pairwise (fun a b => a.completed.toNat ≤ b.completed.toNat) ∧
      (∀ a ∈ s.memory.log, a.issued.toNat ≤ a.completed.toNat) ∧
      responsesIn popped ++ responsesIn s.agenda.order =
        List.zipWith (fun a response => (a.completed, response)) s.memory.log
          (BlockRequest.answers start.memory.contents [] (sent.map Prod.snd)) ∧
      (LatencyModel.Unfailing start.memory.timing → ∀ p, ∃ t, s.send p = (t, .ok ())) := by
  have h := run.orderly fresh
  refine ⟨h.logged, h.rising, h.notEarly, h.answered, fun unfailing p => ?_⟩
  obtain ⟨t, returned, -⟩ := send_returns (run.unfailing unfailing) p
  exact ⟨t, returned⟩

/-- A memory with rows of two blocks. -/
def rows : Port Timing :=
  ⟨.empty (.rows { tCas := 1, tRas := 4, tPre := 8, rowMask := ~~~127 }), .empty⟩

/-- The third request takes a shorter time than the second, and the fourth is followed by a writeback of
the block that it fetches. -/
def traffic : List (Tick × BlockRequest) :=
  [(0, .writeback ⟨1⟩ (.ofBytes [7])), (0, .fetch ⟨2⟩), (0, .fetch ⟨3⟩), (5, .fetch ⟨1⟩),
    (5, .writeback ⟨1⟩ (.ofBytes [9]))]

theorem run_rows : ∃ popped s, rows.Run traffic popped s ∧ s.agenda.isEmpty = true ∧
    s.memory.log.map MemoryAccess.completed = [5, 13, 13, 18, 18] := by
  have low (r : BlockRequest) (h : r.block.val.toNat < 4) : r.block.InSpace :=
    Nat.lt_trans (Nat.mul_lt_mul_of_pos_right h (by decide)) (by decide)
  have written : rows.Run _ [] _ :=
    .send .start (low (.writeback ⟨1⟩ (.ofBytes [7])) (by decide)) rfl
  have fetched := (written.send (low (.fetch ⟨2⟩) (by decide)) rfl).send
    (low (.fetch ⟨3⟩) (by decide)) rfl
  have entered := (fetched.schedule 5 (rfl : Event.unblock.response? = none)).pop rfl
  have overwritten := (entered.send (low (.fetch ⟨1⟩) (by decide)) rfl).send
    (low (.writeback ⟨1⟩ (.ofBytes [9])) (by decide)) rfl
  have released := (overwritten.pop rfl).pop rfl
  exact ⟨_, _, ((released.pop rfl).pop rfl).pop rfl, by rfl, by rfl⟩

theorem answers_in_order_shrinking : ∃ popped s, rows.Run traffic popped s ∧
    responsesIn popped = List.zipWith Prod.mk [5, 13, 13, 18, 18]
      (BlockRequest.answers .empty [] (traffic.map Prod.snd)) ∧
    (responsesIn popped).map (fun x => x.2.data.take 1) = [[7], [0], [0], [7], [9]] := by
  obtain ⟨popped, s, run, empty, log⟩ := run_rows
  have fresh : rows.Fresh := ⟨rfl, by rw [Agenda.order_eq_nil_iff.mpr rfl]; rfl⟩
  obtain ⟨-, -, -, answered, -⟩ := answers_in_order fresh run
  rw [Agenda.order_eq_nil_iff.mpr empty, responsesIn, responsesIn, List.filterMap_nil,
    List.append_nil, ← List.zipWith_map_left, log] at answered
  refine ⟨popped, s, run, answered, ?_⟩
  rw [responsesIn, answered]
  rfl

end Port

end WritebackCache
