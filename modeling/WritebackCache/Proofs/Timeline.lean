import WritebackCache.Proofs.Recency

/-! When things happen, without events. A request is accepted at a tick that the one before it settles,
keeps memory busy for the latencies of its traffic one after the other, and is finished after the
latency of the cache on top of that; traffic that is neither read nor write is finished at once. The
next request follows after the gap: after the end of a request that expects a response, after the
beginning of one that does not, but never before the end of a posted write. -/

namespace WritebackCache

/-- What became of a request: when it was accepted and finished, and what it had memory do. -/
structure Service where
  packet : Packet
  lookup : Lookup
  accepted : Tick
  finished : Tick
  accesses : List MemoryAccess

namespace Service

/-- The requester came too early with the request after this one: the cache was still busy with a
posted write. At the tick at which it is done the offer comes first only if the write missed, for then
the offer was entered before the end of the write was. -/
def late (gap : Tick) (e : Service) : Bool :=
  e.packet.isWrite && !e.packet.needsResponse &&
    (decide ((Word.saturatingAdd e.accepted gap).toNat < e.finished.toNat) ||
      decide (Word.saturatingAdd e.accepted gap = e.finished) && decide (e.lookup = .miss))

end Service

/-- The state of the machine between two requests, as far as it matters to when things happen. -/
structure Timeline (σ : Type) where
  lists : Recency
  timing : σ
  /-- The tick at which the next request is accepted. -/
  now : Tick
  latency : Tick
  gap : Tick

namespace Timeline

variable {σ : Type} [LatencyModel σ]

/-- How long memory takes for a block. -/
def told (x : σ) (b : BlockNumber) : Tick :=
  match (LatencyModel.access x b.base).2 with
  | .ok latency => latency
  | .error _ => 0

/-- Traffic that starts at a tick: what memory logs, its timing afterwards, and the tick of the last
answer. -/
def carry (x : σ) (now : Tick) : List (MemoryOp × BlockNumber) → List MemoryAccess × σ × Tick
  | [] => ([], x, now)
  | (op, b) :: rest =>
    let done := Word.saturatingAdd now (told x b)
    let others := carry (LatencyModel.access x b.base).1 done rest
    (⟨op, b, now, done⟩ :: others.1, others.2)

/-- The traffic of the next request. -/
def carried (t : Timeline σ) (p : Packet) : List MemoryAccess × σ × Tick :=
  carry t.timing t.now (t.lists.traffic p)

def service (t : Timeline σ) (p : Packet) : Service where
  packet := p
  lookup := t.lists.lookup p
  accepted := t.now
  finished := if p.kind = .other then t.now else Word.saturatingAdd (t.carried p).2.2 t.latency
  accesses := (t.carried p).1

/-- The tick at which the request after this one is accepted. -/
def follow (t : Timeline σ) (p : Packet) : Tick :=
  if p.needsResponse then Word.saturatingAdd (t.service p).finished t.gap
  else if p.kind = .other then Word.saturatingAdd t.now t.gap
  else Word.later (Word.saturatingAdd t.now t.gap) (t.service p).finished

def next (t : Timeline σ) (p : Packet) : Timeline σ :=
  { t with lists := t.lists.next p, timing := (t.carried p).2.1, now := t.follow p }

/-- The services of a list of requests. -/
def services (t : Timeline σ) : List Packet → List Service
  | [] => []
  | p :: rest => t.service p :: (t.next p).services rest

/-- The beginning of the timeline of a machine that is described. -/
def ofConfig (config : Config) (timing : σ) : Timeline σ :=
  ⟨.start config.cache, timing, 0, config.cache.latency, config.requester.issueGap⟩

/-! ## One request -/

variable {t : Timeline σ} {p : Packet}

/-- A request that makes no traffic leaves memory alone. -/
theorem carried_of_none (h : t.lists.traffic p = []) : t.carried p = ([], t.timing, t.now) := by
  rw [carried, h]
  rfl

theorem carried_of_fetch (h : t.lists.traffic p = [(.fetch, p.block)]) :
    t.carried p = ([⟨.fetch, p.block, t.now, Word.saturatingAdd t.now (told t.timing p.block)⟩],
      (LatencyModel.access t.timing p.block.base).1,
      Word.saturatingAdd t.now (told t.timing p.block)) := by
  rw [carried, h]
  rfl

theorem finished_of_kind (h : p.kind ≠ .other) :
    (t.service p).finished = Word.saturatingAdd (t.carried p).2.2 t.latency := if_neg h

theorem finished_of_other (h : p.kind = .other) : (t.service p).finished = t.now := if_pos h

theorem follow_of_response (h : p.needsResponse = true) :
    t.follow p = Word.saturatingAdd (t.service p).finished t.gap := if_pos h

theorem follow_of_posted (h : p.needsResponse = false) (kind : p.kind ≠ .other) :
    t.follow p = Word.later (Word.saturatingAdd t.now t.gap) (t.service p).finished := by
  rw [follow, h, if_neg (by simp), if_neg kind]

theorem follow_of_other (h : p.needsResponse = false) (kind : p.kind = .other) :
    t.follow p = Word.saturatingAdd t.now t.gap := by
  rw [follow, h, if_neg (by simp), if_pos kind]

/-! ## Memory is never asked twice at a time -/

theorem carry_bounds (x : σ) (now : Tick) (traffic : List (MemoryOp × BlockNumber)) :
    now.toNat ≤ (carry x now traffic).2.2.toNat ∧
      (∀ m ∈ (carry x now traffic).1, now.toNat ≤ m.issued.toNat ∧
        m.completed.toNat ≤ (carry x now traffic).2.2.toNat) ∧
      (carry x now traffic).1.Pairwise fun m n => m.completed.toNat ≤ n.issued.toNat := by
  induction traffic generalizing x now with
  | nil => exact ⟨Nat.le_refl _, (fun m hm => by cases hm), List.Pairwise.nil⟩
  | cons entry rest ih =>
    obtain ⟨op, b⟩ := entry
    obtain ⟨hle, hall, hpair⟩ :=
      ih (LatencyModel.access x b.base).1 (Word.saturatingAdd now (told x b))
    have hnow := Word.le_saturatingAdd now (told x b)
    simp only [carry]
    refine ⟨Nat.le_trans hnow hle, ?_, List.pairwise_cons.mpr ⟨fun m hm => (hall m hm).1, hpair⟩⟩
    intro m hm
    rcases List.mem_cons.mp hm with rfl | hm
    · exact ⟨Nat.le_refl _, hle⟩
    · exact ⟨Nat.le_trans hnow (hall m hm).1, (hall m hm).2⟩

/-- A request is finished no sooner than the traffic it makes, -/
theorem carried_le_finished (t : Timeline σ) (p : Packet) :
    (t.carried p).2.2.toNat ≤ (t.service p).finished.toNat := by
  unfold service
  dsimp only
  split
  · next hk =>
    have hnone : t.lists.traffic p = [] := (t.lists.next_other hk).2.2
    rw [carried, hnone]
    exact Nat.le_refl _
  · exact Word.le_saturatingAdd _ _

/-- and the next one is accepted no sooner than that. -/
theorem finished_le_follow (t : Timeline σ) (p : Packet) :
    (t.service p).finished.toNat ≤ (t.follow p).toNat := by
  unfold follow
  split
  · exact Word.le_saturatingAdd _ _
  · split
    · next hk =>
      rw [finished_of_other hk]
      exact Word.le_saturatingAdd _ _
    · rw [Word.toNat_later]
      exact Nat.le_max_right _ _

theorem now_le_issued (t : Timeline σ) (requests : List Packet) :
    ∀ m ∈ (t.services requests).flatMap Service.accesses, t.now.toNat ≤ m.issued.toNat := by
  induction requests generalizing t with
  | nil => intro m hm; cases hm
  | cons p rest ih =>
    intro m hm
    rw [services, List.flatMap_cons] at hm
    obtain ⟨hle, hall, _⟩ := carry_bounds t.timing t.now (t.lists.traffic p)
    rcases List.mem_append.mp hm with hm | hm
    · exact (hall m hm).1
    · refine Nat.le_trans ?_ (ih (t.next p) m hm)
      exact Nat.le_trans hle (Nat.le_trans (t.carried_le_finished p) (t.finished_le_follow p))

/-- Every access is answered before the next is made. -/
theorem pairwise_accesses (t : Timeline σ) (requests : List Packet) :
    ((t.services requests).flatMap Service.accesses).Pairwise
      fun m n => m.completed.toNat ≤ n.issued.toNat := by
  induction requests generalizing t with
  | nil => exact List.Pairwise.nil
  | cons p rest ih =>
    obtain ⟨_, hall, hpair⟩ := carry_bounds t.timing t.now (t.lists.traffic p)
    rw [services, List.flatMap_cons]
    refine List.pairwise_append.mpr ⟨hpair, ih (t.next p), fun m hm n hn => ?_⟩
    have hlast := (hall m hm).2
    have hdone := t.carried_le_finished p
    have hfollow := t.finished_le_follow p
    have hissued := now_le_issued (t.next p) rest n hn
    exact Nat.le_trans hlast (Nat.le_trans hdone (Nat.le_trans hfollow hissued))

end Timeline

end WritebackCache
