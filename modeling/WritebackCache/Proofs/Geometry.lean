import WritebackCache.Config

/-! Which geometries are accepted. A capacity has to hold whole rows, of one block for each way; then the
number of rows, which is that of the sets, gives the capacity back. Whatever else a geometry is refused
for is a flaw of its two numbers, the same as if they had no bound. One kind of geometry is neither
accepted nor refused: where the length of a row leaves the word the question is a fault, although no
capacity could be a multiple of it. -/

namespace WritebackCache.CacheConfig

/-- What is wrong with a capacity and a number of ways. -/
inductive Flaw (size ways : Nat) : ConfigError → Prop
  | zeroWays (none : ways = 0) : Flaw size ways .zeroWays
  | tooSmall (some : 0 < ways) (small : size < 64) : Flaw size ways (.tooSmall size)
  | geometry (some : 0 < ways) (block : 64 ≤ size) (uneven : ¬ 64 * ways ∣ size) :
      Flaw size ways (.geometry size (64 * ways))

/-- The length of a row leaves the word, and nothing else is wrong before that is noticed. -/
def RowOverflows (c : CacheConfig) : Prop :=
  64 ≤ c.sizeBytes.toNat ∧ UInt64.size ≤ 64 * c.ways.toNat

variable {c : CacheConfig}

theorem toNat_stride {stride : UInt64} (h : c.stride = .ok stride) :
    stride.toNat = 64 * c.ways.toNat := Word.toNat_of_mul h

theorem stride_fits (h : 64 * c.ways.toNat < UInt64.size) : ∃ stride, c.stride = .ok stride :=
  ⟨_, if_pos h⟩

theorem stride_overflows (h : UInt64.size ≤ 64 * c.ways.toNat) : c.stride = .error .mulOverflow :=
  if_neg (Nat.not_lt.mpr h)

theorem toNat_sets {sets : UInt64} (h : c.sets = .ok sets) :
    sets.toNat = c.sizeBytes.toNat / (64 * c.ways.toNat) := by
  obtain ⟨stride, hstride, h⟩ := bind_eq_ok.mp h
  split at h
  · cases h
  · cases h
    rw [UInt64.toNat_div, toNat_stride hstride]

theorem dvd_iff_mod {size stride : UInt64} : stride.toNat ∣ size.toNat ↔ size % stride = 0 := by
  rw [← UInt64.toNat_inj, UInt64.toNat_mod]
  exact Nat.dvd_iff_mod_eq_zero

/-! ## The outcomes of a validation -/

theorem validate_zeroWays (h : c.ways.toNat = 0) : c.validate = .error (.refused .zeroWays) :=
  if_pos (UInt64.toNat_inj.mp h)

theorem validate_tooSmall (hw : 0 < c.ways.toNat) (h : c.sizeBytes.toNat < 64) :
    c.validate = .error (.refused (.tooSmall c.sizeBytes.toNat)) := by
  have hne : c.ways ≠ 0 := fun he => by rw [he] at hw; exact Nat.lt_irrefl _ hw
  unfold validate
  rw [if_neg hne, if_pos h]

theorem validate_overflow (h : c.RowOverflows) : c.validate = .error (.fault .mulOverflow) := by
  obtain ⟨hsize, hrow⟩ := h
  have hne : c.ways ≠ 0 := by
    intro he
    rw [he] at hrow
    exact absurd hrow (by decide)
  unfold validate
  rw [if_neg hne, if_neg (Nat.not_lt.mpr hsize), stride_overflows hrow]

/-- A row that fits into a word: what counts is whether it divides the capacity. -/
theorem validate_row (hw : 0 < c.ways.toNat) (hsize : 64 ≤ c.sizeBytes.toNat)
    (hrow : 64 * c.ways.toNat < UInt64.size) :
    c.validate = if 64 * c.ways.toNat ∣ c.sizeBytes.toNat then .ok ()
      else .error (.refused (.geometry c.sizeBytes.toNat (64 * c.ways.toNat))) := by
  have hne : c.ways ≠ 0 := fun he => by rw [he] at hw; exact Nat.lt_irrefl _ hw
  obtain ⟨stride, hstride⟩ := stride_fits hrow
  unfold validate
  rw [if_neg hne, if_neg (Nat.not_lt.mpr hsize), hstride, ← toNat_stride hstride]
  simp only [dvd_iff_mod]

/-- A row longer than a word divides no capacity. -/
theorem not_dvd_of_overflow (h : c.RowOverflows) : ¬ 64 * c.ways.toNat ∣ c.sizeBytes.toNat := by
  intro hdvd
  have hle := Nat.le_of_dvd (Nat.lt_of_lt_of_le (by decide) h.1) hdvd
  exact Nat.not_lt.mpr (Nat.le_trans h.2 hle) c.sizeBytes.toNat_lt_size

/-- Every geometry is flawed, overflows or holds whole rows; its validation tells which. -/
theorem validate_cases (c : CacheConfig) :
    (∃ e, Flaw c.sizeBytes.toNat c.ways.toNat e ∧ ¬ c.RowOverflows ∧
      c.validate = .error (.refused e)) ∨
    (c.RowOverflows ∧ c.validate = .error (.fault .mulOverflow)) ∨
    (0 < c.ways.toNat ∧ 64 ≤ c.sizeBytes.toNat ∧ 64 * c.ways.toNat ∣ c.sizeBytes.toNat ∧
      c.validate = .ok ()) := by
  rcases Nat.eq_zero_or_pos c.ways.toNat with hw | hw
  · refine .inl ⟨_, .zeroWays hw, fun h => ?_, validate_zeroWays hw⟩
    exact absurd h.2 (by rw [hw]; decide)
  · rcases Nat.lt_or_ge c.sizeBytes.toNat 64 with hs | hs
    · exact .inl ⟨_, .tooSmall hw hs, fun h => Nat.not_lt.mpr h.1 hs, validate_tooSmall hw hs⟩
    · rcases Nat.lt_or_ge (64 * c.ways.toNat) UInt64.size with hr | hr
      · have hv := validate_row hw hs hr
        by_cases hd : 64 * c.ways.toNat ∣ c.sizeBytes.toNat
        · exact .inr (.inr ⟨hw, hs, hd, hv.trans (if_pos hd)⟩)
        · exact .inl ⟨_, .geometry hw hs hd, fun h => Nat.not_lt.mpr h.2 hr, hv.trans (if_neg hd)⟩
      · exact .inr (.inl ⟨⟨hs, hr⟩, validate_overflow ⟨hs, hr⟩⟩)

theorem Flaw.unique {size ways : Nat} {e e' : ConfigError} (h : Flaw size ways e)
    (h' : Flaw size ways e') : e = e' := by
  cases h <;> cases h' <;> first | rfl | omega

theorem Flaw.not_whole {size ways : Nat} {e : ConfigError} (h : Flaw size ways e) :
    ¬ (0 < ways ∧ 64 ≤ size ∧ 64 * ways ∣ size) := by
  rintro ⟨hw, hs, hd⟩
  cases h with
  | zeroWays none => omega
  | tooSmall _ small => omega
  | geometry _ _ uneven => exact uneven hd

/-- An accepted geometry: the sets, with a row each, make up the capacity. -/
theorem sets_of_whole (hw : 0 < c.ways.toNat) (hs : 64 ≤ c.sizeBytes.toNat)
    (hd : 64 * c.ways.toNat ∣ c.sizeBytes.toNat) : ∃ sets, c.sets = .ok sets ∧ 1 ≤ sets.toNat ∧
      sets.toNat * c.ways.toNat * 64 = c.sizeBytes.toNat := by
  have hle := Nat.le_of_dvd (by omega) hd
  obtain ⟨stride, hstride⟩ := stride_fits (Nat.lt_of_le_of_lt hle c.sizeBytes.toNat_lt_size)
  have hne : stride ≠ 0 := by
    intro he
    have hzero := toNat_stride hstride
    rw [he, show (0 : UInt64).toNat = 0 from rfl] at hzero
    omega
  have hsets : c.sets = .ok (c.sizeBytes / stride) :=
    bind_eq_ok.mpr ⟨stride, hstride, if_neg hne⟩
  refine ⟨_, hsets, ?_, ?_⟩
  · rw [toNat_sets hsets]
    exact Nat.div_pos hle (by omega)
  · rw [toNat_sets hsets, Nat.mul_assoc, Nat.mul_comm c.ways.toNat]
    exact Nat.div_mul_cancel hd

theorem validate_eq_ok_iff : c.validate = .ok () ↔
    1 ≤ c.ways.toNat ∧ 64 ≤ c.sizeBytes.toNat ∧ 64 * c.ways.toNat ∣ c.sizeBytes.toNat := by
  rcases c.validate_cases with ⟨e, flaw, _, h⟩ | ⟨wide, h⟩ | ⟨hw, hs, hd, h⟩
  · exact ⟨fun hok => (by rw [h] at hok; cases hok), fun whole => (flaw.not_whole whole).elim⟩
  · exact ⟨fun hok => (by rw [h] at hok; cases hok),
      fun whole => (not_dvd_of_overflow wide whole.2.2).elim⟩
  · exact ⟨fun _ => ⟨hw, hs, hd⟩, fun _ => h⟩

theorem validate_eq_refused_iff {e : ConfigError} : c.validate = .error (.refused e) ↔
    Flaw c.sizeBytes.toNat c.ways.toNat e ∧ ¬ c.RowOverflows := by
  constructor
  · intro he
    rcases c.validate_cases with ⟨e', flaw, fits, h⟩ | ⟨_, h⟩ | ⟨_, _, _, h⟩ <;> rw [he] at h <;>
      cases h
    exact ⟨flaw, fits⟩
  · rintro ⟨flaw, fits⟩
    rcases c.validate_cases with ⟨e', flaw', _, h⟩ | ⟨wide, _⟩ | ⟨hw, hs, hd, _⟩
    · rw [h, flaw.unique flaw']
    · exact (fits wide).elim
    · exact (flaw.not_whole ⟨hw, hs, hd⟩).elim

theorem validate_eq_fault_iff {f : Fault} : c.validate = .error (.fault f) ↔
    f = .mulOverflow ∧ c.RowOverflows := by
  constructor
  · intro hf
    rcases c.validate_cases with ⟨_, _, _, h⟩ | ⟨wide, h⟩ | ⟨_, _, _, h⟩ <;> rw [hf] at h <;>
      cases h
    exact ⟨rfl, wide⟩
  · rintro ⟨rfl, wide⟩
    exact validate_overflow wide

/-- A geometry is accepted exactly if the capacity holds whole rows, and then its sets make up the
capacity; it is refused exactly for its flaw, the first of them; and validating it faults exactly if
there is at least a block but a row does not fit into a word. -/
theorem validate_exact (c : CacheConfig) :
    (c.validate = .ok () ↔
      1 ≤ c.ways.toNat ∧ 64 ≤ c.sizeBytes.toNat ∧ 64 * c.ways.toNat ∣ c.sizeBytes.toNat) ∧
    (c.validate = .ok () → ∃ sets, c.sets = .ok sets ∧ 1 ≤ sets.toNat ∧
      sets.toNat * c.ways.toNat * 64 = c.sizeBytes.toNat) ∧
    (∀ e, c.validate = .error (.refused e) ↔
      Flaw c.sizeBytes.toNat c.ways.toNat e ∧ ¬ c.RowOverflows) ∧
    ∀ f, c.validate = .error (.fault f) ↔ f = .mulOverflow ∧ c.RowOverflows := by
  refine ⟨validate_eq_ok_iff, fun h => ?_, fun _ => validate_eq_refused_iff,
    fun _ => validate_eq_fault_iff⟩
  obtain ⟨hw, hs, hd⟩ := validate_eq_ok_iff.mp h
  exact sets_of_whole hw hs hd

/-- So many ways that a row wraps around to nothing. -/
theorem validate_faults_on_wide_row :
    validate { sizeBytes := 1024, ways := 288230376151711744 } = .error (.fault .mulOverflow) ∧
      Flaw 1024 288230376151711744 (.geometry 1024 18446744073709551616) :=
  ⟨validate_overflow ⟨by decide, by decide⟩, .geometry (by decide) (by decide) (by decide)⟩

end WritebackCache.CacheConfig
