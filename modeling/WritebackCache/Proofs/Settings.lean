import WritebackCache.Config.Reader
import WritebackCache.Proofs.JsonRecord

/-! A description of a machine overrides defaults. It mentions any of the fields, in sections that may be
left out or left empty, and reading it changes those fields of the usual machine and no others. A
description that repeats a section or a field, or whose number is not written with digits alone or does
not fit a word, describes nothing. All this is so with any library that does what such libraries
document. -/

namespace WritebackCache

open Json

/-! ## Settings -/

/-- Values for some of the fields of a cache. -/
structure CacheSettings where
  sizeBytes : Option UInt64 := none
  ways : Option UInt64 := none
  latency : Option UInt64 := none

structure MemorySettings where
  controller : Option TimingKind := none
  latency : Option UInt64 := none
  tCas : Option UInt64 := none
  tRas : Option UInt64 := none
  tPre : Option UInt64 := none
  rowBytes : Option UInt64 := none

structure RequesterSettings where
  issueGap : Option UInt64 := none

/-- A section that is left out differs from one that mentions no field. -/
structure Settings where
  cache : Option CacheSettings := none
  memory : Option MemorySettings := none
  requester : Option RequesterSettings := none

def CacheSettings.over (s : CacheSettings) (c : CacheConfig) : CacheConfig where
  sizeBytes := s.sizeBytes.getD c.sizeBytes
  ways := s.ways.getD c.ways
  latency := s.latency.getD c.latency

def MemorySettings.over (s : MemorySettings) (c : MemoryConfig) : MemoryConfig where
  controller := s.controller.getD c.controller
  latency := s.latency.getD c.latency
  tCas := s.tCas.getD c.tCas
  tRas := s.tRas.getD c.tRas
  tPre := s.tPre.getD c.tPre
  rowBytes := s.rowBytes.getD c.rowBytes

def RequesterSettings.over (s : RequesterSettings) (c : RequesterConfig) : RequesterConfig where
  issueGap := s.issueGap.getD c.issueGap

/-- The configuration with the fields that are mentioned replaced. -/
def Settings.over (s : Settings) (c : Config) : Config where
  cache := (s.cache.getD {}).over c.cache
  memory := (s.memory.getD {}).over c.memory
  requester := (s.requester.getD {}).over c.requester

/-! ## Settings as they are written -/

def TimingKind.WrittenAs (kind : TimingKind) (v : Json) : Prop :=
  ∃ word, (word, kind) ∈ TimingKind.spellings ∧ IsChoice word v

def CacheSettings.WrittenAs (s : CacheSettings) (v : Json) : Prop :=
  ∃ sizeBytes ways latency,
    Option.Rel IsWord s.sizeBytes sizeBytes ∧ Option.Rel IsWord s.ways ways ∧
    Option.Rel IsWord s.latency latency ∧
    IsRecord [("size_bytes", sizeBytes), ("ways", ways), ("latency", latency)] v

def MemorySettings.WrittenAs (s : MemorySettings) (v : Json) : Prop :=
  ∃ controller latency tCas tRas tPre rowBytes,
    Option.Rel TimingKind.WrittenAs s.controller controller ∧ Option.Rel IsWord s.latency latency ∧
    Option.Rel IsWord s.tCas tCas ∧ Option.Rel IsWord s.tRas tRas ∧ Option.Rel IsWord s.tPre tPre ∧
    Option.Rel IsWord s.rowBytes rowBytes ∧
    IsRecord [("controller", controller), ("latency", latency), ("t_cas", tCas), ("t_ras", tRas),
      ("t_pre", tPre), ("row_bytes", rowBytes)] v

def RequesterSettings.WrittenAs (s : RequesterSettings) (v : Json) : Prop :=
  ∃ issueGap, Option.Rel IsWord s.issueGap issueGap ∧ IsRecord [("issue_gap", issueGap)] v

/-- An object that holds the sections and, in them, the fields that are mentioned. -/
def Settings.WrittenAs (s : Settings) (v : Json) : Prop :=
  ∃ cache memory requester,
    Option.Rel CacheSettings.WrittenAs s.cache cache ∧ Option.Rel MemorySettings.WrittenAs s.memory memory ∧
    Option.Rel RequesterSettings.WrittenAs s.requester requester ∧
    IsRecord [("cache", cache), ("memory", memory), ("requester", requester)] v

/-! ## The usual values -/

/-- A section that mentions no field is the usual one: each field's own default is the value that the
usual section has for it. -/
theorem CacheConfig.default_of_fields :
    CacheConfig.mk defaultSizeBytes defaultWays defaultLatency = {} := rfl

theorem MemoryConfig.default_of_fields :
    MemoryConfig.mk default defaultLatency defaultTCas defaultTRas defaultTPre defaultRowBytes = {} := rfl

theorem RequesterConfig.default_of_fields : RequesterConfig.mk defaultIssueGap = {} := rfl

/-! ## What is read -/

section Read

variable {lib : Library}

theorem CacheConfig.read_of_writtenAs (doc : lib.Documented) {s : CacheSettings} {v : Json}
    (h : s.WrittenAs v) : lib.read (.record .mk CacheConfig.fields) v = some (s.over {}) := by
  obtain ⟨sizeBytes, ways, latency, hsize, hways, hlatency, hrecord⟩ := h
  rw [doc.read_of_isRecord rfl (by decide) hrecord, ← CacheConfig.default_of_fields]
  simp [CacheConfig.fields, Library.fill, doc.take_word hsize, doc.take_word hways, doc.take_word hlatency,
    CacheSettings.over]

theorem MemoryConfig.read_of_writtenAs (doc : lib.Documented) {s : MemorySettings} {v : Json}
    (h : s.WrittenAs v) : lib.read (.record .mk MemoryConfig.fields) v = some (s.over {}) := by
  obtain ⟨controller, latency, tCas, tRas, tPre, rowBytes, hcontroller, hlatency, hcas, hras, hpre, hrow,
    hrecord⟩ := h
  have kind : lib.take (.choice TimingKind.spellings) default controller = some (s.controller.getD default) :=
    lib.take_of_rel hcontroller id (fun _ _ ⟨_, hword, hv⟩ => doc.choices (by decide) hword hv) default
  rw [doc.read_of_isRecord rfl (by decide) hrecord, ← MemoryConfig.default_of_fields]
  simp [MemoryConfig.fields, Library.fill, kind, doc.take_word hlatency, doc.take_word hcas,
    doc.take_word hras, doc.take_word hpre, doc.take_word hrow, MemorySettings.over]

theorem RequesterConfig.read_of_writtenAs (doc : lib.Documented) {s : RequesterSettings} {v : Json}
    (h : s.WrittenAs v) : lib.read (.record .mk RequesterConfig.fields) v = some (s.over {}) := by
  obtain ⟨issueGap, hgap, hrecord⟩ := h
  rw [doc.read_of_isRecord rfl (by decide) hrecord, ← RequesterConfig.default_of_fields]
  simp [RequesterConfig.fields, Library.fill, doc.take_word hgap, RequesterSettings.over]

/-- What a description mentions replaces what is usual. -/
theorem Config.read_of_writtenAs (doc : lib.Documented) {s : Settings} {v : Json} (h : s.WrittenAs v) :
    lib.read (.record .mk Config.fields) v = some (s.over {}) := by
  obtain ⟨cache, memory, requester, hcache, hmemory, hrequester, hrecord⟩ := h
  rw [doc.read_of_isRecord rfl (by decide) hrecord]
  have c : lib.take (.record .mk CacheConfig.fields) {} cache = some ((s.cache.getD {}).over {}) :=
    lib.take_of_rel hcache (·.over {}) (fun _ _ => CacheConfig.read_of_writtenAs doc) {}
  have m : lib.take (.record .mk MemoryConfig.fields) {} memory = some ((s.memory.getD {}).over {}) :=
    lib.take_of_rel hmemory (·.over {}) (fun _ _ => MemoryConfig.read_of_writtenAs doc) {}
  have r : lib.take (.record .mk RequesterConfig.fields) {} requester =
      some ((s.requester.getD {}).over {}) :=
    lib.take_of_rel hrequester (·.over {}) (fun _ _ => RequesterConfig.read_of_writtenAs doc) {}
  simp [Config.fields, Library.fill, c, m, r, Settings.over]

end Read

/-! ## What describes nothing -/

/-- The names of the sections. -/
def Settings.sections : List String := ["cache", "memory", "requester"]

/-- The fields that each section may mention. -/
def Settings.fields : List (String × List String) :=
  [("cache", ["size_bytes", "ways", "latency"]),
    ("memory", ["controller", "latency", "t_cas", "t_ras", "t_pre", "row_bytes"]),
    ("requester", ["issue_gap"])]

/-- A description with a section or a field twice, or with a field that should be a number and is none
that is written with digits alone and fits a word. -/
inductive Flawed (v : Json) : Prop
  | repeatedSection : Repeats Settings.sections v → Flawed v
  | repeatedField {place names x} : (place, names) ∈ Settings.fields →
      Holds Settings.sections v place x → Repeats names x → Flawed v
  | noWord {place names x name y} : (place, names) ∈ Settings.fields →
      Holds Settings.sections v place x → name ∈ names → name ≠ "controller" → Holds names x name y →
      (∀ n, ¬ IsWord n y) → Flawed v

/-- A section is declared with the fields that it may mention, and all but one of them are words. -/
theorem Config.has_section {place : String} {names : List String}
    (h : (place, names) ∈ Settings.fields) : ∃ (β α : Type) (make : β) (fields : Fields Shape β α),
      Config.fields.Has place (.record make fields) ∧ fields.names = names ∧ names.Nodup ∧
        ∀ name ∈ names, name ≠ "controller" → fields.Has name .word := by
  simp only [Settings.fields, List.mem_cons, Prod.mk.injEq, List.not_mem_nil, or_false] at h
  rcases h with ⟨rfl, rfl⟩ | ⟨rfl, rfl⟩ | ⟨rfl, rfl⟩
  · refine ⟨_, CacheConfig, CacheConfig.mk, CacheConfig.fields, .head, rfl, by decide, ?_⟩
    intro name hname _
    simp only [List.mem_cons, List.not_mem_nil, or_false] at hname
    rcases hname with rfl | rfl | rfl
    · exact .head
    · exact .tail .head
    · exact .tail (.tail .head)
  · refine ⟨_, MemoryConfig, MemoryConfig.mk, MemoryConfig.fields, .tail .head, rfl, by decide, ?_⟩
    intro name hname number
    simp only [List.mem_cons, List.not_mem_nil, or_false] at hname
    rcases hname with rfl | rfl | rfl | rfl | rfl | rfl
    · exact (number rfl).elim
    · exact .tail .head
    · exact .tail (.tail .head)
    · exact .tail (.tail (.tail .head))
    · exact .tail (.tail (.tail (.tail .head)))
    · exact .tail (.tail (.tail (.tail (.tail .head))))
  · refine ⟨_, RequesterConfig, RequesterConfig.mk, RequesterConfig.fields, .tail (.tail .head), rfl,
      by decide, ?_⟩
    intro name hname _
    obtain rfl := List.mem_singleton.mp hname
    exact .head

/-- A flaw within a section spoils the section, and that spoils the description. -/
theorem Config.read_of_flawed {lib : Library} (doc : lib.Documented) {v : Json} (h : Flawed v) :
    lib.read (.record .mk Config.fields) v = none := by
  have distinct : Config.fields.names.Nodup := by decide
  cases h with
  | repeatedSection repeated => exact doc.repeated repeated
  | repeatedField hplace hx repeated =>
    obtain ⟨_, _, make, fields, declared, rfl, -⟩ := Config.has_section hplace
    exact doc.read_of_holds declared distinct hx (doc.repeated repeated) _
  | noWord hplace hx hname number hy noWord =>
    obtain ⟨_, _, make, fields, declared, rfl, once, words⟩ := Config.has_section hplace
    have refused : lib.read .word _ = none :=
      Option.eq_none_iff_forall_ne_some.mpr fun n hn => noWord n (doc.words.mp hn)
    exact doc.read_of_holds declared distinct hx
      (doc.read_of_holds (words _ hname number) once hy refused make) _

/-! ## Descriptions as texts -/

theorem Config.fromJson_of_spells {lib : Library} (doc : lib.Documented) {text : String} {v : Json}
    (h : Spells text v) : Config.fromJson lib text = lib.read (.record .mk Config.fields) v := by
  rw [Config.fromJson, Library.fromText, doc.parses h, Option.bind_some]

/-- A text that spells settings gives the usual configuration with these settings over it; a text of a
flawed description gives none. -/
theorem Config.fromJson_overrides (lib : Library) (doc : lib.Documented) {text : String} {v : Json}
    (h : Spells text v) :
    (∀ s : Settings, s.WrittenAs v → Config.fromJson lib text = some (s.over {})) ∧
    (Flawed v → Config.fromJson lib text = none) := by
  rw [Config.fromJson_of_spells doc h]
  exact ⟨fun _ => Config.read_of_writtenAs doc, Config.read_of_flawed doc⟩

/-- Zero is a number of a description; zero with a sign is none. -/
theorem Config.fromJson_overrides_zero :
    Config.parse " \x7b\"x\":[0],\"cache\":\x7b\"ways\":0\x7d\x7d" = some { cache := { ways := 0 } } ∧
    Config.parse "\x7b\"cache\":\x7b\"ways\":-0\x7d\x7d" = none := by
  have zero : IsNumber ['0'] := @IsNumber.mk [] ['0'] [] [] (.inl rfl) .zero .none .none
  have signed : IsNumber ['-', '0'] := @IsNumber.mk ['-'] ['0'] [] [] (.inr rfl) .zero .none .none
  have cache : ∀ {cs}, IsNumber cs → Written (.member (some "cache", .object [(some "ways", .number cs)]))
      ("\"cache\":\x7b\"ways\":".toList ++ (cs ++ ['\x7d'])) := fun h =>
    Written.field (Written.object (.lastMember (Written.field (Written.number h)
      (show "ways".toList.all isPlain = true from rfl)))) (show "cache".toList.all isPlain = true from rfl)
  have x := Written.field (Written.array (.lastElement (Written.number zero).bare))
    (show "x".toList.all isPlain = true from rfl)
  constructor
  · have spelled : Spells " \x7b\"x\":[0],\"cache\":\x7b\"ways\":0\x7d\x7d"
        (.object [(some "x", .array [.number ['0']]), (some "cache", .object [(some "ways", .number ['0'])])]) :=
      Written.element (show IsSpace [' '] by simp [IsSpace])
        (Written.object (.nextMember x (.lastMember (cache zero)))) isSpace_nil
    have fields : CacheSettings.WrittenAs { ways := some 0 } (.object [(some "ways", .number ['0'])]) :=
      ⟨_, _, _, .none, .some ⟨['0'], rfl, .digit ⟨by decide, .inl rfl⟩⟩, .none, _, [], rfl, .refl _, by simp⟩
    have settings : Settings.WrittenAs { cache := some { ways := some 0 } } _ :=
      ⟨_, _, _, .some fields, .none, .none, _, [(some "x", .array [.number ['0']])], rfl, .swap _ _ _, by simp⟩
    exact (Config.fromJson_overrides library library_documented spelled).1 _ settings
  · have spelled : Spells "\x7b\"cache\":\x7b\"ways\":-0\x7d\x7d"
        (.object [(some "cache", .object [(some "ways", .number ['-', '0'])])]) :=
      (Written.object (.lastMember (cache signed))).bare
    have noWord : ∀ n, ¬ IsWord n (.number ['-', '0']) := by
      intro n hn
      have := word?_eq_some_iff.mpr hn
      cases this
    have flawed : Flawed (.object [(some "cache", .object [(some "ways", .number ['-', '0'])])]) :=
      .noWord (.head _) (.inl ⟨_, rfl, .head _⟩) (show "ways" ∈ _ by simp) (by simp)
        (.inl ⟨_, rfl, .head _⟩) noWord
    exact (Config.fromJson_overrides library library_documented spelled).2 flawed

/-- A name that spells no text is no field, and no library passes over it. -/
theorem Config.nameless_member_refused : ∃ name v, name ∉ Settings.sections.map some ∧
    Spells "\x7b\"\\ud800\":1\x7d" (.object [(name, v)]) ∧ library.Documented ∧
    ∀ lib : Library, lib.Documented → Config.fromJson lib "\x7b\"\\ud800\":1\x7d" = none := by
  have half : SpellsUnits [0xd800] ['\\', 'u', 'd', '8', '0', '0'] :=
    .unicode (i := 13) ⟨by decide, .inl rfl⟩ (j := 8) ⟨by decide, .inl rfl⟩ (k := 0) ⟨by decide, .inl rfl⟩
      (l := 0) ⟨by decide, .inl rfl⟩ .nil
  have undecodable : Token.decode? [0xd800] = none := rfl
  have broken : IsString none ['"', '\\', 'u', 'd', '8', '0', '0', '"'] :=
    .broken half fun content hcontent => by
      rw [Token.decode?_of_encodes hcontent] at undecodable
      cases undecodable
  have one : IsNumber ['1'] :=
    @IsNumber.mk [] ['1'] [] [] (.inl rfl) (.digits rfl (by decide) (by simp)) .none .none
  have spelled : Spells "\x7b\"\\ud800\":1\x7d" (.object [(none, .number ['1'])]) := by
    have member := Written.member isSpace_nil broken isSpace_nil (Written.number one).bare
    exact (Written.object (.lastMember member)).bare
  refine ⟨none, .number ['1'], by simp, spelled, library_documented, fun lib doc => ?_⟩
  rw [Config.fromJson_of_spells doc spelled]
  exact doc.nameless (List.mem_singleton.mpr rfl)

end WritebackCache
