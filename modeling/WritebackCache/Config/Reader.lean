import WritebackCache.AccessKind
import WritebackCache.Config
import WritebackCache.Json.Record

/-! Reading the description of a machine. Every section and every field may be left out. A section that is
left out is that of the usual machine; a field that is left out of its section has a default of its own.
Whether the description is sound is not asked here. -/

namespace WritebackCache

open Json

namespace CacheConfig

def defaultSizeBytes : UInt64 := Defaults.cacheSize

def defaultWays : UInt64 := Defaults.cacheWays

def defaultLatency : UInt64 := Defaults.cacheLatency

def fields : Fields Shape (UInt64 → UInt64 → UInt64 → CacheConfig) CacheConfig :=
  .field "size_bytes" .word defaultSizeBytes <|
  .field "ways" .word defaultWays <|
  .field "latency" .word defaultLatency .none

end CacheConfig

namespace MemoryConfig

def defaultLatency : UInt64 := Defaults.memoryLatency

def defaultTCas : UInt64 := Defaults.tCas

def defaultTRas : UInt64 := Defaults.tRas

def defaultTPre : UInt64 := Defaults.tPre

def defaultRowBytes : UInt64 := Defaults.rowBytes

def fields : Fields Shape
    (TimingKind → UInt64 → UInt64 → UInt64 → UInt64 → UInt64 → MemoryConfig) MemoryConfig :=
  .field "controller" (.choice TimingKind.spellings) default <|
  .field "latency" .word defaultLatency <|
  .field "t_cas" .word defaultTCas <|
  .field "t_ras" .word defaultTRas <|
  .field "t_pre" .word defaultTPre <|
  .field "row_bytes" .word defaultRowBytes .none

end MemoryConfig

namespace RequesterConfig

def defaultIssueGap : UInt64 := Defaults.issueGap

def fields : Fields Shape (UInt64 → RequesterConfig) RequesterConfig :=
  .field "issue_gap" .word defaultIssueGap .none

end RequesterConfig

namespace Config

def fields : Fields Shape (CacheConfig → MemoryConfig → RequesterConfig → Config) Config :=
  .field "cache" (.record .mk CacheConfig.fields) {} <|
  .field "memory" (.record .mk MemoryConfig.fields) {} <|
  .field "requester" (.record .mk RequesterConfig.fields) {} .none

/-- Reads the description that a text holds, as a library reads JSON. -/
def fromJson (lib : Library) (text : String) : Option Config := lib.fromText (.record .mk fields) text

def parse (text : String) : Option Config := fromJson library text

end Config

/-- Reads a kind of access from the JSON in a text. -/
def AccessKind.parse (text : String) : Option AccessKind :=
  library.fromText (.choice AccessKind.spellings) text

end WritebackCache
