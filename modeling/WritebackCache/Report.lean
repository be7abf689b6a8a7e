import WritebackCache.Json.Layout
import WritebackCache.Memory
import WritebackCache.Numeric.Fixed
import WritebackCache.Numeric.Shortest
import WritebackCache.Stats

/-! Reports on a run. The text report has three sections, each of which can be asked for by name, and
always ends with a rule; parts of the requests are percentages with two places. The JSON report has
its names in alphabetical order, and the hit rate in the shortest form that reads back. -/

namespace WritebackCache

namespace Report

/-- The sections of the text report. -/
def sections : List String := ["summary", "cache", "memory"]

def doubleRule : String := String.ofList (List.replicate 58 '=')

def singleRule : String := String.ofList (List.replicate 58 '-')

def count (n : UInt64) : String := Numeral.decimal n.toNat

/-- The part that `n` is of all requests, as a percentage. -/
def percentage (n requests : UInt64) : String :=
  let total := Numeric.Binary64.ofNat (max requests.toNat 1)
  Numeric.fixed 2 (((Numeric.Binary64.ofNat n.toNat).div total).mul (.ofNat 100)) ++ "%"

def summary (s : Stats) (seconds : String) : List String :=
  ["", doubleRule, "CACHE SIMULATION STATISTICS", doubleRule,
   "host_seconds             " ++ seconds ++ " s",
   "sim_ticks                " ++ count s.ticks,
   "sim_requests             " ++ count s.requests,
   singleRule]

def cache (s : Stats) : Except Fault (List String) :=
  s.hitRate.map fun rate =>
    ["CACHE",
     "  hits                   " ++ count s.hits ++ " (" ++ percentage s.hits s.requests ++ ")",
     "  misses                 " ++ count s.misses ++ " (" ++ percentage s.misses s.requests ++ ")",
     "  bypassed               " ++ count s.bypassed,
     "  hit_rate               " ++ Numeric.fixed 2 (rate.mul (.ofNat 100)) ++ "%",
     "  retries                " ++ count s.retries,
     singleRule]

def memory (s : Stats) : List String :=
  ["MEMORY",
   "  fetches                " ++ count s.fetches,
   "  writebacks             " ++ count s.writebacks]

/-- A section is printed if its name is among those wanted; none stand for all. -/
def wants (wanted : List String) (name : String) : Bool := wanted.isEmpty || wanted.contains name

/-- The lines of the text report. Only the cache section can fault. -/
def lines (s : Stats) (seconds : String) (wanted : List String) : Except Fault (List String) := do
  let cacheLines ← if wants wanted "cache" then cache s else .ok []
  .ok ((if wants wanted "summary" then summary s seconds else []) ++ cacheLines ++
    (if wants wanted "memory" then memory s else []) ++ [doubleRule])

def text (s : Stats) (seconds : String) (wanted : List String) : Except Fault String :=
  (lines s seconds wanted).map fun ls => String.join (ls.map (· ++ "\n"))

open Json

def number (n : UInt64) : Layout := .number (count n)

def ofAccess (a : MemoryAccess) : Layout :=
  .object [("block", number a.block.val), ("completed", number a.completed),
    ("issued", number a.issued), ("op", .word a.op.name)]

def ofStats (s : Stats) : Layout :=
  .object [("bypassed", number s.bypassed), ("fetches", number s.fetches), ("hits", number s.hits),
    ("misses", number s.misses), ("requests", number s.requests), ("retries", number s.retries),
    ("ticks", number s.ticks), ("writebacks", number s.writebacks)]

def json (s : Stats) (log : List MemoryAccess) : Except Fault String :=
  s.hitRate.map fun rate =>
    Layout.render "" (.object [("hit_rate", .number (Numeric.shortestText rate)),
      ("memory", .array (log.map ofAccess)), ("stats", ofStats s)]) ++ "\n"

end Report

end WritebackCache
