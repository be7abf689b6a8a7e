import WritebackCache.Command.Arguments
import WritebackCache.Config.Reader
import WritebackCache.Simulation
import WritebackCache.Trace.Reader

/-! What the program does on a request. Files are read through a function from paths to texts. A
request ends with a status, with what it prints and with its complaint, if there is one; or in a
fault. -/

namespace WritebackCache.Command

inductive Outcome
  | finished (output : String)
  /-- Status 1 and one line of complaint. -/
  | fatal (complaint : String)
  /-- The arguments were not understood. -/
  | usage
  | crashed (f : Fault)
  deriving DecidableEq

namespace Outcome

def status : Outcome → Nat
  | finished _ => 0
  | fatal _ => 1
  | usage => 2
  | crashed _ => 101

end Outcome

abbrev Files := String → Except FileError String

def name : String := "mcsim"

def versionText : String := name ++ " 0.3.0\n"

def helpText : String :=
  "Blocking write-back cache controller simulator\n\n" ++
  "  " ++ name ++ " run [-c FILE] [--json] [--stats SECTIONS] TRACE\n" ++
  "  " ++ name ++ " geometry [-c FILE]\n"

def complain (complaint : String) : Outcome := .fatal ("[!] FATAL: " ++ complaint)

/-- The description of the machine in a file; without a file, the usual machine. -/
def loadConfig (files : Files) : Option String → Except Outcome Config
  | none => .ok {}
  | some path =>
    match files path with
    | .error reason =>
      .error (complain ("Could not read config '" ++ path ++ "': " ++ reason.message))
    | .ok text =>
      match Config.parse text with
      | some config => .ok config
      | none => .error (complain ("Invalid config '" ++ path ++ "': not a machine description"))

def loadTrace (files : Files) (path : String) : Except Outcome Trace :=
  match Trace.load (files path) with
  | .ok trace => .ok trace
  | .error reason =>
    .error (complain ("Could not load trace '" ++ path ++ "': " ++ reason.message))

/-- How a failure ends a request: a reason is a complaint. -/
def ofFailure {ε : Type} (message : ε → String) : Failure ε → Outcome
  | .refused reason => complain (message reason)
  | .fault f => .crashed f

def ofText : Except Fault String → Outcome
  | .ok output => .finished output
  | .error f => .crashed f

/-- Runs a trace: the counters of the run and what memory served. -/
def simulate (files : Files) (tracePath : String) (configPath : Option String) :
    Except Outcome (Stats × List MemoryAccess) := do
  let config ← loadConfig files configPath
  let trace ← loadTrace files tracePath
  let simulation ← (Simulation.ofConfig config trace).mapError (ofFailure ConfigError.message)
  let (after, result) := simulation.run
  let stats ← result.mapError
    (ofFailure fun reason => "Simulation aborted: " ++ ProtocolError.message reason)
  return (stats, after.memory.log)

/-- Reports on a run that took `seconds` on the host. -/
def report (json : Bool) (sections : List String) (seconds : String) (stats : Stats)
    (log : List MemoryAccess) : Outcome :=
  ofText (if json then Report.json stats log else Report.text stats seconds sections)

def geometry (files : Files) (configPath : Option String) : Except Outcome Outcome := do
  let config ← loadConfig files configPath
  config.validate.mapError (ofFailure ConfigError.message)
  let sets ← config.cache.sets.mapError .crashed
  return .finished (String.join
    ["size_bytes   ", Report.count config.cache.sizeBytes, "\n",
     "ways         ", Report.count config.cache.ways, "\n",
     "sets         ", Report.count sets, "\n",
     "latency      ", Report.count config.cache.latency, "\n",
     "memory       ", config.memory.controller.name, "\n"])

/-- Either way a request ended. -/
def settled : Except Outcome Outcome → Outcome
  | .ok outcome => outcome
  | .error outcome => outcome

def perform (files : Files) (seconds : String) : Request → Outcome
  | .help => .finished helpText
  | .version => .finished versionText
  | .run trace config json sections =>
    settled ((simulate files trace config).map fun (stats, log) =>
      report json sections seconds stats log)
  | .geometry config => settled (geometry files config)

/-- What the program does on its arguments. -/
def execute (files : Files) (seconds : String) (args : List String) : Outcome :=
  match Request.ofArguments args with
  | some request => perform files seconds request
  | none => .usage

end WritebackCache.Command
