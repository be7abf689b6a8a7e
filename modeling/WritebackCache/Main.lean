import WritebackCache.Command.Outcome

/-! The program: reads the files that a request names, measures the time of a run, and prints. -/

namespace WritebackCache.Command

/-- The number of an error of the system, which comes with either sign. -/
def errorNumber (code : UInt32) : Nat := min code.toNat (-code).toNat

def readFile (path : String) : IO (Except FileError String) := do
  try
    return FileError.decode (← IO.FS.readBinFile path)
  catch
    | .noFileOrDirectory .. => return .error .notFound
    | .inappropriateType _ code _ =>
      return .error (if errorNumber code = 20 then .notDirectory else .isDirectory)
    | reason@(.invalidArgument _ code _) =>
      return .error
        (if errorNumber code = 36 then .nameTooLong else .unreadable (toString reason))
    | reason => return .error (.unreadable (toString reason))

/-- Milliseconds as seconds with four places. -/
def secondsText (milliseconds : Nat) : String :=
  Numeric.fixed 4 (.ofRatio milliseconds 1000)

/-- The files that a request names, read ahead. -/
def readFiles (paths : List String) : IO Files := do
  let contents ← paths.mapM fun path => return (path, ← readFile path)
  return fun path => (contents.lookup path).getD (.error .notFound)

def finish (outcome : Outcome) : IO UInt32 := do
  match outcome with
  | .finished output => IO.print output
  | .fatal complaint => IO.eprintln ("\n" ++ complaint)
  | .usage => IO.eprint helpText
  | .crashed f => IO.eprintln f.message
  return .ofNat outcome.status

/-- Runs and reports, and tells how long the run took. -/
def runTimed (trace : String) (config : Option String) (json : Bool) (sections : List String) :
    IO UInt32 := do
  let files ← readFiles (trace :: config.toList)
  let start ← IO.monoMsNow
  match simulate files trace config with
  | .error outcome => finish outcome
  | .ok (stats, log) =>
    let now ← IO.monoMsNow
    finish (report json sections (secondsText (now - start)) stats log)

end WritebackCache.Command

open WritebackCache.Command in
def main (args : List String) : IO UInt32 := do
  match Request.ofArguments args with
  | none => finish .usage
  | some (.run trace config json sections) => runTimed trace config json sections
  | some (.geometry config) => finish (perform (← readFiles config.toList) "" (.geometry config))
  | some request => finish (perform (fun _ => .error .notFound) "" request)
