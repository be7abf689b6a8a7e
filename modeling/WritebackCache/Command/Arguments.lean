import WritebackCache.Report

/-! The arguments of the command line. In front of the command stand switches of the program; behind it
switches of the command and its operands, in any order. A switch is a word behind two hyphens or a
letter behind one, and letters may share a hyphen. A value follows its switch as the next argument,
unless that looks like a switch itself, or is joined to it: behind an equals sign, or right behind
the letter. Two hyphens alone end the switches. A hyphen alone is an operand.

Arguments are taken from left to right. A switch that asks for help or for the version is answered
where it stands: nothing behind it counts, nothing need be there, but all in front of it must be
understood. -/

namespace WritebackCache.Command

inductive Request
  | help
  | version
  | run (trace : String) (config : Option String) (json : Bool) (sections : List String)
  | geometry (config : Option String)
  deriving DecidableEq

inductive Switch
  | help
  | verbose
  | config
  | json
  | stats
  deriving DecidableEq

def Switch.takesValue : Switch → Bool
  | config | stats => true
  | help | verbose | json => false

/-- The switches that a command knows. -/
structure Usage where
  words : List (String × Switch)
  letters : List (Char × Switch)

def runUsage : Usage where
  words := [("help", .help), ("verbose", .verbose), ("config", .config), ("json", .json),
    ("stats", .stats)]
  letters := [('h', .help), ('v', .verbose), ('c', .config)]

def geometryUsage : Usage where
  words := [("help", .help), ("verbose", .verbose), ("config", .config)]
  letters := [('h', .help), ('v', .verbose), ('c', .config)]

inductive Argument
  | endOfSwitches
  | word (name : String) (value : Option String)
  | letters (cluster : List Char)
  | operand (content : String)

def Argument.ofChars : List Char → Argument
  | ['-', '-'] => .endOfSwitches
  | '-' :: '-' :: cs =>
    let name := cs.takeWhile (· ≠ '=')
    .word (String.ofList name)
      (match cs.drop name.length with
        | [] => none
        | _ :: value => some (String.ofList value))
  | '-' :: c :: cs => .letters (c :: cs)
  | cs => .operand (String.ofList cs)

/-- What the arguments of a command say. -/
inductive Item
  | switch (s : Switch) (value : Option String)
  | operand (content : String)
  deriving DecidableEq

/-- How the argument behind those read is taken. -/
inductive Next
  | argument
  /-- As the value of a switch that waits for it. -/
  | value (s : Switch)
  /-- Not at all: help has been asked for. -/
  | nothing
  deriving DecidableEq

/-- Letters that share a hyphen. -/
def ofLetters (usage : Usage) : List Char → Option (List Item × Next)
  | [] => some ([], .argument)
  | c :: cs =>
    (usage.letters.lookup c).bind fun s =>
      if s = .help then some ([.switch s none], .nothing)
      else if s.takesValue then
        match cs with
        | [] => some ([], .value s)
        | '=' :: value => some ([.switch s (some (String.ofList value))], .argument)
        | value => some ([.switch s (some (String.ofList value))], .argument)
      else (ofLetters usage cs).map fun (items, next) => (.switch s none :: items, next)

/-- A word behind two hyphens, with the value joined to it. -/
def ofWord (usage : Usage) (name : String) (value : Option String) : Option (List Item × Next) :=
  (usage.words.lookup name).bind fun s =>
    match s.takesValue, value with
    | true, some v => some ([.switch s (some v)], .argument)
    | true, none => some ([], .value s)
    | false, none => some ([.switch s none], if s = .help then .nothing else .argument)
    | false, some _ => none

/-- The items of arguments, up to the first switch that asks for help. -/
def items (usage : Usage) : Next → List String → Option (List Item)
  | .nothing, _ => some []
  | .argument, [] => some []
  | .value _, [] => none
  | .value s, arg :: rest =>
    match Argument.ofChars arg.toList with
    | .operand content => (items usage .argument rest).map (.switch s (some content) :: ·)
    | _ => none
  | .argument, arg :: rest =>
    match Argument.ofChars arg.toList with
    | .endOfSwitches => some (rest.map .operand)
    | .operand content => (items usage .argument rest).map (.operand content :: ·)
    | .word name value =>
      (ofWord usage name value).bind fun (found, next) =>
        (items usage next rest).map (found ++ ·)
    | .letters cluster =>
      (ofLetters usage cluster).bind fun (found, next) =>
        (items usage next rest).map (found ++ ·)

/-- The operands among the items. -/
def operands (found : List Item) : List String :=
  found.filterMap fun
    | .operand content => some content
    | .switch _ _ => none

/-- The values that a switch was given. -/
def values (s : Switch) (found : List Item) : List String :=
  found.filterMap fun
    | .switch t value => if t = s then value else none
    | .operand _ => none

def occurrences (s : Switch) (found : List Item) : Nat := found.countP (· = .switch s none)

/-- What was given, if it was not given twice. -/
def atMostOne? : List String → Option (Option String)
  | [] => some none
  | [content] => some (some content)
  | _ => none

/-- The parts of a list between commas; a list without commas is one part. -/
def commaParts : List Char → List (List Char)
  | [] => [[]]
  | c :: cs =>
    if c = ',' then [] :: commaParts cs
    else match commaParts cs with
      | [] => [[c]]
      | part :: rest => (c :: part) :: rest

/-- The sections named by a list, each of which there must be. -/
def section? (part : List Char) : Option String :=
  Report.sections.find? (· = String.ofList part)

def sections? (lists : List String) : Option (List String) :=
  (lists.flatMap fun l => commaParts l.toList).mapM section?

def runRequest (args : List String) : Option Request := do
  let found ← items runUsage .argument args
  let trace ← atMostOne? (operands found)
  let config ← atMostOne? (values .config found)
  let sections ← sections? (values .stats found)
  if 1 < occurrences .json found then none
  if 0 < occurrences .help found then return .help
  return .run (← trace) config (0 < occurrences .json found) sections

def geometryRequest (args : List String) : Option Request := do
  let found ← items geometryUsage .argument args
  let [] := operands found | none
  let config ← atMostOne? (values .config found)
  if 0 < occurrences .help found then return .help
  return .geometry config

def commands : List String := ["run", "geometry", "help"]

/-- Help is given on the program or on one of its commands. -/
def helpRequest : List String → Option Request
  | [] => some .help
  | [command] => if command ∈ commands then some .help else none
  | _ => none

/-- Letters in front of the command: only one asks for something. -/
def programLetters : List Char → Option (Option Request)
  | [] => some none
  | 'v' :: cs => programLetters cs
  | 'V' :: _ => some (some .version)
  | 'h' :: _ => some (some .help)
  | _ => none

/-- The request that the arguments make; nothing if they are not understood. -/
def Request.ofArguments : List String → Option Request
  | [] => none
  | arg :: rest =>
    match Argument.ofChars arg.toList with
    | .word "verbose" none => ofArguments rest
    | .word "version" none => some .version
    | .word "help" none => some .help
    | .letters cluster =>
      match programLetters cluster with
      | none => none
      | some none => ofArguments rest
      | some (some request) => some request
    | .operand "run" => runRequest rest
    | .operand "geometry" => geometryRequest rest
    | .operand "help" => helpRequest rest
    | _ => none

end WritebackCache.Command
