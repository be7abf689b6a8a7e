import WritebackCache.Text.Lines
import WritebackCache.Trace

/-! Reading a trace. Each line holds one entry: an operation, an address and at most one argument; what
follows a `#` is comment, and a line without fields says nothing.

    I address bytes    bytes to put into memory
    R address [size]   a read, of eight bytes unless the size is given
    W address bytes    a write
    P address bytes    a posted write
    O address [any]    other traffic

Operations are read in either case. The first line that is not an entry decides the error, which
carries its number, counted from one. -/

namespace WritebackCache

inductive LineError
  | missingAddress
  | badAddress (field : List Char)
  | unexpectedField (field : List Char)
  | missingData
  | badData (field : List Char)
  | badSize (field : List Char)
  | unknownOp (op : List Char)
  | packet (reason : PacketError)
  deriving DecidableEq

/-- Why there is no text to a path. -/
inductive FileError
  | notFound
  | isDirectory
  | notDirectory
  | nameTooLong
  | notText
  | unreadable (reason : String)
  deriving DecidableEq

inductive TraceError
  | file (reason : FileError)
  | line (number : Nat) (reason : LineError)
  deriving DecidableEq

namespace LineError

def quoted (field : List Char) : String := "`" ++ String.ofList field ++ "`"

def message : LineError → String
  | missingAddress => "missing address"
  | badAddress field => "bad address " ++ quoted field
  | unexpectedField field => "unexpected field " ++ quoted field
  | missingData => "missing data"
  | badData field => "bad hex data " ++ quoted field
  | badSize field => "bad size " ++ quoted field
  | unknownOp op => "unknown op " ++ quoted op
  | packet reason => reason.message

end LineError

def FileError.message : FileError → String
  | notFound => "No such file or directory (os error 2)"
  | isDirectory => "Is a directory (os error 21)"
  | notDirectory => "Not a directory (os error 20)"
  | nameTooLong => "File name too long (os error 36)"
  | notText => "stream did not contain valid UTF-8"
  | unreadable reason => reason

def TraceError.message : TraceError → String
  | file reason => "cannot read trace: " ++ reason.message
  | line number reason => s!"line {number}: " ++ reason.message

namespace Trace

/-- A number of a trace: of radix sixteen behind `0x` or `0X`, and else decimal. -/
def number? : List Char → Option UInt64
  | '0' :: 'x' :: cs => Numeral.word? 16 cs
  | '0' :: 'X' :: cs => Numeral.word? 16 cs
  | cs => Numeral.word? 10 cs

/-- A byte string of a trace, at least one byte long, with or without `0x` in front. -/
def bytes? (field : List Char) : Option (List UInt8) :=
  let digits := match field with
    | '0' :: 'x' :: cs => cs
    | cs => cs
  if digits = [] then none else Numeral.bytes? digits

def readBytes : Option (List Char) → Except LineError (List UInt8)
  | none => .error .missingData
  | some field =>
    match bytes? field with
    | some bytes => .ok bytes
    | none => .error (.badData field)

def readSize : Option (List Char) → Except LineError Nat
  | none => .ok 8
  | some field =>
    match number? field with
    | some size => .ok size.toNat
    | none => .error (.badSize field)

def readPacket : Except PacketError Packet → Except LineError TraceEntry
  | .ok p => .ok (.request p)
  | .error reason => .error (.packet reason)

/-- One entry from its operation in upper case, its address and its argument. -/
def readEntry (op : List Char) (addr : Address) (arg : Option (List Char)) :
    Except LineError TraceEntry :=
  match op with
  | ['I'] => (readBytes arg).map (.preload addr)
  | ['R'] => (readSize arg).bind fun size => readPacket (Packet.read addr size)
  | ['W'] => (readBytes arg).bind fun bytes => readPacket (Packet.write addr bytes)
  | ['P'] => (readBytes arg).bind fun bytes => readPacket (Packet.postedWrite addr bytes)
  | ['O'] => .ok (.request (.other addr))
  | _ => .error (.unknownOp op)

/-- One line from its fields. -/
def readFields : List (List Char) → Except LineError (Option TraceEntry)
  | [] => .ok none
  | [_] => .error .missingAddress
  | op :: addr :: args =>
    match number? addr with
    | none => .error (.badAddress addr)
    | some a =>
      match args with
      | _ :: extra :: _ => .error (.unexpectedField extra)
      | args => (readEntry (op.map Char.toUpper) ⟨a⟩ args.head?).map some

def readLine (line : List Char) : Except LineError (Option TraceEntry) :=
  readFields (Text.fields (Text.beforeComment line))

/-- The entries of lines of which the first has the number given. -/
def readLines (number : Nat) : List (List Char) → Except TraceError (List TraceEntry)
  | [] => .ok []
  | line :: rest =>
    match readLine line with
    | .error reason => .error (.line number reason)
    | .ok none => readLines (number + 1) rest
    | .ok (some entry) => (readLines (number + 1) rest).map (entry :: ·)

def ofChars (text : List Char) : Except TraceError Trace :=
  (readLines 1 (Text.lines text)).map ofEntries

/-- Reads a trace. -/
def parse (text : String) : Except TraceError Trace := ofChars text.toList

/-- Reads the trace that a file holds, whose text is given as far as the file could be read. -/
def load (contents : Except FileError String) : Except TraceError Trace :=
  match contents with
  | .ok text => parse text
  | .error reason => .error (.file reason)

end Trace

/-- The text of a file with the bytes given. -/
def FileError.decode (bytes : ByteArray) : Except FileError String :=
  match String.fromUTF8? bytes with
  | some text => .ok text
  | none => .error .notText

end WritebackCache
