import WritebackCache.Json.Token
import WritebackCache.Json.Value

/-! Reading JSON. A value is built token by token, with a stack of the arrays and objects that are open
around it, so values of any depth are read in one pass. -/

namespace WritebackCache.Json

/-- A container that is open around a value. What it holds so far is kept with the last part first. -/
inductive Frame
  | array (items : List Json)
  | object (members : List (Option String × Json)) (key : Option String)

/-- What has to come next; `around` are the open containers, the innermost first. -/
inductive Reading
  | value (around : List Frame)
  /-- An array was opened: a value, or its end. -/
  | firstItem (around : List Frame)
  /-- An object was opened: a key, or its end. -/
  | firstKey (around : List Frame)
  | nextKey (members : List (Option String × Json)) (around : List Frame)
  | colon (members : List (Option String × Json)) (key : Option String) (around : List Frame)
  /-- A value is complete. -/
  | complete (v : Json) (around : List Frame)

namespace Reading

/-- A token with which a value starts. -/
def startValue (around : List Frame) : Token → Option Reading
  | .openArray => some (.firstItem around)
  | .openObject => some (.firstKey around)
  | .null => some (.complete .null around)
  | .bool b => some (.complete (.bool b) around)
  | .number spelling => some (.complete (.number spelling) around)
  | .text content => some (.complete (.text content) around)
  | .closeArray | .closeObject | .comma | .colon => none

/-- A token behind a complete value: the container goes on, or ends. -/
def afterValue (v : Json) : List Frame → Token → Option Reading
  | .array items :: around, .comma => some (.value (.array (v :: items) :: around))
  | .array items :: around, .closeArray => some (.complete (.array (v :: items).reverse) around)
  | .object members key :: around, .comma => some (.nextKey ((key, v) :: members) around)
  | .object members key :: around, .closeObject =>
    some (.complete (.object ((key, v) :: members).reverse) around)
  | _, _ => none

def step : Reading → Token → Option Reading
  | .value around, t => startValue around t
  | .firstItem around, .closeArray => some (.complete (.array []) around)
  | .firstItem around, t => startValue (.array [] :: around) t
  | .firstKey around, .closeObject => some (.complete (.object []) around)
  | .firstKey around, .text key => some (.colon [] key around)
  | .firstKey _, _ => none
  | .nextKey members around, .text key => some (.colon members key around)
  | .nextKey _ _, _ => none
  | .colon members key around, .colon => some (.value (.object members key :: around))
  | .colon _ _ _, _ => none
  | .complete v around, t => afterValue v around t

def readAll : Reading → List Token → Option Reading
  | r, [] => some r
  | r, t :: ts => (r.step t).bind (readAll · ts)

/-- The value, if it is complete and stands alone. -/
def result? : Reading → Option Json
  | .complete v [] => some v
  | _ => none

end Reading

def ofTokens (tokens : List Token) : Option Json :=
  (Reading.readAll (.value []) tokens).bind Reading.result?

/-- Reads a text that holds one value and nothing else but blanks. -/
def parse (text : String) : Option Json := (Token.ofChars text.toList).bind ofTokens

end WritebackCache.Json
