/-! Records in words: a name and the fields in braces. Two dots stand for fields that are not shown. -/

namespace WritebackCache.Text

/-- A record of which some fields are not shown. -/
def openRecord (name : String) (fields : List (String × String)) : String :=
  name ++ " \x7b " ++ String.join (fields.map fun f => f.1 ++ ": " ++ f.2 ++ ", ") ++ ".. \x7d"

/-- A record with all its fields. -/
def closedRecord (name : String) (fields : List (String × String)) : String :=
  name ++ " \x7b " ++ ", ".intercalate (fields.map fun f => f.1 ++ ": " ++ f.2) ++ " \x7d"

def applied (name : String) (argument : String) : String := name ++ "(" ++ argument ++ ")"

def optional : Option String → String
  | none => "None"
  | some s => applied "Some" s

def listed (items : List String) : String := "[" ++ ", ".intercalate items ++ "]"

def truth (b : Bool) : String := if b then "true" else "false"

end WritebackCache.Text
