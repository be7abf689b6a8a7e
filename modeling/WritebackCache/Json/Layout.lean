/-! JSON as it is laid out in print: one member or item a line, two spaces deeper than its container.
Empty containers stay on one line. Numbers come spelled, and words are made of characters that need
no escape. -/

namespace WritebackCache.Json

inductive Layout
  | number (spelling : String)
  | word (content : String)
  | array (items : List Layout)
  | object (members : List (String × Layout))

namespace Layout

def quote (s : String) : String := "\"" ++ s ++ "\""

/-- Parts that stand on lines of their own between two brackets; `indent` is that of the brackets. -/
def bracket (opening closing indent : String) (parts : List String) : String :=
  match parts with
  | [] => opening ++ closing
  | _ =>
    opening ++ "\n" ++ ",\n".intercalate (parts.map fun p => indent ++ "  " ++ p) ++
    "\n" ++ indent ++ closing

mutual

def render (indent : String) : Layout → String
  | number spelling => spelling
  | word content => quote content
  | array items => bracket "[" "]" indent (renderItems (indent ++ "  ") items)
  | object members => bracket "\x7b" "\x7d" indent (renderMembers (indent ++ "  ") members)

def renderItems (indent : String) : List Layout → List String
  | [] => []
  | item :: rest => render indent item :: renderItems indent rest

def renderMembers (indent : String) : List (String × Layout) → List String
  | [] => []
  | (name, v) :: rest => (quote name ++ ": " ++ render indent v) :: renderMembers indent rest

end

end Layout

end WritebackCache.Json
