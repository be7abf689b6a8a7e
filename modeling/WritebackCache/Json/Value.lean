/-! JSON values. A number is kept as it is spelled, because it depends on the spelling whether it counts
as a whole number. The text of a string is missing if escapes leave half of a surrogate pair in
it: such a string is well formed but spells no text. Members of an object keep their order, and may
share a name. -/

namespace WritebackCache

inductive Json
  | null
  | bool (b : Bool)
  | number (spelling : List Char)
  | text (content : Option String)
  | array (items : List Json)
  | object (members : List (Option String × Json))

end WritebackCache
