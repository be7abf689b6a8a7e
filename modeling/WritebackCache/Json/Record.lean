import WritebackCache.Json.Reader
import WritebackCache.Json.Shape
import WritebackCache.Text.Numeral

/-! What declarations make of values here. A record is an object with named fields, or an array of its
fields in their order. Of an object, members with other names are passed over, but every name must spell a
text and no field may be there twice; an array may be short but not long. A choice is one of some
words, as a string or as the name of an object's only member, which then holds null. -/

namespace WritebackCache.Json

/-- The member of a name, if there is one; nothing at all if there are several. -/
def field? (members : List (Option String × Json)) (name : String) : Option (Option Json) :=
  match members.filter fun m => m.1 = some name with
  | [] => some none
  | [m] => some (some m.2)
  | _ => none

/-- What a record holds for each of its fields. -/
def record? (names : List String) : Json → Option (List (Option Json))
  | .object members =>
    if members.all (·.1.isSome) then names.mapM (field? members) else none
  | .array items =>
    if items.length ≤ names.length then
      some (items.map some ++ List.replicate (names.length - items.length) none)
    else none
  | _ => none

def choice? {α : Type} (spellings : List (String × α)) : Json → Option α
  | .text (some word) => spellings.lookup word
  | .object [(some word, .null)] => spellings.lookup word
  | _ => none

/-- A number that fits a word, written with digits alone. -/
def word? : Json → Option UInt64
  | .number spelling =>
    (Numeral.natural? 10 spelling).bind fun n => if n < UInt64.size then some (.ofNat n) else none
  | _ => none

mutual

def Shape.read : {α : Type} → Shape α → Json → Option α
  | _, .word, v => word? v
  | _, .choice spellings, v => choice? spellings v
  | _, .record make fields, v => (record? fields.names v).bind (fields.assemble make)

def Fields.assemble : {β α : Type} → Fields Shape β α → β → List (Option Json) → Option α
  | _, _, .none, a, [] => some a
  | _, _, .field _ _ default rest, make, none :: more => rest.assemble (make default) more
  | _, _, .field _ shape _ rest, make, some v :: more =>
    (shape.read v).bind fun x => rest.assemble (make x) more
  | _, _, _, _, _ => none

end

/-- The library that the program runs with. -/
def library : Library := ⟨parse, Shape.read⟩

end WritebackCache.Json
