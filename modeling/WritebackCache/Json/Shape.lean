import WritebackCache.Json.Value

/-! How a type is declared to be read from JSON: a word, one of some choices, or a record of named fields.
What JSON looks like and what is made of a declaration is the business of a library, and the readers of
this project are built over any library. -/

namespace WritebackCache.Json

/-- The fields that a function of the first type takes, one after the other, to give a value of the
second. `σ` declares their types. -/
inductive Fields (σ : Type → Type 1) : Type → Type → Type 1
  | none {α : Type} : Fields σ α α
  /-- The default is for a field that is not there. -/
  | field {γ β α : Type} (name : String) (shape : σ γ) (default : γ) (rest : Fields σ β α) :
    Fields σ (γ → β) α

inductive Shape : Type → Type 1
  | word : Shape UInt64
  /-- Words, and what they stand for. -/
  | choice {α : Type} (spellings : List (String × α)) : Shape α
  | record {β α : Type} (make : β) (fields : Fields Shape β α) : Shape α

namespace Fields

variable {σ : Type → Type 1}

def names : {β α : Type} → Fields σ β α → List String
  | _, _, none => []
  | _, _, field name _ _ rest => name :: rest.names

end Fields

structure Library where
  /-- The value that a text holds. -/
  parse : String → Option Json
  /-- What the declaration of a type makes of a value. -/
  read : {α : Type} → Shape α → Json → Option α

namespace Library

variable (lib : Library) {α : Type}

def fromText (shape : Shape α) (text : String) : Option α := (lib.parse text).bind (lib.read shape)

/-- A field for which something or nothing was found. -/
def take (shape : Shape α) (default : α) : Option Json → Option α
  | none => some default
  | some v => lib.read shape v

/-- What fields make of what was found for them. -/
def fill : {β α : Type} → Fields Shape β α → β → List (Option Json) → Option α
  | _, _, .none, a, [] => some a
  | _, _, .field _ shape default rest, make, found :: more =>
    (lib.take shape default found).bind fun x => fill rest (make x) more
  | _, _, _, _, _ => none

end Library

end WritebackCache.Json
