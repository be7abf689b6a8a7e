import WritebackCache.Json.Value
import WritebackCache.Proofs.Numerals

/-! The grammar of JSON: which texts are spellings of a value. Blanks may stand around every value and every
key. A number is any run of characters of its form, whatever its magnitude. A string is a run of units,
written plainly or escaped, that encode its content; two escaped halves of a surrogate pair encode one
character, and units with half a pair in them encode no text at all. -/

namespace WritebackCache.Json

/-- Blanks between tokens. -/
def IsSpace (cs : List Char) : Prop := ∀ c ∈ cs, c = ' ' ∨ c = '\t' ∨ c = '\n' ∨ c = '\r'

/-! ## Numbers -/

/-- The whole part of a number: zero, or digits that do not start with one. -/
inductive IsWhole : List Char → Prop
  | zero : IsWhole ['0']
  | digits {c cs} : c.isDigit = true → c ≠ '0' → (∀ d ∈ cs, d.isDigit = true) → IsWhole (c :: cs)

inductive IsFraction : List Char → Prop
  | none : IsFraction []
  | digits {cs} : cs ≠ [] → (∀ d ∈ cs, d.isDigit = true) → IsFraction ('.' :: cs)

inductive IsExponent : List Char → Prop
  | none : IsExponent []
  | digits {mark sign cs} : mark = 'e' ∨ mark = 'E' → sign = [] ∨ sign = ['+'] ∨ sign = ['-'] →
      cs ≠ [] → (∀ d ∈ cs, d.isDigit = true) → IsExponent (mark :: (sign ++ cs))

inductive IsNumber : List Char → Prop
  | mk {sign whole fraction exponent} : sign = [] ∨ sign = ['-'] → IsWhole whole →
      IsFraction fraction → IsExponent exponent → IsNumber (sign ++ (whole ++ (fraction ++ exponent)))

/-! ## Strings -/

/-- What the escapes of one letter stand for. -/
def escapes : List (Char × Nat) :=
  [('"', 0x22), ('\\', 0x5c), ('/', 0x2f), ('b', 0x08), ('f', 0x0c), ('n', 0x0a), ('r', 0x0d), ('t', 0x09)]

/-- A character that stands for itself in a string. -/
def isPlain (c : Char) : Bool := c ≠ '"' && c ≠ '\\' && 0x20 ≤ c.toNat

/-- The units of a string as they are written. A unit is a code point, or half a surrogate pair. -/
inductive SpellsUnits : List Nat → List Char → Prop
  | nil : SpellsUnits [] []
  | plain {c units cs} : isPlain c = true → SpellsUnits units cs →
      SpellsUnits (c.toNat :: units) (c :: cs)
  | escape {c unit units cs} : (c, unit) ∈ escapes → SpellsUnits units cs →
      SpellsUnits (unit :: units) ('\\' :: c :: cs)
  | unicode {a b c d : Char} {i j k l : Nat} {units cs} :
      Numeral.IsDigit 16 a i → Numeral.IsDigit 16 b j → Numeral.IsDigit 16 c k →
      Numeral.IsDigit 16 d l → SpellsUnits units cs →
      SpellsUnits ((16 * (16 * (16 * i + j) + k) + l) :: units) ('\\' :: 'u' :: a :: b :: c :: d :: cs)

/-- The text that units encode. -/
inductive Encodes : List Nat → List Char → Prop
  | nil : Encodes [] []
  | char {c units cs} : Encodes units cs → Encodes (c.toNat :: units) (c :: cs)
  | pair {c high low units cs} : 0xd800 ≤ high → high < 0xdc00 → 0xdc00 ≤ low → low < 0xe000 →
      c.toNat = 0x10000 + (high - 0xd800) * 0x400 + (low - 0xdc00) → Encodes units cs →
      Encodes (high :: low :: units) (c :: cs)

/-- A string with its quotes; no content means that it spells no text. -/
inductive IsString : Option String → List Char → Prop
  | text {units cs content} : SpellsUnits units cs → Encodes units content →
      IsString (some (String.ofList content)) ('"' :: (cs ++ ['"']))
  | broken {units cs} : SpellsUnits units cs → (∀ content, ¬ Encodes units content) →
      IsString none ('"' :: (cs ++ ['"']))

/-! ## Values -/

/-- What a part of a text spells. -/
inductive Part
  /-- A value alone. -/
  | value (v : Json)
  /-- A value and the blanks around it. -/
  | element (v : Json)
  | elements (vs : List Json)
  | member (m : Option String × Json)
  | members (ms : List (Option String × Json))

inductive Written : Part → List Char → Prop
  | nullWord : Written (.value .null) ['n', 'u', 'l', 'l']
  | trueWord : Written (.value (.bool true)) ['t', 'r', 'u', 'e']
  | falseWord : Written (.value (.bool false)) ['f', 'a', 'l', 's', 'e']
  | number {cs} : IsNumber cs → Written (.value (.number cs)) cs
  | text {content cs} : IsString content cs → Written (.value (.text content)) cs
  | emptyArray {space} : IsSpace space → Written (.value (.array [])) ('[' :: (space ++ [']']))
  | array {vs cs} : Written (.elements vs) cs → Written (.value (.array vs)) ('[' :: (cs ++ [']']))
  | emptyObject {space} : IsSpace space →
      Written (.value (.object [])) ('\x7b' :: (space ++ ['\x7d']))
  | object {ms cs} : Written (.members ms) cs →
      Written (.value (.object ms)) ('\x7b' :: (cs ++ ['\x7d']))
  | element {v front cs back} : IsSpace front → Written (.value v) cs → IsSpace back →
      Written (.element v) (front ++ (cs ++ back))
  | lastElement {v cs} : Written (.element v) cs → Written (.elements [v]) cs
  | nextElement {v w vs cs cs'} : Written (.element v) cs → Written (.elements (w :: vs)) cs' →
      Written (.elements (v :: w :: vs)) (cs ++ ',' :: cs')
  | member {key v front name back cs} : IsSpace front → IsString key name → IsSpace back →
      Written (.element v) cs → Written (.member (key, v)) (front ++ (name ++ (back ++ ':' :: cs)))
  | lastMember {m cs} : Written (.member m) cs → Written (.members [m]) cs
  | nextMember {m n ms cs cs'} : Written (.member m) cs → Written (.members (n :: ms)) cs' →
      Written (.members (m :: n :: ms)) (cs ++ ',' :: cs')

/-- A text spells a value: there is nothing in it but the value and blanks around it. -/
def Spells (text : String) (v : Json) : Prop := Written (.element v) text.toList

/-! ## Plain texts -/

/-- A text of characters that stand for themselves. -/
theorem isString_plain {cs : List Char} (h : cs.all isPlain = true) :
    IsString (some (String.ofList cs)) ('"' :: (cs ++ ['"'])) := by
  refine .text (?_ : SpellsUnits (cs.map Char.toNat) cs) ?_
  · induction cs with
    | nil => exact .nil
    | cons c cs ih =>
      rw [List.all_cons, Bool.and_eq_true] at h
      exact .plain h.1 (ih h.2)
  · clear h
    induction cs with
    | nil => exact .nil
    | cons c cs ih => exact .char ih

theorem isSpace_nil : IsSpace [] := by
  simp [IsSpace]

/-- No blanks have to stand around a value. -/
theorem Written.bare {v : Json} {cs : List Char} (h : Written (.value v) cs) : Written (.element v) cs := by
  have := Written.element isSpace_nil h isSpace_nil
  simpa using this

/-- A member with a plain name. -/
theorem Written.field {name cs : List Char} {v : Json} (h : Written (.value v) cs)
    (plain : name.all isPlain = true) :
    Written (.member (some (String.ofList name), v)) ('"' :: (name ++ '"' :: ':' :: cs)) := by
  have := Written.member isSpace_nil (isString_plain plain) isSpace_nil h.bare
  simpa using this

end WritebackCache.Json
