import WritebackCache.Text.Numeral

/-! JSON tokens. The reader goes through a text character by character and keeps what it has seen of
the current token: the letters of a word, the spelling of a number, the code points of a string. A
word or number ends at the first character that cannot belong to it. Blanks are spaces, tabs, line
feeds and carriage returns, between tokens only. -/

namespace WritebackCache.Json

inductive Token
  | openArray
  | closeArray
  | openObject
  | closeObject
  | comma
  | colon
  | null
  | bool (b : Bool)
  | number (spelling : List Char)
  | text (content : Option String)
  deriving DecidableEq

namespace Token

/-- The current token. Characters and code points are kept with the last one first; an escaped
surrogate stands for itself among the code points. -/
inductive Mode
  | between
  | word (seen : List Char)
  | number (seen : List Char)
  | string (seen : List Nat)
  | escape (seen : List Nat)
  /-- Within a `\u` escape of which `left` digits are still to come. -/
  | unicode (seen : List Nat) (left value : Nat)

def isBlank (c : Char) : Bool := c = ' ' || c = '\t' || c = '\n' || c = '\r'

def inNumber (c : Char) : Bool :=
  c.isDigit || c = '-' || c = '+' || c = '.' || c = 'e' || c = 'E'

def word? : List Char → Option Token
  | ['n', 'u', 'l', 'l'] => some .null
  | ['t', 'r', 'u', 'e'] => some (.bool true)
  | ['f', 'a', 'l', 's', 'e'] => some (.bool false)
  | _ => none

/-- At least one digit, and nothing else. -/
def isDigits (cs : List Char) : Bool := !cs.isEmpty && cs.all Char.isDigit

/-- An exponent, if there is one: a letter, perhaps a sign, and digits. -/
def isExponent : List Char → Bool
  | [] => true
  | c :: cs =>
    (c = 'e' || c = 'E') &&
    (match cs with
      | '+' :: ds => isDigits ds
      | '-' :: ds => isDigits ds
      | ds => isDigits ds)

/-- What may follow the whole part of a number. -/
def isTail : List Char → Bool
  | '.' :: cs => isDigits (cs.takeWhile Char.isDigit) && isExponent (cs.dropWhile Char.isDigit)
  | cs => isExponent cs

/-- A number without its sign: its whole part is zero or starts with another digit. -/
def isMagnitude : List Char → Bool
  | '0' :: cs => isTail cs
  | c :: cs => c.isDigit && isTail (cs.dropWhile Char.isDigit)
  | [] => false

def isNumber : List Char → Bool
  | '-' :: cs => isMagnitude cs
  | cs => isMagnitude cs

def number? (spelling : List Char) : Option Token :=
  if isNumber spelling then some (.number spelling) else none

/-- The text of code points, where a pair of surrogates stands for one character. -/
def decode? : List Nat → Option (List Char)
  | [] => some []
  | hi :: rest =>
    if 0xd800 ≤ hi ∧ hi < 0xdc00 then
      match rest with
      | lo :: rest =>
        if 0xdc00 ≤ lo ∧ lo < 0xe000 then
          (decode? rest).map (Char.ofNat (0x10000 + (hi - 0xd800) * 0x400 + (lo - 0xdc00)) :: ·)
        else none
      | [] => none
    else if 0xdc00 ≤ hi ∧ hi < 0xe000 then none
    else (decode? rest).map (Char.ofNat hi :: ·)

def string (seen : List Nat) : Token := .text ((decode? seen.reverse).map String.ofList)

/-- The code point of a one-letter escape. -/
def escaped? (c : Char) : Option Nat :=
  match c with
  | '"' => some 0x22
  | '\\' => some 0x5c
  | '/' => some 0x2f
  | 'b' => some 0x08
  | 'f' => some 0x0c
  | 'n' => some 0x0a
  | 'r' => some 0x0d
  | 't' => some 0x09
  | _ => none

/-- A character between tokens: the mode after it, and the token it makes if it is one by itself. -/
def start (c : Char) : Option (Mode × List Token) :=
  if isBlank c then some (.between, [])
  else if c.isAlpha then some (.word [c], [])
  else if c.isDigit || c = '-' then some (.number [c], [])
  else match c with
    | '[' => some (.between, [.openArray])
    | ']' => some (.between, [.closeArray])
    | '\x7b' => some (.between, [.openObject])
    | '\x7d' => some (.between, [.closeObject])
    | ',' => some (.between, [.comma])
    | ':' => some (.between, [.colon])
    | '"' => some (.string [], [])
    | _ => none

/-- A token that ends in front of the character. -/
def endBefore (token : Option Token) (c : Char) : Option (Mode × List Token) :=
  token.bind fun t => (start c).map fun (mode, ts) => (mode, t :: ts)

/-- One character: the mode after it and the tokens that it completes. -/
def step (mode : Mode) (c : Char) : Option (Mode × List Token) :=
  match mode with
  | .between => start c
  | .word seen =>
    if c.isAlpha then some (.word (c :: seen), []) else endBefore (word? seen.reverse) c
  | .number seen =>
    if inNumber c then some (.number (c :: seen), []) else endBefore (number? seen.reverse) c
  | .string seen =>
    if c = '"' then some (.between, [string seen])
    else if c = '\\' then some (.escape seen, [])
    else if c.toNat < 0x20 then none
    else some (.string (c.toNat :: seen), [])
  | .escape seen =>
    if c = 'u' then some (.unicode seen 3 0, [])
    else (escaped? c).map fun n => (.string (n :: seen), [])
  | .unicode seen left value =>
    (Numeral.digit? 16 c).map fun d =>
      match left with
      | 0 => (.string ((16 * value + d) :: seen), [])
      | left + 1 => (.unicode seen left (16 * value + d), [])

/-- The tokens that the end of the text completes. -/
def finish : Mode → Option (List Token)
  | .between => some []
  | .word seen => (word? seen.reverse).map ([·])
  | .number seen => (number? seen.reverse).map ([·])
  | .string _ | .escape _ | .unicode _ _ _ => none

/-- The tokens of a text that is read in a mode. -/
def readFrom (mode : Mode) : List Char → Option (List Token)
  | [] => finish mode
  | c :: cs =>
    (step mode c).bind fun (next, tokens) => (readFrom next cs).map (tokens ++ ·)

def ofChars (text : List Char) : Option (List Token) := readFrom .between text

end Token

end WritebackCache.Json
