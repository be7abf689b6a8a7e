import WritebackCache.Text.Blank

/-! Lines and fields of a text. A line ends at a line feed or at the end of the text, where an empty
rest is no line. A carriage return before a line feed is left in place: it is blank, so that it
belongs to no field. -/

namespace WritebackCache.Text

def lines : List Char → List (List Char)
  | [] => []
  | c :: cs =>
    if c = '\n' then [] :: lines cs
    else match lines cs with
      | [] => [[c]]
      | line :: rest => (c :: line) :: rest

/-- The maximal runs of characters that are not blank. -/
def fields : List Char → List (List Char)
  | [] => []
  | c :: cs =>
    if isBlank c then fields cs
    else match cs with
      | [] => [[c]]
      | d :: _ =>
        if isBlank d then [c] :: fields cs
        else match fields cs with
          | [] => [[c]]
          | field :: rest => (c :: field) :: rest

/-- The part of a line in front of its first `#`. -/
def beforeComment (line : List Char) : List Char := line.takeWhile (· ≠ '#')

end WritebackCache.Text
