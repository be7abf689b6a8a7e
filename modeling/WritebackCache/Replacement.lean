import WritebackCache.Line

/-! Replacement: which way of a set is filled next. A policy sees how often it was asked before and the
lines of the set in the order of their ways. -/

namespace WritebackCache

abbrev Policy := Nat → List Line → Nat

namespace Replacement

/-- The way of the least stamp, the first of several: `best` is the answer for the ways before `way`,
and `stamp` is its stamp. -/
def oldest (best stamp way : Nat) : List Line → Nat
  | [] => best
  | l :: ls =>
    if l.lastUse < stamp then oldest way l.lastUse (way + 1) ls
    else oldest best stamp (way + 1) ls

/-- The first line that holds no block, or else the line that was used least recently. -/
def victim (lines : List Line) : Nat :=
  match lines.findIdx? (!·.valid) with
  | some way => way
  | none =>
    match lines with
    | [] => 0
    | l :: ls => oldest 0 l.lastUse 1 ls

/-- Least recently used. -/
def lru : Policy := fun _ lines => victim lines

/-- The ways of a list in turn; the last one stays. -/
def scripted (ways : List Nat) : Policy := fun asked _ => ways.getD (min asked (ways.length - 1)) 0

end Replacement

end WritebackCache
