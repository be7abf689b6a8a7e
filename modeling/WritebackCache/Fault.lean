/-! Faults and failures. A fault is a question without an answer: a sum outside the word, a line
outside the grid, a release while a miss is outstanding. A failure is either a reason that a caller
can act on, of the type its part of the library declares, or a fault. -/

namespace WritebackCache

inductive Fault
  | addOverflow
  | mulOverflow
  | subOverflow
  | divideByZero
  | remainderByZero
  | indexRange
  | lineOutside (set way sets ways : Nat)
  | dirtyingInvalid (set way : Nat)
  | emptyGrid
  | missOutstanding
  deriving DecidableEq

def Fault.message : Fault → String
  | addOverflow => "attempt to add with overflow"
  | mulOverflow => "attempt to multiply with overflow"
  | subOverflow => "attempt to subtract with overflow"
  | divideByZero => "attempt to divide by zero"
  | remainderByZero => "attempt to calculate the remainder with a divisor of zero"
  | indexRange => "index out of range"
  | lineOutside set way sets ways => s!"line ({set}, {way}) outside {sets}x{ways} block store"
  | dirtyingInvalid set way => s!"dirtying invalid line ({set}, {way})"
  | emptyGrid => "block store needs at least one set and one way"
  | missOutstanding => "unblock with a miss outstanding"

inductive Failure (ε : Type)
  | refused (reason : ε)
  | fault (f : Fault)
  deriving DecidableEq

/-- A computation that can only fault, among those that can also refuse. -/
def orFault {ε α : Type} : Except Fault α → Except (Failure ε) α
  | .ok a => .ok a
  | .error f => .error (.fault f)

@[simp] theorem orFault_ok {ε α : Type} (a : α) :
    (orFault (.ok a) : Except (Failure ε) α) = .ok a := rfl

@[simp] theorem orFault_error {ε α : Type} (f : Fault) :
    (orFault (.error f) : Except (Failure ε) α) = .error (.fault f) := rfl

theorem orFault_eq_ok {ε α : Type} {x : Except Fault α} {a : α} :
    (orFault x : Except (Failure ε) α) = .ok a ↔ x = .ok a := by
  cases x <;> simp

/-- A computation that can only refuse, among those that can also fault. -/
def orRefuse {ε α : Type} : Except ε α → Except (Failure ε) α
  | .ok a => .ok a
  | .error e => .error (.refused e)

@[simp] theorem orRefuse_ok {ε α : Type} (a : α) : (orRefuse (.ok a) : Except (Failure ε) α) = .ok a := rfl

@[simp] theorem orRefuse_error {ε α : Type} (e : ε) :
    (orRefuse (.error e) : Except (Failure ε) α) = .error (.refused e) := rfl

theorem bind_eq_ok {ε α β : Type} {x : Except ε α} {f : α → Except ε β} {b : β} :
    (x >>= f) = .ok b ↔ ∃ a, x = .ok a ∧ f a = .ok b := by
  cases x <;> simp [bind, Except.bind]

theorem map_eq_ok {ε α β : Type} {x : Except ε α} {f : α → β} {b : β} :
    x.map f = .ok b ↔ ∃ a, x = .ok a ∧ f a = b := by
  cases x <;> simp [Except.map]

end WritebackCache
