/-!
# Faults

A fault is an arithmetic or indexing mistake that stops a computation. Frequencies, spacings and
thresholds are words of 32 bits: they are held as natural numbers, and the operations in `Word`
refuse every result that does not fit.
-/

namespace FmTuner

inductive Fault where
  | addOverflow
  | subOverflow
  | mulOverflow
  | indexOutOfRange (length index : Nat)
  deriving DecidableEq, Repr, Inhabited

def Fault.message : Fault → String
  | .addOverflow => "attempt to add with overflow"
  | .subOverflow => "attempt to subtract with overflow"
  | .mulOverflow => "attempt to multiply with overflow"
  | .indexOutOfRange length index =>
      s!"index out of bounds: the len is {length} but the index is {index}"

namespace Word

/-- The first number that does not fit into a word. -/
def limit : Nat := UInt32.size

def add (a b : Nat) : Except Fault Nat :=
  if a + b < limit then .ok (a + b) else .error .addOverflow

def sub (a b : Nat) : Except Fault Nat :=
  if b ≤ a then .ok (a - b) else .error .subOverflow

def mul (a b : Nat) : Except Fault Nat :=
  if a * b < limit then .ok (a * b) else .error .mulOverflow

theorem add_eq_ok {a b : Nat} (h : a + b < limit) : add a b = .ok (a + b) := by
  simp [add, h]

theorem sub_eq_ok {a b : Nat} (h : b ≤ a) : sub a b = .ok (a - b) := by
  simp [sub, h]

theorem mul_eq_ok {a b : Nat} (h : a * b < limit) : mul a b = .ok (a * b) := by
  simp [mul, h]

end Word

def entryAt {α : Type} (xs : List α) (index : Nat) : Except Fault α :=
  match xs[index]? with
  | some x => .ok x
  | none => .error (.indexOutOfRange xs.length index)

/-- A computation succeeds if each of its parts does. -/
theorem bind_eq_ok {ε α β : Type} {x : Except ε α} {f : α → Except ε β} {b : β} :
    (x >>= f) = .ok b ↔ ∃ a, x = .ok a ∧ f a = .ok b := by
  cases x <;> simp [bind, Except.bind]

theorem entryAt_eq_ok {α : Type} {xs : List α} {index : Nat} (h : index < xs.length) :
    entryAt xs index = .ok (xs.get ⟨index, h⟩) := by
  simp [entryAt, h]

end FmTuner
