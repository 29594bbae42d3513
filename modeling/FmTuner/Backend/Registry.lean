import FmTuner.Backend.Name

/-!
# Registries of backends

A registry finds a backend by any spelling of its name. Of two backends with the same name the
later one counts.
-/

namespace FmTuner

inductive BackendError where
  | unknown (name : String)
  /-- The backend was found and could not be opened. -/
  | unavailable (reason : String)
  deriving DecidableEq, Repr

def BackendError.message : BackendError → String
  | .unknown name => s!"Unknown tuner backend: {name}"
  | .unavailable reason => reason

/-- Backends by key, sorted by it. -/
structure Registry (α : Type) where
  entries : List (String × α) := []
  deriving DecidableEq, Repr

namespace Registry

variable {α : Type}

/-- Puts an entry in its place, or into the place of the one with its key. -/
def put (key : String) (value : α) : List (String × α) → List (String × α)
  | [] => [(key, value)]
  | (k, v) :: rest =>
      if key = k then (key, value) :: rest
      else if key < k then (key, value) :: (k, v) :: rest
      else (k, v) :: put key value rest

def register (r : Registry α) (name : String) (value : α) : Registry α :=
  { entries := put (Backend.key name) value r.entries }

def find? (r : Registry α) (name : String) : Option α :=
  r.entries.lookup (Backend.key name)

def isRegistered (r : Registry α) (name : String) : Bool := (r.find? name).isSome

def names (r : Registry α) : List String := r.entries.map Prod.fst

def resolve {σ τ : Type} (r : Registry (σ → Except BackendError τ)) (name : String)
    (settings : σ) : Except BackendError τ :=
  match r.find? name with
  | some backend => backend settings
  | none => .error (.unknown name)

end Registry

end FmTuner
