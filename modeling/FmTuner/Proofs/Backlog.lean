import FmTuner.Controller.Route
import Mathlib.Data.List.TakeWhile

/-!
# Working off a backlog

Requests that wait are dispatched in the order in which they came, except that those go first which
the radio does not defer. `play` carries them out one after another as if all went well, and counts
the scans that begin on the way.
-/

namespace FmTuner

namespace RadioState

def defers (state : RadioState) (operation : Operation) : Bool :=
  route state operation = .defer

/-- The state after an operation that goes well. -/
def after (state : RadioState) (operation : Operation) : RadioState :=
  match route state operation with
  | .accept destination => destination
  | _ => state

/-- How many scans begin with a change of state. -/
def enters (old new : RadioState) : Nat :=
  if old ≠ .scanning ∧ new = .scanning then 1 else 0

theorem after_of_accept {state destination : RadioState} {operation : Operation}
    (h : route state operation = .accept destination) : state.after operation = destination := by
  rw [after, h]

theorem after_of_not_accept {state : RadioState} {operation : Operation}
    (h : ∀ destination, route state operation ≠ .accept destination) :
    state.after operation = state := by
  unfold after
  split
  next destination hroute => exact (h destination hroute).elim
  next => rfl

/-- What an accepted operation says about the states before and after it. -/
theorem states_of_accept {state destination : RadioState} {operation : Operation}
    (h : route state operation = .accept destination) :
    (state ≠ .invalid ∧ state ≠ .error) ∧ (destination ≠ .invalid ∧ destination ≠ .error) ∧
      (operation.scanMode.isSome = true → enters state destination = 1) ∧
        (destination = .scanning → state = .scanning ∨ operation.scanMode.isSome = true) := by
  cases state <;> cases operation <;>
    simp [route, Route.whenIdle, Route.whenOn, Route.whenScanning, Operation.setsProperty] at h <;>
      subst h <;> simp [enters, Operation.scanMode]

theorem after_ne_invalid {state : RadioState} {operation : Operation}
    (h : state.defers operation = false) : state.after operation ≠ .invalid := by
  unfold after
  split
  next destination hroute => exact (states_of_accept hroute).2.1.1
  next =>
    rintro rfl
    simp [defers, route] at h

/-- Nothing but the requests of clients is ever deferred once the radio is ready. -/
theorem client_of_defers {state : RadioState} {operation : Operation}
    (h : state.defers operation = true) (hstate : state ≠ .invalid) :
    operation.isClient = true := by
  cases state <;> cases operation <;>
    simp_all [defers, route, Route.whenIdle, Route.whenOn, Route.whenScanning, Operation.isClient,
      Operation.setsProperty]

/-- The steps of a scan are carried out while scanning, and only its end leaves it. -/
theorem scanning_of_accept {state destination : RadioState} {operation : Operation}
    (h : route state operation = .accept destination)
    (hstep : operation = .stopScan ∨ operation.isClient = false) :
    state = .scanning ∧
      (destination = .scanning ∨ ∃ mode aborted, operation = .scanDone mode aborted) := by
  cases state <;> cases operation <;>
    simp_all [route, Route.whenIdle, Route.whenOn, Route.whenScanning, Operation.isClient,
      Operation.setsProperty]

@[simp] theorem enters_self (state : RadioState) : enters state state = 0 := by
  simp [enters]

end RadioState

open RadioState

def playWith : Nat → RadioState → Nat → List Operation → RadioState × Nat
  | 0, state, scans, _ => (state, scans)
  | fuel + 1, state, scans, operations =>
      match operations.dropWhile state.defers with
      | [] => (state, scans)
      | operation :: rest =>
          playWith fuel (state.after operation) (scans + enters state (state.after operation))
            (operations.takeWhile state.defers ++ rest)

/-- The state that the operations lead to, and how many scans have begun when `scans` had before. -/
def play (state : RadioState) (scans : Nat) (operations : List Operation) : RadioState × Nat :=
  playWith operations.length state scans operations

variable {state : RadioState} {scans : Nat} {passed rest : List Operation} {operation : Operation}

theorem play_of_deferred (h : ∀ operation ∈ passed, state.defers operation = true) :
    play state scans passed = (state, scans) := by
  have hdrop : passed.dropWhile state.defers = [] := List.dropWhile_eq_nil_iff.mpr h
  cases passed with
  | nil => rfl
  | cons operation rest =>
      rw [play, List.length_cons, playWith, hdrop]

/-- The first operation that is not deferred goes next. -/
theorem play_next (hpassed : ∀ operation ∈ passed, state.defers operation = true)
    (hnext : state.defers operation = false) :
    play state scans (passed ++ operation :: rest) =
      play (state.after operation) (scans + enters state (state.after operation))
        (passed ++ rest) := by
  have hlength : (passed ++ operation :: rest).length = (passed ++ rest).length + 1 := by
    simp [Nat.add_assoc]
  have hdrop : (passed ++ operation :: rest).dropWhile state.defers = operation :: rest := by
    rw [List.dropWhile_append_of_pos hpassed, List.dropWhile_cons_of_neg (by simp [hnext])]
  have htake : (passed ++ operation :: rest).takeWhile state.defers = passed := by
    rw [List.takeWhile_append_of_pos hpassed, List.takeWhile_cons_of_neg (by simp [hnext]),
      List.append_nil]
  rw [play, hlength, playWith, hdrop, htake, play]

/-- The operations take the radio out of a scan and into another. -/
def Diverting (operations : List Operation) : Prop :=
  (play .scanning 0 operations).1 = .scanning ∧ (play .scanning 0 operations).2 ≠ 0

instance (operations : List Operation) : Decidable (Diverting operations) := by
  unfold Diverting
  infer_instance

/-- A scan that waits for the end of another begins before what comes after it. -/
example : Diverting [.fullScan, .scanDone .up true] := by decide

end FmTuner
