import FmTuner.Notification

/-!
# Listeners

Listeners subscribe to categories of notifications. A notification goes to those that were
subscribed when its delivery began, in the order of subscription. While it is delivered, listeners
may subscribe others, unsubscribe, or fail; a failure stops the one that fails and no other.
-/

namespace FmTuner

structure Subscription (α : Type) where
  id : Nat
  listener : α
  categories : List Category
  deriving DecidableEq, Repr

/-- The subscriptions in force, oldest first, and the identifier of the next one. -/
structure Listeners (α : Type) where
  subscriptions : List (Subscription α) := []
  next : Nat := 0
  deriving DecidableEq, Repr

/-- What a listener does to the subscriptions. -/
inductive Reaction (α : Type) where
  | subscribe (listener : α) (categories : List Category)
  | unsubscribe (id : Nat)
  deriving DecidableEq, Repr

/-- What a listener does when it is called: its reactions so far, and whether it then failed. -/
structure Response (α : Type) where
  reactions : List (Reaction α) := []
  failed : Bool := false
  deriving DecidableEq, Repr

namespace Listeners

variable {α : Type}

def count (ls : Listeners α) : Nat := ls.subscriptions.length

def subscribe (ls : Listeners α) (listener : α) (categories : List Category) :
    Listeners α × Nat :=
  ({ subscriptions := ls.subscriptions ++ [{ id := ls.next, listener, categories }]
     next := ls.next + 1 },
    ls.next)

def unsubscribe (ls : Listeners α) (id : Nat) : Listeners α :=
  { ls with subscriptions := ls.subscriptions.filter fun s ↦ s.id ≠ id }

def react (ls : Listeners α) : Reaction α → Listeners α
  | .subscribe listener categories => (ls.subscribe listener categories).1
  | .unsubscribe id => ls.unsubscribe id

def audience (ls : Listeners α) (n : Notification) : List (Subscription α) :=
  ls.subscriptions.filter fun s ↦ s.categories.contains n.category

structure Delivery (α : Type) where
  subscription : Subscription α
  failed : Bool
  deriving DecidableEq, Repr

/-- Delivers a notification. `behave` says how a listener responds to it. -/
def emit (behave : Subscription α → Notification → Response α) (ls : Listeners α)
    (n : Notification) : Listeners α × List (Delivery α) :=
  (ls.audience n).foldl
    (fun (ls, deliveries) s ↦
      let response := behave s n
      (response.reactions.foldl react ls, deliveries ++ [⟨s, response.failed⟩]))
    (ls, [])

end Listeners

end FmTuner
