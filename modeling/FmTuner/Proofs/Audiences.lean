import FmTuner.Listeners
import Mathlib.Data.List.Nodup

/-!
# Audiences

A notification goes to the audience that it has when its delivery begins. Whatever the listeners do
while they are called, to the subscriptions or to themselves, each one in the audience is called
once, and nobody else is. What they do to the subscriptions stands afterwards as if it had been done
in that order without any delivery.

Identifiers are given out in ascending order, so an identifier belongs to one subscription at most,
and to end a subscription leaves all others alone.
-/

namespace FmTuner

/-! ## Reactions -/

namespace Reaction

variable {α : Type}

/-- The subscriptions that reactions end. -/
def ended (reactions : List (Reaction α)) : List Nat :=
  reactions.filterMap fun
    | .subscribe .. => none
    | .unsubscribe id => some id

/-- The subscriptions that reactions begin and do not end again, oldest first, when `next` is the
first free identifier. -/
def begun : Nat → List (Reaction α) → List (Subscription α)
  | _, [] => []
  | next, .subscribe listener categories :: rest =>
      if next ∈ ended rest then begun (next + 1) rest
      else ⟨next, listener, categories⟩ :: begun (next + 1) rest
  | next, .unsubscribe _ :: rest => begun next rest

@[simp] theorem ended_nil : ended ([] : List (Reaction α)) = [] := rfl

@[simp] theorem ended_subscribe (listener : α) (categories : List Category)
    (rest : List (Reaction α)) : ended (.subscribe listener categories :: rest) = ended rest := rfl

@[simp] theorem ended_unsubscribe (id : Nat) (rest : List (Reaction α)) :
    ended (.unsubscribe id :: rest) = id :: ended rest := rfl

theorem le_id_of_mem_begun {next : Nat} {reactions : List (Reaction α)} {s : Subscription α}
    (hs : s ∈ begun next reactions) : next ≤ s.id := by
  induction reactions generalizing next with
  | nil => simp [begun] at hs
  | cons reaction rest ih =>
      cases reaction with
      | unsubscribe id => exact ih hs
      | subscribe listener categories =>
          rw [begun] at hs
          split at hs
          next => exact Nat.le_of_succ_le (ih hs)
          next =>
            rcases List.mem_cons.mp hs with rfl | hs
            · exact Nat.le_refl next
            · exact Nat.le_of_succ_le (ih hs)

end Reaction

namespace Listeners

variable {α : Type} {ls : Listeners α}

/-- Of the old subscriptions those remain that were not ended; behind them stand the new ones. -/
theorem subscriptions_foldl_react (ls : Listeners α) (reactions : List (Reaction α)) :
    (reactions.foldl react ls).subscriptions =
      (ls.subscriptions.filter fun s ↦ !(Reaction.ended reactions).contains s.id) ++
        Reaction.begun ls.next reactions := by
  induction reactions generalizing ls with
  | nil => simp [Reaction.begun]
  | cons reaction rest ih =>
      rw [List.foldl_cons, ih]
      cases reaction with
      | subscribe listener categories =>
          by_cases hended : ls.next ∈ Reaction.ended rest <;>
            simp [react, subscribe, Reaction.begun, hended]
      | unsubscribe id =>
          have hfilter : ∀ s ∈ ls.subscriptions,
              ((!(Reaction.ended rest).contains s.id) && decide (s.id ≠ id)) =
                !(Reaction.ended (.unsubscribe id :: rest)).contains s.id := by
            intro s _
            simp [Bool.and_comm]
          rw [react, unsubscribe, Reaction.begun, List.filter_filter, List.filter_congr hfilter]

/-! ## Identifiers -/

/-- Older subscriptions have smaller identifiers, and the next one is greater than all. -/
structure Numbered (ls : Listeners α) : Prop where
  ascending : (ls.subscriptions.map Subscription.id).Pairwise (· < ·)
  below : ∀ s ∈ ls.subscriptions, s.id < ls.next

theorem Numbered.react (h : ls.Numbered) (reaction : Reaction α) :
    (ls.react reaction).Numbered := by
  cases reaction with
  | subscribe listener categories =>
      refine ⟨?_, ?_⟩
      · simp only [Listeners.react, subscribe, List.map_append, List.pairwise_append]
        exact ⟨h.ascending, by simp, by simpa using h.below⟩
      · simp only [Listeners.react, subscribe, List.forall_mem_append, List.forall_mem_singleton]
        exact ⟨fun s hs ↦ Nat.lt_succ_of_lt (h.below s hs), Nat.lt_succ_self _⟩
  | unsubscribe id =>
      refine ⟨?_, fun s hs ↦ h.below s (List.mem_filter.mp hs).1⟩
      exact h.ascending.sublist (List.filter_sublist.map _)

theorem Numbered.foldl_react (h : ls.Numbered) (reactions : List (Reaction α)) :
    (reactions.foldl Listeners.react ls).Numbered := by
  induction reactions generalizing ls with
  | nil => exact h
  | cons reaction rest ih => exact ih (h.react reaction)

theorem Numbered.nodup (h : ls.Numbered) : (ls.subscriptions.map Subscription.id).Nodup :=
  h.ascending.imp Nat.ne_of_lt

/-- The end of a subscription takes that one out from among the others. -/
theorem Numbered.unsubscribe (h : ls.Numbered) {front back : List (Subscription α)}
    {s : Subscription α} (hsplit : ls.subscriptions = front ++ s :: back) :
    (ls.unsubscribe s.id).subscriptions = front ++ back := by
  have hnodup := h.nodup
  rw [hsplit, List.map_append, List.map_cons, List.nodup_middle, List.nodup_cons] at hnodup
  have hothers : ∀ t ∈ front ++ back, t.id ≠ s.id := by
    intro t ht heq
    refine hnodup.1 ?_
    rw [← List.map_append, ← heq]
    exact List.mem_map_of_mem ht
  rw [List.forall_mem_append] at hothers
  simp only [Listeners.unsubscribe, hsplit, List.filter_append, List.filter_cons]
  rw [List.filter_eq_self.mpr (by simpa using hothers.1),
    List.filter_eq_self.mpr (by simpa using hothers.2)]
  simp

theorem unsubscribe_of_not_mem {id : Nat} (h : id ∉ ls.subscriptions.map Subscription.id) :
    ls.unsubscribe id = ls := by
  have hall : ∀ s ∈ ls.subscriptions, decide (s.id ≠ id) = true := by
    intro s hs
    have hne : s.id ≠ id := fun heq ↦ h (heq ▸ List.mem_map_of_mem hs)
    simpa using hne
  rw [unsubscribe, List.filter_eq_self.mpr hall]

theorem not_mem_unsubscribe (ls : Listeners α) (id : Nat) :
    id ∉ (ls.unsubscribe id).subscriptions.map Subscription.id := by
  simp [unsubscribe]

/-! ## Deliveries -/

/-- What a listener does before the next one is called, and that it was called. -/
def serve (respond : Subscription α → Response α) (state : Listeners α × List (Delivery α))
    (s : Subscription α) : Listeners α × List (Delivery α) :=
  ((respond s).reactions.foldl react state.1, state.2 ++ [⟨s, (respond s).failed⟩])

theorem foldl_serve (respond : Subscription α → Response α) (called : List (Subscription α))
    (state : Listeners α × List (Delivery α)) :
    called.foldl (serve respond) state =
      ((called.flatMap fun s ↦ (respond s).reactions).foldl react state.1,
        state.2 ++ called.map fun s ↦ ⟨s, (respond s).failed⟩) := by
  induction called generalizing state with
  | nil => simp
  | cons s rest ih => simp [ih, serve]

theorem emit_eq (behave : Subscription α → Notification → Response α) (ls : Listeners α)
    (n : Notification) :
    ls.emit behave n =
      (((ls.audience n).flatMap fun s ↦ (behave s n).reactions).foldl react ls,
        (ls.audience n).map fun s ↦ ⟨s, (behave s n).failed⟩) :=
  foldl_serve (fun s ↦ behave s n) (ls.audience n) (ls, [])

/-- Delivery to listeners that see, when they are called, which subscriptions are in force and who
was called before. -/
def emitAware (behave : Listeners α × List (Delivery α) → Subscription α → Response α)
    (ls : Listeners α) (n : Notification) : Listeners α × List (Delivery α) :=
  (ls.audience n).foldl (fun state s ↦ serve (behave state) state s) (ls, [])

/-- What listeners see makes no difference to what can happen: in one delivery, each of them is
called in one situation only. -/
theorem foldl_aware (behave : Listeners α × List (Delivery α) → Subscription α → Response α)
    {called : List (Subscription α)} (hnodup : (called.map Subscription.id).Nodup)
    (state : Listeners α × List (Delivery α)) :
    ∃ respond : Subscription α → Response α,
      called.foldl (fun state s ↦ serve (behave state) state s) state =
        called.foldl (serve respond) state := by
  induction called generalizing state with
  | nil => exact ⟨behave state, rfl⟩
  | cons s rest ih =>
      rw [List.map_cons, List.nodup_cons] at hnodup
      obtain ⟨respond, hrest⟩ := ih hnodup.2 (serve (behave state) state s)
      -- The first listener meets a fixed situation, and its identifier tells it from the others.
      let respond' : Subscription α → Response α :=
        fun t ↦ if t.id = s.id then behave state s else respond t
      have hfirst : serve respond' state s = serve (behave state) state s := by
        simp [serve, respond']
      have hothers : ∀ t ∈ rest, respond' t = respond t := by
        intro t ht
        have hne : t.id ≠ s.id := fun heq ↦ hnodup.1 (heq ▸ List.mem_map_of_mem ht)
        simp [respond', hne]
      refine ⟨respond', ?_⟩
      rw [List.foldl_cons, List.foldl_cons, hrest, hfirst]
      refine List.foldl_ext _ _ _ fun state t ht ↦ ?_
      rw [serve, serve, hothers t ht]

theorem Numbered.emitAware_eq (h : ls.Numbered)
    (behave : Listeners α × List (Delivery α) → Subscription α → Response α) (n : Notification) :
    ∃ respond : Subscription α → Response α,
      ls.emitAware behave n = ls.emit (fun s _ ↦ respond s) n :=
  foldl_aware behave (h.nodup.sublist (List.filter_sublist.map _)) (ls, [])

/-! ## Histories -/

/-- Listeners after any subscriptions, ends of subscriptions and deliveries. -/
inductive Reached : Listeners α → Prop where
  | new : Reached {}
  | subscribe {ls : Listeners α} (h : Reached ls) (listener : α) (categories : List Category) :
      Reached (ls.subscribe listener categories).1
  | unsubscribe {ls : Listeners α} (h : Reached ls) (id : Nat) : Reached (ls.unsubscribe id)
  | emit {ls : Listeners α} (h : Reached ls) (behave : Subscription α → Notification → Response α)
      (n : Notification) : Reached (ls.emit behave n).1

theorem Reached.numbered (h : ls.Reached) : ls.Numbered := by
  induction h with
  | new => exact ⟨List.Pairwise.nil, by simp⟩
  | subscribe _ listener categories ih => exact ih.react (.subscribe listener categories)
  | unsubscribe _ id ih => exact ih.react (.unsubscribe id)
  | emit _ behave n ih =>
      rw [emit_eq]
      exact ih.foldl_react _

end Listeners

/-- Whoever subscribes to the category of a notification when its delivery begins is called once, in
the order of subscription, whatever the others do and whether or not they fail; subscriptions that
begin meanwhile are not called. Afterwards the old subscriptions are in force, less those that were
ended, and behind them the new ones. It is the same for listeners that see what happened before.
The end of a subscription takes out that one, and to end it again changes nothing. -/
theorem delivery_reaches_audience {α : Type} {ls : Listeners α} (h : ls.Reached)
    (n : Notification) :
    (∀ behave : Subscription α → Notification → Response α,
      let called := ls.subscriptions.filter fun s ↦ s.categories.contains n.category
      let reactions := called.flatMap fun s ↦ (behave s n).reactions
      (ls.emit behave n).2 = called.map (fun s ↦ ⟨s, (behave s n).failed⟩) ∧
      (called.map Subscription.id).Nodup ∧
      (ls.emit behave n).1.subscriptions =
        (ls.subscriptions.filter fun s ↦ !(Reaction.ended reactions).contains s.id) ++
          Reaction.begun ls.next reactions ∧
      ∀ s ∈ Reaction.begun ls.next reactions, s.id ∉ called.map Subscription.id) ∧
    (∀ behave : Listeners α × List (Listeners.Delivery α) → Subscription α → Response α,
      ∃ respond : Subscription α → Response α,
        ls.emitAware behave n = ls.emit (fun s _ ↦ respond s) n) ∧
    (∀ (front back : List (Subscription α)) (s : Subscription α),
      ls.subscriptions = front ++ s :: back →
        (ls.unsubscribe s.id).subscriptions = front ++ back) ∧
    (∀ id, id ∉ ls.subscriptions.map Subscription.id → ls.unsubscribe id = ls) ∧
    ∀ id, (ls.unsubscribe id).unsubscribe id = ls.unsubscribe id := by
  have hnumbered := h.numbered
  refine ⟨fun behave ↦ ?_, fun behave ↦ hnumbered.emitAware_eq behave n,
    fun _ _ _ ↦ hnumbered.unsubscribe, fun _ ↦ Listeners.unsubscribe_of_not_mem,
    fun id ↦ Listeners.unsubscribe_of_not_mem (ls.not_mem_unsubscribe id)⟩
  intro called reactions
  rw [Listeners.emit_eq]
  refine ⟨rfl, hnumbered.nodup.sublist (List.filter_sublist.map _),
    ls.subscriptions_foldl_react reactions, fun s hs hcalled ↦ ?_⟩
  obtain ⟨t, ht, heq⟩ := List.mem_map.mp hcalled
  have hold := hnumbered.below t (List.mem_filter.mp ht).1
  have hnew := Reaction.le_id_of_mem_begun hs
  omega

namespace Listeners

/-- Three listeners, the last of which does not subscribe to starts. -/
def trio : Listeners String where
  subscriptions := [⟨0, "a", [.started]⟩, ⟨1, "b", [.error, .started]⟩, ⟨2, "c", [.error]⟩]
  next := 3

/-- The first listener unsubscribes itself and the second one, subscribes another and fails. -/
def disrupt (s : Subscription String) (_ : Notification) : Response String :=
  if s.listener = "a" then
    { reactions := [.unsubscribe 0, .unsubscribe 1, .subscribe "d" [.started]], failed := true }
  else {}

end Listeners

theorem start_reaches_two :
    Listeners.trio.Reached ∧
    (Listeners.trio.emit Listeners.disrupt .started).2 =
      [⟨⟨0, "a", [.started]⟩, true⟩, ⟨⟨1, "b", [.error, .started]⟩, false⟩] ∧
    (Listeners.trio.emit Listeners.disrupt .started).1.subscriptions =
      [⟨2, "c", [.error]⟩, ⟨3, "d", [.started]⟩] := by
  have hreached : Listeners.trio.Reached :=
    ((Listeners.Reached.new.subscribe "a" [.started]).subscribe "b" [.error, .started]).subscribe
      "c" [.error]
  obtain ⟨hcalled, -, hafter, -⟩ :=
    (delivery_reaches_audience hreached .started).1 Listeners.disrupt
  exact ⟨hreached, hcalled.trans (by decide), hafter.trans (by decide)⟩

end FmTuner
