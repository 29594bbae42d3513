import Mathlib
import FmTuner.Proofs.Checks

/-!
# Spellings

A backend goes by its words, however they are written. Which words a text has is said here without
cutting it up: they are as long as they can be, with only separators between them. The key of a name
can be cut up again into the words that it was made of. So two names have the same key if and only if
they have the same words, and making a key of a key changes nothing.

A registry is what the registrations so far have come to. It is searched by key, and what it finds
under a name is the backend that was last registered under any spelling of it.
-/

namespace FmTuner

/-! ## Words of a text -/

namespace Text

structure IsWord (separator : Char → Bool) (word : List Char) : Prop where
  ne_nil : word ≠ []
  unbroken : ∀ c ∈ word, separator c = false

/-- A text and its words, with nothing but separators between them. Each is as long as it can be: a
separator or the end follows. -/
inductive Worded (separator : Char → Bool) : List Char → List (List Char) → Prop where
  | gap {gap : List Char} (hgap : ∀ c ∈ gap, separator c = true) : Worded separator gap []
  | word {gap word rest : List Char} {words : List (List Char)}
      (hgap : ∀ c ∈ gap, separator c = true) (hword : IsWord separator word)
      (hends : ∀ c ∈ rest.head?, separator c = true) (hrest : Worded separator rest words) :
      Worded separator (gap ++ word ++ rest) (word :: words)

variable {separator : Char → Bool} {cs : List Char} {ws : List (List Char)}

theorem words_append_gap {gap : List Char} (hgap : ∀ c ∈ gap, separator c = true)
    (rest : List Char) : words separator (gap ++ rest) = words separator rest := by
  induction gap with
  | nil => rfl
  | cons c gap ih =>
      rw [← ih fun d hd ↦ hgap d (.tail c hd)]
      simp [words, runs, hgap c (.head gap)]

theorem runs_append_word {word rest : List Char} {more : List (List Char)}
    (hword : ∀ c ∈ word, separator c = false) (hrest : runs separator rest = [] :: more) :
    runs separator (word ++ rest) = word :: more := by
  induction word with
  | nil => exact hrest
  | cons c word ih =>
      have hc : separator c = false := hword c (.head word)
      simp [runs, hc, ih fun d hd ↦ hword d (.tail c hd)]

/-- Before a separator or the end, nothing is left over for a run that has begun. -/
theorem exists_runs {rest : List Char} (hends : ∀ c ∈ rest.head?, separator c = true) :
    ∃ more, runs separator rest = [] :: more := by
  cases rest with
  | nil => exact ⟨[], rfl⟩
  | cons c rest => exact ⟨_, if_pos (hends c rfl)⟩

theorem words_append_word {word rest : List Char} (hword : IsWord separator word)
    (hends : ∀ c ∈ rest.head?, separator c = true) :
    words separator (word ++ rest) = word :: words separator rest := by
  obtain ⟨more, hmore⟩ := exists_runs hends
  rw [words, words, runs_append_word hword.unbroken hmore, hmore]
  simp [hword.ne_nil]

namespace Worded

theorem words_eq (h : Worded separator cs ws) : words separator cs = ws := by
  induction h with
  | @gap gap hgap =>
      have hwords : words separator (gap ++ []) = [] := words_append_gap hgap []
      rwa [List.append_nil] at hwords
  | word hgap hword hends hrest ih =>
      rw [List.append_assoc, words_append_gap hgap, words_append_word hword hends, ih]

theorem isWord_of_mem (h : Worded separator cs ws) {word : List Char} (hword : word ∈ ws) :
    IsWord separator word := by
  induction h with
  | gap => simp at hword
  | word _ hfirst _ _ ih =>
      rcases List.mem_cons.mp hword with rfl | hlater
      · exact hfirst
      · exact ih hlater

theorem nil : Worded separator [] [] := .gap (List.forall_mem_nil _)

/-- A text may begin with a word. -/
theorem word_first {word rest : List Char} (hword : IsWord separator word)
    (hends : ∀ c ∈ rest.head?, separator c = true) (hrest : Worded separator rest ws) :
    Worded separator (word ++ rest) (word :: ws) :=
  .word (List.forall_mem_nil _) hword hends hrest

theorem cons_separator (h : Worded separator cs ws) {c : Char} (hc : separator c = true) :
    Worded separator (c :: cs) ws := by
  cases h with
  | gap hgap => exact .gap (List.forall_mem_cons.mpr ⟨hc, hgap⟩)
  | @word gap _ _ _ hgap hword hends hrest =>
      exact .word (List.forall_mem_cons.mpr ⟨hc, hgap⟩) hword hends hrest

/-- Any other character lengthens the first word if nothing stands before it, and else is a word. -/
theorem exists_cons (h : Worded separator cs ws) {c : Char} (hc : separator c = false) :
    ∃ vs, Worded separator (c :: cs) vs := by
  have hletter : IsWord separator [c] := ⟨by simp, by simpa using hc⟩
  cases h with
  | @gap gap hgap =>
      exact ⟨_, word_first hletter (fun d hd ↦ hgap d (List.mem_of_mem_head? hd)) (.gap hgap)⟩
  | @word gap word rest words hgap hword hends hrest =>
      cases gap with
      | nil =>
          have hlonger : IsWord separator (c :: word) :=
            ⟨by simp, List.forall_mem_cons.mpr ⟨hc, hword.unbroken⟩⟩
          exact ⟨_, word_first hlonger hends hrest⟩
      | cons d gap =>
          exact ⟨_, word_first hletter (by simpa using hgap d (.head gap))
            (.word hgap hword hends hrest)⟩

end Worded

theorem exists_worded (separator : Char → Bool) (cs : List Char) :
    ∃ ws, Worded separator cs ws := by
  induction cs with
  | nil => exact ⟨[], .nil⟩
  | cons c cs ih =>
      obtain ⟨ws, h⟩ := ih
      cases hc : separator c with
      | true => exact ⟨ws, h.cons_separator hc⟩
      | false => exact h.exists_cons hc

theorem worded_iff : Worded separator cs ws ↔ words separator cs = ws := by
  refine ⟨Worded.words_eq, fun h ↦ ?_⟩
  obtain ⟨vs, hvs⟩ := exists_worded separator cs
  rwa [← h, hvs.words_eq]

end Text

/-! ## Keys -/

namespace Backend

/-- Two names have the same words, up to the case of ASCII letters. -/
def SameWords (a b : String) : Prop :=
  ∃ ws vs, Text.Worded isSeparator a.toList ws ∧ Text.Worded isSeparator b.toList vs ∧
    ws.map (List.map Char.toLower) = vs.map (List.map Char.toLower)

theorem sameWords_iff {a b : String} : SameWords a b ↔ words a = words b := by
  constructor
  · rintro ⟨ws, vs, ha, hb, h⟩
    rwa [words, words, ha.words_eq, hb.words_eq]
  · intro h
    exact ⟨_, _, Text.worded_iff.mpr rfl, Text.worded_iff.mpr rfl, h⟩

theorem isSeparator_of_isAlpha {c : Char} (h : c.isAlpha = true) : isSeparator c = false := by
  have hrange : 65 ≤ c.toNat ∧ c.toNat ≤ 90 ∨ 97 ≤ c.toNat ∧ c.toNat ≤ 122 := by
    simpa [Char.isAlpha, Char.isUpper, Char.isLower, UInt32.le_iff_toNat_le] using h
  simp only [isSeparator, Text.isBlank, Bool.or_eq_false_iff, beq_eq_false_iff_ne, ne_eq,
    ← Char.toNat_inj, Bool.and_eq_false_iff, decide_eq_false_iff_not, Char.reduceToNat]
  omega

theorem isSeparator_toLower (c : Char) : isSeparator c.toLower = isSeparator c := by
  by_cases h : c.isAlpha = true
  · have hlower : c.toLower.isAlpha = true := by rwa [Char.isAlpha_toLower_eq_isAlpha]
    rw [isSeparator_of_isAlpha h, isSeparator_of_isAlpha hlower]
  · have hupper : ¬ c.isUpper = true := fun hupper ↦ h (by simp [Char.isAlpha, hupper])
    rw [Char.toLower_eq_of_not_isUpper hupper]

theorem isWord_of_mem_words {name : String} {word : List Char} (h : word ∈ words name) :
    Text.IsWord isSeparator word := by
  obtain ⟨before, hbefore, rfl⟩ := List.mem_map.mp h
  obtain ⟨hne, hunbroken⟩ := (Text.worded_iff.mpr rfl).isWord_of_mem hbefore
  refine ⟨by simpa using hne, fun c hc ↦ ?_⟩
  obtain ⟨d, hd, rfl⟩ := List.mem_map.mp hc
  rw [isSeparator_toLower]
  exact hunbroken d hd

/-- Words that are joined can be told apart again. -/
theorem worded_intercalate {ws : List (List Char)} (h : ∀ w ∈ ws, Text.IsWord isSeparator w) :
    Text.Worded isSeparator (List.intercalate ['-'] ws) ws := by
  induction ws with
  | nil => exact .nil
  | cons w ws ih =>
      obtain ⟨hw, hws⟩ := List.forall_mem_cons.mp h
      cases ws with
      | nil =>
          have hword := Text.Worded.word_first hw (by simp) .nil
          simpa using hword
      | cons v vs =>
          have hhyphen : isSeparator '-' = true := by decide
          have hword := Text.Worded.word_first hw (by simpa using hhyphen)
            ((ih hws).cons_separator hhyphen)
          simpa [List.intercalate_cons_cons] using hword

theorem words_key (name : String) : words (key name) = words name := by
  have hcut : Text.words isSeparator (key name).toList = words name := by
    rw [key, String.toList_ofList]
    exact (worded_intercalate fun _ hw ↦ isWord_of_mem_words hw).words_eq
  rw [words, hcut, words, List.map_map]
  apply List.map_congr_left
  intro word _
  simp only [Function.comp_def, List.map_map, Char.toLower_toLower_eq_toLower]

theorem key_eq_iff {a b : String} : key a = key b ↔ SameWords a b := by
  rw [sameWords_iff]
  constructor
  · intro h
    rw [← words_key a, h, words_key]
  · intro h
    rw [key, h, key]

theorem key_key (name : String) : key (key name) = key name := by
  rw [key, words_key, key]

end Backend

/-! ## Registrations -/

namespace Registry

variable {α : Type}

/-- The registry that registrations come to, of which the earliest stands first. -/
def ofList (registrations : List (String × α)) : Registry α :=
  registrations.foldl (fun r (name, value) ↦ r.register name value) {}

/-- The backend that was registered last under the words of a name. -/
def Latest (registrations : List (String × α)) (name : String) (value : α) : Prop :=
  ∃ earlier spelling later, registrations = earlier ++ (spelling, value) :: later ∧
    Backend.SameWords spelling name ∧ ∀ r ∈ later, ¬ Backend.SameWords r.1 name

theorem ofList_concat (registrations : List (String × α)) (r : String × α) :
    ofList (registrations ++ [r]) = (ofList registrations).register r.1 r.2 :=
  List.foldl_concat ..

/-! ### What is found -/

theorem lookup_put (key k : String) (value : α) (entries : List (String × α)) :
    (put key value entries).lookup k = if key = k then some value else entries.lookup k := by
  induction entries with
  | nil => grind [put]
  | cons entry rest ih =>
      obtain ⟨k', v⟩ := entry
      rw [put]
      split
      next => grind
      next => split <;> grind

theorem find?_ofList (registrations : List (String × α)) (name : String) :
    (ofList registrations).find? name =
      (registrations.reverse.find? fun r ↦ Backend.key r.1 = Backend.key name).map Prod.snd := by
  induction registrations using List.reverseRecOn with
  | nil => rfl
  | append_singleton earlier r ih =>
      rw [ofList_concat, find?, register, lookup_put, List.reverse_concat, List.find?_cons]
      by_cases h : Backend.key r.1 = Backend.key name
      · simp [h]
      · simp only [h, if_false, decide_false]
        exact ih

theorem find?_eq_some {registrations : List (String × α)} {name : String} {value : α} :
    (ofList registrations).find? name = some value ↔ Latest registrations name value := by
  rw [find?_ofList, Option.map_eq_some_iff]
  constructor
  · rintro ⟨⟨spelling, value⟩, hfind, rfl⟩
    obtain ⟨hspelling, later, earlier, hsplit, hlater⟩ := List.find?_eq_some_iff_append.mp hfind
    refine ⟨earlier.reverse, spelling, later.reverse, ?_,
      Backend.key_eq_iff.mp (by simpa using hspelling), fun r hr ↦ ?_⟩
    · rw [← List.reverse_reverse registrations, hsplit]
      simp
    · rw [← Backend.key_eq_iff]
      simpa using hlater r (List.mem_reverse.mp hr)
  · rintro ⟨earlier, spelling, later, rfl, hspelling, hlater⟩
    refine ⟨(spelling, value), List.find?_eq_some_iff_append.mpr ⟨?_, later.reverse,
      earlier.reverse, by simp, fun r hr ↦ ?_⟩, rfl⟩
    · simpa using Backend.key_eq_iff.mpr hspelling
    · simpa [Backend.key_eq_iff] using hlater r (List.mem_reverse.mp hr)

theorem find?_eq_none {registrations : List (String × α)} {name : String} :
    (ofList registrations).find? name = none ↔
      ∀ r ∈ registrations, ¬ Backend.SameWords r.1 name := by
  simp [find?_ofList, ← Backend.key_eq_iff]

theorem isRegistered_iff {registrations : List (String × α)} {name : String} :
    (ofList registrations).isRegistered name = true ↔
      ∃ r ∈ registrations, Backend.SameWords r.1 name := by
  rw [isRegistered, Option.isSome_iff_ne_none, ne_eq, find?_eq_none]
  simp

theorem exists_latest {registrations : List (String × α)} {name : String}
    (h : (ofList registrations).isRegistered name = true) :
    ∃ value, Latest registrations name value := by
  obtain ⟨value, hvalue⟩ := Option.isSome_iff_exists.mp h
  exact ⟨value, find?_eq_some.mp hvalue⟩

section

variable {σ τ : Type} {registrations : List (String × (σ → Except BackendError τ))} {name : String}

theorem resolve_latest {factory : σ → Except BackendError τ}
    (h : Latest registrations name factory) : (ofList registrations).resolve name = factory := by
  funext settings
  rw [resolve, find?_eq_some.mpr h]

theorem resolve_unknown (h : (ofList registrations).isRegistered name = false) :
    (ofList registrations).resolve name = fun _ ↦ .error (.unknown name) := by
  funext settings
  rw [resolve, Option.isNone_iff_eq_none.mp (Option.isSome_eq_false_iff.mp h)]

end

/-! ### What is listed -/

theorem mem_put {key : String} {value : α} {entries : List (String × α)} {k : String} :
    k ∈ (put key value entries).map Prod.fst ↔ k = key ∨ k ∈ entries.map Prod.fst := by
  induction entries with
  | nil => simp [put]
  | cons entry rest ih =>
      obtain ⟨k', v⟩ := entry
      rw [put]
      split
      next h => simp [h]
      next =>
        split
        · simp
        · grind

theorem sorted_put (key : String) (value : α) {entries : List (String × α)}
    (h : (entries.map Prod.fst).Pairwise (· < ·)) :
    ((put key value entries).map Prod.fst).Pairwise (· < ·) := by
  induction entries with
  | nil => simp [put]
  | cons entry rest ih =>
      obtain ⟨k, v⟩ := entry
      obtain ⟨hk, hrest⟩ := List.pairwise_cons.mp h
      rw [put]
      split
      next heq =>
        subst heq
        exact h
      next hne =>
        split
        next hlt =>
          refine h.cons fun a ha ↦ ?_
          rcases List.mem_cons.mp ha with rfl | ha
          · exact hlt
          · exact hlt.trans (hk a ha)
        next hnot =>
          refine (ih hrest).cons fun a ha ↦ ?_
          rcases mem_put.mp ha with rfl | ha
          · exact lt_of_le_of_ne (not_lt.mp hnot) (Ne.symm hne)
          · exact hk a ha

theorem sorted_ofList (registrations : List (String × α)) :
    (ofList registrations).names.Pairwise (· < ·) := by
  induction registrations using List.reverseRecOn with
  | nil => exact .nil
  | append_singleton earlier r ih =>
      rw [ofList_concat]
      exact sorted_put _ _ ih

theorem mem_names {registrations : List (String × α)} {key : String} :
    key ∈ (ofList registrations).names ↔ ∃ r ∈ registrations, Backend.key r.1 = key := by
  induction registrations using List.reverseRecOn with
  | nil => simp [ofList, names]
  | append_singleton earlier r ih =>
      rw [ofList_concat]
      refine mem_put.trans ?_
      change key = Backend.key r.1 ∨ key ∈ (ofList earlier).names ↔ _
      simp only [ih, List.mem_append, List.mem_singleton, or_and_right, exists_or, exists_eq_left]
      rw [or_comm, eq_comm]

/-- A name finds a backend if and only if one was registered under the same words, and then the last
of those. The names that are listed are sorted, none of them twice, and the name that the start
settles on leads to the backend that was asked for. -/
theorem found_under_any_spelling {σ τ : Type} :
    (∀ a b, Backend.key a = Backend.key b ↔ Backend.SameWords a b) ∧
      (∀ name, Backend.key (Backend.key name) = Backend.key name) ∧
      ∀ registrations : List (String × (σ → Except BackendError τ)),
        let registry := ofList registrations
        (∀ name,
          (registry.isRegistered name = true ↔
            ∃ r ∈ registrations, Backend.SameWords r.1 name) ∧
          (registry.isRegistered name = true → ∃ factory, Latest registrations name factory) ∧
          (∀ factory, Latest registrations name factory → registry.resolve name = factory) ∧
          (registry.isRegistered name = false →
            registry.resolve name = fun _ ↦ .error (.unknown name))) ∧
        registry.names.Pairwise (· < ·) ∧
        (∀ key, key ∈ registry.names ↔ ∃ r ∈ registrations, Backend.key r.1 = key) ∧
        ∀ o c s, Startup.resolve o c registry = .ok s →
          ∃ factory, Latest registrations (o.backend.getD c.backend) factory ∧
            registry.resolve (s.serviceSettings c).backend = factory := by
  refine ⟨fun _ _ ↦ Backend.key_eq_iff, Backend.key_key, ?_⟩
  intro registrations registry
  refine ⟨fun name ↦ ⟨isRegistered_iff, exists_latest, fun _ ↦ resolve_latest, resolve_unknown⟩,
    sorted_ofList registrations, fun _ ↦ mem_names, fun o c s h ↦ ?_⟩
  have hfits := Startup.resolve_eq_ok.mp h
  have hsame : Backend.key (o.backend.getD c.backend) = Backend.key s.backend := by
    rw [hfits.backend, Backend.key_key]
  obtain ⟨factory, hfactory⟩ := Option.isSome_iff_exists.mp hfits.registered
  have hasked : registry.find? (o.backend.getD c.backend) = some factory := by
    rw [find?, hsame]
    exact hfactory
  exact ⟨factory, find?_eq_some.mp hasked, resolve_latest (find?_eq_some.mp hfactory)⟩

theorem other_spelling_starts_latest :
    let registrations : List (String × Backend.Factory) :=
      [("sim", fun _ ↦ .error (.unavailable "replaced")), ("SIM.", Backend.simulated)]
    let o : Options := { backend := some " Sim_" }
    ∃ s, Startup.resolve o {} (ofList registrations) = .ok s ∧
      (ofList registrations).resolve (s.serviceSettings {}).backend = Backend.simulated := by
  intro registrations o
  have hstart : Startup.resolve o {} (ofList registrations) = .ok ⟨"sim", .europeUs⟩ := by
    rw [Startup.resolve_eq_ok]
    exact ⟨by decide +kernel, by decide +kernel, by decide +kernel, by simp [o]⟩
  refine ⟨_, hstart, ?_⟩
  have hsame : Backend.SameWords "SIM." "sim" := by
    rw [← Backend.key_eq_iff]
    decide +kernel
  have hlatest : Latest registrations "sim" Backend.simulated :=
    ⟨registrations.take 1, "SIM.", [], rfl, hsame, by simp⟩
  exact ((found_under_any_spelling.2.2 registrations).1 "sim").2.2.1 _ hlatest

end Registry

end FmTuner
