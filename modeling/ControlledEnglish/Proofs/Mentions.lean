import Mathlib.Algebra.Ring.Nat
import ControlledEnglish.Gloss

/-! Glosses mention every attribute once.

The children of a node are divided by kind, in one way or another for every form that a node can
take, and each side has its place in the gloss. No side is left out and none is said twice. So a
gloss consists of the values of all nodes and of the few words that hold them together, and any
count that passes over these words counts values. -/

namespace ControlledEnglish

namespace Attr

mutual

/-- The values of all nodes. -/
def values : Attr → List String
  | ⟨_, value, children⟩ => value :: valuesOf children

def valuesOf : List Attr → List String
  | [] => []
  | attr :: attrs => values attr ++ valuesOf attrs

end

end Attr

namespace Clause

mutual

def values : Clause → List String
  | .attr claim => claim.values
  | .rule head body => head.values ++ valuesOf body

def valuesOf : List Clause → List String
  | [] => []
  | clause :: clauses => values clause ++ valuesOf clauses

end

end Clause

namespace Gloss

/-- The words that hold a gloss together. -/
def joints : List String := ["it", "is", "has", "that", "and", "if", "then"]

def total (p : String → Bool) (phrases : List (List String)) : Nat :=
  (phrases.map (List.countP p)).sum

variable {p : String → Bool} {phrases : List (List String)} {ps : List Part}

theorem total_cons (phrase : List String) :
    total p (phrase :: phrases) = phrase.countP p + total p phrases := rfl

theorem count_flatten : phrases.flatten.countP p = total p phrases := List.countP_flatten

theorem total_filter_add (keep : Part → Bool) (ps : List Part) :
    total p ((ps.filter keep).map Part.words) +
        total p ((ps.filter fun part => !keep part).map Part.words) =
      total p (ps.map Part.words) := by
  induction ps with
  | nil => rfl
  | cons part ps ih =>
      rw [List.map_cons, total_cons, ← ih, List.filter_cons, List.filter_cons]
      cases keep part <;> simp [total_cons] <;> omega

theorem total_among_add (kinds : List Kind) (ps : List Part) :
    total p (among kinds ps) + total p (besides kinds ps) = total p (ps.map Part.words) := by
  rw [← total_filter_add (fun part => part.kind ∈ kinds), among, besides]
  simp

section

variable (free : ∀ word ∈ joints, p word = false)

include free

theorem count_joints {words : List String} (joint : words ⊆ joints) : words.countP p = 0 :=
  List.countP_eq_zero.mpr fun word member => by
    rw [free word (joint member)]
    exact Bool.false_ne_true

theorem count_and_joined : (andJoined phrases).countP p = total p phrases := by
  induction phrases with
  | nil => rfl
  | cons phrase phrases ih =>
      cases phrases with
      | nil => rw [and_joined_singleton]; rfl
      | cons next phrases =>
          have joint : ¬p "and" = true := by
            rw [free "and" (by decide)]
            exact Bool.false_ne_true
          rw [and_joined_cons_cons, List.countP_append, List.countP_cons_of_neg joint, ih]
          rfl

theorem count_that_is : (thatIs phrases).countP p = total p phrases := by
  rw [thatIs]
  split
  · next none =>
      rw [none]
      rfl
  · rw [List.countP_append, count_joints free (by decide), count_and_joined free, Nat.zero_add]

theorem count_clauses : (clauses ps).countP p = total p (ps.map Part.words) := by
  rw [clauses, List.countP_append, count_that_is free, count_and_joined free, total_among_add]

/-- One side of the children, the value, and the other side: nothing is left out. -/
theorem count_around {kinds : List Kind} {lead front back : List String} (value : String)
    (joint : lead ⊆ joints) (before : front.countP p = total p (among kinds ps))
    (behind : back.countP p = total p (besides kinds ps)) :
    (lead ++ front ++ [value] ++ back).countP p =
      [value].countP p + total p (ps.map Part.words) := by
  rw [List.countP_append, List.countP_append, List.countP_append, count_joints free joint, before,
    behind, ← total_among_add kinds ps]
  omega

theorem count_phrase_of (kind : Kind) (value : String) (ps : List Part) :
    (phraseOf kind value ps).countP p = [value].countP p + total p (ps.map Part.words) := by
  have joined {phrases : List (List String)} : (andJoined phrases).countP p = total p phrases :=
    count_and_joined free
  cases kind with
  | isA => exact count_around free value (List.nil_subset _) count_flatten (count_clauses free)
  | does => exact count_around free value (by decide) joined joined
  | hasA => exact count_around free value (by decide) joined (count_clauses free)
  | isLike | isHow =>
      rw [phraseOf, List.countP_append, count_flatten, Nat.add_comm]

end

mutual

theorem count_phrase (free : ∀ word ∈ joints, p word = false) (attr : Attr) :
    (phrase attr).countP p = attr.values.countP p := by
  match attr with
  | ⟨kind, value, children⟩ =>
      rw [phrase, count_phrase_of free, total_parts free children, Attr.values, ← List.countP_append]
      rfl

theorem total_parts (free : ∀ word ∈ joints, p word = false) (attrs : List Attr) :
    total p ((parts attrs).map Part.words) = (Attr.valuesOf attrs).countP p := by
  match attrs with
  | [] => rfl
  | attr :: attrs =>
      rw [parts, List.map_cons, total_cons, total_parts free attrs, count_phrase free attr,
        Attr.valuesOf, List.countP_append]

end

theorem count_sentence (free : ∀ word ∈ joints, p word = false) {attr : Attr}
    {words : List String} (said : sentence? attr = some words) :
    words.countP p = attr.values.countP p := by
  rcases attr with ⟨kind, value, children⟩
  have all : (Attr.mk kind value children).values.countP p =
      [value].countP p + total p ((parts children).map Part.words) := by
    rw [total_parts free children, ← List.countP_append]
    rfl
  have joined {phrases : List (List String)} : (andJoined phrases).countP p = total p phrases :=
    count_and_joined free
  rw [all]
  cases kind with
  | does =>
      cases said
      exact count_around free value (by decide) joined joined
  | hasA =>
      cases said
      exact count_around free value (by decide) count_flatten (count_clauses free)
  | isA =>
      cases said
      exact count_around free value (by decide) count_flatten joined
  | isLike =>
      cases said
      exact count_around free value (by decide) joined joined
  | isHow => cases said

end Gloss

namespace Clause

open Gloss

variable {p : String → Bool}

mutual

theorem count_gloss (free : ∀ word ∈ joints, p word = false) (clause : Clause)
    {words : List String} (said : clause.gloss? = some words) :
    words.countP p = clause.values.countP p := by
  match clause with
  | .attr claim =>
      rw [Clause.gloss?] at said
      exact count_sentence free said
  | .rule head [] =>
      rw [Clause.gloss?] at said
      rw [count_sentence free said, Clause.values, Clause.valuesOf, List.append_nil]
  | .rule head (first :: rest) =>
      rw [Clause.gloss?] at said
      obtain ⟨conditions, asked, said⟩ := Option.bind_eq_some_iff.mp said
      obtain ⟨conclusion, claimed, said⟩ := Option.bind_eq_some_iff.mp said
      cases said
      have condition : ["if"].countP p = 0 := count_joints free (by decide)
      have consequence : ["then"].countP p = 0 := count_joints free (by decide)
      rw [List.countP_append, List.countP_append, List.countP_append, condition, consequence,
        count_and_joined free, total_glosses free (first :: rest) asked, count_sentence free claimed,
        Clause.values, List.countP_append]
      omega

theorem total_glosses (free : ∀ word ∈ joints, p word = false) (clauses : List Clause)
    {phrases : List (List String)} (said : glosses? clauses = some phrases) :
    total p phrases = (valuesOf clauses).countP p := by
  match clauses with
  | [] =>
      cases said
      rfl
  | clause :: clauses =>
      rw [glosses?] at said
      obtain ⟨words, first, said⟩ := Option.bind_eq_some_iff.mp said
      obtain ⟨phrases, rest, said⟩ := Option.bind_eq_some_iff.mp said
      cases said
      rw [total_cons, count_gloss free clause first, total_glosses free clauses rest, valuesOf,
        List.countP_append]

end

theorem count_gloss_all (free : ∀ word ∈ joints, p word = false) {clauses : List Clause}
    {words : List String} (said : glossAll? clauses = some words) :
    words.countP p = (valuesOf clauses).countP p := by
  obtain ⟨phrases, glossed, rfl⟩ := Option.map_eq_some_iff.mp said
  rw [count_and_joined free, total_glosses free clauses glossed]

end Clause

end ControlledEnglish
