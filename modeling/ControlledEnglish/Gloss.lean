import ControlledEnglish.Word

/-! Glosses: rules and attributes in English.

An attribute on its own is a sentence about "it", and its kind decides the verb. An attribute that
is attached to another is a modifier or a clause of it. Modifiers stand before the word that they
modify and clauses behind it, with "and" between every two. -/

namespace ControlledEnglish

namespace Gloss

/-- An attached attribute in words, and its kind, which decides where the words go. -/
structure Part where
  kind : Kind
  words : List String
  deriving DecidableEq, Repr

def among (kinds : List Kind) (parts : List Part) : List (List String) :=
  (parts.filter fun part => part.kind ∈ kinds).map Part.words

def besides (kinds : List Kind) (parts : List Part) : List (List String) :=
  (parts.filter fun part => part.kind ∉ kinds).map Part.words

def andJoined (parts : List (List String)) : List String := ["and"].intercalate parts

def thatIs (nouns : List (List String)) : List String :=
  if nouns = [] then [] else ["that", "is"] ++ andJoined nouns

/-- What follows a noun: "that is" with all nouns, then the rest. -/
def clauses (parts : List Part) : List String :=
  thatIs (among [.isA] parts) ++ andJoined (besides [.isA] parts)

def modifiers : List Kind := [.isLike, .isHow]

def phraseOf (kind : Kind) (value : String) (parts : List Part) : List String :=
  match kind with
  | .isA => (among modifiers parts).flatten ++ [value] ++
      clauses (parts.filter fun part => part.kind ∉ modifiers)
  | .does => ["that"] ++ andJoined (among [.isHow] parts) ++ [value] ++
      andJoined (besides [.isHow] parts)
  | .hasA => ["that", "has"] ++ andJoined (among modifiers parts) ++ [value] ++
      clauses (parts.filter fun part => part.kind ∉ modifiers)
  | .isLike | .isHow => (parts.map Part.words).flatten ++ [value]

mutual

def phrase : Attr → List String
  | ⟨kind, value, children⟩ => phraseOf kind value (parts children)

def parts : List Attr → List Part
  | [] => []
  | attr :: attrs => ⟨attr.kind, phrase attr⟩ :: parts attrs

end

theorem phrase_eq (attr : Attr) :
    phrase attr = phraseOf attr.kind attr.value (parts attr.children) := by
  cases attr
  rw [phrase]

/-- An attribute on its own. No sentence says how. -/
def sentence? (attr : Attr) : Option (List String) :=
  let parts := parts attr.children
  match attr.kind with
  | .does => some (["it"] ++ andJoined (among [.isHow] parts) ++ [attr.value] ++
      andJoined (besides [.isHow] parts))
  | .hasA => some (["it", "has"] ++ (among [.isLike] parts).flatten ++ [attr.value] ++
      clauses (parts.filter fun part => part.kind ∉ [Kind.isLike]))
  | .isA => some (["it", "is"] ++ (among [.isLike] parts).flatten ++ [attr.value] ++
      andJoined (besides [.isLike] parts))
  | .isLike => some (["it", "is"] ++ andJoined (among [.isHow] parts) ++ [attr.value] ++
      andJoined (besides [.isHow] parts))
  | .isHow => none

theorem exists_sentence {attr : Attr} (kind : attr.kind ≠ .isHow) :
    ∃ words, sentence? attr = some words := by
  rcases attr with ⟨own, value, children⟩
  cases own with
  | isHow => exact absurd rfl kind
  | isA | hasA | isLike | does => exact ⟨_, rfl⟩

end Gloss

section AndJoined

open Gloss (andJoined)

@[simp] theorem and_joined_nil : andJoined [] = [] := rfl

@[simp] theorem and_joined_singleton (part : List String) : andJoined [part] = part := by
  simp [andJoined, List.intercalate]

@[simp] theorem and_joined_cons_cons (part next : List String) (parts : List (List String)) :
    andJoined (part :: next :: parts) = part ++ "and" :: andJoined (next :: parts) := by
  simp [andJoined, List.intercalate]

end AndJoined

/-- What can be glossed. The conditions of a rule may be rules themselves. -/
inductive Clause where
  | attr (claim : Attr)
  | rule (head : Attr) (body : List Clause)
  deriving Repr

namespace Clause

open Gloss

mutual

def gloss? : Clause → Option (List String)
  | .attr claim => sentence? claim
  | .rule head [] => sentence? head
  | .rule head (first :: rest) => do
      let conditions ← glosses? (first :: rest)
      let conclusion ← sentence? head
      return ["if"] ++ andJoined conditions ++ ["then"] ++ conclusion

def glosses? : List Clause → Option (List (List String))
  | [] => some []
  | clause :: rest => do return (← gloss? clause) :: (← glosses? rest)

end

def glossAll? (clauses : List Clause) : Option (List String) := (glosses? clauses).map andJoined

end Clause

def Rule.clause (rule : Rule) : Clause := .rule rule.head (rule.body.map .attr)

def glossRules? (rules : List Rule) : Option (List String) :=
  Clause.glossAll? (rules.map Rule.clause)

end ControlledEnglish
