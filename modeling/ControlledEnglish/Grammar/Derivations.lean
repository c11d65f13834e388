import ControlledEnglish.Grammar.Production

/-! The derivations of every goal of an utterance, with duplicates and in the order of the search.

A goal only ever waits for goals of lower rank: ones that start later, or smaller phrases at the
same word. The table of derivations is built up rank by rank. -/

namespace ControlledEnglish

def Phrase.order : Phrase → Nat
  | .word _ => 0
  | .determiner => 1
  | .adverbRun => 2
  | .adverbGroup => 3
  | .adverbsOpt => 4
  | .adjectivePhrase => 5
  | .adjectivePhrases => 6
  | .relativeClause => 7
  | .nounPhrase => 8
  | .verbPhrase => 9
  | .sentence => 10

def Production.order : Production → Nat
  | .one item => 3 * item.order
  | .joined item => 3 * item.order + 1
  | .joinedOpt item => 3 * item.order + 2

theorem Production.order_lt (production : Production) : production.order < 33 := by
  cases production with
  | one item => cases item <;> simp [order, Phrase.order]
  | joined item => cases item <;> simp [order, Phrase.order]
  | joinedOpt item => cases item <;> simp [order, Phrase.order]

namespace Utterance

variable (u : Utterance)

def rank (goal : Goal) : Nat := 33 * (u.words.length - goal.start) + goal.production.order

def top : Nat := 33 * (u.words.length + 1)

theorem rank_lt_top (goal : Goal) : u.rank goal < u.top := by
  have order := goal.production.order_lt
  simp only [rank, top]
  omega

def below : Nat → Goal → List Derivation
  | 0, _ => []
  | bound + 1, goal =>
      if u.rank goal = bound then (u.search goal).all (below bound) else below bound goal

def derivations (goal : Goal) : List Derivation := u.below u.top goal

theorem below_of_lt {bound : Nat} {goal : Goal} (h : u.rank goal < bound) :
    u.below bound goal = (u.search goal).all (u.below (u.rank goal)) := by
  induction bound with
  | zero => omega
  | succ bound ih =>
      rw [below]
      split
      · next same => rw [same]
      · next differ => exact ih (by omega)

theorem below_eq_derivations {bound : Nat} {goal : Goal} (h : u.rank goal < bound) :
    u.below bound goal = u.derivations goal := by
  rw [derivations, below_of_lt u h, below_of_lt u (u.rank_lt_top goal)]

theorem derivations_eq_all (goal : Goal) :
    u.derivations goal = (u.search goal).all (u.below (u.rank goal)) :=
  u.below_of_lt (u.rank_lt_top goal)

end Utterance

end ControlledEnglish
