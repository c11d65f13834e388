import ControlledEnglish.Attribute
import ControlledEnglish.Word

/-! Searches: alternatives in the order in which they are tried, written down but not yet run.

A search that needs a phrase at some place does not look there itself. It names the goal and says
how to go on after each of its derivations, so the same search can be run against any table of
derivations: a finished one, or one that is filled as it is read. -/

namespace ControlledEnglish

inductive Phrase where
  | word (category : Category)
  | determiner
  | adverbRun
  | adverbGroup
  | adverbsOpt
  | adjectivePhrase
  | adjectivePhrases
  | relativeClause
  | nounPhrase
  | verbPhrase
  | sentence
  deriving DecidableEq, Repr, Hashable

/-- What can be looked for: a phrase, or several joined by "and", of which there may be none. -/
inductive Production where
  | one (phrase : Phrase)
  | joined (phrase : Phrase)
  | joinedOpt (phrase : Phrase)
  deriving DecidableEq, Repr, Hashable

instance : Coe Phrase Production := ⟨.one⟩

structure Goal where
  production : Production
  start : Nat
  deriving DecidableEq, Repr, Hashable

/-- What was found: its attributes, and the word after its last one. -/
structure Derivation where
  attrs : List Attr
  stop : Nat
  deriving DecidableEq, Repr

/-- `each` goes on after every derivation of the goal but the first `skip`, then with `next`. -/
inductive Search (α : Type) where
  | nothing
  | found (result : α) (next : Search α)
  | each (goal : Goal) (skip : Nat) (body : Derivation → Search α) (next : Search α)

namespace Search

variable {α β : Type}

def append : Search α → Search α → Search α
  | nothing, after => after
  | found result next, after => found result (next.append after)
  | each goal skip body next, after => each goal skip body (next.append after)

instance : Append (Search α) := ⟨append⟩

protected def pure (result : α) : Search α := found result nothing

protected def bind : Search α → (α → Search β) → Search β
  | nothing, _ => nothing
  | found result next, f => f result ++ next.bind f
  | each goal skip body next, f => each goal skip (fun d => (body d).bind f) (next.bind f)

instance : Monad Search where
  pure := Search.pure
  bind := Search.bind

def ask (production : Production) (start : Nat) : Search Derivation :=
  each ⟨production, start⟩ 0 Search.pure nothing

def guarded (condition : Bool) (search : Search α) : Search α :=
  if condition then search else nothing

/-- All results, in order, when the table holds the derivations of every goal. -/
def all (table : Goal → List Derivation) : Search α → List α
  | nothing => []
  | found result next => result :: next.all table
  | each goal skip body next =>
      ((table goal).drop skip).flatMap (fun d => (body d).all table) ++ next.all table

def work (table : Goal → List Derivation) : Search α → Nat
  | nothing => 0
  | found _ next => next.work table + 1
  | each goal skip body next =>
      ((table goal).drop skip).foldr (fun d steps => (body d).work table + 1 + steps) 0 +
        next.work table + 1

variable (table : Goal → List Derivation)

@[simp] theorem all_nothing : (nothing : Search α).all table = [] := rfl

@[simp] theorem all_append (s t : Search α) : (s ++ t).all table = s.all table ++ t.all table := by
  change (s.append t).all table = _
  induction s with
  | nothing => rfl
  | found result next ih => simp [append, all, ih]
  | each goal skip body next _ ih => simp [append, all, ih]

@[simp] theorem all_pure (result : α) : (pure result : Search α).all table = [result] := rfl

@[simp] theorem all_bind (s : Search α) (f : α → Search β) :
    (s >>= f).all table = (s.all table).flatMap fun result => (f result).all table := by
  change (s.bind f).all table = _
  induction s with
  | nothing => rfl
  | found result next ih => simp [Search.bind, all, ih]
  | each goal skip body next body_ih ih => simp [Search.bind, all, ih, body_ih, List.flatMap_assoc]

@[simp] theorem all_ask (production : Production) (start : Nat) :
    (ask production start).all table = table ⟨production, start⟩ := by
  simp [ask, all, Search.pure]

@[simp] theorem all_guarded (condition : Bool) (s : Search α) :
    (guarded condition s).all table = if condition then s.all table else [] := by
  cases condition <;> rfl

theorem work_append (s t : Search α) : (s ++ t).work table = s.work table + t.work table := by
  change (s.append t).work table = _
  induction s with
  | nothing => simp [append, work]
  | found result next ih => simp [append, work, ih]; omega
  | each goal skip body next _ ih => simp [append, work, ih]; omega

end Search

end ControlledEnglish
