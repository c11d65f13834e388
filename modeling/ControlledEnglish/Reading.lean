import ControlledEnglish.Grammar.Run
import ControlledEnglish.Source
import ControlledEnglish.Text.Quoted

namespace ControlledEnglish

inductive ReadingError where
  | source (fault : SourceError)
  | emptySentence
  | noReading (words : List Word)
  | unknownWord (words : List Word) (word : String) (position : Nat)
  | malformedLiteral (words : List Word) (word : String) (position : Nat)
  deriving DecidableEq, Repr

def ReadingError.message : ReadingError → String
  | source fault => fault.message
  | emptySentence => "Empty sentence"
  | noReading words => "Could not parse: " ++ spaced (words.map Word.spelling)
  | unknownWord _ word position =>
      "Unknown word " ++ Text.quoted word ++ " at position " ++ toString position
  | malformedLiteral _ word position =>
      "Malformed literal " ++ Text.quoted word ++ " at position " ++ toString position ++
        " (expected \"<n|adj|adv|v>:<text>\")"

namespace Utterance

variable (u : Utterance)

/-- No phrase can use a word that is not recognized. -/
def recognizes : Word → Bool
  | .literal _ => true
  | .plain text =>
      keywords.contains text || u.lexicon.knows text || (Literal.ofSpelling? text).isSome

def unrecognized? : Option (Word × Nat) :=
  u.words.zipIdx.find? fun (word, _) => !u.recognizes word

def check : Except ReadingError Unit :=
  match u.unrecognized? with
  | none => .ok ()
  | some (word, position) =>
      if isQuoted word.spelling then .error (.malformedLiteral u.words word.spelling position)
      else .error (.unknownWord u.words word.spelling position)

/-- A result is a reading if it uses every word and says something. -/
def reading? : List Rule × Nat → Option (List Rule)
  | (rules, stop) => if stop = u.words.length ∧ rules ≠ [] then some rules else none

end Utterance

/-- The members that were not given before, each at its first place. -/
def distinct {α : Type} [DecidableEq α] (given : List α) : List α → List α
  | [] => []
  | a :: rest => if a ∈ given then distinct given rest else a :: distinct (a :: given) rest

theorem distinct_filter {α : Type} [DecidableEq α] {given : List α} {keep : α → Bool}
    (dropped : ∀ a, keep a = false → a ∈ given) (l : List α) :
    distinct given (l.filter keep) = distinct given l := by
  induction l generalizing given with
  | nil => rfl
  | cons a rest ih =>
      by_cases seen : a ∈ given <;> by_cases kept : keep a
      · simp [distinct, seen, kept, ih dropped]
      · simp [distinct, seen, kept, ih dropped]
      · have ih := @ih (a :: given) fun b h => List.mem_cons_of_mem a (dropped b h)
        simp [distinct, seen, kept, ih]
      · exact absurd (dropped a (by simpa using kept)) seen

def Utterance.readings (u : Utterance) : List (List Rule) :=
  distinct [] (((u.rules 0).all u.derivations).filterMap u.reading?)

/-- Readings that are asked for one by one, with those given so far. -/
structure Readings (u : Utterance) where
  run : Run u (List Rule × Nat)
  given : List (List Rule) := []

namespace Readings

variable {u : Utterance}

def start (u : Utterance) : Readings u := { run := { rest := u.rules 0 } }

def all (readings : Readings u) : List (List Rule) :=
  distinct readings.given (readings.run.all.filterMap u.reading?)

@[simp] theorem all_start (u : Utterance) : (start u).all = u.readings := rfl

def unseen? (given : List (List Rule)) (result : List Rule × Nat) : Option (List Rule) :=
  (u.reading? result).filter fun rules => rules ∉ given

def next? (readings : Readings u) : Option (List Rule × Readings u) :=
  (readings.run.find? (unseen? (u := u) readings.given)).map fun (rules, run) =>
    (rules, ⟨run, rules :: readings.given⟩)

theorem filterMap_unseen (given : List (List Rule)) (results : List (List Rule × Nat)) :
    results.filterMap (unseen? (u := u) given) =
      (results.filterMap u.reading?).filter fun rules => rules ∉ given := by
  rw [List.filter_filterMap]
  rfl

theorem all_eq_distinct_unseen {given seen : List (List Rule)} (h : seen ⊆ given)
    (results : List (List Rule × Nat)) :
    distinct given (results.filterMap u.reading?) =
      distinct given (results.filterMap (unseen? (u := u) seen)) := by
  rw [filterMap_unseen, distinct_filter]
  intro rules dropped
  exact h (by simpa using dropped)

theorem all_of_next_none {readings : Readings u} (h : readings.next? = none) :
    readings.all = [] := by
  simp only [next?, Option.map_eq_none_iff] at h
  rw [all, all_eq_distinct_unseen (List.Subset.refl _), Run.filterMap_all_of_find_none h, distinct]

theorem all_of_next_some {readings next : Readings u} {rules : List Rule}
    (h : readings.next? = some (rules, next)) : readings.all = rules :: next.all := by
  simp only [next?, Option.map_eq_some_iff, Prod.exists, Prod.mk.injEq] at h
  obtain ⟨rules, run, found, rfl, rfl⟩ := h
  have results := Run.filterMap_all_of_find_some found
  have fresh : rules ∉ readings.given := by
    have member : rules ∈ readings.run.all.filterMap (unseen? (u := u) readings.given) := by
      simp [results]
    rw [filterMap_unseen] at member
    simpa using (List.mem_filter.mp member).2
  rw [all, all_eq_distinct_unseen (List.Subset.refl _), results, distinct, if_neg fresh, all,
    all_eq_distinct_unseen (List.subset_cons_self rules readings.given)]

def take : Nat → Readings u → List (List Rule)
  | 0, _ => []
  | count + 1, readings =>
      match readings.next? with
      | none => []
      | some (rules, readings) => rules :: take count readings

theorem take_eq (count : Nat) (readings : Readings u) :
    readings.take count = readings.all.take count := by
  induction count generalizing readings with
  | zero => simp [take]
  | succ count ih =>
      rw [take]
      split
      · next h => simp [all_of_next_none h]
      · next h => simp [all_of_next_some h, ih]

def toList (readings : Readings u) : List (List Rule) :=
  match _ : readings.next? with
  | none => []
  | some (rules, readings) => rules :: toList readings
termination_by readings.all.length
decreasing_by simp [all_of_next_some ‹_›]

theorem to_list_eq (readings : Readings u) : readings.toList = readings.all := by
  fun_induction toList readings with
  | case1 readings h => rw [all_of_next_none h]
  | case2 readings rules next h ih => rw [all_of_next_some h, ih]

end Readings

/-- Nothing is searched yet, but every word is recognized. -/
def startReadings (words : List Word) (lexicon : Lexicon) :
    Except ReadingError (Readings ⟨words, lexicon⟩) := do
  Utterance.check ⟨words, lexicon⟩
  return .start _

/-- The first readings of a sentence, at most so many. Without any to give, nothing can fail. -/
def readSome (limit : Nat) (source : Source) (lexicon : Lexicon) :
    Except ReadingError (List (List Rule)) :=
  if limit = 0 then .ok []
  else do
    let words ← source.words.mapError .source
    return (← startReadings words lexicon).take limit

def readAll (source : Source) (lexicon : Lexicon) : Except ReadingError (List (List Rule)) := do
  let words ← source.words.mapError .source
  return (← startReadings words lexicon).toList

def read (source : Source) (lexicon : Lexicon) : Except ReadingError (List Rule) := do
  let words ← source.words.mapError .source
  if words.isEmpty then throw .emptySentence
  match (← startReadings words lexicon).next? with
  | some (rules, _) => return rules
  | none => throw (.noReading words)

end ControlledEnglish
