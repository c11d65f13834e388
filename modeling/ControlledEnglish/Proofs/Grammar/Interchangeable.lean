import Mathlib.Data.List.Forall2
import ControlledEnglish.Proofs.Grammar.Recognized

/-! Words that the grammar cannot tell apart.

No search looks at a word itself. It asks for the group of keywords that the word is in, and for the
texts that the word can be taken for. Where two words answer alike, the same is searched and the
same is found, at however many places the one stands for the other. -/

namespace ControlledEnglish

def keywordGroups : List (List String) :=
  [["if"], ["then"], ["and"], ["it"], ["that"], possessionVerbs, copulas, determiners]

/-- The texts that a word can be taken for, in the order in which they are tried. -/
def Word.texts (lexicon : Lexicon) (category : Category) : Word → List String
  | literal word => if word.category = category then [word.text] else []
  | plain text =>
      (if lexicon.lookup text category then [text] else []) ++
        match Literal.ofSpelling? text with
        | some word => if word.category = category then [word.text] else []
        | none => []

/-- The grammar cannot tell the words apart, and neither of them is ever complained of, unless they
are the same. -/
structure Interchangeable (lexicon : Lexicon) (w w' : Word) : Prop where
  groups : ∀ group ∈ keywordGroups, w.isPlain group = w'.isPlain group
  texts : ∀ category, w.texts lexicon category = w'.texts lexicon category
  recognized : w = w' ∨ IsRecognized lexicon w ∧ IsRecognized lexicon w'

theorem Interchangeable.refl (lexicon : Lexicon) (w : Word) : Interchangeable lexicon w w :=
  ⟨fun _ _ => rfl, fun _ => rfl, .inl rfl⟩

theorem getElem_related {α β : Type} {r : α → β → Prop} {l : List α} {l' : List β}
    (related : List.Forall₂ r l l') (i : Nat) : Option.Rel r l[i]? l'[i]? := by
  induction related generalizing i with
  | nil => exact .none
  | cons first _ ih =>
      cases i with
      | zero => exact .some first
      | succ i => exact ih i

def Search.ofList {α : Type} : List α → Search α
  | [] => nothing
  | result :: results => found result (ofList results)

namespace Utterance

open Search (ofList)

theorem word_eq_of_list (u : Utterance) (category : Category) (i : Nat) :
    u.word category i = ofList ((u.words[i]?.elim [] (Word.texts u.lexicon category)).map
      fun text => ⟨[⟨category.kind, text, []⟩], i + 1⟩) := by
  have one (literal : Literal) : Search.guarded (literal.category == category)
        (pure (⟨[⟨category.kind, literal.text, []⟩], i + 1⟩ : Derivation)) =
      ofList ((if literal.category = category then [literal.text] else []).map
        fun text => ⟨[⟨category.kind, text, []⟩], i + 1⟩) := by
    by_cases same : literal.category = category
    · rw [if_pos same, beq_iff_eq.mpr same]
      rfl
    · rw [if_neg same, beq_eq_false_iff_ne.mpr same]
      rfl
  rw [word]
  cases u.words[i]? with
  | none => rfl
  | some given =>
      cases given with
      | literal literal => exact one literal
      | plain text =>
          simp only [Option.elim_some, Word.texts]
          cases u.lexicon.lookup text category with
          | false =>
              cases Literal.ofSpelling? text with
              | none => rfl
              | some literal => exact one literal
          | true =>
              cases Literal.ofSpelling? text with
              | none => rfl
              | some literal => exact congrArg (Search.found _) (one literal)

structure Resembles (u u' : Utterance) : Prop where
  length : u.words.length = u'.words.length
  word : ∀ category i, u.word category i = u'.word category i
  keyword : ∀ group ∈ keywordGroups, ∀ i, u.isKeyword i group = u'.isKeyword i group

namespace Resembles

variable {lexicon : Lexicon} {words words' : List Word} {u u' : Utterance}

theorem of_interchangeable (same : List.Forall₂ (Interchangeable lexicon) words words') :
    Resembles ⟨words, lexicon⟩ ⟨words', lexicon⟩ := by
  refine ⟨same.length_eq, fun category i => ?_, fun group listed i => ?_⟩
  · have here := getElem_related same i
    rw [word_eq_of_list, word_eq_of_list]
    generalize words[i]? = w, words'[i]? = w' at here ⊢
    cases here with
    | none => rfl
    | some alike => simp only [Option.elim_some, alike.texts]
  · have here := getElem_related same i
    rw [isKeyword, isKeyword]
    generalize words[i]? = w, words'[i]? = w' at here ⊢
    cases here with
    | none => rfl
    | some alike => simp only [Option.any_some, alike.groups group listed]

variable (same : u.Resembles u')

include same

theorem determiner_eq (i : Nat) : u.determiner i = u'.determiner i := by
  rw [determiner, determiner, same.keyword determiners (by decide)]

theorem adverb_run_eq (i : Nat) : u.adverbRun i = u'.adverbRun i := by
  rw [adverbRun, adverbRun, same.word]

theorem adjective_phrase_eq (i : Nat) : u.adjectivePhrase i = u'.adjectivePhrase i := by
  simp only [adjectivePhrase, same.word]

theorem adjective_phrases_eq (i : Nat) : u.adjectivePhrases i = u'.adjectivePhrases i := by
  rw [adjectivePhrases, adjectivePhrases, same.adjective_phrase_eq]

theorem relative_clause_eq (i : Nat) : u.relativeClause i = u'.relativeClause i := by
  rw [relativeClause, relativeClause, same.keyword ["that"] (by decide)]

theorem noun_phrase_eq (i : Nat) : u.nounPhrase i = u'.nounPhrase i := by
  rw [nounPhrase, nounPhrase, same.keyword ["it"] (by decide), same.determiner_eq]
  simp only [same.word, same.relative_clause_eq]

theorem verb_phrase_eq (i : Nat) : u.verbPhrase i = u'.verbPhrase i := by
  rw [verbPhrase, verbPhrase, same.keyword possessionVerbs (by decide),
    same.keyword copulas (by decide)]
  simp only [same.word]

theorem phrase_eq (item : Phrase) (i : Nat) : u.phrase item i = u'.phrase item i := by
  cases item with
  | word category => exact same.word category i
  | determiner => exact same.determiner_eq i
  | adverbRun => exact same.adverb_run_eq i
  | adjectivePhrase => exact same.adjective_phrase_eq i
  | adjectivePhrases => exact same.adjective_phrases_eq i
  | relativeClause => exact same.relative_clause_eq i
  | nounPhrase => exact same.noun_phrase_eq i
  | verbPhrase => exact same.verb_phrase_eq i
  | adverbGroup | adverbsOpt | sentence => rfl

theorem call_eq (item : Phrase) (i : Nat) : u.call item i = u'.call item i := by
  rw [call, call, same.phrase_eq]

theorem search_eq (goal : Goal) : u.search goal = u'.search goal := by
  obtain ⟨production, i⟩ := goal
  cases production with
  | one item => exact same.phrase_eq item i
  | joined item =>
      simp only [search, production, joined, same.call_eq, same.keyword ["and"] (by decide)]
  | joinedOpt item => rfl

theorem rules_eq (i : Nat) : u.rules i = u'.rules i := by
  simp only [rules, same.keyword ["if"] (by decide), same.keyword ["then"] (by decide)]

theorem below_eq (bound : Nat) (goal : Goal) : u.below bound goal = u'.below bound goal := by
  induction bound generalizing goal with
  | zero => rfl
  | succ bound ih =>
      have ranks : u.rank goal = u'.rank goal := by rw [rank, rank, same.length]
      have tables : u.below bound = u'.below bound := funext ih
      rw [below, below, ranks, same.search_eq, tables]

/-- Every production finds the same, in the same order. -/
theorem derivations_eq (goal : Goal) : u.derivations goal = u'.derivations goal := by
  rw [derivations, derivations, top, top, same.length, same.below_eq]

theorem readings_eq : u.readings = u'.readings := by
  have tables : u.derivations = u'.derivations := funext same.derivations_eq
  have readings : u.reading? = u'.reading? := by
    funext ⟨rules, stop⟩
    rw [reading?, reading?, same.length]
  rw [Utterance.readings, Utterance.readings, same.rules_eq, tables, readings]

end Resembles

end Utterance

def ReadingError.inWords (words : List Word) : ReadingError → ReadingError
  | source fault => source fault
  | emptySentence => emptySentence
  | noReading _ => noReading words
  | unknownWord _ word position => unknownWord words word position
  | malformedLiteral _ word position => malformedLiteral words word position

/-- Whatever is asked for, the other source is answered as the source is: with the same readings in
the same order, or with the same complaint of the same word. Only the words that a complaint quotes
are its own. -/
structure ReadAlike (lexicon : Lexicon) (source other : Source) (words' : List Word) : Prop where
  all : readAll other lexicon = (readAll source lexicon).mapError (.inWords words')
  several : ∀ limit,
    readSome limit other lexicon = (readSome limit source lexicon).mapError (.inWords words')
  first : read other lexicon = (read source lexicon).mapError (.inWords words')

section Sources

variable {lexicon : Lexicon} {words words' : List Word}

theorem find_unrecognized_eq (same : List.Forall₂ (Interchangeable lexicon) words words')
    (u : Utterance) (known : u.lexicon = lexicon) (place : Nat) :
    ((words.zipIdx place).find? fun (word, _) => !u.recognizes word) =
      (words'.zipIdx place).find? fun (word, _) => !u.recognizes word := by
  subst known
  induction same generalizing place with
  | nil => rfl
  | cons first _ ih =>
      rw [List.zipIdx_cons, List.zipIdx_cons, List.find?_cons, List.find?_cons, ih]
      rcases first.recognized with rfl | ⟨here, here'⟩
      · rfl
      · simp only [Utterance.recognizes_iff.mpr here, Utterance.recognizes_iff.mpr here',
          Bool.not_true]

theorem check_interchangeable (same : List.Forall₂ (Interchangeable lexicon) words words') :
    Utterance.check ⟨words', lexicon⟩ =
      (Utterance.check ⟨words, lexicon⟩).mapError (.inWords words') := by
  have unrecognized : Utterance.unrecognized? ⟨words, lexicon⟩ =
      Utterance.unrecognized? ⟨words', lexicon⟩ := find_unrecognized_eq same _ rfl 0
  rw [Utterance.check, Utterance.check, unrecognized]
  split
  · rfl
  · split
    · rfl
    · rfl

theorem first_reading_in_words (lengths : words.length = words'.length)
    (readings : List (List Rule)) :
    firstReading words' readings = (firstReading words readings).mapError (.inWords words') := by
  cases readings with
  | cons first rest => rfl
  | nil =>
      have empty : words' = [] ↔ words = [] := by
        rw [← List.length_eq_zero_iff, ← List.length_eq_zero_iff, lengths]
      simp only [firstReading, empty]
      split
      · rfl
      · rfl

/-- Sources are read alike if the grammar cannot tell their words apart. -/
theorem read_alike_of_interchangeable {source other : Source} (given : source.words = .ok words)
    (given' : other.words = .ok words')
    (same : List.Forall₂ (Interchangeable lexicon) words words') :
    ReadAlike lexicon source other words' := by
  have readings := (Utterance.Resembles.of_interchangeable same).readings_eq
  have checked' := check_interchangeable same
  cases checked : Utterance.check ⟨words, lexicon⟩ with
  | ok =>
      rw [checked] at checked'
      refine ⟨?_, fun limit => ?_, ?_⟩
      · rw [read_all_ok given checked, read_all_ok given' checked', readings]
        rfl
      · rw [read_some_ok given checked, read_some_ok given' checked', readings]
        rfl
      · rw [read_ok given checked, read_ok given' checked', readings]
        exact first_reading_in_words same.length_eq _
  | error fault =>
      rw [checked] at checked'
      refine ⟨?_, fun limit => ?_, ?_⟩
      · rw [read_all_error given checked, read_all_error given' checked']
        rfl
      · by_cases wanted : limit = 0
        · subst wanted
          rfl
        · rw [read_some_error wanted given checked, read_some_error wanted given' checked']
          rfl
      · rw [read_error given checked, read_error given' checked']
        rfl

end Sources

end ControlledEnglish
