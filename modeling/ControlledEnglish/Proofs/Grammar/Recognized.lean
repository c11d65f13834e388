import ControlledEnglish.Proofs.Canonical.Clean
import ControlledEnglish.Proofs.Reading

namespace ControlledEnglish

inductive IsRecognized (lexicon : Lexicon) : Word → Prop where
  | literal (word : Literal) : IsRecognized lexicon (.literal word)
  | keyword {w : String} (listed : w ∈ keywords) : IsRecognized lexicon (.plain w)
  | known {w : String} {category : Category} (listed : lexicon.lookup w category = true) :
      IsRecognized lexicon (.plain w)
  | spelled {w : String} {literal : Literal} (spells : Literal.ofSpelling? w = some literal) :
      IsRecognized lexicon (.plain w)

variable {lexicon : Lexicon} {production : Production} {ws : List Word} {as : List Attr}

theorem Reads.recognized {category : Category} {word : Word} {text : String}
    (reads : Reads lexicon category word text) : IsRecognized lexicon word := by
  cases reads with
  | listed known => exact .known known
  | spelled spells => exact .spelled spells
  | literal text => exact .literal _

theorem Derives.recognized (h : Derives lexicon production ws as) :
    ∀ word ∈ ws, IsRecognized lexicon word := by
  have after {w : String} {options : List String} {ws : List Word} (listed : w ∈ options)
      (known : options ⊆ keywords) (rest : ∀ word ∈ ws, IsRecognized lexicon word) :
      ∀ word ∈ .plain w :: ws, IsRecognized lexicon word :=
    List.forall_mem_cons.mpr ⟨.keyword (known listed), rest⟩
  have both {vs ws : List Word} (first : ∀ word ∈ vs, IsRecognized lexicon word)
      (rest : ∀ word ∈ ws, IsRecognized lexicon word) :
      ∀ word ∈ vs ++ ws, IsRecognized lexicon word :=
    List.forall_mem_append.mpr ⟨first, rest⟩
  induction h with
  | word reads => exact List.forall_mem_singleton.mpr reads.recognized
  | noDeterminer | noAdverbs | noAdjectives | noItems => exact List.forall_mem_nil _
  | determiner listed => exact after listed (by decide) (List.forall_mem_nil _)
  | it => exact after (List.mem_singleton_self _) (by decide) (List.forall_mem_nil _)
  | adverb _ ih | adverbGroup _ ih | someAdverbs _ ih | single _ ih | items _ ih => exact ih
  | adverbs _ _ first_ih rest_ih | adjectives _ _ first_ih rest_ih
  | adjectivePhrase _ _ first_ih rest_ih | manner _ _ first_ih rest_ih
  | subject _ _ _ first_ih rest_ih => exact both first_ih rest_ih
  | relativeClause _ ih | itSentence _ ih =>
      exact after (List.mem_singleton_self _) (by decide) ih
  | noun _ _ _ first_ih next_ih last_ih | action _ _ _ first_ih next_ih last_ih =>
      exact both (both first_ih next_ih) last_ih
  | nounClause _ _ _ _ first_ih next_ih noun_ih clause_ih =>
      exact both (both (both first_ih next_ih) noun_ih) clause_ih
  | possession verb _ ih => exact after verb (by decide) ih
  | likeness copula _ ih | identity copula _ ih => exact after copula (by decide) ih
  | several _ _ first_ih rest_ih =>
      exact both first_ih (after (List.mem_singleton_self _) (by decide) rest_ih)

theorem DerivesRules.recognized {rules : List Rule} (h : DerivesRules lexicon ws rules) :
    ∀ word ∈ ws, IsRecognized lexicon word := by
  have after {w : String} {ws : List Word} (listed : w ∈ ["if", "then"])
      (rest : ∀ word ∈ ws, IsRecognized lexicon word) :
      ∀ word ∈ .plain w :: ws, IsRecognized lexicon word := by
    have known : ["if", "then"] ⊆ keywords := by decide
    exact List.forall_mem_cons.mpr ⟨.keyword (known listed), rest⟩
  cases h with
  | conditional conditions conclusions =>
      have turn := after (show "then" ∈ _ by decide) conclusions.recognized
      have whole := List.forall_mem_append.mpr ⟨conditions.recognized, turn⟩
      exact after (by decide) whole
  | trailing conclusion conditions =>
      have turn := after (show "if" ∈ _ by decide) conditions.recognized
      exact List.forall_mem_append.mpr ⟨conclusion.recognized, turn⟩
  | fact claim => exact claim.recognized

namespace Utterance

variable {u : Utterance}

theorem recognizes_iff {word : Word} : u.recognizes word = true ↔ IsRecognized u.lexicon word := by
  cases word with
  | literal word => exact iff_of_true rfl (.literal word)
  | plain w =>
      simp only [recognizes, Bool.or_eq_true, List.contains_iff_mem, Lexicon.knows,
        List.any_eq_true, Option.isSome_iff_exists]
      constructor
      · rintro ((keyword | ⟨category, -, listed⟩) | ⟨literal, spells⟩)
        · exact .keyword keyword
        · exact .known listed
        · exact .spelled spells
      · intro recognized
        cases recognized with
        | keyword listed => exact .inl (.inl listed)
        | known listed => exact .inl (.inr ⟨_, Category.mem_all _, listed⟩)
        | spelled spells => exact .inr ⟨_, spells⟩

/-- The word at the place is the first one that is not recognized. -/
structure IsUnrecognized (u : Utterance) (w : String) (place : Nat) : Prop where
  here : u.words[place]? = some (.plain w)
  unrecognized : ¬IsRecognized u.lexicon (.plain w)
  before : ∀ word ∈ u.words.take place, IsRecognized u.lexicon word

def faultAt (u : Utterance) (w : String) (place : Nat) : ReadingError :=
  if isQuoted w then .malformedLiteral u.words w place else .unknownWord u.words w place

theorem unrecognized_of_check {fault : ReadingError} (rejected : u.check = .error fault) :
    ∃ w place, u.IsUnrecognized w place ∧ fault = u.faultAt w place := by
  rw [check] at rejected
  split at rejected
  · cases rejected
  · next word place found =>
      rw [unrecognized?, List.find?_eq_some_iff_getElem] at found
      rcases found with ⟨unrecognized, i, inside, same, before⟩
      rw [List.length_zipIdx] at inside
      rw [List.getElem_zipIdx, Nat.zero_add, Prod.mk.injEq] at same
      rcases same with ⟨here, rfl⟩
      have not_recognized : ¬IsRecognized u.lexicon word := by
        intro recognized
        simp [recognizes_iff.mpr recognized] at unrecognized
      cases word with
      | literal word => exact absurd (.literal word) not_recognized
      | plain w =>
          refine ⟨w, i, ⟨?_, not_recognized, ?_⟩, ?_⟩
          · rw [List.getElem?_eq_getElem inside, here]
          · intro word member
            rcases List.mem_take_iff_getElem.mp member with ⟨j, early, rfl⟩
            have recognized := before j (by omega)
            simpa [List.getElem_zipIdx, recognizes_iff] using recognized
          · rw [← apply_ite Except.error] at rejected
            exact (Except.error.inj rejected).symm

theorem exists_check_error_iff :
    (∃ fault, u.check = .error fault) ↔ ∃ word ∈ u.words, ¬IsRecognized u.lexicon word := by
  constructor
  · rintro ⟨fault, rejected⟩
    rcases unrecognized_of_check rejected with ⟨w, place, ⟨here, unrecognized, -⟩, -⟩
    exact ⟨_, List.mem_of_getElem? here, unrecognized⟩
  · rintro ⟨word, member, unrecognized⟩
    cases checked : u.check with
    | error fault => exact ⟨fault, rfl⟩
    | ok =>
        have recognized := check_ok_iff.mp checked word member
        exact absurd (recognizes_iff.mp recognized) unrecognized

theorem IsUnrecognized.unique {w v : String} {i j : Nat} (first : u.IsUnrecognized w i)
    (other : u.IsUnrecognized v j) : w = v ∧ i = j := by
  have not_before {w v : String} {i j : Nat} (first : u.IsUnrecognized w i)
      (other : u.IsUnrecognized v j) : ¬i < j := by
    intro early
    have member : .plain w ∈ u.words.take j := by
      apply List.mem_of_getElem? (i := i)
      rw [List.getElem?_take_of_lt early]
      exact first.here
    exact first.unrecognized (other.before _ member)
  have same : i = j := Nat.le_antisymm (Nat.not_lt.mp (not_before other first))
    (Nat.not_lt.mp (not_before first other))
  subst same
  have here := first.here
  rw [other.here] at here
  exact ⟨(Word.plain.inj (Option.some.inj here)).symm, rfl⟩

theorem check_error_iff {fault : ReadingError} : u.check = .error fault ↔
    ∃ w place, u.IsUnrecognized w place ∧ fault = u.faultAt w place := by
  constructor
  · exact unrecognized_of_check
  · rintro ⟨w, place, first, rfl⟩
    have member := List.mem_of_getElem? first.here
    rcases exists_check_error_iff.mpr ⟨_, member, first.unrecognized⟩ with ⟨fault, rejected⟩
    rcases unrecognized_of_check rejected with ⟨v, other, found, rfl⟩
    rcases first.unique found with ⟨rfl, rfl⟩
    exact rejected

/-- No search gets past a word that is not recognized. -/
theorem not_mem_rules_of_unrecognized (unrecognized : ∃ word ∈ u.words, ¬IsRecognized u.lexicon word)
    (rules : List Rule) : (rules, u.words.length) ∉ (u.rules 0).all u.derivations := by
  intro found
  rcases unrecognized with ⟨word, member, unrecognized⟩
  rcases rules_found found with ⟨ws, spans, derives⟩
  rw [spans_all] at spans
  subst spans
  exact unrecognized (derives.recognized word member)

end Utterance

section Entry

variable {source : Source} {words : List Word} {fault : ReadingError}

theorem read_all_error (given : source.words = .ok words)
    (rejected : Utterance.check ⟨words, lexicon⟩ = .error fault) :
    readAll source lexicon = .error fault := by
  simp only [readAll, words_ok given, bind, Except.bind, startReadings, rejected]

theorem read_some_error {limit : Nat} (wanted : limit ≠ 0) (given : source.words = .ok words)
    (rejected : Utterance.check ⟨words, lexicon⟩ = .error fault) :
    readSome limit source lexicon = .error fault := by
  rw [readSome, if_neg wanted]
  simp only [words_ok given, bind, Except.bind, startReadings, rejected]

theorem read_error (given : source.words = .ok words)
    (rejected : Utterance.check ⟨words, lexicon⟩ = .error fault) :
    read source lexicon = .error fault := by
  have some : words.isEmpty = false := by
    rw [List.isEmpty_eq_false_iff]
    rintro rfl
    cases rejected
  simp only [read, words_ok given, bind, Except.bind, some, startReadings, rejected]
  rfl

/-- Sentences are refused for their first word that is not recognized, and only for one. No search
would have found a reading of such a sentence. -/
theorem check_agrees_with_search (words : List Word) (lexicon : Lexicon) :
    let u : Utterance := ⟨words, lexicon⟩
    ((∃ fault, u.check = .error fault) ↔ ∃ word ∈ words, ¬IsRecognized lexicon word) ∧
      ∀ fault, u.check = .error fault →
        (∃ w place, u.IsUnrecognized w place ∧ fault = u.faultAt w place) ∧
        (∀ rules, (rules, words.length) ∉ (u.rules 0).all u.derivations) ∧
        (Readings.start u).toList = [] ∧
        ∀ source : Source, source.words = .ok words →
          readAll source lexicon = .error fault ∧ read source lexicon = .error fault := by
  intro u
  refine ⟨Utterance.exists_check_error_iff, ?_⟩
  intro fault rejected
  have unrecognized := Utterance.exists_check_error_iff.mp ⟨fault, rejected⟩
  have none := Utterance.not_mem_rules_of_unrecognized unrecognized
  refine ⟨Utterance.check_error_iff.mp rejected, none, ?_, ?_⟩
  · rw [Readings.to_list_eq, Readings.all_start, List.eq_nil_iff_forall_not_mem]
    intro rules member
    exact none rules (Utterance.mem_readings.mp member).1
  · intro source given
    exact ⟨read_all_error given rejected, read_error given rejected⟩

theorem check_agrees_with_search_malformed :
    let words : List Word := [.plain "heron", .plain "\"x:frog\"", .plain "croaks"]
    let u : Utterance := ⟨words, Lexicon.marsh⟩
    let fault : ReadingError := .malformedLiteral words "\"x:frog\"" 1
    Source.words (.text "heron \"x:frog\" croaks") = .ok words ∧ u.check = .error fault ∧
      (∀ rules, (rules, words.length) ∉ (u.rules 0).all u.derivations) ∧
      (Readings.start u).toList = [] ∧
      readAll (.text "heron \"x:frog\" croaks") Lexicon.marsh = .error fault ∧
      read (.text "heron \"x:frog\" croaks") Lexicon.marsh = .error fault := by
  intro words u fault
  have given : Source.words (.text "heron \"x:frog\" croaks") = .ok words := by cbv
  have unspelled : Literal.ofSpelling? "\"x:frog\"" = none := by cbv
  have unrecognized : ¬IsRecognized Lexicon.marsh (.plain "\"x:frog\"") := by
    intro recognized
    cases recognized with
    | keyword listed => exact absurd listed (by decide)
    | known listed => simp at listed
    | spelled spells => simp [unspelled] at spells
  have heron : IsRecognized Lexicon.marsh (.plain "heron") :=
    .known (show Lexicon.marsh.lookup "heron" .noun = true by simp)
  have first : u.IsUnrecognized "\"x:frog\"" 1 :=
    ⟨rfl, unrecognized, List.forall_mem_singleton.mpr heron⟩
  have quoted : u.faultAt "\"x:frog\"" 1 = fault := if_pos (by decide)
  have rejected := Utterance.check_error_iff.mpr ⟨_, _, first, quoted.symm⟩
  rcases (check_agrees_with_search words Lexicon.marsh).2 fault rejected with
    ⟨-, none, nothing, read⟩
  exact ⟨given, rejected, none, nothing, read _ given⟩

end Entry

end ControlledEnglish
