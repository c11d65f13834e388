import ControlledEnglish.Grammar.Progress

namespace ControlledEnglish

def Derivation.map (f : List Attr → List Attr) (d : Derivation) : Derivation :=
  ⟨f d.attrs, d.stop⟩

@[simp high] theorem Search.all_bind_pure {α β : Type} (table : Goal → List Derivation)
    (s : Search α) (f : α → β) :
    (s >>= fun result => pure (f result)).all table = (s.all table).map f := by
  rw [all_bind, List.map_eq_flatMap]
  rfl

theorem flatMap_filter {α β : Type} {p : α → Bool} {f : α → List β} {l : List α}
    (useless : ∀ a ∈ l, p a = false → f a = []) : l.flatMap f = (l.filter p).flatMap f := by
  induction l with
  | nil => rfl
  | cons a l ih =>
      have rest := ih fun b member => useless b (List.mem_cons_of_mem a member)
      rw [List.flatMap_cons, rest, List.filter_cons]
      split
      · rw [List.flatMap_cons]
      · next dropped =>
          rw [useless a List.mem_cons_self (Bool.eq_false_iff.mpr dropped), List.nil_append]

namespace Utterance

variable (u : Utterance)

theorem all_phrase (item : Phrase) (i : Nat) :
    (u.phrase item i).all u.derivations = u.derivations ⟨item, i⟩ :=
  (u.derivations_eq ⟨item, i⟩).symm

theorem all_word (category : Category) (i : Nat) :
    (u.word category i).all u.derivations = u.derivations ⟨Phrase.word category, i⟩ :=
  u.all_phrase (.word category) i

theorem all_determiner (i : Nat) :
    (u.determiner i).all u.derivations = u.derivations ⟨Phrase.determiner, i⟩ :=
  u.all_phrase .determiner i

theorem all_adverb_group (i : Nat) :
    (adverbGroup i).all u.derivations = u.derivations ⟨Phrase.adverbGroup, i⟩ :=
  u.all_phrase .adverbGroup i

theorem all_adverbs_opt (i : Nat) :
    (adverbsOpt i).all u.derivations = u.derivations ⟨Phrase.adverbsOpt, i⟩ :=
  u.all_phrase .adverbsOpt i

theorem all_adjective_phrase (i : Nat) :
    (u.adjectivePhrase i).all u.derivations = u.derivations ⟨Phrase.adjectivePhrase, i⟩ :=
  u.all_phrase .adjectivePhrase i

theorem all_relative_clause (i : Nat) :
    (u.relativeClause i).all u.derivations = u.derivations ⟨Phrase.relativeClause, i⟩ :=
  u.all_phrase .relativeClause i

theorem all_joined_opt (item : Phrase) (i : Nat) :
    (joinedOpt item i).all u.derivations = u.derivations ⟨.joinedOpt item, i⟩ :=
  (u.derivations_eq ⟨.joinedOpt item, i⟩).symm

theorem all_call (item : Phrase) (i : Nat) :
    (u.call item i).all u.derivations = u.derivations ⟨item, i⟩ := by
  rw [call]
  split
  · exact Search.all_ask ..
  · exact u.all_phrase item i

theorem derivations_determiner (i : Nat) :
    u.derivations ⟨Phrase.determiner, i⟩ =
      ⟨[], i⟩ :: if u.isKeyword i determiners then [⟨[], i + 1⟩] else [] := by
  rw [← all_determiner]
  simp [determiner]

theorem derivations_adverb_run (i : Nat) :
    u.derivations ⟨Phrase.adverbRun, i⟩ =
      (u.derivations ⟨Phrase.word .adverb, i⟩).flatMap fun first =>
        (u.derivations ⟨Phrase.adverbRun, first.stop⟩).map (.map (first.attrs ++ ·)) ++ [first] := by
  rw [derivations_eq]
  simp [search, production, phrase, adverbRun, all_word]
  rfl

theorem derivations_adverb_group (i : Nat) :
    u.derivations ⟨Phrase.adverbGroup, i⟩ =
      (u.derivations ⟨Phrase.adverbRun, i⟩).map (.map foldAdverbs) := by
  rw [← all_adverb_group]
  rw [adverbGroup, Search.all_bind_pure, Search.all_ask]
  rfl

theorem derivations_adverbs_opt (i : Nat) :
    u.derivations ⟨Phrase.adverbsOpt, i⟩ =
      u.derivations ⟨Phrase.adverbGroup, i⟩ ++ [⟨[], i⟩] := by
  rw [← all_adverbs_opt]
  simp [adverbsOpt, all_adverb_group]

theorem derivations_adjective_phrase (i : Nat) :
    u.derivations ⟨Phrase.adjectivePhrase, i⟩ =
      (u.derivations ⟨Phrase.adverbsOpt, i⟩).flatMap fun adverbs =>
        (u.derivations ⟨Phrase.word .adjective, adverbs.stop⟩).map
          (.map (attach · adverbs.attrs)) := by
  rw [← all_adjective_phrase]
  simp [adjectivePhrase, all_adverbs_opt, all_word]
  rfl

theorem derivations_adjective_phrases (i : Nat) :
    u.derivations ⟨Phrase.adjectivePhrases, i⟩ =
      ((u.derivations ⟨Phrase.adjectivePhrase, i⟩).flatMap fun first =>
        (u.derivations ⟨Phrase.adjectivePhrases, first.stop⟩).map (.map (first.attrs ++ ·))) ++ [⟨[], i⟩] := by
  rw [derivations_eq]
  simp [search, production, phrase, adjectivePhrases, all_adjective_phrase]
  rfl

theorem derivations_relative_clause (i : Nat) :
    u.derivations ⟨Phrase.relativeClause, i⟩ =
      if u.isKeyword i ["that"] then u.derivations ⟨Phrase.verbPhrase, i + 1⟩ else [] := by
  rw [← all_relative_clause]
  simp [relativeClause]

theorem derivations_noun_phrase (i : Nat) :
    u.derivations ⟨Phrase.nounPhrase, i⟩ =
      if u.isKeyword i ["it"] then [⟨[], i + 1⟩]
      else (u.derivations ⟨Phrase.determiner, i⟩).flatMap fun determiner =>
        (u.derivations ⟨Phrase.adjectivePhrases, determiner.stop⟩).flatMap fun adjectives =>
          (u.derivations ⟨Phrase.word .noun, adjectives.stop⟩).flatMap fun noun =>
            noun.map (attach · adjectives.attrs) ::
              (u.derivations ⟨Phrase.relativeClause, noun.stop⟩).map
                (.map (attach (attach noun.attrs adjectives.attrs))) := by
  rw [derivations_eq]
  simp only [search, production, phrase, nounPhrase]
  split
  · simp
  · simp [all_determiner, all_word, all_relative_clause]
    rfl

theorem derivations_joined_opt (item : Phrase) (i : Nat) :
    u.derivations ⟨.joinedOpt item, i⟩ = u.derivations ⟨.joined item, i⟩ ++ [⟨[], i⟩] := by
  rw [← all_joined_opt]
  simp [joinedOpt]

theorem derivations_verb_phrase (i : Nat) :
    u.derivations ⟨Phrase.verbPhrase, i⟩ =
      (if u.isKeyword i possessionVerbs then
        (u.derivations ⟨.joined .nounPhrase, i + 1⟩).map (.map toHasA)
      else []) ++
      (if u.isKeyword i copulas then
        u.derivations ⟨.joined .adjectivePhrase, i + 1⟩ ++ u.derivations ⟨.joined .nounPhrase, i + 1⟩
      else []) ++
      ((u.derivations ⟨.joinedOpt .adverbGroup, i⟩).flatMap fun adverbs =>
        (u.derivations ⟨Phrase.word .verb, adverbs.stop⟩).flatMap fun verb =>
          (u.derivations ⟨.joinedOpt .nounPhrase, verb.stop⟩).map
            (.map (attach verb.attrs <| adverbs.attrs ++ ·))) ++
      (u.derivations ⟨Phrase.word .verb, i⟩).flatMap fun verb =>
        (u.derivations ⟨.joined .adverbGroup, verb.stop⟩).map (.map (attach verb.attrs)) := by
  rw [derivations_eq]
  simp [search, production, phrase, verbPhrase, all_joined_opt, all_word]
  rfl

theorem derivations_sentence (i : Nat) :
    u.derivations ⟨Phrase.sentence, i⟩ =
      ((u.derivations ⟨Phrase.nounPhrase, i⟩).flatMap fun subject =>
        if subject.attrs.isEmpty then u.derivations ⟨Phrase.verbPhrase, subject.stop⟩ else []) ++
      (u.derivations ⟨Phrase.nounPhrase, i⟩).flatMap fun subject =>
        if subject.attrs.isEmpty then []
        else (u.derivations ⟨Phrase.verbPhrase, subject.stop⟩).map
          (.map (attach (toHasA subject.attrs))) := by
  rw [derivations_eq]
  simp [search, production, phrase, sentence]
  rfl

theorem derivations_joined (item : Phrase) (i : Nat) :
    u.derivations ⟨.joined item, i⟩ =
      ((u.derivations ⟨item, i⟩).flatMap fun first =>
        if u.isKeyword first.stop ["and"] then
          (u.derivations ⟨.joined item, first.stop + 1⟩).map (.map (first.attrs ++ ·))
        else []) ++
      u.derivations ⟨item, i⟩ := by
  rw [derivations_eq]
  simp [search, production, joined, all_call]
  rfl

theorem all_rules (i : Nat) :
    (u.rules i).all u.derivations =
      (if u.isKeyword i ["if"] then
        (u.derivations ⟨.joined .sentence, i + 1⟩).flatMap fun body =>
          if u.isKeyword body.stop ["then"] then
            (u.derivations ⟨.joined .sentence, body.stop + 1⟩).map fun heads =>
              (buildRules body.attrs heads.attrs, heads.stop)
          else []
      else []) ++
      ((u.derivations ⟨Phrase.sentence, i⟩).flatMap fun heads =>
        if u.isKeyword heads.stop ["if"] then
          (u.derivations ⟨.joined .sentence, heads.stop + 1⟩).map fun body =>
            (buildRules body.attrs heads.attrs, body.stop)
        else []) ++
      (u.derivations ⟨Phrase.sentence, i⟩).map fun heads =>
        (buildRules [] heads.attrs, heads.stop) := by
  simp [rules]

end Utterance

end ControlledEnglish
