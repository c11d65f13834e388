import ControlledEnglish.Proofs.Grammar.Locality
import ControlledEnglish.Proofs.Grammar.Recognized

namespace ControlledEnglish

theorem to_has_a_attach (subject predicate : List Attr) :
    toHasA (attach subject predicate) = attach (toHasA subject) predicate := by
  rw [toHasA, toHasA, attach, attach, List.map_map, List.map_map]
  apply List.map_congr_left
  intro attr _
  obtain ⟨kind, value, children⟩ := attr
  cases kind <;> rfl

namespace Utterance

variable {u : Utterance} {i : Nat} {d clause : Derivation}

theorem mem_bare_noun_phrase (unlisted : u.lexicon.knows "it" = false) {j : Nat}
    {ds vs ws : List Word} {ns as bs : List Attr}
    (determiner : Derives u.lexicon Phrase.determiner ds ns)
    (adjectives : Derives u.lexicon Phrase.adjectivePhrases vs as)
    (noun : Derives u.lexicon (Phrase.word .noun) ws bs) (spans : u.Spans i (ds ++ vs ++ ws) j) :
    ⟨attach bs as, j⟩ ∈ (u.bareNounPhrase i).all u.derivations := by
  have no_it := not_it_of_noun unlisted determiner adjectives noun spans
  obtain ⟨l, spans, noun_spans⟩ := spans.split
  obtain ⟨k, determiner_spans, adjectives_spans⟩ := spans.split
  rw [all_bare_noun_phrase, if_neg no_it]
  simp only [name, Search.all_bind, Search.all_ask, Search.all_pure, List.mem_flatMap,
    List.mem_singleton, all_determiner, all_word]
  exact ⟨_, mem_of_derives unlisted determiner determiner_spans, _,
    mem_of_derives unlisted adjectives adjectives_spans, _,
    mem_of_derives unlisted noun noun_spans, rfl⟩

theorem mem_name_of_bare (bare : d ∈ (u.bareNounPhrase i).all u.derivations) (real : d.attrs ≠ []) :
    ¬u.isKeyword i ["it"] = true ∧ d ∈ (u.name i).all u.derivations := by
  rw [all_bare_noun_phrase] at bare
  split at bare
  · rw [List.mem_singleton.mp bare] at real
    exact absurd rfl real
  · next no_it => exact ⟨no_it, bare⟩

theorem mem_noun_phrase (bare : d ∈ (u.bareNounPhrase i).all u.derivations) (real : d.attrs ≠ []) :
    d ∈ u.derivations ⟨Phrase.nounPhrase, i⟩ := by
  obtain ⟨no_it, named⟩ := mem_name_of_bare bare real
  rw [← all_phrase, phrase, all_noun_phrase, if_neg no_it]
  exact List.mem_flatMap.mpr ⟨d, named, List.mem_cons_self⟩

theorem mem_noun_phrase_clause (bare : d ∈ (u.bareNounPhrase i).all u.derivations)
    (real : d.attrs ≠ []) (that : u.isKeyword d.stop ["that"] = true)
    (given : clause ∈ u.derivations ⟨Phrase.verbPhrase, d.stop + 1⟩) :
    ⟨attach d.attrs clause.attrs, clause.stop⟩ ∈ u.derivations ⟨Phrase.nounPhrase, i⟩ := by
  obtain ⟨no_it, named⟩ := mem_name_of_bare bare real
  rw [← all_phrase, phrase, all_noun_phrase, if_neg no_it]
  refine List.mem_flatMap.mpr ⟨d, named, List.mem_cons_of_mem d ?_⟩
  rw [all_relative_clause, derivations_relative_clause, if_pos that]
  exact List.mem_map.mpr ⟨clause, given, rfl⟩

theorem mem_sentence_of_possession {w : String} {objects : Derivation}
    (it : u.words[i]? = some (.plain "it")) (verb : w ∈ possessionVerbs)
    (has : u.words[i + 1]? = some (.plain w))
    (given : objects ∈ u.derivations ⟨Phrase.nounPhrase, i + 2⟩) :
    ⟨toHasA objects.attrs, objects.stop⟩ ∈ u.derivations ⟨Phrase.sentence, i⟩ :=
  mem_sentence_of_it it (mem_possession verb has (mem_joined_of_one given))

theorem mem_readings_of_sentence {heads : List Attr}
    (given : ⟨heads, u.words.length⟩ ∈ u.derivations ⟨Phrase.sentence, 0⟩) (real : heads ≠ []) :
    buildRules [] heads ∈ u.readings := by
  refine mem_readings.mpr ⟨?_, by simpa [buildRules] using real⟩
  rw [all_rules]
  exact List.mem_append_right _ (List.mem_map.mpr ⟨_, given, rfl⟩)

end Utterance

/-- "It has" the subject "that" does so. -/
def itHas (subject predicate : List Word) : List Word :=
  .plain "it" :: .plain "has" :: subject ++ .plain "that" :: predicate

section Forms

variable {us vs : List Word} {lexicon : Lexicon} {subject predicate : List Attr}

theorem length_it_has : (itHas us vs).length = 2 + us.length + 1 + vs.length := by
  simp only [itHas, List.cons_append, List.length_cons, List.length_append]
  omega

theorem it_has_contains_subject (us vs : List Word) (lexicon : Lexicon) :
    Utterance.Contains ⟨itHas us vs, lexicon⟩ ⟨us, lexicon⟩ 2 :=
  .of_append [.plain "it", .plain "has"] (.plain "that" :: vs) rfl rfl

theorem it_has_contains_predicate (us vs : List Word) (lexicon : Lexicon) :
    Utterance.Contains ⟨itHas us vs, lexicon⟩ ⟨vs, lexicon⟩ (2 + us.length + 1) := by
  have ahead : 2 + us.length + 1 =
      (.plain "it" :: .plain "has" :: us ++ [.plain "that"] : List Word).length := by
    simp only [List.cons_append, List.length_cons, List.length_append, List.length_nil]
    omega
  rw [ahead]
  exact .of_append _ [] (by simp [itHas]) rfl

theorem that_behind_subject :
    Utterance.isKeyword ⟨itHas us vs, lexicon⟩ (2 + us.length) ["that"] = true := by
  rw [Utterance.is_keyword_singleton_iff, Nat.add_comm]
  simp [itHas]

theorem check_it_has (recognized : Utterance.check ⟨us ++ vs, lexicon⟩ = .ok ()) :
    Utterance.check ⟨itHas us vs, lexicon⟩ = .ok () := by
  rw [Utterance.check_ok_iff] at recognized ⊢
  have keyword (w : String) (listed : w ∈ keywords) :
      Utterance.recognizes ⟨itHas us vs, lexicon⟩ (.plain w) = true := by
    simp [Utterance.recognizes, listed]
  intro word member
  simp only [itHas, List.cons_append, List.mem_cons, List.mem_append] at member
  rcases member with rfl | rfl | member | rfl | member
  · exact keyword "it" (by decide)
  · exact keyword "has" (by decide)
  · exact recognized word (List.mem_append_left _ member)
  · exact keyword "that" (by decide)
  · exact recognized word (List.mem_append_right _ member)

/-- A subject at the start and what is said of it behind, each the same when it stands alone. -/
theorem found_apart
    (named : ⟨subject, us.length⟩ ∈ (Utterance.bareNounPhrase ⟨us ++ vs, lexicon⟩ 0).all
      (Utterance.derivations ⟨us ++ vs, lexicon⟩))
    (said : ⟨predicate, us.length + vs.length⟩ ∈
      Utterance.derivations ⟨us ++ vs, lexicon⟩ ⟨Phrase.verbPhrase, us.length⟩) :
    ⟨subject, us.length⟩ ∈
        (Utterance.bareNounPhrase ⟨us, lexicon⟩ 0).all (Utterance.derivations ⟨us, lexicon⟩) ∧
      ⟨predicate, vs.length⟩ ∈ Utterance.derivations ⟨vs, lexicon⟩ ⟨Phrase.verbPhrase, 0⟩ := by
  have front : Utterance.Contains ⟨us ++ vs, lexicon⟩ ⟨us, lexicon⟩ 0 :=
    .of_append [] vs rfl rfl
  have back : Utterance.Contains ⟨us ++ vs, lexicon⟩ ⟨vs, lexicon⟩ us.length :=
    .of_append us [] (by simp) rfl
  refine ⟨?_, (Utterance.mem_derivations_iff back _).mp said⟩
  apply (Utterance.mem_bare_noun_phrase_iff front).mp
  rwa [Nat.zero_add]

theorem mem_readings_of_subject (real : subject ≠ [])
    (named : ⟨subject, us.length⟩ ∈ (Utterance.bareNounPhrase ⟨us ++ vs, lexicon⟩ 0).all
      (Utterance.derivations ⟨us ++ vs, lexicon⟩))
    (said : ⟨predicate, us.length + vs.length⟩ ∈
      Utterance.derivations ⟨us ++ vs, lexicon⟩ ⟨Phrase.verbPhrase, us.length⟩) :
    buildRules [] (attach (toHasA subject) predicate) ∈ Utterance.readings ⟨us ++ vs, lexicon⟩ := by
  have phrase := Utterance.mem_noun_phrase named real
  apply Utterance.mem_readings_of_sentence
  · rw [List.length_append]
    exact Utterance.mem_sentence_of_subject phrase real said
  · simpa [attach, toHasA] using real

theorem mem_readings_it_has (real : subject ≠ [])
    (named : ⟨subject, us.length⟩ ∈
      (Utterance.bareNounPhrase ⟨us, lexicon⟩ 0).all (Utterance.derivations ⟨us, lexicon⟩))
    (said : ⟨predicate, vs.length⟩ ∈ Utterance.derivations ⟨vs, lexicon⟩ ⟨Phrase.verbPhrase, 0⟩) :
    buildRules [] (attach (toHasA subject) predicate) ∈
      Utterance.readings ⟨itHas us vs, lexicon⟩ := by
  have front := it_has_contains_subject us vs lexicon
  have back := it_has_contains_predicate us vs lexicon
  have named_inside := (Utterance.mem_bare_noun_phrase_iff front).mpr named
  have said_inside := (Utterance.mem_derivations_iff back _).mpr said
  have had := Utterance.mem_noun_phrase_clause named_inside real that_behind_subject said_inside
  have it : (itHas us vs)[0]? = some (.plain "it") := rfl
  have sentence := Utterance.mem_sentence_of_possession it (w := "has") (by decide) rfl had
  rw [to_has_a_attach] at sentence
  apply Utterance.mem_readings_of_sentence
  · dsimp only
    rwa [length_it_has]
  · simpa [attach, toHasA] using real

/-- What a sentence says of its subject is said as well of a thing that "has" the subject "that"
does so. -/
theorem subject_forms_agree {source canonical : Source}
    (given : source.words = .ok (us ++ vs)) (restated : canonical.words = .ok (itHas us vs))
    (recognized : Utterance.check ⟨us ++ vs, lexicon⟩ = .ok ()) (real : subject ≠ [])
    (named : ⟨subject, us.length⟩ ∈ (Utterance.bareNounPhrase ⟨us ++ vs, lexicon⟩ 0).all
      (Utterance.derivations ⟨us ++ vs, lexicon⟩))
    (said : ⟨predicate, us.length + vs.length⟩ ∈
      Utterance.derivations ⟨us ++ vs, lexicon⟩ ⟨Phrase.verbPhrase, us.length⟩) :
    ∃ readings others, readAll source lexicon = .ok readings ∧
      readAll canonical lexicon = .ok others ∧
      (attach (toHasA subject) predicate).map (fun head => ⟨head, []⟩) ∈ readings ∧
      (attach (toHasA subject) predicate).map (fun head => ⟨head, []⟩) ∈ others := by
  obtain ⟨named_alone, said_alone⟩ := found_apart named said
  exact ⟨_, _, read_all_ok given recognized, read_all_ok restated (check_it_has recognized),
    mem_readings_of_subject real named said, mem_readings_it_has real named_alone said_alone⟩

theorem subject_forms_agree_with_determiners :
    let eats : Attr := ⟨.hasA, "heron", [⟨.does, "eats", [⟨.isA, "frog", []⟩]⟩]⟩
    ∃ readings others, readAll (.text "the heron eats a frog") Lexicon.marsh = .ok readings ∧
      readAll (.text "it has the heron that eats a frog") Lexicon.marsh = .ok others ∧
      [⟨eats, []⟩] ∈ readings ∧ [⟨eats, []⟩] ∈ others := by
  intro eats
  have given : Source.words (.text "the heron eats a frog") =
      .ok (plain ["the", "heron"] ++ plain ["eats", "a", "frog"]) := by cbv
  have restated : Source.words (.text "it has the heron that eats a frog") =
      .ok (itHas (plain ["the", "heron"]) (plain ["eats", "a", "frog"])) := by cbv
  have recognized : Utterance.check
      ⟨plain ["the", "heron"] ++ plain ["eats", "a", "frog"], Lexicon.marsh⟩ = .ok () :=
    Lexicon.marsh_check ["the", "heron", "eats", "a", "frog"] (by decide)
  have frog := Lexicon.marsh_noun (w := "frog") (by simp) (.determiner (w := "a") (by decide))
  have eat_frog := Lexicon.marsh_eats (.items (.single frog))
  have named := Utterance.mem_bare_noun_phrase (i := 0) (j := 2)
    (u := ⟨plain ["the", "heron"] ++ plain ["eats", "a", "frog"], Lexicon.marsh⟩)
    Lexicon.marsh_clean.unlisted_it (.determiner (w := "the") (by decide)) .noAdjectives
    (Lexicon.marsh_word (w := "heron") (by simp)) ⟨rfl, rfl⟩
  have said := Utterance.mem_of_derives (i := 2) (j := 5)
    (u := ⟨plain ["the", "heron"] ++ plain ["eats", "a", "frog"], Lexicon.marsh⟩)
    Lexicon.marsh_clean.unlisted_it eat_frog ⟨rfl, rfl⟩
  exact subject_forms_agree given restated recognized (by simp [attach]) named said

end Forms

end ControlledEnglish
