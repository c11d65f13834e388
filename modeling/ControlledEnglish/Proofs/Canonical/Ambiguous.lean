import ControlledEnglish.Proofs.Canonical.Unique

namespace ControlledEnglish

namespace Canonical

variable {lexicon : Lexicon}

namespace Group

theorem derives_it (group : Group lexicon) :
    Derives lexicon (.joined .nounPhrase) (plain group.words ++ [.plain "and", .plain "it"])
      group.attrs := by
  have nothing : Derives lexicon (.joined .nounPhrase) [.plain "it"] [] := .single .it
  induction group with
  | one leaf => simpa [words, attrs] using Derives.several leaf.derives nothing
  | more leaf rest ih => simpa [words, attrs] using Derives.several leaf.derives ih
  | nested name head objects =>
      have phrase := name.derives_clause (head.derives objects.derives)
      simpa [words, attrs] using Derives.several phrase nothing
  | nestedMore name head objects rest _ ih =>
      have phrase := name.derives_clause (head.derives objects.derives)
      simpa [words, attrs] using Derives.several phrase ih

theorem IsRow.exists_split {group : Group lexicon} (row : group.IsRow) (no_chain : ¬group.IsChain)
    (not_flat : ¬group.IsFlat) :
    ∃ (front objects : Group lexicon) (name : Name lexicon) (head : Head lexicon),
      group.words = front.words ++ "and" :: (nested name head objects).words ∧
        group.attrs = front.attrs ++ (nested name head objects).attrs := by
  induction group with
  | one leaf => exact absurd trivial no_chain
  | nested name head objects => exact absurd row no_chain
  | nestedMore => exact absurd row id
  | more leaf rest ih =>
      cases leaf with
      | acting => exact absurd row id
      | bare name =>
          cases rest with
          | one leaf => exact absurd trivial not_flat
          | nested last head objects =>
              exact ⟨one (.bare name), objects, last, head, rfl, rfl⟩
          | nestedMore => exact absurd row id
          | more next others =>
              obtain ⟨front, objects, last, head, words_eq, attrs_eq⟩ := ih row id not_flat
              refine ⟨more (.bare name) front, objects, last, head, ?_, ?_⟩
              · rw [words, words_eq, words, List.append_assoc, List.cons_append]
              · rw [attrs, attrs_eq, attrs, List.cons_append]

end Group

/-- The objects before the last are objects too, and the last can be a subject. -/
theorem Predicate.exists_split {predicate : Predicate lexicon} (row : predicate.IsRow)
    (not_firm : ¬predicate.IsFirm) :
    ∃ (front : Predicate lexicon) (subject : List Word) (noun : Attr),
      plain predicate.words = plain front.words ++ .plain "and" :: subject ∧
      Derives lexicon Phrase.nounPhrase (subject ++ [.plain "and", .plain "it"]) [noun] ∧
      ∀ as bs, front.attrs ++ as ≠ predicate.attrs ++ bs := by
  cases predicate with
  | like | acting => exact absurd trivial not_firm
  | nested head group =>
      obtain ⟨no_chain, not_flat⟩ := not_or.mp not_firm
      cases head with
      | has | is => exact absurd row no_chain
      | does action =>
          obtain ⟨front, objects, name, head, words_eq, attrs_eq⟩ :=
            row.exists_split no_chain not_flat
          have phrase := name.derives_clause (head.derives objects.derives_it)
          refine ⟨nested (.does action) front, plain (Group.nested name head objects).words, _, ?_,
            by simpa [Group.words] using phrase, fun as bs same => ?_⟩
          · simp [words, words_eq]
          · have first := (List.cons.inj same).1
            have objects_eq := List.append_cancel_left (Attr.mk.inj first).2.2
            have lengths := congrArg List.length (objects_eq.trans attrs_eq)
            simp [Group.attrs] at lengths

theorem said_otherwise {predicates : List (Predicate lexicon)}
    (rows : ∀ predicate ∈ predicates, predicate.IsRow)
    (loose : ∃ predicate ∈ predicates.dropLast, ¬predicate.IsFirm) :
    ∃ attrs, attrs ≠ saidAttrs predicates ∧
      Derives lexicon (.joined .sentence) (plain (saidWords predicates)) attrs := by
  induction predicates with
  | nil =>
      obtain ⟨predicate, member, -⟩ := loose
      cases member
  | cons first rest ih =>
      obtain ⟨first_row, rest_rows⟩ := List.forall_mem_cons.mp rows
      cases rest with
      | nil =>
          obtain ⟨predicate, member, -⟩ := loose
          cases member
      | cons next rest =>
          rw [said_words_cons_cons, said_attrs_cons, plain_append, plain_cons, plain_cons]
          by_cases firm : first.IsFirm
          · have rest_loose : ∃ predicate ∈ (next :: rest).dropLast, ¬predicate.IsFirm := by
              obtain ⟨predicate, member, not_firm⟩ := loose
              rcases List.mem_cons.mp member with rfl | member
              · exact absurd firm not_firm
              · exact ⟨predicate, member, not_firm⟩
            obtain ⟨attrs, differ, derives⟩ := ih rest_rows rest_loose
            exact ⟨_, fun same => differ (List.append_cancel_left same),
              .several first.derives_sentence derives⟩
          · obtain ⟨front, subject, noun, words, phrase, differ⟩ :=
              Predicate.exists_split first_row firm
            have other := Derives.subject phrase (by simp) next.derives
            obtain ⟨others, derives⟩ : ∃ others, Derives lexicon (.joined .sentence)
                (subject ++ .plain "and" :: plain (saidWords (next :: rest))) others := by
              cases rest with
              | nil => exact ⟨_, by simpa using Derives.single other⟩
              | cons last rest =>
                  have joined := Derives.several other (said_derives (List.cons_ne_nil last rest))
                  exact ⟨_, by simpa using joined⟩
            refine ⟨_, differ others _, ?_⟩
            simpa [words] using Derives.several front.derives_sentence derives

end Canonical

open Canonical

namespace Utterance

variable {u : Utterance} {sentence : Sentence u.lexicon}

/-- A row has one reading if and only if all of its conditions but the last are firm. -/
theorem readings_eq_singleton_iff (clean : u.lexicon.IsClean)
    (words : u.words = plain sentence.words) (some : sentence.conclusion.attrs ≠ [])
    (rows : ∀ predicate ∈ sentence.conditions, predicate.IsRow)
    (row : sentence.conclusion.IsRow) :
    u.readings = [sentence.rules] ↔
      ∀ predicate ∈ sentence.conditions.dropLast, predicate.IsFirm := by
  have nonempty (body : List Attr) : buildRules body sentence.conclusion.attrs ≠ [] :=
    mt List.map_eq_nil_iff.mp some
  refine ⟨fun same => ?_, readings_exact clean words (nonempty _) rows row⟩
  by_contra loose
  simp only [not_forall] at loose
  obtain ⟨predicate, member, not_firm⟩ := loose
  obtain ⟨attrs, differ, derives⟩ := said_otherwise rows ⟨predicate, member, not_firm⟩
  have other : DerivesRules u.lexicon u.words (buildRules attrs sentence.conclusion.attrs) := by
    obtain ⟨conditions, conclusion⟩ := sentence
    cases conditions with
    | nil => cases member
    | cons first rest =>
        have conclusions := Derives.single conclusion.derives_sentence
        have derives := DerivesRules.conditional derives conclusions
        simpa [words, Sentence.words] using derives
  have found := (mem_readings_iff clean.unlisted_it).mpr ⟨nonempty attrs, other⟩
  rw [same, List.mem_singleton] at found
  obtain ⟨claim, claims, heads⟩ := List.exists_cons_of_ne_nil some
  rw [Sentence.rules, heads] at found
  exact differ (Rule.mk.inj (List.cons.inj found).1).2

end Utterance

end ControlledEnglish
