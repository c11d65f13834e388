import ControlledEnglish.Proofs.Canonical.Aligned
import ControlledEnglish.Proofs.Canonical.Glossed
import ControlledEnglish.Proofs.Canonical.Worded

/-! Glosses that are read as what they gloss.

Whoever derives the attributes of a gloss from the gloss itself has derived canonical phrases: the
words come in the order of the gloss, in which no clause is a likeness, manners stand before their
verb, and "has" is said again for every object. -/

namespace ControlledEnglish

namespace Canonical

open Gloss (andJoined phrase parts clauses)

variable {lexicon : Lexicon} {vs ws : List Word} {as bs : List Attr}

theorem AreUsed.worded {production : Production} (clean : lexicon.IsClean)
    (used : AreUsed lexicon vs) (h : Derives lexicon production vs as) :
    ∀ a ∈ as, a.IsWorded lexicon := by
  apply h.worded
  intro w member
  rcases used w member with ⟨word, rfl, used⟩
  exact ⟨word, rfl, used.bare clean.writable⟩

inductive NounCase (lexicon : Lexicon) : List Word → Attr → Prop where
  | bare (name : Name lexicon) : NounCase lexicon (plain name.words) (name.attr [])
  | clause (name : Name lexicon) {ws bs} (clause : VerbCase lexicon ws bs) :
      NounCase lexicon (plain name.words ++ .plain "that" :: ws) (name.attr bs)

def Name.liked (name : Name lexicon) (qualities : List (Quality lexicon)) : Name lexicon :=
  ⟨name.qualities ++ qualities, name.noun⟩

theorem Name.attr_likes (name : Name lexicon) (qualities : List (Quality lexicon)) :
    name.attr (qualities.map Quality.attr) = (name.liked qualities).attr [] := by
  simp [Name.attr, Name.liked]

theorem last_of_joined_qualities {qualities : List (Quality lexicon)} (some : qualities ≠ []) :
    ∃ w : Listed lexicon .adjective,
      (andJoined (qualities.map Quality.words)).getLast? = .some w.text := by
  induction qualities with
  | nil => exact absurd rfl some
  | cons first rest ih =>
      cases rest with
      | nil =>
          refine ⟨first.adjective, ?_⟩
          rw [List.map_singleton, and_joined_singleton, Quality.words, List.getLast?_concat]
      | cons next others =>
          rcases ih (List.cons_ne_nil _ _) with ⟨w, last⟩
          refine ⟨w, ?_⟩
          rw [List.map_cons, List.map_cons, and_joined_cons_cons, List.getLast?_append,
            List.getLast?_cons, ← List.map_cons, last]
          rfl

def Recovered (lexicon : Lexicon) (vs : List Word) (as : List Attr) : Prop :=
  ∃ group : Group lexicon, group.IsGlossed ∧ vs = plain group.words ∧ as = group.attrs

section Clean

variable (clean : lexicon.IsClean)

include clean

theorem Listed.is_content {category : Category} (w : Listed lexicon category) :
    (Word.plain w.text).isContent = true := by
  simp [Word.isContent, clean.no_keyword _ _ w.listed]

theorem Listed.text_ne {category other : Category} (w : Listed lexicon category)
    (v : Listed lexicon other) (differ : category ≠ other) : w.text ≠ v.text := by
  intro same
  exact differ (clean.alone w.text category other w.listed (same ▸ v.listed))

theorem recover_noun_case {a : Attr} (h : Derives lexicon Phrase.nounPhrase vs [a])
    (used : AreUsed lexicon vs) : NounCase lexicon vs a := by
  rcases recover_noun clean h used with ⟨name, cases⟩
  rcases cases with ⟨rfl, same⟩ | ⟨ws, bs, rfl, clause, same⟩
  · cases same
    exact .bare name
  · cases same
    exact .clause name (recover_verb clean clause (are_used_append.mp used).2.of_cons)

theorem not_like {name : Name lexicon} {qualities : List (Quality lexicon)} (some : qualities ≠ [])
    (front : List Word) {words : List String}
    (same : front ++ (plain name.words ++ .plain "that" :: .plain "is" ::
      plain (andJoined (qualities.map Quality.words))) = plain words)
    (ends : words.getLast? = .some name.noun.text) : False := by
  rcases last_of_joined_qualities some with ⟨w, last⟩
  have both := congrArg List.getLast? same
  simp only [plain, List.getLast?_append, List.getLast?_cons, List.getLast?_map, last, ends,
    Option.map_some, Option.getD_some, Option.some_or] at both
  exact w.text_ne clean name.noun (by decide) (Word.plain.inj (Option.some.inj both))

theorem not_behind {manners : List (Manner lexicon)} {verb : Listed lexicon .verb}
    (some : manners ≠ []) :
    plain (verb.text :: mannerWords manners) ≠ plain (Action.words ⟨manners, verb⟩) := by
  intro same
  rcases List.exists_cons_of_ne_nil some with ⟨first, rest, rfl⟩
  rcases manner_words_cons first rest with ⟨w, ws, words⟩
  rw [Action.words, words, List.cons_append, plain_cons, plain_cons] at same
  exact verb.text_ne clean w (by decide) (Word.plain.inj (List.cons.inj same).1)

theorem divided_nouns {first : Attr}
    (noun : Derives lexicon Phrase.nounPhrase vs [first]) (used : AreUsed lexicon vs)
    (others : Derives lexicon (.joined .nounPhrase) ws as) (others_used : AreUsed lexicon ws)
    {front back : List String} (size : (plain front).countP Word.isContent = first.size)
    (same : vs ++ .plain "and" :: ws = plain (front ++ "and" :: back)) :
    vs = plain front ∧ ws = plain back := by
  apply divided_alike
  · rw [same, plain_append]
    rfl
  · rw [noun.content_eq clean.avoids, size]
    rfl
  · exact noun.ends_content clean rfl used (noun.ne_nil rfl)
  · exact (others.joined_starts fun _ _ h => h.noun_phrase_starts clean).content clean others_used

omit clean in
theorem exists_joined_append (first : List String) (parts : List (List String)) :
    ∃ rest, andJoined (first :: parts) = first ++ rest := by
  cases parts with
  | nil => exact ⟨[], by rw [and_joined_singleton, List.append_nil]⟩
  | cons next parts => exact ⟨_, and_joined_cons_cons ..⟩

omit clean in
theorem exists_phrase_had {a : Attr} (noun : a.kind = .isA) :
    ∃ rest, phrase a.toHasA = "that" :: "has" :: rest := by
  rcases a with ⟨kind, value, children⟩
  cases noun
  exact ⟨_, rfl⟩

theorem recover_had {objects : List Attr}
    (given : Derives lexicon (.joined .nounPhrase) ws objects) (used : AreUsed lexicon ws)
    (same : .plain "that" :: .plain "has" :: ws = plain (andJoined ((toHasA objects).map phrase))) :
    ∃ object, objects = [object] ∧ Derives lexicon Phrase.nounPhrase ws [object] := by
  have kinds := given.kind_mem
  cases given with
  | single one =>
      rcases one.noun_phrase_attrs with rfl | ⟨object, rfl⟩
      · exact absurd rfl (one.attrs_ne_nil clean rfl used (one.ne_nil rfl))
      · exact ⟨object, rfl, one⟩
  | @several _ v r as bs first rest =>
      exfalso
      rcases are_used_append.mp used with ⟨first_used, rest_used⟩
      have rest_used := rest_used.of_cons
      have some := rest.attrs_ne_nil clean rfl rest_used (rest.ne_nil rfl)
      rcases first.noun_phrase_attrs with rfl | ⟨object, rfl⟩
      · exact first.attrs_ne_nil clean rfl first_used (first.ne_nil rfl) rfl
      rcases List.exists_cons_of_ne_nil some with ⟨next, others, rfl⟩
      have object_noun : object.kind = .isA := List.mem_singleton.mp (kinds _ (by simp))
      have next_noun : next.kind = .isA := List.mem_singleton.mp (kinds _ (by simp))
      rcases exists_phrase_had object_noun with ⟨front, object_words⟩
      rcases exists_phrase_had next_noun with ⟨back, next_words⟩
      have worded := worded_to_has_a (first_used.worded clean first)
      have size := Gloss.content_phrase clean _ (List.forall_mem_singleton.mp worded)
      rw [object_words, Gloss.count_keyword (by decide), Gloss.count_keyword (by decide),
        Attr.size_to_has_a] at size
      rcases exists_joined_append ("that" :: "has" :: back) ((toHasA others).map phrase) with
        ⟨tail, joined⟩
      -- The second of two objects would have a "that" of its own where the words have a noun.
      have said : andJoined ((toHasA ([object] ++ next :: others)).map phrase) =
          "that" :: "has" :: (front ++ "and" :: "that" :: "has" :: (back ++ tail)) := by
        rw [toHasA, List.map_append, List.map_append, List.map_singleton, List.map_singleton,
          List.map_cons, List.map_cons, List.singleton_append, and_joined_cons_cons, object_words,
          next_words, ← toHasA, joined]
        rfl
      rw [said] at same
      have inner := (List.cons.inj (List.cons.inj same).2).2
      have behind := (divided_nouns clean first first_used rest rest_used size inner).2
      rcases (rest.joined_starts fun _ _ h => h.noun_phrase_starts clean).content clean rest_used
        with ⟨w, head, content⟩
      rw [behind] at head
      cases head
      exact absurd content (by decide)

omit clean in
theorem Name.phrase_had_eq (name : Name lexicon) {clause : List Attr}
    (behind : ∀ a ∈ clause, a.kind ∉ Gloss.modifiers) :
    phrase (name.attr clause).toHasA = "that" :: "has" ::
      (andJoined (name.qualities.map Quality.words) ++ name.noun.text :: clauses (parts clause)) := by
  have before : ∀ a ∈ name.qualities.map Quality.attr, a.kind ∈ Gloss.modifiers :=
    fun a member => by simp [qualities_kind _ a member, Gloss.modifiers]
  have words : (name.qualities.map Quality.attr).map phrase = name.qualities.map Quality.words := by
    rw [List.map_map]
    exact List.map_congr_left fun quality _ => quality.phrase_attr
  have had : (name.attr clause).toHasA =
      ⟨.hasA, name.noun.text, name.qualities.map Quality.attr ++ clause⟩ := rfl
  rw [had, phrase]
  simp only [Gloss.phraseOf]
  rw [Gloss.among_append before behind, Gloss.filter_not_mem_append before behind, words]
  simp

theorem few_of_had {name : Name lexicon} {clause : List Attr} {tail : List Word}
    (behind : ∀ a ∈ clause, a.kind ∉ Gloss.modifiers)
    (same : .plain "that" :: .plain "has" :: (plain name.words ++ tail) =
      plain (phrase (name.attr clause).toHasA)) : name.qualities.length ≤ 1 := by
  rw [name.phrase_had_eq behind] at same
  rcases name with ⟨qualities, noun⟩
  rcases qualities with _ | ⟨first, _ | ⟨next, others⟩⟩
  · exact Nat.zero_le 1
  · exact Nat.le_refl 1
  · exfalso
    simp only [List.map_cons, and_joined_cons_cons, Name.words, qualityWords, List.flatMap_cons,
      plain_append, plain_cons, List.append_assoc, List.cons_append, List.cons.injEq,
      true_and] at same
    have rest := List.append_cancel_left same
    rcases next.first_word with ⟨category, -, w, words, starts⟩
    rw [starts] at rest
    have joint : w.text = "and" := Word.plain.inj (List.cons.inj rest).1
    exact clean.no_keyword w.text category w.listed (joint ▸ by decide)

omit clean in
theorem VerbCase.like_or (h : VerbCase lexicon ws bs) :
    (∃ qualities : List (Quality lexicon), qualities ≠ [] ∧
      ws = .plain "is" :: plain (andJoined (qualities.map Quality.words)) ∧
      bs = qualities.map Quality.attr) ∨ ∀ b ∈ bs, b.kind ∉ Gloss.modifiers := by
  have noun {ws : List Word} {nouns : List Attr}
      (given : Derives lexicon (.joined .nounPhrase) ws nouns) : ∀ a ∈ nouns, a.kind = .isA :=
    given.kind_eq rfl
  have acting (action : Action lexicon) (objects : List Attr) :
      ∀ b ∈ [action.attr objects], b.kind ∉ Gloss.modifiers :=
    List.forall_mem_singleton.mpr (by simp [Action.attr, Listed.attr, Category.kind, Gloss.modifiers])
  cases h with
  | like some => exact .inl ⟨_, some, rfl, rfl⟩
  | has given => exact .inr ((@Head.has lexicon).attrs_kind (noun given))
  | is given => exact .inr ((@Head.is lexicon).attrs_kind (noun given))
  | acts action => exact .inr (acting action _)
  | actsOn action given => exact .inr (acting action _)
  | behind verb some => exact .inr (acting _ _)

theorem gloss_of_had {object : Attr} (given : NounCase lexicon ws object)
    (same : .plain "that" :: .plain "has" :: ws = plain (phrase object.toHasA)) :
    ws = plain (phrase object) := by
  have glossed {name : Name lexicon} {clause : List Attr} {tail : List Word}
      (behind : ∀ a ∈ clause, a.kind ∉ Gloss.modifiers)
      (same : .plain "that" :: .plain "has" :: (plain name.words ++ tail) =
        plain (phrase (name.attr clause).toHasA)) :
      plain name.words ++ tail = plain (phrase (name.attr clause)) := by
    rw [Name.phrase_had (few_of_had clean behind same) behind] at same
    exact (List.cons.inj (List.cons.inj same).2).2
  cases given with
  | bare name =>
      rw [← List.append_nil (plain name.words)] at same ⊢
      exact glossed (List.forall_mem_nil _) same
  | @clause name ws bs clause =>
      rcases clause.like_or with ⟨qualities, some, rfl, rfl⟩ | behind
      · exfalso
        rw [name.attr_likes, Name.phrase_had_eq _ (List.forall_mem_nil _)] at same
        refine not_like clean some [.plain "that", .plain "has"] same ?_
        rw [Gloss.clauses_of_none, ← List.cons_append, ← List.cons_append, List.getLast?_concat]
        rfl
      · exact glossed behind same

omit clean in
theorem Group.single_of_attrs {group : Group lexicon} {a : Attr} (same : [a] = group.attrs) :
    group.IsSingle ∧ a = group.name.attr group.clause := by
  have single : group.IsSingle := by
    cases group with
    | one | nested => trivial
    | more leaf rest => exact rest.attrs_ne_nil (List.cons.inj same).2.symm
    | nestedMore name head objects rest => exact rest.attrs_ne_nil (List.cons.inj same).2.symm
  refine ⟨single, ?_⟩
  rw [group.attrs_of_single single] at same
  exact (List.cons.inj same).1

omit clean in
theorem Group.words_eq (group : Group lexicon) :
    ∃ rest, group.words = group.name.words ++ rest := by
  cases group with
  | one leaf =>
      cases leaf with
      | bare name => exact ⟨[], (List.append_nil _).symm⟩
      | acting name action => exact ⟨_, rfl⟩
  | more leaf rest =>
      cases leaf with
      | bare name => exact ⟨_, rfl⟩
      | acting name action => exact ⟨_, List.append_assoc ..⟩
  | nested name head objects => exact ⟨_, rfl⟩
  | nestedMore name head objects rest => exact ⟨_, List.append_assoc ..⟩

omit clean in
theorem Group.not_identity {group : Group lexicon} {claim : Attr} (single : group.IsSingle)
    (glossed : group.IsGlossed) (attrs : [claim] = group.attrs)
    (said : Gloss.sentence? claim = some ("it" :: "is" :: group.words)) : ¬group.IsIdentity := by
  intro identity
  cases group with
  | one | more => exact identity
  | nestedMore => exact single
  | nested name head objects =>
      cases head with
      | does | has => exact identity
      | is =>
          cases attrs
          have behind := (@Head.is lexicon).attrs_kind objects.attrs_kind
          have same := (name.sentence_attr behind).2
          rw [said, Head.attrs, Group.phrases_attrs glossed.2, Option.some.injEq] at same
          have lengths := congrArg List.length same
          simp only [Group.words, Head.words, List.length_cons, List.length_append,
            List.length_nil] at lengths
          omega

theorem recover_clause {name : Name lexicon} (given : VerbCase lexicon ws bs)
    (used : AreUsed lexicon ws)
    (recover : ∀ us cs, us.length ≤ ws.length → AreUsed lexicon us →
      Derives lexicon (.joined .nounPhrase) us cs → us = plain (andJoined (cs.map phrase)) →
      Recovered lexicon us cs)
    (same : plain name.words ++ .plain "that" :: ws = plain (phrase (name.attr bs))) :
    Recovered lexicon (plain name.words ++ .plain "that" :: ws) [name.attr bs] := by
  rcases given.like_or with ⟨qualities, some, rfl, rfl⟩ | behind
  · exfalso
    rw [name.attr_likes, Name.phrase_bare] at same
    refine not_like clean some [] same ?_
    rw [Name.words, List.getLast?_concat]
    rfl
  rw [name.phrase_attr behind, plain_append] at same
  have clause_words := List.append_cancel_left same
  -- With the objects of a clause recovered, the noun and its clause are a group.
  have nested {head : Head lexicon} {us : List Word} {objects : Group lexicon}
      (shared : head.IsShared objects) (glossed : objects.IsGlossed)
      (objects_words : us = plain objects.words) :
      Recovered lexicon (plain name.words ++ .plain "that" :: (plain head.words ++ us))
        [name.attr (head.attrs objects.attrs)] := by
    refine ⟨.nested name head objects, ⟨shared, glossed⟩, ?_, rfl⟩
    rw [objects_words, Group.words, plain_append, plain_cons, plain_append]
  cases given with
  | @like qualities some =>
      rcases List.exists_mem_of_ne_nil _ some with ⟨quality, member⟩
      exact absurd (List.mem_cons_self : Kind.isLike ∈ _) (behind _ (List.mem_map_of_mem member))
  | @has ws objects given =>
      have nouns := given.kind_eq rfl
      rw [Gloss.clauses_of_no_nouns fun a member => by
        rw [kind_to_has_a nouns a member]
        decide] at clause_words
      rcases recover_had clean given used.of_cons clause_words with ⟨object, rfl, noun⟩
      rw [toHasA, List.map_singleton, List.map_singleton, and_joined_singleton] at clause_words
      have words := gloss_of_had clean (recover_noun_case clean noun used.of_cons) clause_words
      rcases recover _ _ (Nat.le_succ _) used.of_cons given (by
        rw [List.map_singleton, and_joined_singleton, words]) with ⟨group, glossed, group_words, same⟩
      rcases Group.single_of_attrs same with ⟨single, rfl⟩
      rcases group.words_eq with ⟨rest, starts⟩
      have few : group.name.qualities.length ≤ 1 := by
        apply few_of_had clean group.clause_kind
        rw [← clause_words, group_words, starts, plain_append]
      rw [same]
      exact @nested .has _ _ ⟨single, few⟩ glossed group_words
  | @is ws nouns given =>
      have kinds := given.kind_eq rfl
      have some := given.attrs_ne_nil clean rfl used.of_cons (given.ne_nil rfl)
      rw [Gloss.clauses_of_nouns kinds some] at clause_words
      rcases recover _ _ (Nat.le_succ _) used.of_cons given
        (List.cons.inj (List.cons.inj clause_words).2).2 with ⟨group, glossed, group_words, rfl⟩
      exact @nested .is _ _ trivial glossed group_words
  | acts action =>
      refine ⟨.one (.acting name action), trivial, ?_, rfl⟩
      rw [Group.words, Leaf.words, plain_append, plain_cons]
  | @actsOn action ws objects given =>
      have kinds := given.kind_eq rfl
      have does : (action.attr objects).kind ≠ .isA := by rintro ⟨⟩
      rw [Gloss.clauses_singleton does, action.phrase_attr kinds, plain_cons,
        plain_append] at clause_words
      have objects_words := List.append_cancel_left (List.cons.inj clause_words).2
      rcases recover _ _ (by simp) (are_used_append.mp used).2 given objects_words with
        ⟨group, glossed, group_words, rfl⟩
      exact @nested (.does action) _ _ trivial glossed group_words
  | @behind manners verb some =>
      have said := Action.phrase_attr ⟨manners, verb⟩ (List.forall_mem_nil _)
      rw [List.map_nil, and_joined_nil, List.append_nil] at said
      have does : (Action.attr ⟨manners, verb⟩ []).kind ≠ .isA := by rintro ⟨⟩
      rw [Gloss.clauses_singleton does, said, plain_cons] at clause_words
      exact absurd (List.cons.inj clause_words).2 (not_behind clean some)

/-- Whoever derives the attributes of a gloss from the gloss itself has derived a canonical group. -/
theorem recover_group (given : Derives lexicon (.joined .nounPhrase) vs as)
    (used : AreUsed lexicon vs) (same : vs = plain (andJoined (as.map phrase))) :
    Recovered lexicon vs as := by
  induction length : vs.length using Nat.strong_induction_on generalizing vs as with
  | h n ih =>
      have one {us : List Word} {a : Attr} (short : us.length ≤ n)
          (noun : Derives lexicon Phrase.nounPhrase us [a]) (used : AreUsed lexicon us)
          (same : us = plain (phrase a)) : Recovered lexicon us [a] := by
        cases recover_noun_case clean noun used with
        | bare name => exact ⟨.one (.bare name), trivial, rfl, rfl⟩
        | @clause name ws bs clause =>
            apply recover_clause clean clause (are_used_append.mp used).2.of_cons _ same
            intro us cs shorter used given same
            apply ih us.length _ given used same rfl
            rw [List.length_append, List.length_cons] at short
            omega
      have some := given.attrs_ne_nil clean rfl used (given.ne_nil rfl)
      cases given with
      | single noun =>
          rcases noun.noun_phrase_attrs with rfl | ⟨a, rfl⟩
          · exact absurd rfl some
          · rw [List.map_singleton, and_joined_singleton] at same
            exact one length.le noun used same
      | @several _ v r as bs first rest =>
          rcases are_used_append.mp used with ⟨first_used, rest_used⟩
          have rest_used := rest_used.of_cons
          have first_some := first.attrs_ne_nil clean rfl first_used (first.ne_nil rfl)
          have rest_some := rest.attrs_ne_nil clean rfl rest_used (rest.ne_nil rfl)
          rcases first.noun_phrase_attrs with rfl | ⟨a, rfl⟩
          · exact absurd rfl first_some
          have joined : andJoined (([a] ++ bs).map phrase) =
              phrase a ++ "and" :: andJoined (bs.map phrase) := by
            rcases List.exists_cons_of_ne_nil rest_some with ⟨next, others, rfl⟩
            exact and_joined_cons_cons ..
          have worded := List.forall_mem_singleton.mp (first_used.worded clean first)
          rw [joined] at same
          rcases divided_nouns clean first first_used rest rest_used
            (Gloss.content_phrase clean a worded) same with ⟨first_words, rest_words⟩
          rw [List.length_append, List.length_cons] at length
          rcases one (by omega) first first_used first_words with
            ⟨group, glossed, group_words, attrs⟩
          rcases ih r.length (by omega) rest rest_used rest_words rfl with
            ⟨others, others_glossed, others_words, others_attrs⟩
          refine ⟨group.append others, ?_, ?_, ?_⟩
          · exact glossed.append others_glossed
          · rw [group.words_append, plain_append, plain_cons, ← group_words, ← others_words]
          · rw [group.attrs_append, ← attrs, ← others_attrs]

theorem noun_of_joined {a : Attr} (given : Derives lexicon (.joined .nounPhrase) vs [a])
    (used : AreUsed lexicon vs) : Derives lexicon Phrase.nounPhrase vs [a] := by
  generalize alone : [a] = as at given
  cases given with
  | single one => exact one
  | several first rest =>
      rcases are_used_append.mp used with ⟨first_used, rest_used⟩
      have first_some := first.attrs_ne_nil clean rfl first_used (first.ne_nil rfl)
      have rest_some := rest.attrs_ne_nil clean rfl rest_used.of_cons (rest.ne_nil rfl)
      rcases List.append_eq_singleton_iff.mp alone.symm with ⟨none, -⟩ | ⟨-, none⟩
      · exact absurd none first_some
      · exact absurd none rest_some

theorem exists_first_name (given : Derives lexicon (.joined .nounPhrase) vs as)
    (used : AreUsed lexicon vs) : ∃ (name : Name lexicon) (clause rest : List Attr),
      as = name.attr clause :: rest ∧ ∀ a ∈ clause, a.kind ∉ Gloss.modifiers := by
  have one {us : List Word} {cs : List Attr} (noun : Derives lexicon Phrase.nounPhrase us cs)
      (used : AreUsed lexicon us) : ∃ (name : Name lexicon) (clause : List Attr),
        cs = [name.attr clause] ∧ ∀ a ∈ clause, a.kind ∉ Gloss.modifiers := by
    rcases noun.noun_phrase_attrs with rfl | ⟨a, rfl⟩
    · exact absurd rfl (noun.attrs_ne_nil clean rfl used (noun.ne_nil rfl))
    · cases recover_noun_case clean noun used with
      | bare name => exact ⟨name, [], rfl, List.forall_mem_nil _⟩
      | clause name clause =>
          rcases clause.like_or with ⟨qualities, -, -, rfl⟩ | behind
          · exact ⟨name.liked qualities, [], by rw [name.attr_likes], List.forall_mem_nil _⟩
          · exact ⟨name, _, rfl, behind⟩
  cases given with
  | single noun =>
      rcases one noun used with ⟨name, clause, rfl, behind⟩
      exact ⟨name, clause, [], rfl, behind⟩
  | several first rest =>
      rcases one first (are_used_append.mp used).1 with ⟨name, clause, rfl, behind⟩
      exact ⟨name, clause, _, rfl, behind⟩

theorem not_identity (given : VerbCase lexicon ws bs) (used : AreUsed lexicon ws)
    (same : .plain "that" :: ws = plain (andJoined (bs.map phrase))) :
    ∀ b ∈ bs, b.kind ≠ .isA := by
  have acting (action : Action lexicon) (objects : List Attr) :
      ∀ b ∈ [action.attr objects], b.kind ≠ .isA := List.forall_mem_singleton.mpr nofun
  cases given with
  | @like qualities some =>
      intro b member
      rw [qualities_kind _ b member]
      decide
  | has given =>
      have kinds := given.kind_eq rfl
      intro b member
      rw [kind_to_has_a kinds b member]
      decide
  | is given =>
      exfalso
      rcases exists_first_name clean given used.of_cons with ⟨name, clause, rest, rfl, behind⟩
      rcases name.first_word with ⟨category, -, w, words, starts⟩
      rcases exists_joined_append (phrase (name.attr clause)) (rest.map phrase) with ⟨tail, joined⟩
      rw [List.map_cons, joined, name.phrase_attr behind, starts, List.cons_append,
        List.cons_append, plain_cons] at same
      have word : "that" = w.text := Word.plain.inj (List.cons.inj same).1
      exact clean.no_keyword _ _ w.listed (word ▸ by decide)
  | acts action | actsOn action => exact acting action _
  | behind verb some => exact acting _ _

theorem gloss_of_said_had {object : Attr} {words : List String} (given : NounCase lexicon vs object)
    (said : Gloss.sentence? object.toHasA = some ("it" :: "has" :: words))
    (same : vs = plain words) : vs = plain (phrase object) := by
  cases given with
  | bare name => rw [Name.phrase_bare]
  | @clause name ws bs clause =>
      rcases clause.like_or with ⟨qualities, some, rfl, rfl⟩ | behind
      · exfalso
        rw [name.attr_likes, (Name.sentence_attr _ (List.forall_mem_nil _)).1] at said
        refine not_like clean some [] same ?_
        cases said
        rw [Gloss.clauses_of_none, List.append_nil, Name.words, List.getLast?_concat]
        rfl
      · rw [(name.sentence_attr behind).1] at said
        cases said
        rw [same, name.phrase_attr behind]

theorem gloss_of_said {claim : Attr} {words : List String} (given : NounCase lexicon vs claim)
    (used : AreUsed lexicon vs)
    (said : Gloss.sentence? claim = some ("it" :: "is" :: words))
    (same : vs = plain words) : vs = plain (phrase claim) := by
  cases given with
  | bare name => rw [Name.phrase_bare]
  | @clause name ws bs clause =>
      rcases clause.like_or with ⟨qualities, some, rfl, rfl⟩ | behind
      · exfalso
        rw [name.attr_likes, (Name.sentence_attr _ (List.forall_mem_nil _)).2] at said
        refine not_like clean some [] same ?_
        cases said
        rw [List.map_nil, and_joined_nil, List.append_nil, Name.words, List.getLast?_concat]
        rfl
      · rw [(name.sentence_attr behind).2] at said
        cases said
        rw [plain_append] at same
        have clause_words := List.append_cancel_left same
        rw [clause_words, name.phrase_attr behind, plain_append, Gloss.clauses_of_no_nouns
          (not_identity clean clause (are_used_append.mp used).2.of_cons clause_words)]

theorem recover_single {object : Attr} {words : List String}
    (given : Derives lexicon (.joined .nounPhrase) ws [object]) (used : AreUsed lexicon ws)
    (gloss : ws = plain (phrase object)) (same : ws = plain words) :
    ∃ group : Group lexicon, group.IsSingle ∧ group.IsGlossed ∧ group.words = words ∧
      group.attrs = [object] := by
  have joined : ws = plain (andJoined ([object].map phrase)) := by
    rw [List.map_singleton, and_joined_singleton, gloss]
  rcases recover_group clean given used joined with ⟨group, glossed, group_words, attrs⟩
  exact ⟨group, (Group.single_of_attrs attrs).1, glossed,
    plain_inj (group_words.symm.trans same), attrs.symm⟩

/-- Whoever derives a claim from what its gloss says of "it" has derived a canonical predicate. -/
theorem recover_predicate {claim : Attr} {words : List String}
    (given : Derives lexicon Phrase.verbPhrase vs [claim]) (used : AreUsed lexicon vs)
    (said : Gloss.sentence? claim = some ("it" :: words)) (same : vs = plain words) :
    ∃ predicate : Predicate lexicon, predicate.IsGlossed ∧ predicate.words = words ∧
      predicate.attrs = [claim] := by
  generalize alone : [claim] = claims at given
  have verb := recover_verb clean given used
  clear given
  cases verb with
  | @like qualities some =>
      rcases List.map_eq_singleton_iff.mp alone.symm with ⟨quality, rfl, rfl⟩
      rw [quality.sentence_attr] at said
      cases said
      exact ⟨.like quality, trivial, rfl, rfl⟩
  | @has ws objects given =>
      rcases List.map_eq_singleton_iff.mp alone.symm with ⟨object, rfl, rfl⟩
      have noun := recover_noun_case clean (noun_of_joined clean given used.of_cons) used.of_cons
      rcases List.map_eq_cons_iff.mp same.symm with ⟨w, rest, rfl, has, rest_words⟩
      cases has
      have gloss := gloss_of_said_had clean noun said rest_words.symm
      rcases recover_single clean given used.of_cons gloss rest_words.symm with
        ⟨group, single, glossed, rfl, attrs⟩
      refine ⟨.nested .has group, ⟨single, glossed⟩, rfl, ?_⟩
      rw [Predicate.attrs, attrs]
      rfl
  | @is ws nouns given =>
      cases alone
      have noun := recover_noun_case clean (noun_of_joined clean given used.of_cons) used.of_cons
      rcases List.map_eq_cons_iff.mp same.symm with ⟨w, rest, rfl, is, rest_words⟩
      cases is
      have gloss := gloss_of_said clean noun used.of_cons said rest_words.symm
      rcases recover_single clean given used.of_cons gloss rest_words.symm with
        ⟨group, single, glossed, rfl, attrs⟩
      have news := Group.not_identity single glossed attrs.symm said
      exact ⟨.nested .is group, ⟨single, news, glossed⟩, rfl, attrs⟩
  | acts action =>
      cases alone
      exact ⟨.acting action, trivial, plain_inj same, rfl⟩
  | @actsOn action ws objects given =>
      cases alone
      have kinds := given.kind_eq rfl
      rw [sentence_action action kinds] at said
      cases said
      rw [plain_append] at same
      rcases recover_group clean given (are_used_append.mp used).2 (List.append_cancel_left same) with
        ⟨group, glossed, group_words, rfl⟩
      refine ⟨.nested (.does action) group, glossed, ?_, rfl⟩
      rw [Predicate.words, Head.words, Group.phrases_attrs glossed]
  | @behind manners verb some =>
      cases alone
      have gloss := sentence_action ⟨manners, verb⟩ (List.forall_mem_nil _)
      rw [List.map_nil, and_joined_nil, List.append_nil] at gloss
      rw [gloss] at said
      cases said
      exact absurd same (not_behind clean some)

end Clean

end Canonical

end ControlledEnglish
