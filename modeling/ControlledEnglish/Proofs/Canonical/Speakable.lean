import ControlledEnglish.Proofs.Canonical.Fragment
import ControlledEnglish.Proofs.Canonical.Injective
import ControlledEnglish.Proofs.Values.Checked

/-! Rules that can be said: the ones that are among the readings of their gloss.

In such a rule adjectives stand before the clause of their noun, manners before what is done, and
what a clause has is one noun with one adjective at most. Clauses may have as many objects as they
want otherwise, at any depth, and words may be of several categories. Some derivation of the gloss
is then the canonical one. Conversely a canonical sentence that is its own gloss says such a rule. -/

namespace ControlledEnglish

mutual

/-- Nouns that can be said of something. -/
inductive IsThing (lexicon : Lexicon) : Attr → Prop where
  | mk {w : String} {adjectives clause : List Attr} (listed : lexicon.lookup w .noun = true)
      (like : ∀ a ∈ adjectives, IsAdjective lexicon a) (behind : IsRelation lexicon clause) :
      IsThing lexicon ⟨.isA, w, adjectives ++ clause⟩

/-- What may follow the adjectives of such a noun. -/
inductive IsRelation (lexicon : Lexicon) : List Attr → Prop where
  | none : IsRelation lexicon []
  | acts {w : String} {adverbs objects : List Attr} (listed : lexicon.lookup w .verb = true)
      (how : ∀ a ∈ adverbs, IsAdverb lexicon a) (things : ∀ a ∈ objects, IsThing lexicon a) :
      IsRelation lexicon [⟨.does, w, adverbs ++ objects⟩]
  | has {w : String} {adjectives clause : List Attr} (listed : lexicon.lookup w .noun = true)
      (like : ∀ a ∈ adjectives, IsAdjective lexicon a) (few : adjectives.length ≤ 1)
      (behind : IsRelation lexicon clause) :
      IsRelation lexicon [⟨.hasA, w, adjectives ++ clause⟩]
  | are {objects : List Attr} (some : objects ≠ []) (things : ∀ a ∈ objects, IsThing lexicon a) :
      IsRelation lexicon objects

end

/-- What can be said of "it". -/
inductive IsClaim (lexicon : Lexicon) : Attr → Prop where
  | acts {w : String} {adverbs objects : List Attr} (listed : lexicon.lookup w .verb = true)
      (how : ∀ a ∈ adverbs, IsAdverb lexicon a) (things : ∀ a ∈ objects, IsThing lexicon a) :
      IsClaim lexicon ⟨.does, w, adverbs ++ objects⟩
  | has {w : String} {adjectives clause : List Attr} (listed : lexicon.lookup w .noun = true)
      (like : ∀ a ∈ adjectives, IsAdjective lexicon a) (behind : IsRelation lexicon clause) :
      IsClaim lexicon ⟨.hasA, w, adjectives ++ clause⟩
  | is {w : String} {adjectives clause : List Attr} (listed : lexicon.lookup w .noun = true)
      (like : ∀ a ∈ adjectives, IsAdjective lexicon a) (behind : IsRelation lexicon clause)
      (other : (∀ a ∈ clause, IsThing lexicon a) → clause = []) :
      IsClaim lexicon ⟨.isA, w, adjectives ++ clause⟩
  | like {a : Attr} (adjective : IsAdjective lexicon a) : IsClaim lexicon a

structure Rule.IsSpeakable (lexicon : Lexicon) (rule : Rule) : Prop where
  head : IsClaim lexicon rule.head
  body : ∀ condition ∈ rule.body, IsClaim lexicon condition

variable {lexicon : Lexicon}

theorem IsThing.kind_eq {attr : Attr} (thing : IsThing lexicon attr) : attr.kind = .isA := by
  cases thing with
  | mk => rfl

theorem IsRelation.things_of_nouns {clause : List Attr} (relation : IsRelation lexicon clause)
    (nouns : ∀ a ∈ clause, a.kind = .isA) : ∀ a ∈ clause, IsThing lexicon a := by
  cases relation with
  | none => exact List.forall_mem_nil _
  | acts | has => exact absurd (nouns _ List.mem_cons_self) nofun
  | are some things => exact things

namespace Canonical

section Existence

theorem exists_thing_of_name {w : String} {adjectives clause : List Attr}
    (listed : lexicon.lookup w .noun = true) (like : ∀ a ∈ adjectives, IsAdjective lexicon a)
    (behind : ∀ name : Name lexicon, ∃ group : Group lexicon, group.IsSingle ∧ group.IsGlossed ∧
      group.name = name ∧ group.clause = clause) :
    ∃ group : Group lexicon, group.IsSingle ∧ group.IsGlossed ∧
      group.name.qualities.length = adjectives.length ∧ group.clause = clause ∧
      group.attrs = [⟨.isA, w, adjectives ++ clause⟩] := by
  rcases exists_name listed like with ⟨name, length, same⟩
  rcases behind name with ⟨group, single, glossed, named, rfl⟩
  refine ⟨group, single, glossed, by rw [named, length], rfl, ?_⟩
  rw [group.attrs_of_single single, named, same]

theorem exists_objects {objects : List Attr} (some : objects ≠ [])
    (each : ∀ a ∈ objects,
      ∃ group : Group lexicon, group.IsSingle ∧ group.IsGlossed ∧ group.attrs = [a]) :
    ∃ group : Group lexicon, group.IsGlossed ∧ group.attrs = objects := by
  induction objects with
  | nil => exact absurd rfl some
  | cons first rest ih =>
      rcases List.forall_mem_cons.mp each with ⟨⟨group, -, glossed, attrs⟩, rest_each⟩
      by_cases alone : rest = []
      · subst alone
        exact ⟨group, glossed, attrs⟩
      · rcases ih alone rest_each with ⟨others, others_glossed, others_attrs⟩
        refine ⟨group.append others, glossed.append others_glossed, ?_⟩
        rw [Group.attrs_append, attrs, others_attrs, List.singleton_append]

mutual

theorem exists_thing {attr : Attr} (thing : IsThing lexicon attr) :
    ∃ group : Group lexicon, group.IsSingle ∧ group.IsGlossed ∧ group.attrs = [attr] := by
  match thing with
  | .mk listed like behind =>
      rcases exists_thing_of_name listed like (exists_relation behind) with
        ⟨group, single, glossed, -, -, attrs⟩
      exact ⟨group, single, glossed, attrs⟩

theorem exists_relation {clause : List Attr} (behind : IsRelation lexicon clause)
    (name : Name lexicon) :
    ∃ group : Group lexicon, group.IsSingle ∧ group.IsGlossed ∧ group.name = name ∧
      group.clause = clause := by
  match behind with
  | .none => exact ⟨.one (.bare name), trivial, trivial, rfl, rfl⟩
  | @IsRelation.acts _ _ _ objects listed how things =>
      rcases exists_action listed how with ⟨action, same⟩
      have each := fun a member => exists_thing (things a member)
      by_cases none : objects = []
      · refine ⟨.one (.acting name action), trivial, trivial, rfl, ?_⟩
        rw [Group.clause, Leaf.clause, same, none]
      · rcases exists_objects none each with ⟨group, glossed, attrs⟩
        refine ⟨.nested name (.does action) group, trivial, ⟨trivial, glossed⟩, rfl, ?_⟩
        rw [Group.clause, Head.attrs, same, attrs]
  | .has listed like few behind =>
      rcases exists_thing_of_name listed like (exists_relation behind) with
        ⟨group, single, glossed, length, -, attrs⟩
      refine ⟨.nested name .has group, trivial, ⟨⟨single, by rw [length]; exact few⟩, glossed⟩, rfl, ?_⟩
      rw [Group.clause, Head.attrs, attrs]
      rfl
  | .are nonempty things =>
      have each := fun a member => exists_thing (things a member)
      rcases exists_objects nonempty each with ⟨group, glossed, attrs⟩
      exact ⟨.nested name .is group, trivial, ⟨trivial, glossed⟩, rfl, attrs⟩

end

theorem Group.identity_iff (group : Group lexicon) :
    group.IsIdentity ↔ group.clause ≠ [] ∧ ∀ a ∈ group.clause, a.kind = .isA := by
  have acting (leaf : Leaf lexicon) :
      ¬(leaf.clause ≠ [] ∧ ∀ a ∈ leaf.clause, a.kind = .isA) := by
    rintro ⟨some, nouns⟩
    rcases List.exists_cons_of_ne_nil some with ⟨first, rest, clause⟩
    have here : first ∈ leaf.clause := by simp [clause]
    exact absurd ((leaf.clause_kind first here).symm.trans (nouns first here)) nofun
  have headed (head : Head lexicon) (objects : Group lexicon) :
      head = .is ↔ head.attrs objects.attrs ≠ [] ∧ ∀ a ∈ head.attrs objects.attrs, a.kind = .isA := by
    have kinds := head.attrs_kind_eq objects
    rcases List.exists_cons_of_ne_nil (head.attrs_ne_nil objects) with ⟨first, rest, attrs⟩
    have here : first ∈ head.attrs objects.attrs := by simp [attrs]
    constructor
    · rintro rfl
      exact ⟨objects.attrs_ne_nil, objects.attrs_kind⟩
    · rintro ⟨-, nouns⟩
      have kind := (kinds first here).symm.trans (nouns first here)
      cases head with
      | does | has => cases kind
      | is => rfl
  cases group with
  | one leaf | more leaf => exact iff_of_false id (acting leaf)
  | nested name head objects | nestedMore name head objects =>
      rw [clause, ← headed]
      cases head <;> simp [IsIdentity]

theorem exists_claim {attr : Attr} (claim : IsClaim lexicon attr) :
    ∃ predicate : Predicate lexicon, predicate.IsGlossed ∧ predicate.attrs = [attr] := by
  cases claim with
  | @acts w adverbs objects listed how things =>
      rcases exists_action listed how with ⟨action, same⟩
      by_cases none : objects = []
      · refine ⟨.acting action, trivial, ?_⟩
        rw [Predicate.attrs, same, none]
      · rcases exists_objects none fun a member => exists_thing (things a member) with
          ⟨group, glossed, attrs⟩
        refine ⟨.nested (.does action) group, glossed, ?_⟩
        rw [Predicate.attrs, Head.attrs, same, attrs]
  | has listed like behind =>
      rcases exists_thing_of_name listed like (exists_relation behind) with
        ⟨group, single, glossed, -, -, attrs⟩
      refine ⟨.nested .has group, ⟨single, glossed⟩, ?_⟩
      rw [Predicate.attrs, Head.attrs, attrs]
      rfl
  | is listed like behind other =>
      rcases exists_thing_of_name listed like (exists_relation behind) with
        ⟨group, single, glossed, -, rfl, attrs⟩
      refine ⟨.nested .is group, ⟨single, fun identity => ?_, glossed⟩, attrs⟩
      rcases group.identity_iff.mp identity with ⟨some, nouns⟩
      exact some (other (behind.things_of_nouns nouns))
  | like adjective =>
      rcases exists_quality adjective with ⟨quality, same⟩
      exact ⟨.like quality, trivial, by rw [Predicate.attrs, same]⟩

theorem exists_claims {claims : List Attr} (all : ∀ a ∈ claims, IsClaim lexicon a) :
    ∃ predicates : List (Predicate lexicon), (∀ predicate ∈ predicates, predicate.IsGlossed) ∧
      saidAttrs predicates = claims := by
  induction claims with
  | nil => exact ⟨[], List.forall_mem_nil _, rfl⟩
  | cons first rest ih =>
      rcases List.forall_mem_cons.mp all with ⟨first_claim, rest_claims⟩
      rcases exists_claim first_claim with ⟨predicate, glossed, attrs⟩
      rcases ih rest_claims with ⟨predicates, all_glossed, rest_attrs⟩
      refine ⟨predicate :: predicates, List.forall_mem_cons.mpr ⟨glossed, all_glossed⟩, ?_⟩
      rw [said_attrs_cons, attrs, rest_attrs, List.singleton_append]

end Existence

section Converse

theorem adverb_of_nested {how : Attr} (adverb : IsAdverb lexicon how)
    (adverbs : List (Listed lexicon .adverb)) :
    ∀ a ∈ nestAdverbs [how] (adverbs.map (Listed.attr · [])), IsAdverb lexicon a := by
  induction adverbs generalizing how with
  | nil => exact List.forall_mem_singleton.mpr adverb
  | cons first rest ih => exact ih (.modified first.listed adverb)

theorem adverbs_are (adverbs : List (Listed lexicon .adverb)) :
    ∀ a ∈ adverbAttrs adverbs, IsAdverb lexicon a := by
  cases adverbs with
  | nil => exact List.forall_mem_nil _
  | cons first rest => exact adverb_of_nested (.word first.listed) rest

theorem manners_are (manners : List (Manner lexicon)) :
    ∀ a ∈ mannerAttrs manners, IsAdverb lexicon a := by
  intro a member
  rcases List.mem_flatMap.mp member with ⟨manner, -, inside⟩
  exact adverbs_are manner.adverbs a inside

theorem Quality.is_adjective (quality : Quality lexicon) : IsAdjective lexicon quality.attr := by
  rcases quality with ⟨adverbs, adjective⟩
  have how := adverbs_are adverbs
  by_cases none : adverbs = []
  · subst none
    exact .word adjective.listed
  · rcases adverb_attrs_eq_singleton none with ⟨adverb, attrs, -, -⟩
    rw [attrs, List.forall_mem_singleton] at how
    rw [Quality.attr, attrs]
    exact .modified adjective.listed how

theorem qualities_are (qualities : List (Quality lexicon)) :
    ∀ a ∈ qualities.map Quality.attr, IsAdjective lexicon a :=
  List.forall_mem_map.mpr fun quality _ => quality.is_adjective

theorem Name.is_thing (name : Name lexicon) {clause : List Attr}
    (behind : IsRelation lexicon clause) : IsThing lexicon (name.attr clause) :=
  .mk name.noun.listed (qualities_are name.qualities) behind

theorem Leaf.is_relation (leaf : Leaf lexicon) : IsRelation lexicon leaf.clause := by
  cases leaf with
  | bare => exact .none
  | acting name action =>
      exact .acts action.verb.listed (manners_are action.manners) (List.forall_mem_nil _)

theorem Leaf.is_thing (leaf : Leaf lexicon) : IsThing lexicon leaf.attr := by
  rw [leaf.attr_eq]
  exact leaf.name.is_thing leaf.is_relation

theorem Head.is_relation {head : Head lexicon} {objects : Group lexicon}
    (shared : head.IsShared objects) (behind : IsRelation lexicon objects.clause)
    (things : ∀ a ∈ objects.attrs, IsThing lexicon a) :
    IsRelation lexicon (head.attrs objects.attrs) := by
  cases head with
  | does action => exact .acts action.verb.listed (manners_are action.manners) things
  | has =>
      rcases shared with ⟨single, few⟩
      rw [attrs, objects.attrs_of_single single]
      refine .has objects.name.noun.listed (qualities_are objects.name.qualities) ?_ behind
      rw [List.length_map]
      exact few
  | is => exact .are objects.attrs_ne_nil things

theorem Group.are_things {group : Group lexicon} (glossed : group.IsGlossed) :
    IsRelation lexicon group.clause ∧ ∀ a ∈ group.attrs, IsThing lexicon a := by
  induction group with
  | one leaf => exact ⟨leaf.is_relation, List.forall_mem_singleton.mpr leaf.is_thing⟩
  | more leaf rest ih =>
      exact ⟨leaf.is_relation, List.forall_mem_cons.mpr ⟨leaf.is_thing, (ih glossed).2⟩⟩
  | nested name head objects ih =>
      rcases glossed with ⟨shared, glossed⟩
      rcases ih glossed with ⟨behind, things⟩
      have relation := Head.is_relation shared behind things
      exact ⟨relation, List.forall_mem_singleton.mpr (name.is_thing relation)⟩
  | nestedMore name head objects rest ih rest_ih =>
      rcases glossed with ⟨⟨shared, glossed⟩, rest_glossed⟩
      rcases ih glossed with ⟨behind, things⟩
      have relation := Head.is_relation shared behind things
      exact ⟨relation, List.forall_mem_cons.mpr ⟨name.is_thing relation, (rest_ih rest_glossed).2⟩⟩

theorem Predicate.is_claim {predicate : Predicate lexicon} (glossed : predicate.IsGlossed)
    {claim : Attr} (alone : predicate.attrs = [claim]) : IsClaim lexicon claim := by
  cases predicate with
  | like quality =>
      cases alone
      exact .like quality.is_adjective
  | acting action =>
      cases alone
      exact .acts action.verb.listed (manners_are action.manners) (List.forall_mem_nil _)
  | nested head objects =>
      cases head with
      | does action =>
          cases alone
          exact .acts action.verb.listed (manners_are action.manners) (Group.are_things glossed).2
      | has =>
          rcases glossed with ⟨single, glossed⟩
          rw [attrs, Head.attrs, objects.attrs_of_single single] at alone
          cases alone
          exact .has objects.name.noun.listed (qualities_are objects.name.qualities)
            (Group.are_things glossed).1
      | is =>
          rcases glossed with ⟨single, other, glossed⟩
          rw [attrs, Head.attrs, objects.attrs_of_single single] at alone
          cases alone
          refine .is objects.name.noun.listed (qualities_are objects.name.qualities)
            (Group.are_things glossed).1 fun things => ?_
          by_contra some
          exact other (objects.identity_iff.mpr ⟨some, fun a member => (things a member).kind_eq⟩)

end Converse

end Canonical

open Canonical

/-- The rules that can be said are what canonical sentences say that are their own gloss. -/
theorem Rule.speakable_iff (rule : Rule) : rule.IsSpeakable lexicon ↔
    ∃ sentence : Sentence lexicon, sentence.IsGlossed ∧ sentence.rules = [rule] := by
  constructor
  · intro speakable
    rcases exists_claim speakable.head with ⟨conclusion, conclusion_glossed, head⟩
    rcases exists_claims speakable.body with ⟨conditions, conditions_glossed, body⟩
    refine ⟨⟨conditions, conclusion⟩, ⟨conditions_glossed, conclusion_glossed⟩, ?_⟩
    rw [Sentence.rules, head, body]
    rfl
  · rintro ⟨⟨conditions, conclusion⟩, glossed, rules⟩
    rcases List.map_eq_singleton_iff.mp rules with ⟨head, attrs, rfl⟩
    refine ⟨Predicate.is_claim glossed.conclusion attrs, fun condition member => ?_⟩
    rcases List.mem_flatMap.mp member with ⟨predicate, listed, inside⟩
    have predicate_glossed := glossed.conditions predicate listed
    rcases Predicate.sentence_attrs predicate_glossed with ⟨claim, alone, -⟩
    rw [alone, List.mem_singleton] at inside
    subst inside
    exact Predicate.is_claim predicate_glossed alone

/-- A rule that can be said is among the readings of its gloss. -/
theorem read_all_speakable (avoids : lexicon.AvoidsKeywords) (writable : lexicon.IsWritable)
    {rule : Rule} (speakable : rule.IsSpeakable lexicon) :
    ∃ text readings, (Value.ofRule rule).glossText = .ok text ∧
      readAll (.text text) lexicon = .ok readings ∧ [rule] ∈ readings := by
  rcases rule.speakable_iff.mp speakable with ⟨sentence, glossed, rules⟩
  rcases Sentence.gloss_rules glossed with ⟨same, alone, gloss⟩
  cases rules.symm.trans alone
  have meant := sentence.derives
  rw [rules] at meant
  rcases exists_read_all (words_spaced (sentence.words_bare writable)) avoids.unlisted_it
    sentence.recognized meant (List.cons_ne_nil _ _) with ⟨readings, read, member⟩
  exact ⟨_, readings, Value.gloss_text_of_rule gloss, read, member⟩

theorem read_all_speakable_verb_like_object :
    let lexicon := Lexicon.marsh.insert "frog" .verb
    let heron : Attr := ⟨.isA, "heron", [⟨.does, "frog", [⟨.isA, "frog", []⟩, ⟨.isA, "heron", []⟩]⟩]⟩
    let rule : Rule := ⟨⟨.does, "eats", [heron, ⟨.isA, "frog", []⟩]⟩, []⟩
    lexicon.AvoidsKeywords ∧ lexicon.IsWritable ∧ rule.IsSpeakable lexicon ∧
      ∃ text readings, (Value.ofRule rule).glossText = .ok text ∧
        readAll (.text text) lexicon = .ok readings ∧ [rule] ∈ readings := by
  intro lexicon heron rule
  have avoids : lexicon.AvoidsKeywords := Lexicon.marsh_clean.avoids.insert (by decide)
  have writable : lexicon.IsWritable := Lexicon.marsh_clean.writable.insert (by decide)
  have verbs : lexicon.lookup "eats" .verb = true ∧ lexicon.lookup "frog" .verb = true := by
    simp [lexicon, Lexicon.lookup_insert]
  have nouns : lexicon.lookup "frog" .noun = true ∧ lexicon.lookup "heron" .noun = true := by
    simp [lexicon, Lexicon.lookup_insert]
  have noun {w : String} (listed : lexicon.lookup w .noun = true) {clause : List Attr}
      (behind : IsRelation lexicon clause) : IsThing lexicon ⟨.isA, w, clause⟩ :=
    .mk listed (List.forall_mem_nil _) behind
  have frog : IsThing lexicon ⟨.isA, "frog", []⟩ := noun nouns.1 .none
  have both : ∀ a ∈ [(⟨.isA, "frog", []⟩ : Attr), ⟨.isA, "heron", []⟩], IsThing lexicon a := by
    rw [List.forall_mem_cons, List.forall_mem_singleton]
    exact ⟨frog, noun nouns.2 .none⟩
  have things : ∀ a ∈ [heron, ⟨.isA, "frog", []⟩], IsThing lexicon a := by
    rw [List.forall_mem_cons, List.forall_mem_singleton]
    exact ⟨noun nouns.2 (.acts verbs.2 (List.forall_mem_nil _) both), frog⟩
  have speakable : rule.IsSpeakable lexicon :=
    ⟨.acts verbs.1 (List.forall_mem_nil _) things, List.forall_mem_nil _⟩
  exact ⟨avoids, writable, speakable, read_all_speakable avoids writable speakable⟩

end ControlledEnglish
