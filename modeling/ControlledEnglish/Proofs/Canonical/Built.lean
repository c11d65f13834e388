import ControlledEnglish.Proofs.Canonical.Recovered
import ControlledEnglish.Proofs.Canonical.Speakable

namespace ControlledEnglish

namespace Attr

def qualities (attr : Attr) : List Attr := attr.children.filter fun child => child.kind = .isLike

def clauses (attr : Attr) : List Attr :=
  attr.children.filter fun child => child.kind = .hasA ∨ child.kind = .does

end Attr

/-- What a sentence can be made into. Of a noun that nothing is claimed of, only one thing is said
besides its adjectives. -/
inductive IsBuilt (lexicon : Lexicon) : Attr → Prop where
  | quality {a : Attr} (adjective : IsAdjective lexicon a) : IsBuilt lexicon a
  | thing {kind : Kind} {w : String} {children : List Attr} (thing : kind = .isA ∨ kind = .hasA)
      (listed : lexicon.lookup w .noun = true) (inside : ∀ child ∈ children, IsBuilt lexicon child)
      (alike : kind = .isA →
        ∃ other, ∀ child ∈ children, child.kind = .isLike ∨ child.kind = other) :
      IsBuilt lexicon ⟨kind, w, children⟩
  | action {w : String} {manners objects : List Attr} (listed : lexicon.lookup w .verb = true)
      (how : ∀ a ∈ manners, IsAdverb lexicon a) (inside : ∀ a ∈ objects, IsBuilt lexicon a)
      (nouns : ∀ a ∈ objects, a.kind = .isA) : IsBuilt lexicon ⟨.does, w, manners ++ objects⟩

variable {lexicon : Lexicon} {production : Production} {ws : List Word} {as bs : List Attr}
  {attr : Attr}

theorem IsAdverb.kind_eq (adverb : IsAdverb lexicon attr) : attr.kind = .isHow := by
  cases adverb <;> rfl

theorem IsAdjective.kind_eq (adjective : IsAdjective lexicon attr) : attr.kind = .isLike := by
  cases adjective <;> rfl

namespace IsBuilt

theorem kind_ne (built : IsBuilt lexicon attr) : attr.kind ≠ .isHow := by
  intro how
  cases built with
  | quality adjective => exact absurd (adjective.kind_eq.symm.trans how) (by decide)
  | thing thing => rcases thing with rfl | rfl <;> cases how
  | action => cases how

theorem adjective (built : IsBuilt lexicon attr) (kind : attr.kind = .isLike) :
    IsAdjective lexicon attr := by
  cases built with
  | quality adjective => exact adjective
  | thing thing => rcases thing with rfl | rfl <;> cases kind
  | action => cases kind

theorem of_thing (built : IsBuilt lexicon attr) (thing : attr.kind = .isA ∨ attr.kind = .hasA) :
    lexicon.lookup attr.value .noun = true ∧ (∀ child ∈ attr.children, IsBuilt lexicon child) ∧
      (attr.kind = .isA →
        ∃ other, ∀ child ∈ attr.children, child.kind = .isLike ∨ child.kind = other) := by
  cases built with
  | quality adjective =>
      rw [adjective.kind_eq] at thing
      rcases thing with noun | had <;> contradiction
  | thing _ listed inside alike => exact ⟨listed, inside, alike⟩
  | action => rcases thing with noun | had <;> contradiction

theorem no_how (built : IsBuilt lexicon attr) (thing : attr.kind = .isA ∨ attr.kind = .hasA) :
    ∀ child ∈ attr.children, child.kind ≠ .isHow :=
  fun child member => ((built.of_thing thing).2.1 child member).kind_ne

theorem no_nouns_or (built : IsBuilt lexicon attr) (noun : attr.kind = .isA) :
    attr.nouns = [] ∨ ∀ child ∈ attr.children, child.kind = .isLike ∨ child.kind = .isA := by
  rcases (built.of_thing (.inl noun)).2.2 noun with ⟨other, all⟩
  by_cases same : other = .isA
  · subst same
    exact .inr all
  · left
    rw [Attr.nouns, List.filter_eq_nil_iff]
    intro child member inside
    rw [decide_eq_true_iff] at inside
    rcases all child member with like | own
    · exact absurd (inside.symm.trans like) (by decide)
    · exact same (own.symm.trans inside)

theorem had {w : String} {children : List Attr} (listed : lexicon.lookup w .noun = true)
    (inside : ∀ child ∈ children, IsBuilt lexicon child) : IsBuilt lexicon ⟨.hasA, w, children⟩ :=
  .thing (.inr rfl) listed inside fun same => absurd same (by decide)

theorem to_has_a (built : IsBuilt lexicon attr) (noun : attr.kind = .isA) :
    IsBuilt lexicon attr.toHasA := by
  rcases built.of_thing (.inl noun) with ⟨listed, inside, -⟩
  rw [Attr.toHasA, noun]
  exact .had listed inside

end IsBuilt

section Derived

open Canonical

theorem built_to_has_a (built : ∀ a ∈ as, IsBuilt lexicon a) (nouns : ∀ a ∈ as, a.kind = .isA) :
    ∀ a ∈ toHasA as, IsBuilt lexicon a := by
  intro a member
  rcases List.mem_map.mp member with ⟨noun, inside, rfl⟩
  exact (built noun inside).to_has_a (nouns noun inside)

theorem built_attach (built : ∀ a ∈ as, IsBuilt lexicon a) (had : ∀ a ∈ as, a.kind = .hasA)
    (attrs : ∀ b ∈ bs, IsBuilt lexicon b) : ∀ a ∈ attach as bs, IsBuilt lexicon a := by
  intro a member
  rcases List.mem_map.mp member with ⟨base, inside, rfl⟩
  have kind := had base inside
  rcases (built base inside).of_thing (.inr kind) with ⟨listed, children, -⟩
  rw [kind]
  exact .had listed (List.forall_mem_append.mpr ⟨children, attrs⟩)

theorem Canonical.Name.built (name : Name lexicon) {clause : List Attr} {kind : Kind}
    (behind : ∀ a ∈ clause, IsBuilt lexicon a) (alike : ∀ a ∈ clause, a.kind = kind) :
    IsBuilt lexicon (name.attr clause) := by
  apply IsBuilt.thing (.inl rfl) name.noun.listed
  · rw [List.forall_mem_append]
    exact ⟨fun a member => .quality (qualities_are _ a member), behind⟩
  · intro _
    refine ⟨kind, List.forall_mem_append.mpr ⟨?_, fun a member => .inr (alike a member)⟩⟩
    exact fun a member => .inl (qualities_kind _ a member)

theorem Canonical.Action.built (action : Action lexicon) {objects : List Attr}
    (inside : ∀ a ∈ objects, IsBuilt lexicon a) (nouns : ∀ a ∈ objects, a.kind = .isA) :
    IsBuilt lexicon (action.attr objects) :=
  .action action.verb.listed (manners_are action.manners) inside nouns

theorem Derives.clause_kind (h : Derives lexicon Phrase.verbPhrase ws as) :
    ∃ kind, ∀ a ∈ as, a.kind = kind := by
  cases h with
  | possession _ objects => exact ⟨.hasA, kind_to_has_a (objects.kind_eq rfl)⟩
  | likeness _ adjectives => exact ⟨.isLike, adjectives.kind_eq rfl⟩
  | identity _ nouns => exact ⟨.isA, nouns.kind_eq rfl⟩
  | action _ verb | manner verb => exact ⟨.does, kind_attach (verb.kind_eq rfl) _⟩

theorem Derives.used (h : Derives lexicon production ws as)
    (flat : production.item.categories?.isSome = true)
    (bare : ∀ w ∈ ws, ∃ text, w = .plain text ∧ IsBare text) : AreUsed lexicon ws := by
  induction h with
  | word reads =>
      rcases bare _ List.mem_cons_self with ⟨text, rfl, unquoted⟩
      have listed := (reads.of_bare unquoted).2
      exact List.forall_mem_singleton.mpr ⟨text, rfl, .inr ⟨_, listed⟩⟩
  | noAdverbs | noAdjectives | noItems => exact List.forall_mem_nil _
  | adverb _ ih | adverbGroup _ ih | someAdverbs _ ih => exact ih rfl bare
  | adverbs _ _ first_ih rest_ih | adjectivePhrase _ _ first_ih rest_ih
  | adjectives _ _ first_ih rest_ih =>
      rw [List.forall_mem_append] at bare
      exact are_used_append.mpr ⟨first_ih rfl bare.1, rest_ih rfl bare.2⟩
  | single _ ih | items _ ih => exact ih flat bare
  | several _ _ first_ih rest_ih =>
      rw [List.forall_mem_append, List.forall_mem_cons] at bare
      apply are_used_append.mpr
      refine ⟨first_ih flat bare.1, List.forall_mem_cons.mpr ⟨?_, rest_ih flat bare.2.2⟩⟩
      exact ⟨"and", rfl, .inl (by decide)⟩
  | noDeterminer | determiner | relativeClause | it | noun | nounClause | possession | likeness
  | identity | action | manner | itSentence | subject => cases flat

theorem exists_name_of_noun (clean : lexicon.IsClean) {vs : List Word}
    (adjectives : Derives lexicon Phrase.adjectivePhrases vs as)
    (noun : Derives lexicon (Phrase.word .noun) ws bs)
    (front : ∀ w ∈ vs, ∃ text, w = .plain text ∧ IsBare text)
    (back : ∀ w ∈ ws, ∃ text, w = .plain text ∧ IsBare text) :
    ∃ name : Name lexicon, attach bs as = [name.attr []] := by
  rcases recover_qualities clean adjectives (adjectives.used rfl front) with ⟨qualities, -, rfl⟩
  rcases recover_word clean noun (noun.used rfl back) with ⟨w, -, rfl⟩
  exact ⟨⟨qualities, w⟩, by simp [attach, Name.attr, Listed.attr]⟩

theorem built_of_verb (clean : lexicon.IsClean) {objects : List Attr} {manners : List (Manner lexicon)}
    (verb : Derives lexicon (Phrase.word .verb) ws bs)
    (bare : ∀ w ∈ ws, ∃ text, w = .plain text ∧ IsBare text)
    (inside : ∀ a ∈ objects, IsBuilt lexicon a) (nouns : ∀ a ∈ objects, a.kind = .isA) :
    ∀ a ∈ attach bs (mannerAttrs manners ++ objects), IsBuilt lexicon a := by
  rcases recover_word clean verb (verb.used rfl bare) with ⟨w, -, rfl⟩
  exact List.forall_mem_singleton.mpr (Action.built ⟨manners, w⟩ inside nouns)

/-- Whatever is said in words of the lexicon is built like that. -/
theorem Derives.built (clean : lexicon.IsClean) (h : Derives lexicon production ws as)
    (phrase : production.item.categories? = none)
    (bare : ∀ w ∈ ws, ∃ text, w = .plain text ∧ IsBare text) : ∀ a ∈ as, IsBuilt lexicon a := by
  induction h with
  | noDeterminer | determiner | it | noItems => exact List.forall_mem_nil _
  | relativeClause _ ih | itSentence _ ih | identity _ _ ih =>
      exact ih rfl (List.forall_mem_cons.mp bare).2
  | noun _ adjectives noun =>
      rw [List.forall_mem_append, List.forall_mem_append] at bare
      rcases exists_name_of_noun clean adjectives noun bare.1.2 bare.2 with ⟨name, same⟩
      rw [same, List.forall_mem_singleton]
      exact @Name.built _ name [] .isA (List.forall_mem_nil _) (List.forall_mem_nil _)
  | @nounClause _ _ _ _ _ _ _ said _ adjectives noun clause _ _ _ ih =>
      rw [List.forall_mem_append, List.forall_mem_append, List.forall_mem_append] at bare
      rcases exists_name_of_noun clean adjectives noun bare.1.1.2 bare.1.2 with ⟨name, same⟩
      cases clause with
      | relativeClause clause =>
          rcases clause.clause_kind with ⟨kind, alike⟩
          have attrs : attach [name.attr []] said = [name.attr said] := by
            simp [attach, Name.attr, Listed.attr]
          rw [same, attrs, List.forall_mem_singleton]
          exact name.built (ih rfl bare.2) alike
  | possession _ objects ih =>
      exact built_to_has_a (ih rfl (List.forall_mem_cons.mp bare).2) (objects.kind_eq rfl)
  | likeness _ adjectives =>
      have used := adjectives.used rfl (List.forall_mem_cons.mp bare).2
      rcases recover_joined_qualities clean adjectives used with ⟨qualities, -, -, rfl⟩
      exact fun a member => .quality (qualities_are _ a member)
  | action adverbs verb objects _ _ ih =>
      rw [List.forall_mem_append, List.forall_mem_append] at bare
      rcases recover_manners_opt clean adverbs (adverbs.used rfl bare.1.1) with ⟨manners, -, rfl⟩
      exact built_of_verb clean verb bare.1.2 (ih rfl bare.2) (objects.kind_eq rfl)
  | manner verb adverbs =>
      rw [List.forall_mem_append] at bare
      rcases recover_manners clean adverbs (adverbs.used rfl bare.2) with ⟨manners, -, -, rfl⟩
      rw [← List.append_nil (mannerAttrs manners)]
      exact built_of_verb clean verb bare.1 (List.forall_mem_nil _) (List.forall_mem_nil _)
  | subject subject _ _ subject_ih predicate_ih =>
      rw [List.forall_mem_append] at bare
      have nouns := subject.kind_eq rfl
      exact built_attach (built_to_has_a (subject_ih rfl bare.1) nouns) (kind_to_has_a nouns)
        (predicate_ih rfl bare.2)
  | single _ ih | items _ ih => exact ih phrase bare
  | several _ _ first_ih rest_ih =>
      rw [List.forall_mem_append, List.forall_mem_cons] at bare
      exact List.forall_mem_append.mpr ⟨first_ih phrase bare.1, rest_ih phrase bare.2.2⟩
  | word | adverb | adverbs | adverbGroup | noAdverbs | someAdverbs | adjectivePhrase
  | noAdjectives | adjectives => cases phrase

theorem DerivesRules.built (clean : lexicon.IsClean) {rules : List Rule} {rule : Rule}
    (h : DerivesRules lexicon ws rules) (bare : ∀ w ∈ ws, ∃ text, w = .plain text ∧ IsBare text)
    (member : rule ∈ rules) : ∀ atom ∈ rule.head :: rule.body, IsBuilt lexicon atom := by
  intro atom given
  rcases h.exists_sentence rule member atom given with ⟨production, vs, as, item, inside, said, here⟩
  have phrase : production.item.categories? = none := by
    rw [item]
    rfl
  exact said.built clean phrase (fun w listed => bare w (inside listed)) atom here

end Derived

namespace Gloss

theorem filter_parts (keep : Kind → Bool) (as : List Attr) :
    (parts as).filter (fun part => keep part.kind) = parts (as.filter fun a => keep a.kind) := by
  rw [parts_eq_map, parts_eq_map, List.filter_map]
  rfl

/-! What stands in front and behind are the attributes that are split by their kinds. -/

theorem among_parts (kinds : List Kind) (as : List Attr) :
    among kinds (parts as) = (splitAttrs kinds as).1.map phrase := by
  rw [among, filter_parts (· ∈ kinds), map_words_parts, split_attrs_eq]

theorem besides_parts (kinds : List Kind) (as : List Attr) :
    besides kinds (parts as) = (splitAttrs kinds as).2.map phrase := by
  rw [besides, filter_parts (· ∉ kinds), map_words_parts, split_attrs_eq]

end Gloss

namespace Attr

/-- The words that come behind a noun: all that it is, and then its clauses. -/
def follow (attr : Attr) : List String :=
  Gloss.thatIs (attr.nouns.map Gloss.phrase) ++ Gloss.andJoined (attr.clauses.map Gloss.phrase)

structure IsNamed (attr : Attr) (name : Canonical.Name lexicon) : Prop where
  noun : name.noun.text = attr.value
  qualities : name.qualities.map Canonical.Quality.attr = attr.qualities

end Attr

namespace Canonical

open Gloss (andJoined phrase parts)

variable {name : Name lexicon} (no_how : ∀ child ∈ attr.children, child.kind ≠ .isHow)

section Kinds

def AreFront (kinds : List Kind) : Prop := ∀ kind, kind ≠ .isHow → (kind ∈ kinds ↔ kind = .isLike)

theorem modifiers_front : AreFront Gloss.modifiers := by
  intro kind no_how
  cases kind <;> first | decide | exact absurd rfl no_how

theorem likeness_front : AreFront [.isLike] := fun _ _ => List.mem_singleton

variable {kinds : List Kind} (front : AreFront kinds)

include no_how front

theorem among_front (named : attr.IsNamed name) :
    Gloss.among kinds (parts attr.children) = name.qualities.map Quality.words := by
  have same : (attr.children.filter fun a => a.kind ∈ kinds) = attr.qualities := by
    apply List.filter_congr
    intro child member
    rw [decide_eq_decide]
    exact front child.kind (no_how child member)
  rw [Gloss.among_parts, split_attrs_eq, same, ← named.qualities, List.map_map]
  exact List.map_congr_left fun quality _ => quality.phrase_attr

theorem clauses_behind :
    Gloss.clauses ((parts attr.children).filter fun part => part.kind ∉ kinds) = attr.follow := by
  have behind (child : Attr) (member : child ∈ attr.children) :
      child.kind ∉ kinds ↔ child.kind ≠ .isLike := not_congr (front child.kind (no_how child member))
  have nouns : (attr.children.filter fun a => a.kind ∉ kinds).filter (fun a => a.kind ∈ [Kind.isA]) =
      attr.nouns := by
    rw [List.filter_filter]
    apply List.filter_congr
    intro child member
    rw [← Bool.decide_and, decide_eq_decide, List.mem_singleton, behind child member]
    constructor
    · rintro ⟨noun, -⟩
      exact noun
    · intro noun
      exact ⟨noun, by rw [noun]; decide⟩
  have clauses : (attr.children.filter fun a => a.kind ∉ kinds).filter (fun a => a.kind ∉ [Kind.isA]) =
      attr.clauses := by
    rw [List.filter_filter]
    apply List.filter_congr
    intro child member
    rw [← Bool.decide_and, decide_eq_decide, List.mem_singleton, behind child member]
    have other := no_how child member
    cases own : child.kind <;> simp_all
  rw [Gloss.filter_parts (· ∉ kinds), Gloss.clauses, Gloss.among_parts, Gloss.besides_parts,
    split_attrs_eq, nouns, clauses]
  rfl

end Kinds

section Besides

include no_how in
theorem besides_of_no_nouns (none : attr.nouns = []) :
    andJoined (Gloss.besides [.isLike] (parts attr.children)) = attr.follow := by
  have same : (attr.children.filter fun a => a.kind ∉ [Kind.isLike]) = attr.clauses := by
    apply List.filter_congr
    intro child member
    have other := no_how child member
    have no_noun : child.kind ≠ .isA := by
      intro noun
      have listed : child ∈ attr.nouns := List.mem_filter.mpr ⟨member, decide_eq_true noun⟩
      rw [none] at listed
      cases listed
    rw [decide_eq_decide, List.mem_singleton]
    cases own : child.kind <;> simp_all
  rw [Gloss.besides_parts, split_attrs_eq, same, Attr.follow, none]
  rfl

theorem besides_of_nouns
    (all : ∀ child ∈ attr.children, child.kind = .isLike ∨ child.kind = .isA) :
    Gloss.besides [.isLike] (parts attr.children) = attr.nouns.map phrase := by
  have same : (attr.children.filter fun a => a.kind ∉ [Kind.isLike]) = attr.nouns := by
    apply List.filter_congr
    intro child member
    rw [decide_eq_decide, List.mem_singleton]
    rcases all child member with like | noun
    · rw [like]
      decide
    · rw [noun]
      decide
  rw [Gloss.besides_parts, split_attrs_eq, same]

end Besides

theorem exists_name_of_thing (built : IsBuilt lexicon attr)
    (thing : attr.kind = .isA ∨ attr.kind = .hasA) : ∃ name : Name lexicon, attr.IsNamed name := by
  rcases built.of_thing thing with ⟨listed, inside, -⟩
  have like : ∀ a ∈ attr.qualities, IsAdjective lexicon a := by
    intro a member
    rcases List.mem_filter.mp member with ⟨child, same⟩
    exact (inside a child).adjective (of_decide_eq_true same)
  rcases exists_qualities like with ⟨qualities, same⟩
  exact ⟨⟨qualities, ⟨attr.value, listed⟩⟩, rfl, same⟩

section Thing

variable (named : attr.IsNamed name)

include no_how named

theorem phrase_noun (kind : attr.kind = .isA) : phrase attr = name.words ++ attr.follow := by
  rw [Gloss.phrase_eq, kind, Gloss.phraseOf, among_front no_how modifiers_front named,
    clauses_behind no_how modifiers_front, ← named.noun, Name.words, qualityWords, List.flatMap_def]

theorem phrase_had (kind : attr.kind = .hasA) : phrase attr =
    "that" :: "has" :: (andJoined (name.qualities.map Quality.words) ++
      name.noun.text :: attr.follow) := by
  rw [Gloss.phrase_eq, kind, Gloss.phraseOf, among_front no_how modifiers_front named,
    clauses_behind no_how modifiers_front, ← named.noun]
  simp

theorem said_had (kind : attr.kind = .hasA) : Said attr ("has" :: (name.words ++ attr.follow)) := by
  have front := among_front no_how likeness_front named
  have behind := clauses_behind no_how likeness_front
  simp only [Said, Gloss.sentence?, kind]
  rw [front, behind, ← named.noun, Name.words, qualityWords, List.flatMap_def]
  rfl

theorem said_noun (kind : attr.kind = .isA) :
    Said attr ("is" :: (name.words ++ andJoined (Gloss.besides [.isLike] (parts attr.children)))) := by
  simp only [Said, Gloss.sentence?, kind]
  rw [among_front no_how likeness_front named, ← named.noun, Name.words, qualityWords,
    List.flatMap_def]
  rfl

end Thing

end Canonical

end ControlledEnglish
