import Mathlib.Data.List.Basic
import ControlledEnglish.Proofs.Grammar.Content
import ControlledEnglish.Proofs.Reading
import ControlledEnglish.Proofs.Values.Checked

namespace ControlledEnglish

/-- The children that an attribute of the kind may have. -/
def Kind.Takes (children : List Attr) : Kind → Prop
  | .isHow | .isLike => children = [] ∨ ∃ how, children = [how] ∧ how.kind = .isHow
  | .does => ∃ manners objects, children = manners ++ objects ∧
      (∀ a ∈ manners, a.kind = .isHow) ∧ ∀ a ∈ objects, a.kind = .isA
  | .isA | .hasA => ∀ child ∈ children, child.kind ≠ .isHow

namespace Attr

inductive IsShaped : Attr → Prop where
  | mk {kind : Kind} {value : String} {children : List Attr} (own : kind.Takes children)
      (inside : ∀ child ∈ children, IsShaped child) : IsShaped ⟨kind, value, children⟩

inductive HasPart (whole : Attr) : Attr → Prop where
  | self : HasPart whole whole
  | child {part child : Attr} (inside : HasPart whole part) (member : child ∈ part.children) :
      HasPart whole child

theorem IsShaped.takes {attr : Attr} (shaped : attr.IsShaped) : attr.kind.Takes attr.children := by
  cases shaped with
  | mk own => exact own

theorem IsShaped.part {whole part : Attr} (shaped : whole.IsShaped) (inside : whole.HasPart part) :
    part.IsShaped := by
  induction inside with
  | self => exact shaped
  | child _ member ih =>
      cases ih with
      | mk _ children => exact children _ member

theorem thing_of_takes {attr child : Attr} (takes : attr.kind.Takes attr.children)
    (member : child ∈ attr.children) (kind : child.kind = .hasA ∨ child.kind = .does) :
    attr.kind = .isA ∨ attr.kind = .hasA := by
  rcases attr with ⟨own, value, children⟩
  have not_how : child.kind ≠ .isHow := by
    intro how
    rw [how] at kind
    exact absurd kind (by decide)
  have not_noun : child.kind ≠ .isA := by
    intro noun
    rw [noun] at kind
    exact absurd kind (by decide)
  cases own with
  | isA => exact .inl rfl
  | hasA => exact .inr rfl
  | isHow | isLike =>
      rcases takes with none | ⟨how, alone, same⟩
      · rw [none] at member
        cases member
      · rw [alone, List.mem_singleton] at member
        exact absurd (member ▸ same) not_how
  | does =>
      rcases takes with ⟨manners, objects, both, hows, nouns⟩
      rw [both, List.mem_append] at member
      rcases member with manner | object
      · exact absurd (hows child manner) not_how
      · exact absurd (nouns child object) not_noun

end Attr

section Attached

variable {as bs : List Attr}

theorem shaped_word {kind : Kind} {text : String} (takes : kind.Takes bs)
    (attrs : ∀ b ∈ bs, b.IsShaped) : ∀ a ∈ attach [⟨kind, text, []⟩] bs, a.IsShaped := by
  rw [attach, List.map_singleton, List.forall_mem_singleton]
  exact .mk takes attrs

theorem shaped_attach (bases : ∀ a ∈ as, a.IsShaped)
    (things : ∀ a ∈ as, a.kind = .isA ∨ a.kind = .hasA)
    (attrs : ∀ b ∈ bs, b.IsShaped) (no_how : ∀ b ∈ bs, b.kind ≠ .isHow) :
    ∀ a ∈ attach as bs, a.IsShaped := by
  intro a member
  rcases List.mem_map.mp member with ⟨base, inside, rfl⟩
  have thing := things base inside
  cases bases base inside with
  | @mk kind value children own shaped =>
      apply Attr.IsShaped.mk
      · cases kind with
        | isA | hasA => exact List.forall_mem_append.mpr ⟨own, no_how⟩
        | isLike | isHow | does => rcases thing with noun | had <;> contradiction
      · exact List.forall_mem_append.mpr ⟨shaped, attrs⟩

theorem shaped_to_has_a (nouns : ∀ a ∈ as, a.IsShaped) : ∀ a ∈ toHasA as, a.IsShaped := by
  intro a member
  rcases List.mem_map.mp member with ⟨noun, inside, rfl⟩
  cases nouns noun inside with
  | @mk kind value children own shaped =>
      cases kind with
      | isA | hasA | isLike | isHow | does => exact .mk own shaped

theorem shaped_nest_adverbs {inner adverbs : List Attr} (bare : ∀ a ∈ adverbs, a.children = [])
    (hows : ∀ a ∈ adverbs, a.kind = .isHow) (takes : Kind.isHow.Takes inner)
    (shaped : ∀ a ∈ inner, a.IsShaped) :
    Kind.isHow.Takes (nestAdverbs inner adverbs) ∧ ∀ a ∈ nestAdverbs inner adverbs, a.IsShaped := by
  induction adverbs generalizing inner with
  | nil => exact ⟨takes, shaped⟩
  | cons first rest ih =>
      rcases List.forall_mem_cons.mp bare with ⟨first_bare, rest_bare⟩
      rcases List.forall_mem_cons.mp hows with ⟨first_how, rest_how⟩
      have outer : ({ first with children := first.children ++ inner } : Attr).IsShaped := by
        rw [first_bare, first_how]
        exact .mk takes shaped
      apply ih rest_bare rest_how
      · exact .inr ⟨_, rfl, first_how⟩
      · exact List.forall_mem_singleton.mpr outer

end Attached

section Derived

variable {lexicon : Lexicon} {production : Production} {ws : List Word} {as : List Attr}

theorem Derives.shaped_run (run : Derives lexicon Phrase.adverbRun ws as) :
    Kind.isHow.Takes (foldAdverbs as) ∧ ∀ a ∈ foldAdverbs as, a.IsShaped := by
  apply shaped_nest_adverbs run.adverb_run_bare
  · exact run.kind_eq rfl
  · exact .inl rfl
  · exact List.forall_mem_nil _

theorem Derives.takes_adverbs (h : Derives lexicon Phrase.adverbsOpt ws as) :
    Kind.isHow.Takes as := by
  cases h with
  | noAdverbs => exact .inl rfl
  | someAdverbs group =>
      cases group with
      | adverbGroup run => exact run.shaped_run.1

/-- Whatever a phrase stands for has the children that its kinds take. -/
theorem Derives.shaped (h : Derives lexicon production ws as) : ∀ a ∈ as, a.IsShaped := by
  have not_how {kinds : List Kind} {as : List Attr} (all : ∀ a ∈ as, a.kind ∈ kinds)
      (none : .isHow ∉ kinds) : ∀ a ∈ as, a.kind ≠ .isHow := by
    intro a member how
    exact none (how ▸ all a member)
  have noun {ws as} (h : Derives lexicon (Phrase.word .noun) ws as) :
      (∀ a ∈ as, a.IsShaped) ∧ ∀ a ∈ as, a.kind = .isA ∨ a.kind = .hasA := by
    rcases h.exists_eq_singleton with ⟨w, text, -, -, rfl⟩
    rw [List.forall_mem_singleton, List.forall_mem_singleton]
    exact ⟨.mk (List.forall_mem_nil _) (List.forall_mem_nil _), .inl rfl⟩
  induction h with
  | @word category w text reads =>
      rw [List.forall_mem_singleton]
      apply Attr.IsShaped.mk _ (List.forall_mem_nil _)
      cases category with
      | noun => exact List.forall_mem_nil _
      | adjective | adverb => exact .inl rfl
      | verb => exact ⟨[], [], rfl, List.forall_mem_nil _, List.forall_mem_nil _⟩
  | noDeterminer | determiner | noAdverbs | noAdjectives | noItems | it => exact List.forall_mem_nil _
  | adverb _ ih | someAdverbs _ ih | single _ ih | items _ ih | relativeClause _ ih
  | itSentence _ ih | likeness _ _ ih | identity _ _ ih => exact ih
  | adverbs _ _ first_ih rest_ih | adjectives _ _ first_ih rest_ih
  | several _ _ first_ih rest_ih => exact List.forall_mem_append.mpr ⟨first_ih, rest_ih⟩
  | adverbGroup run => exact run.shaped_run.2
  | adjectivePhrase adverbs adjective adverbs_ih =>
      rcases adjective.exists_eq_singleton with ⟨w, text, -, -, rfl⟩
      exact shaped_word adverbs.takes_adverbs adverbs_ih
  | noun _ adjectives word _ adjectives_ih =>
      exact shaped_attach (noun word).1 (noun word).2 adjectives_ih
        (not_how adjectives.kind_mem (by decide))
  | nounClause _ adjectives word clause _ adjectives_ih _ clause_ih =>
      have phrase := shaped_attach (noun word).1 (noun word).2 adjectives_ih
        (not_how adjectives.kind_mem (by decide))
      apply shaped_attach phrase _ clause_ih (not_how clause.kind_mem (by decide))
      intro a member
      exact .inl (kind_attach (word.kind_eq rfl) _ a member)
  | possession _ _ ih => exact shaped_to_has_a ih
  | action adverbs verb objects adverbs_ih _ objects_ih =>
      rcases verb.exists_eq_singleton with ⟨w, text, -, -, rfl⟩
      apply shaped_word
      · exact ⟨_, _, rfl, adverbs.kind_eq rfl, objects.kind_eq rfl⟩
      · exact List.forall_mem_append.mpr ⟨adverbs_ih, objects_ih⟩
  | manner verb adverbs _ adverbs_ih =>
      rcases verb.exists_eq_singleton with ⟨w, text, -, -, rfl⟩
      apply shaped_word _ adverbs_ih
      exact ⟨_, [], (List.append_nil _).symm, adverbs.kind_eq rfl, List.forall_mem_nil _⟩
  | subject subject _ predicate subject_ih predicate_ih =>
      have had := kind_to_has_a (subject.kind_eq rfl)
      apply shaped_attach (shaped_to_has_a subject_ih) _ predicate_ih
        (not_how predicate.kind_mem (by decide))
      intro a member
      exact .inr (had a member)

/-- A rule claims and asks for attributes that can stand on their own. -/
theorem DerivesRules.shaped {rules : List Rule} (h : DerivesRules lexicon ws rules) :
    ∀ rule ∈ rules, ∀ atom ∈ rule.head :: rule.body,
      atom.kind ∈ [.isA, .hasA, .isLike, .does] ∧ atom.IsShaped := by
  intro rule member atom given
  rcases h.exists_sentence rule member atom given with ⟨production, ws, as, item, -, derives, inside⟩
  have kind := derives.kind_mem atom inside
  rw [item] at kind
  exact ⟨kind, derives.shaped atom inside⟩

end Derived

section Glossed

theorem Clause.exists_glosses {attrs : List Attr} (kinds : ∀ attr ∈ attrs, attr.kind ≠ .isHow) :
    ∃ listed, Clause.glosses? (attrs.map .attr) = some listed := by
  induction attrs with
  | nil => exact ⟨[], rfl⟩
  | cons attr attrs ih =>
      rcases List.forall_mem_cons.mp kinds with ⟨kind, rest⟩
      rcases Gloss.exists_sentence kind with ⟨words, said⟩
      rcases ih rest with ⟨listed, all⟩
      refine ⟨words :: listed, ?_⟩
      rw [List.map_cons, Clause.glosses?, Clause.gloss?, said, all]
      rfl

theorem Rule.exists_gloss {rule : Rule} (kinds : ∀ atom ∈ rule.head :: rule.body, atom.kind ≠ .isHow) :
    ∃ words, rule.clause.gloss? = some words := by
  rcases rule with ⟨head, body⟩
  rcases List.forall_mem_cons.mp kinds with ⟨head_kind, body_kinds⟩
  rcases Gloss.exists_sentence head_kind with ⟨conclusion, said⟩
  rcases Clause.exists_glosses body_kinds with ⟨conditions, all⟩
  cases body with
  | nil => exact ⟨conclusion, said⟩
  | cons first rest =>
      refine ⟨["if"] ++ Gloss.andJoined conditions ++ ["then"] ++ conclusion, ?_⟩
      rw [List.map_cons] at all
      rw [Rule.clause, List.map_cons, Clause.gloss?, all, said]
      rfl

/-- Rules have a gloss if none of them is about how something holds. -/
theorem exists_gloss_rules {rules : List Rule}
    (kinds : ∀ rule ∈ rules, ∀ atom ∈ rule.head :: rule.body, atom.kind ≠ .isHow) :
    ∃ words, glossRules? rules = some words := by
  have all : ∃ listed, Clause.glosses? (rules.map Rule.clause) = some listed := by
    induction rules with
    | nil => exact ⟨[], rfl⟩
    | cons rule rules ih =>
        rcases List.forall_mem_cons.mp kinds with ⟨rule_kinds, rest⟩
        rcases Rule.exists_gloss rule_kinds with ⟨words, said⟩
        rcases ih rest with ⟨listed, glossed⟩
        refine ⟨words :: listed, ?_⟩
        rw [List.map_cons, Clause.glosses?, said, glossed]
        rfl
  rcases all with ⟨listed, glossed⟩
  refine ⟨Gloss.andJoined listed, ?_⟩
  rw [glossRules?, Clause.glossAll?, glossed]
  rfl

end Glossed

/-- In every reading each attribute has only children that its kind takes, nothing is had or done
but by things, no rule says how, and so its gloss consists of words. -/
theorem read_all_shapes {lexicon : Lexicon} {source : Source} {readings : List (List Rule)}
    {rules : List Rule} (read : readAll source lexicon = .ok readings) (member : rules ∈ readings) :
    (∀ rule ∈ rules, ∀ atom ∈ rule.head :: rule.body,
      atom.kind ∈ [.isA, .hasA, .isLike, .does] ∧ ∀ part, atom.HasPart part →
        part.kind.Takes part.children ∧
        ∀ child ∈ part.children, child.kind = .hasA ∨ child.kind = .does →
          part.kind = .isA ∨ part.kind = .hasA) ∧
    ∃ gloss, (Value.ofRules rules).gloss? = some gloss := by
  rcases exists_words_of_read_all read with ⟨words, given⟩
  have shaped := (meaning_of_read_all given read member).2.shaped
  constructor
  · intro rule inside atom stands
    rcases shaped rule inside atom stands with ⟨kind, whole⟩
    refine ⟨kind, ?_⟩
    intro part within
    have takes := (whole.part within).takes
    exact ⟨takes, fun child below => Attr.thing_of_takes takes below⟩
  · rw [Value.gloss?_of_rules]
    apply exists_gloss_rules
    intro rule inside atom stands how
    have kind := (shaped rule inside atom stands).1
    rw [how] at kind
    exact absurd kind (by decide)

theorem read_all_shapes_adverbs_of_verb :
    let text := "\"adj:grey\" heron \"adv:very\" \"adv:slowly\" eats frog"
    let slowly : Attr := ⟨.isHow, "slowly", [⟨.isHow, "very", []⟩]⟩
    let rules : List Rule := [⟨⟨.hasA, "heron", [⟨.isLike, "grey", []⟩,
      ⟨.does, "eats", [slowly, ⟨.isA, "frog", []⟩]⟩]⟩, []⟩]
    ∃ readings, readAll (.text text) Lexicon.marsh = .ok readings ∧ rules ∈ readings ∧
      (∀ rule ∈ rules, ∀ atom ∈ rule.head :: rule.body,
        atom.kind ∈ [.isA, .hasA, .isLike, .does] ∧ ∀ part, atom.HasPart part →
          part.kind.Takes part.children ∧
          ∀ child ∈ part.children, child.kind = .hasA ∨ child.kind = .does →
            part.kind = .isA ∨ part.kind = .hasA) ∧
      ∃ gloss, (Value.ofRules rules).gloss? = some gloss := by
  intro text slowly rules
  let words : List Word := [.plain "\"adj:grey\"", .plain "heron", .plain "\"adv:very\"",
    .plain "\"adv:slowly\"", .plain "eats", .plain "frog"]
  have given : Source.words (.text text) = .ok words := by decide +kernel
  have grey : Literal.ofSpelling? "\"adj:grey\"" = some ⟨.adjective, "grey"⟩ := by decide
  have very : Literal.ofSpelling? "\"adv:very\"" = some ⟨.adverb, "very"⟩ := by decide
  have slow : Literal.ofSpelling? "\"adv:slowly\"" = some ⟨.adverb, "slowly"⟩ := by decide
  have recognized : Utterance.check ⟨words, Lexicon.marsh⟩ = .ok () := by
    simp [Utterance.check_ok_iff, Utterance.recognizes, words, Lexicon.knows, Category.all, keywords,
      grey, very, slow]
  have spelled {word text : String} {category : Category}
      (spells : Literal.ofSpelling? word = some ⟨category, text⟩) :
      Derives Lexicon.marsh (Phrase.word category) [.plain word] [⟨category.kind, text, []⟩] :=
    .word (.spelled spells)
  have adjectives := Derives.adjectives (.adjectivePhrase .noAdverbs (spelled grey)) .noAdjectives
  have manner := Derives.adverbGroup (.adverbs (spelled very) (.adverb (spelled slow)))
  have object := Lexicon.marsh_noun (w := "frog") (by simp) .noDeterminer
  have predicate := Derives.action (.items (.single manner))
    (Lexicon.marsh_word (w := "eats") (by simp)) (.items (.single object))
  have subject := Derives.noun .noDeterminer adjectives
    (Lexicon.marsh_word (w := "heron") (by simp))
  have claim := Derives.subject subject (List.cons_ne_nil _ _) predicate
  rcases exists_read_all given Lexicon.marsh_clean.unlisted_it recognized (.fact claim)
    (List.cons_ne_nil _ _) with ⟨readings, read, member⟩
  exact ⟨readings, read, member, read_all_shapes read member⟩

end ControlledEnglish
