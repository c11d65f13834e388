import ControlledEnglish.Proofs.Canonical.Glossed
import ControlledEnglish.Proofs.Grammar.Content

namespace ControlledEnglish

namespace Canonical

open Gloss (andJoined phrase)

variable {lexicon : Lexicon} {as bs cs ds : List Attr}

theorem append_inj_of_kinds {kinds : List Kind} (front : ∀ a ∈ as, a.kind ∈ kinds)
    (behind : ∀ b ∈ bs, b.kind ∉ kinds) (front' : ∀ c ∈ cs, c.kind ∈ kinds)
    (behind' : ∀ d ∈ ds, d.kind ∉ kinds) (same : as ++ bs = cs ++ ds) : as = cs ∧ bs = ds := by
  have kept {l m : List Attr} (all : ∀ a ∈ l, a.kind ∈ kinds) (none : ∀ b ∈ m, b.kind ∉ kinds) :
      (l ++ m).filter (fun a => a.kind ∈ kinds) = l := by
    rw [List.filter_append, List.filter_eq_self.mpr (by simpa using all),
      List.filter_eq_nil_iff.mpr (by simpa using none), List.append_nil]
  have first : as = cs := by rw [← kept front behind, same, kept front' behind']
  subst first
  exact ⟨rfl, List.append_cancel_left same⟩

theorem Listed.ext {category : Category} {w v : Listed lexicon category} (same : w.text = v.text) :
    w = v := by
  cases w
  cases v
  cases same
  rfl

theorem adverb_words_inj {adverbs others : List (Listed lexicon .adverb)}
    (same : adverbWords adverbs = adverbWords others) : adverbs = others :=
  (List.map_inj_right fun _ _ => Listed.ext).mp same

theorem Quality.attr_inj {quality other : Quality lexicon} (same : quality.attr = other.attr) :
    quality = other := by
  rcases quality with ⟨adverbs, adjective⟩
  rcases other with ⟨others, other⟩
  rcases Attr.mk.inj same with ⟨-, text, hows⟩
  have words : adverbWords adverbs = adverbWords others := by
    rw [← (adverbs_phrases adverbs).1, hows, (adverbs_phrases others).1]
  have adjectives : adjective = other := Listed.ext text
  rw [adverb_words_inj words, adjectives]

theorem manners_inj {manners others : List (Manner lexicon)}
    (same : mannerAttrs manners = mannerAttrs others) : manners = others := by
  have words := manners_phrases manners
  rw [same, manners_phrases others] at words
  apply (List.map_inj_right _).mp words.symm
  intro first second words
  rcases first with ⟨adverbs, some⟩
  rcases second with ⟨others, some'⟩
  cases adverb_words_inj words
  rfl

theorem Action.attr_inj {action other : Action lexicon} (nouns : ∀ a ∈ as, a.kind = .isA)
    (others : ∀ b ∈ bs, b.kind = .isA) (same : action.attr as = other.attr bs) :
    action = other ∧ as = bs := by
  rcases action with ⟨manners, verb⟩
  rcases other with ⟨manners', verb'⟩
  rcases Attr.mk.inj same with ⟨-, text, children⟩
  have hows (manners : List (Manner lexicon)) : ∀ a ∈ mannerAttrs manners, a.kind ∈ [Kind.isHow] :=
    fun a member => by simp [manners_kind _ a member]
  rcases append_inj_of_kinds (hows manners) (fun a member => by simp [nouns a member])
    (hows manners') (fun b member => by simp [others b member]) children with ⟨front, behind⟩
  have verbs : verb = verb' := Listed.ext text
  rw [manners_inj front, verbs]
  exact ⟨rfl, behind⟩

theorem Name.attr_inj {name other : Name lexicon} (clause : ∀ a ∈ as, a.kind ∉ Gloss.modifiers)
    (others : ∀ b ∈ bs, b.kind ∉ Gloss.modifiers) (same : name.attr as = other.attr bs) :
    name = other ∧ as = bs := by
  rcases name with ⟨qualities, noun⟩
  rcases other with ⟨qualities', noun'⟩
  rcases Attr.mk.inj same with ⟨-, text, children⟩
  have likes (qualities : List (Quality lexicon)) :
      ∀ a ∈ qualities.map Quality.attr, a.kind ∈ Gloss.modifiers :=
    fun a member => by simp [qualities_kind _ a member, Gloss.modifiers]
  rcases append_inj_of_kinds (likes qualities) clause (likes qualities') others children with
    ⟨front, behind⟩
  have nouns : noun = noun' := Listed.ext text
  rw [(List.map_inj_right fun _ _ => Quality.attr_inj).mp front, nouns]
  exact ⟨rfl, behind⟩

theorem to_has_a_inj (nouns : ∀ a ∈ as, a.kind = .isA) (others : ∀ b ∈ bs, b.kind = .isA)
    (same : toHasA as = toHasA bs) : as = bs := by
  induction as generalizing bs with
  | nil => exact (List.map_eq_nil_iff.mp same.symm).symm
  | cons a as ih =>
      cases bs with
      | nil => cases same
      | cons b bs =>
          rcases List.forall_mem_cons.mp nouns with ⟨noun, rest⟩
          rcases List.forall_mem_cons.mp others with ⟨other, rest'⟩
          rcases List.cons.inj same with ⟨first, behind⟩
          rw [Attr.toHasA, Attr.toHasA, noun, other] at first
          rcases a with ⟨kind, value, children⟩
          rcases b with ⟨kind', value', children'⟩
          cases noun
          cases other
          cases first
          rw [ih rest rest' behind]

theorem Head.attrs_ne_nil (head : Head lexicon) (objects : Group lexicon) :
    head.attrs objects.attrs ≠ [] := by
  cases head with
  | does action => exact List.cons_ne_nil _ _
  | has => exact fun none => objects.attrs_ne_nil (List.map_eq_nil_iff.mp none)
  | is => exact objects.attrs_ne_nil

def Head.kind : Head lexicon → Kind
  | does _ => .does
  | has => .hasA
  | is => .isA

theorem Head.attrs_kind_eq (head : Head lexicon) (objects : Group lexicon) :
    ∀ a ∈ head.attrs objects.attrs, a.kind = head.kind := by
  cases head with
  | does action => exact List.forall_mem_singleton.mpr rfl
  | has => exact kind_to_has_a objects.attrs_kind
  | is => exact objects.attrs_kind

theorem Head.attrs_ne_action (head : Head lexicon) (objects : Group lexicon)
    (action : Action lexicon) : head.attrs objects.attrs ≠ [action.attr []] := by
  intro same
  have kind := head.attrs_kind_eq objects
  rw [same, List.forall_mem_singleton] at kind
  cases head with
  | does other =>
      have nouns := (Action.attr_inj objects.attrs_kind (List.forall_mem_nil _)
        (List.cons.inj same).1).2
      exact objects.attrs_ne_nil nouns
  | has => cases kind
  | is => cases kind

theorem Head.attrs_inj {head other : Head lexicon} {objects others : Group lexicon}
    (same : head.attrs objects.attrs = other.attrs others.attrs) :
    head = other ∧ objects.attrs = others.attrs := by
  have kinds : head.kind = other.kind := by
    rcases List.exists_mem_of_ne_nil _ (head.attrs_ne_nil objects) with ⟨a, member⟩
    rw [← head.attrs_kind_eq objects a member]
    rw [same] at member
    exact other.attrs_kind_eq others a member
  cases head with
  | does action =>
      cases other with
      | does action' =>
          rcases Action.attr_inj objects.attrs_kind others.attrs_kind (List.cons.inj same).1 with
            ⟨rfl, nouns⟩
          exact ⟨rfl, nouns⟩
      | has | is => cases kinds
  | has =>
      cases other with
      | has => exact ⟨rfl, to_has_a_inj objects.attrs_kind others.attrs_kind same⟩
      | does | is => cases kinds
  | is =>
      cases other with
      | is => exact ⟨rfl, same⟩
      | does | has => cases kinds

theorem Leaf.attr_inj {leaf other : Leaf lexicon} (same : leaf.attr = other.attr) :
    leaf = other := by
  have modifiers (leaf : Leaf lexicon) : ∀ a ∈ leaf.clause, a.kind ∉ Gloss.modifiers := by
    intro a member
    rw [leaf.clause_kind a member]
    decide
  rw [leaf.attr_eq, other.attr_eq] at same
  rcases Name.attr_inj (modifiers leaf) (modifiers other) same with ⟨names, clauses⟩
  cases leaf with
  | bare name =>
      cases other with
      | bare => rw [show name = _ from names]; rfl
      | acting => cases clauses
  | acting name action =>
      cases other with
      | bare => cases clauses
      | acting name' action' =>
          have actions := (Action.attr_inj (List.forall_mem_nil _) (List.forall_mem_nil _)
            (List.cons.inj clauses).1).1
          rw [show name = name' from names, actions]

theorem Leaf.attr_ne_nested (leaf : Leaf lexicon) (name : Name lexicon) (head : Head lexicon)
    (objects : Group lexicon) : leaf.attr ≠ name.attr (head.attrs objects.attrs) := by
  intro same
  have modifiers : ∀ a ∈ leaf.clause, a.kind ∉ Gloss.modifiers := by
    intro a member
    rw [leaf.clause_kind a member]
    decide
  rw [leaf.attr_eq] at same
  have clauses := (Name.attr_inj modifiers (head.attrs_kind objects.attrs_kind) same).2
  cases leaf with
  | bare => exact head.attrs_ne_nil objects clauses.symm
  | acting name action => exact head.attrs_ne_action objects action clauses.symm

theorem Name.nested_inj {name other : Name lexicon} {head head' : Head lexicon}
    {objects others : Group lexicon}
    (same : name.attr (head.attrs objects.attrs) = other.attr (head'.attrs others.attrs)) :
    name = other ∧ head = head' ∧ objects.attrs = others.attrs := by
  rcases Name.attr_inj (head.attrs_kind objects.attrs_kind) (head'.attrs_kind others.attrs_kind)
    same with ⟨names, clauses⟩
  exact ⟨names, Head.attrs_inj clauses⟩

theorem Group.attrs_inj {group other : Group lexicon} (same : group.attrs = other.attrs) :
    group = other := by
  induction group generalizing other with
  | one leaf =>
      cases other with
      | one leaf' => rw [Leaf.attr_inj (List.cons.inj same).1]
      | nested name head objects =>
          exact absurd (List.cons.inj same).1 (leaf.attr_ne_nested name head objects)
      | more leaf' rest => exact absurd (List.cons.inj same).2.symm rest.attrs_ne_nil
      | nestedMore name head objects rest =>
          exact absurd (List.cons.inj same).2.symm rest.attrs_ne_nil
  | more leaf rest ih =>
      cases other with
      | one | nested => exact absurd (List.cons.inj same).2 rest.attrs_ne_nil
      | more leaf' rest' =>
          rw [Leaf.attr_inj (List.cons.inj same).1, ih (List.cons.inj same).2]
      | nestedMore name head objects rest' =>
          exact absurd (List.cons.inj same).1 (leaf.attr_ne_nested name head objects)
  | nested name head objects ih =>
      cases other with
      | one leaf =>
          exact absurd (List.cons.inj same).1.symm (leaf.attr_ne_nested name head objects)
      | nested name' head' objects' =>
          rcases Name.nested_inj (List.cons.inj same).1 with ⟨rfl, rfl, inner⟩
          rw [ih inner]
      | more leaf rest => exact absurd (List.cons.inj same).2.symm rest.attrs_ne_nil
      | nestedMore name' head' objects' rest =>
          exact absurd (List.cons.inj same).2.symm rest.attrs_ne_nil
  | nestedMore name head objects rest ih rest_ih =>
      cases other with
      | one | nested => exact absurd (List.cons.inj same).2 rest.attrs_ne_nil
      | more leaf rest' =>
          exact absurd (List.cons.inj same).1.symm (leaf.attr_ne_nested name head objects)
      | nestedMore name' head' objects' rest' =>
          rcases Name.nested_inj (List.cons.inj same).1 with ⟨rfl, rfl, inner⟩
          rw [ih inner, rest_ih (List.cons.inj same).2]

theorem Predicate.attrs_inj {predicate other : Predicate lexicon}
    (same : predicate.attrs = other.attrs) : predicate = other := by
  have like_ne_nested (quality : Quality lexicon) (head : Head lexicon) (objects : Group lexicon) :
      [quality.attr] ≠ head.attrs objects.attrs := by
    intro same
    have kinds := head.attrs_kind objects.attrs_kind
    rw [← same, List.forall_mem_singleton] at kinds
    exact kinds (List.mem_cons_self : Kind.isLike ∈ _)
  have like_ne_acting (quality : Quality lexicon) (action : Action lexicon) :
      quality.attr ≠ action.attr [] := by
    intro same
    cases (Attr.mk.inj same).1
  cases predicate with
  | like quality =>
      cases other with
      | like quality' => rw [Quality.attr_inj (List.cons.inj same).1]
      | acting action => exact absurd (List.cons.inj same).1 (like_ne_acting quality action)
      | nested head objects => exact absurd same (like_ne_nested quality head objects)
  | acting action =>
      cases other with
      | like quality => exact absurd (List.cons.inj same).1.symm (like_ne_acting quality action)
      | acting action' =>
          rw [(Action.attr_inj (List.forall_mem_nil _) (List.forall_mem_nil _)
            (List.cons.inj same).1).1]
      | nested head objects => exact absurd same.symm (head.attrs_ne_action objects action)
  | nested head objects =>
      cases other with
      | like quality => exact absurd same.symm (like_ne_nested quality head objects)
      | acting action => exact absurd same (head.attrs_ne_action objects action)
      | nested head' objects' =>
          rcases Head.attrs_inj same with ⟨rfl, inner⟩
          rw [Group.attrs_inj inner]

/-- As many words say as many attributes, so what is said is told apart. -/
theorem said_inj (clean : lexicon.IsClean) {predicates others : List (Predicate lexicon)}
    (words : predicates.map Predicate.words = others.map Predicate.words)
    (same : saidAttrs predicates = saidAttrs others) : predicates = others := by
  induction predicates generalizing others with
  | nil => exact (List.map_eq_nil_iff.mp words.symm).symm
  | cons first rest ih =>
      cases others with
      | nil => cases words
      | cons first' rest' =>
          rcases List.cons.inj words with ⟨first_words, rest_words⟩
          have sizes : Attr.sizes first.attrs = Attr.sizes first'.attrs := by
            rw [← first.derives.content_eq clean.avoids, first_words, first'.derives.content_eq clean.avoids]
          rw [said_attrs_cons, said_attrs_cons] at same
          rcases Attr.append_inj_of_sizes same sizes with ⟨attrs, rest_attrs⟩
          rw [Predicate.attrs_inj attrs, ih rest_words rest_attrs]

end Canonical

end ControlledEnglish
