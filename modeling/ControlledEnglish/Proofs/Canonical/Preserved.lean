import ControlledEnglish.Proofs.Canonical.Resettled
import ControlledEnglish.Proofs.Canonical.Restated
import ControlledEnglish.Proofs.Canonical.Speakable

/-! Rules that are read again from their gloss.

A gloss joins objects by "and" and says nowhere whether the next noun is an object of the last
clause or stands beside it. The search gives a clause all nouns but the last where more than one
follow, so a rule comes back exactly if it can be said at all and its objects are distributed like
that. -/

namespace ControlledEnglish

namespace Attr

/-- The nouns that a claim or a clause is about. -/
def objects (attr : Attr) : List Attr :=
  match attr.kind with
  | .does => attr.nouns
  | .hasA => [{ attr with kind := .isA }]
  | .isA => [attr]
  | .isLike | .isHow => []

def clauseObjects (noun : Attr) : List Attr := noun.children.flatMap objects

/-- One noun at most in every clause. -/
inductive IsChain : Attr → Prop where
  | bare {noun : Attr} (none : noun.clauseObjects = []) : IsChain noun
  | nested {noun object : Attr} (one : noun.clauseObjects = [object]) (chain : IsChain object) :
      IsChain noun

/-- Nouns side by side as the search distributes them: a noun with objects comes last or last but
one, and in the latter case its objects are distributed the same way. -/
inductive AreSettled : List Attr → Prop where
  | chain {noun : Attr} (chain : noun.IsChain) : AreSettled [noun]
  | bare {noun : Attr} {rest : List Attr} (none : noun.clauseObjects = [])
      (settled : AreSettled rest) : AreSettled (noun :: rest)
  | nested {noun last : Attr} (settled : AreSettled noun.clauseObjects) (chain : last.IsChain) :
      AreSettled [noun, last]

def IsSettled (claim : Attr) : Prop := claim.objects = [] ∨ AreSettled claim.objects

theorem AreSettled.ne_nil {nouns : List Attr} (settled : AreSettled nouns) : nouns ≠ [] := by
  cases settled <;> exact List.cons_ne_nil _ _

end Attr

structure Rule.IsSettled (rule : Rule) : Prop where
  head : rule.head.IsSettled
  body : ∀ condition ∈ rule.body, condition.IsSettled

namespace Canonical

open Attr (AreSettled)

variable {lexicon : Lexicon}

theorem objects_to_has_a {nouns : List Attr} (kinds : ∀ a ∈ nouns, a.kind = .isA) :
    (toHasA nouns).flatMap Attr.objects = nouns := by
  have one (a : Attr) (member : a ∈ nouns) : a.toHasA.objects = [a] := by
    have kind := kinds a member
    rcases a with ⟨_, value, children⟩
    subst kind
    rfl
  rw [toHasA, List.flatMap_map, List.flatMap_congr one, List.flatMap_singleton']

theorem Head.objects_attrs (head : Head lexicon) (objects : Group lexicon) :
    (head.attrs objects.attrs).flatMap Attr.objects = objects.attrs := by
  cases head with
  | does action =>
      rw [attrs, List.flatMap_singleton]
      exact action.nouns_attr objects.attrs_kind
  | has => exact objects_to_has_a objects.attrs_kind
  | is =>
      have one (a : Attr) (member : a ∈ objects.attrs) : a.objects = [a] := by
        rw [Attr.objects, objects.attrs_kind a member]
      rw [attrs, List.flatMap_congr one, List.flatMap_singleton']

theorem Name.clause_objects (name : Name lexicon) (clause : List Attr) :
    (name.attr clause).clauseObjects = clause.flatMap Attr.objects := by
  have none : (name.qualities.map Quality.attr).flatMap Attr.objects = [] := by
    rw [List.flatMap_eq_nil_iff]
    intro a member
    rw [Attr.objects, qualities_kind _ a member]
  rw [Attr.clauseObjects, Name.attr, Listed.attr, List.flatMap_append, none, List.nil_append]

theorem Leaf.clause_objects (leaf : Leaf lexicon) : leaf.attr.clauseObjects = [] := by
  cases leaf with
  | bare name => exact name.clause_objects []
  | acting name action =>
      rw [attr, name.clause_objects, List.flatMap_singleton]
      exact action.nouns_attr (List.forall_mem_nil _)

theorem Name.clause_objects_nested (name : Name lexicon) (head : Head lexicon)
    (objects : Group lexicon) :
    (name.attr (head.attrs objects.attrs)).clauseObjects = objects.attrs := by
  rw [name.clause_objects, head.objects_attrs]

namespace Group

theorem chain_iff (group : Group lexicon) :
    group.IsChain ↔ ∃ noun, group.attrs = [noun] ∧ noun.IsChain := by
  induction group with
  | one leaf => exact iff_of_true trivial ⟨leaf.attr, rfl, .bare leaf.clause_objects⟩
  | more leaf rest =>
      apply iff_of_false id
      rintro ⟨noun, same, -⟩
      exact rest.attrs_ne_nil (List.cons.inj same).2
  | nested name head objects ih =>
      rw [IsChain, ih]
      constructor
      · rintro ⟨noun, same, chain⟩
        exact ⟨_, rfl, .nested ((name.clause_objects_nested head objects).trans same) chain⟩
      · rintro ⟨noun, same, chain⟩
        cases same
        cases chain with
        | bare none =>
            rw [name.clause_objects_nested] at none
            exact absurd none objects.attrs_ne_nil
        | @nested noun object one chain =>
            rw [name.clause_objects_nested] at one
            exact ⟨object, one, chain⟩
  | nestedMore name head objects rest =>
      apply iff_of_false id
      rintro ⟨noun, same, -⟩
      exact rest.attrs_ne_nil (List.cons.inj same).2

theorem settled_iff (group : Group lexicon) : group.IsSettled ↔ AreSettled group.attrs := by
  induction group with
  | one leaf => exact iff_of_true trivial (.chain (.bare leaf.clause_objects))
  | more leaf rest ih =>
      rw [IsSettled, ih]
      constructor
      · exact .bare leaf.clause_objects
      · intro settled
        generalize same : (more leaf rest).attrs = nouns at settled
        cases settled with
        | chain => exact absurd (List.cons.inj same).2 rest.attrs_ne_nil
        | bare none settled =>
            cases same
            exact settled
        | nested settled chain =>
            cases (List.cons.inj same).1
            exact absurd leaf.clause_objects settled.ne_nil
  | nested name head objects =>
      have chain := (nested name head objects).chain_iff
      constructor
      · intro settled
        rcases chain.mp settled with ⟨noun, same, chain⟩
        rw [same]
        exact .chain chain
      · intro settled
        apply chain.mpr
        generalize same : (nested name head objects).attrs = nouns at settled ⊢
        cases settled with
        | chain chain => exact ⟨_, rfl, chain⟩
        | bare none settled => exact absurd (List.cons.inj same).2.symm settled.ne_nil
        | nested => cases same
  | nestedMore name head objects rest ih =>
      rw [IsSettled, ih, rest.chain_iff]
      constructor
      · rintro ⟨settled, last, same, chain⟩
        rw [attrs, same]
        rw [← name.clause_objects_nested head objects] at settled
        exact .nested settled chain
      · intro settled
        generalize same : (nestedMore name head objects rest).attrs = nouns at settled
        cases settled with
        | chain => exact absurd (List.cons.inj same).2 rest.attrs_ne_nil
        | bare none =>
            cases (List.cons.inj same).1
            rw [name.clause_objects_nested] at none
            exact absurd none objects.attrs_ne_nil
        | nested settled chain =>
            rcases List.cons.inj same with ⟨rfl, rest_same⟩
            rw [name.clause_objects_nested] at settled
            exact ⟨settled, _, rest_same, chain⟩

end Group

theorem Predicate.settled_iff {predicate : Predicate lexicon} {claim : Attr}
    (alone : predicate.attrs = [claim]) : predicate.IsSettled ↔ claim.IsSettled := by
  cases predicate with
  | like quality =>
      cases alone
      exact iff_of_true trivial (.inl rfl)
  | acting action =>
      cases alone
      exact iff_of_true trivial (.inl (action.nouns_attr (List.forall_mem_nil _)))
  | nested head objects =>
      have same := head.objects_attrs objects
      rw [show head.attrs objects.attrs = [claim] from alone, List.flatMap_singleton] at same
      rw [IsSettled, objects.settled_iff, Attr.IsSettled, same]
      constructor
      · exact .inr
      · rintro (none | settled)
        · exact absurd none objects.attrs_ne_nil
        · exact settled

theorem Sentence.settled_iff {sentence : Sentence lexicon} (glossed : sentence.IsGlossed)
    {rule : Rule} (rules : sentence.rules = [rule]) : sentence.IsSettled ↔ rule.IsSettled := by
  rcases List.map_eq_singleton_iff.mp rules with ⟨head, alone, rfl⟩
  have conditions (predicate : Predicate lexicon) (member : predicate ∈ sentence.conditions) :
      ∃ claim, predicate.attrs = [claim] := by
    rcases Predicate.sentence_attrs (glossed.conditions predicate member) with ⟨claim, attrs, -⟩
    exact ⟨claim, attrs⟩
  constructor
  · rintro ⟨body, conclusion⟩
    refine ⟨(Predicate.settled_iff alone).mp conclusion, ?_⟩
    intro condition member
    rcases List.mem_flatMap.mp member with ⟨predicate, listed, inside⟩
    rcases conditions predicate listed with ⟨claim, attrs⟩
    rw [attrs, List.mem_singleton] at inside
    subst inside
    exact (Predicate.settled_iff attrs).mp (body predicate listed)
  · rintro ⟨conclusion, body⟩
    refine ⟨?_, (Predicate.settled_iff alone).mpr conclusion⟩
    intro predicate listed
    rcases conditions predicate listed with ⟨claim, attrs⟩
    apply (Predicate.settled_iff attrs).mpr
    apply body
    exact List.mem_flatMap.mpr ⟨predicate, listed, by rw [attrs]; exact List.mem_singleton_self _⟩

theorem exists_stated_atoms (clean : lexicon.IsClean) {words : List Word} {rules : List Rule}
    {rule : Rule} (bare : ∀ w ∈ words, ∃ word, w = .plain word ∧ IsBare word)
    (meant : DerivesRules lexicon words rules) (member : rule ∈ rules) :
    ∃ claim listed, Stated lexicon rule.head claim ∧
      List.Forall₂ (Stated lexicon) rule.body listed := by
  have worded (atom : Attr) (given : atom ∈ rule.head :: rule.body) : atom.IsWorded lexicon := by
    rcases meant.exists_sentence rule member atom given with ⟨_, ws, as, -, inside, derives, here⟩
    exact derives.worded (fun w given => bare w (inside given)) atom here
  have kinds (atom : Attr) (given : atom ∈ rule.head :: rule.body) : atom.kind ≠ .isHow := by
    rcases meant.exists_sentence rule member atom given with ⟨_, ws, as, item, -, derives, here⟩
    have kind := derives.kind_mem atom here
    rw [item] at kind
    intro how
    rw [how] at kind
    exact absurd kind (by decide)
  rcases List.forall_mem_cons.mp worded with ⟨head_worded, body_worded⟩
  rcases List.forall_mem_cons.mp kinds with ⟨head_kind, body_kinds⟩
  rcases exists_stated clean head_worded head_kind with ⟨claim, head⟩
  rcases exists_all_stated clean body_worded body_kinds with ⟨listed, body⟩
  exact ⟨claim, listed, head, body⟩

/-- Whatever is read again is what a settled sentence says that is its own gloss. -/
theorem exists_settled_of_read (clean : lexicon.IsClean) {rule : Rule} {claim : List String}
    {listed : List (List String)} (head : Stated lexicon rule.head claim)
    (body : List.Forall₂ (Stated lexicon) rule.body listed)
    (again : read (.text (Value.glossRules [rule])) lexicon = .ok [rule]) :
    ∃ sentence : Sentence lexicon, sentence.IsGlossed ∧ sentence.IsSettled ∧
      sentence.rules = [rule] := by
  have gloss := gloss_rules_of_said head.said (body.imp fun _ _ stated => stated.said)
  rw [Value.glossRules, gloss] at again
  have bare := words_bare_of_used (text_words_used clean head body) clean.writable
  have first := first_reading_of_read (words_spaced bare) again
  have said := (Utterance.meaning_of_mem_readings (List.mem_of_head? first)).2
  rcases recover_sentence clean head body said with ⟨sentence, glossed, same, rules⟩
  rw [← same, ← rules] at first
  exact ⟨sentence, glossed, Sentence.settled_of_first clean first, rules⟩

theorem read_gloss_of_settled (clean : lexicon.IsClean) {sentence : Sentence lexicon}
    (glossed : sentence.IsGlossed) (settled : sentence.IsSettled) {rule : Rule}
    (rules : sentence.rules = [rule]) :
    read (.text (Value.glossRules [rule])) lexicon = .ok [rule] := by
  rcases Sentence.gloss_rules glossed with ⟨same, alone, gloss⟩
  cases rules.symm.trans alone
  rw [Value.glossRules, gloss]
  dsimp only
  rw [sentence.read_settled clean settled, rules]

end Canonical

open Canonical

/-- What is read first, of a sentence in words of the lexicon, is read again from its gloss exactly
if it can be said and is settled. -/
theorem read_gloss_iff {lexicon : Lexicon} (clean : lexicon.IsClean) {source : Source}
    {words : List Word} {rule : Rule} (given : source.words = .ok words)
    (made : ∀ w ∈ words, ∃ word, w = .plain word ∧ (word ∈ keywords ∨ lexicon.knows word = true))
    (first : read source lexicon = .ok [rule]) :
    read (.text (Value.glossRules [rule])) lexicon = .ok [rule] ↔
      rule.IsSpeakable lexicon ∧ rule.IsSettled := by
  constructor
  · intro again
    have meant := (Utterance.meaning_of_mem_readings
      (List.mem_of_head? (first_reading_of_read given first))).2
    rcases exists_stated_atoms clean (clean.bare_of_made made) meant List.mem_cons_self with
      ⟨claim, listed, head, body⟩
    rcases exists_settled_of_read clean head body again with ⟨sentence, glossed, settled, rules⟩
    exact ⟨rule.speakable_iff.mpr ⟨sentence, glossed, rules⟩,
      (Sentence.settled_iff glossed rules).mp settled⟩
  · rintro ⟨speakable, settled⟩
    rcases rule.speakable_iff.mp speakable with ⟨sentence, glossed, rules⟩
    exact read_gloss_of_settled clean glossed ((Sentence.settled_iff glossed rules).mpr settled) rules

section Marsh

def Marsh.heron : Name Lexicon.marsh := ⟨[], ⟨"heron", by simp⟩⟩

def Marsh.frog : Name Lexicon.marsh := ⟨[], ⟨"frog", by simp⟩⟩

def Marsh.eats : Action Lexicon.marsh := ⟨[], ⟨"eats", by simp⟩⟩

open Marsh

structure Marsh.IsRead (text : String) (words : List String) (rules : List Rule) : Prop where
  given : Source.words (.text text) = .ok (plain words)
  made : ∀ w ∈ plain words, ∃ word, w = .plain word ∧
    (word ∈ keywords ∨ Lexicon.marsh.knows word = true)
  first : read (.text text) Lexicon.marsh = .ok rules

theorem Marsh.IsRead.of_spaced {text : String} {words said : List String} {rules : List Rule}
    (first : read (.text (spaced said)) Lexicon.marsh = .ok rules) (same : words = said)
    (listed : ∀ word ∈ words, word ∈ keywords ∨ word ∈ ["heron", "frog", "eats"])
    (written : text = spaced words) : IsRead text words rules := by
  subst same written
  have used (word : String) (inside : word ∈ words) :=
    (listed word inside).imp_right Lexicon.marsh_knows
  refine ⟨?_, ?_, first⟩
  · exact words_spaced fun word inside => Lexicon.marsh_clean.bare_of_used (used word inside)
  · intro w member
    rcases List.mem_map.mp member with ⟨word, inside, rfl⟩
    exact ⟨word, rfl, used word inside⟩

theorem Marsh.two_objects_read :
    IsRead "heron eats frog and heron" ["heron", "eats", "frog", "and", "heron"]
      [⟨⟨.hasA, "heron", [⟨.does, "eats", [⟨.isA, "frog", []⟩, ⟨.isA, "heron", []⟩]⟩]⟩, []⟩] := by
  let predicate : Predicate Lexicon.marsh :=
    .nested (.does eats) (.more (.bare frog) (.one (.bare heron)))
  have settled : predicate.IsSettled := trivial
  exact .of_spaced (read_subject Lexicon.marsh_clean heron settled) rfl (by decide) (by cbv)

theorem read_gloss_iff_one_object :
    let rule : Rule := ⟨⟨.hasA, "heron", [⟨.does, "eats", [⟨.isA, "frog", []⟩]⟩]⟩, []⟩
    let words := ["heron", "eats", "frog"]
    Lexicon.marsh.IsClean ∧ Source.words (.text "heron eats frog") = .ok (plain words) ∧
      (∀ w ∈ plain words, ∃ word, w = .plain word ∧
        (word ∈ keywords ∨ Lexicon.marsh.knows word = true)) ∧
      read (.text "heron eats frog") Lexicon.marsh = .ok [rule] ∧
      rule.IsSpeakable Lexicon.marsh ∧ rule.IsSettled ∧
      read (.text (Value.glossRules [rule])) Lexicon.marsh = .ok [rule] := by
  intro rule words
  have clean := Lexicon.marsh_clean
  let objects : Group Lexicon.marsh := .one (.bare frog)
  let predicate : Predicate Lexicon.marsh := .nested (.does eats) objects
  have settled : predicate.IsSettled := trivial
  obtain ⟨given, made, first⟩ : IsRead "heron eats frog" words [rule] :=
    .of_spaced (read_subject clean heron settled) rfl (by decide) (by cbv)
  let sentence : Sentence Lexicon.marsh := ⟨[], .nested .has (.nested heron (.does eats) objects)⟩
  have glossed : sentence.IsGlossed := ⟨List.forall_mem_nil _, trivial, trivial, trivial⟩
  have rules : sentence.rules = [rule] := rfl
  have speakable := rule.speakable_iff.mpr ⟨sentence, glossed, rules⟩
  have rule_settled := (Sentence.settled_iff glossed rules).mp ⟨List.forall_mem_nil _, trivial⟩
  exact ⟨clean, given, made, first, speakable, rule_settled,
    (read_gloss_iff clean given made first).mpr ⟨speakable, rule_settled⟩⟩

/-- The objects of a sentence come apart when they are glossed as the objects of a clause: of the
two that the heron eats, one is what "it" has then. -/
theorem read_gloss_apart :
    let frog_and_heron : List Attr := [⟨.isA, "frog", []⟩, ⟨.isA, "heron", []⟩]
    let rule : Rule := ⟨⟨.hasA, "heron", [⟨.does, "eats", frog_and_heron⟩]⟩, []⟩
    let words := ["heron", "eats", "frog", "and", "heron"]
    Lexicon.marsh.IsClean ∧ Source.words (.text "heron eats frog and heron") = .ok (plain words) ∧
      (∀ w ∈ plain words, ∃ word, w = .plain word ∧
        (word ∈ keywords ∨ Lexicon.marsh.knows word = true)) ∧
      read (.text "heron eats frog and heron") Lexicon.marsh = .ok [rule] ∧
      ∃ rules, read (.text (Value.glossRules [rule])) Lexicon.marsh = .ok rules ∧
        rules ≠ [rule] := by
  intro frog_and_heron rule words
  have clean := Lexicon.marsh_clean
  obtain ⟨given, made, first⟩ := two_objects_read
  let apart : Sentence Lexicon.marsh :=
    ⟨[], .nested .has (.nestedMore heron (.does eats) (.one (.bare frog)) (.one (.bare heron)))⟩
  have apart_settled : apart.IsSettled := ⟨List.forall_mem_nil _, trivial, trivial⟩
  have gloss : Value.glossRules [rule] = spaced apart.words := by cbv
  refine ⟨clean, given, made, first, apart.rules, ?_, ?_⟩
  · rw [gloss]
    exact Sentence.read_settled clean apart_settled
  · intro same
    exact absurd (congrArg List.length same) (by decide)

end Marsh

end ControlledEnglish
