import Mathlib.Data.List.Forall2
import ControlledEnglish.Proofs.Canonical.Sentences
import ControlledEnglish.Value.Gloss

namespace ControlledEnglish

namespace Gloss

variable {kinds : List Kind} {as bs : List Attr}

theorem parts_eq_map (as : List Attr) : parts as = as.map fun a => ⟨a.kind, phrase a⟩ := by
  induction as with
  | nil => rfl
  | cons a as ih => rw [parts, ih]; rfl

theorem parts_append : parts (as ++ bs) = parts as ++ parts bs := by
  rw [parts_eq_map, List.map_append, ← parts_eq_map, ← parts_eq_map]

theorem map_words_parts (as : List Attr) : (parts as).map Part.words = as.map phrase := by
  rw [parts_eq_map, List.map_map]
  rfl

theorem filter_parts_of_all {keep : Part → Bool} (all : ∀ a ∈ as, keep ⟨a.kind, phrase a⟩ = true) :
    (parts as).filter keep = parts as := by
  rw [List.filter_eq_self, parts_eq_map, List.forall_mem_map]
  exact all

theorem filter_parts_of_none {keep : Part → Bool}
    (none : ∀ a ∈ as, keep ⟨a.kind, phrase a⟩ = false) : (parts as).filter keep = [] := by
  rw [List.filter_eq_nil_iff, parts_eq_map, List.forall_mem_map]
  exact fun a member => Bool.eq_false_iff.mp (none a member)

theorem among_append (all : ∀ a ∈ as, a.kind ∈ kinds) (none : ∀ b ∈ bs, b.kind ∉ kinds) :
    among kinds (parts (as ++ bs)) = as.map phrase := by
  rw [among, parts_append, List.filter_append, filter_parts_of_all (by simpa using all),
    filter_parts_of_none (by simpa using none), List.append_nil, map_words_parts]

theorem filter_not_mem_append (all : ∀ a ∈ as, a.kind ∈ kinds) (none : ∀ b ∈ bs, b.kind ∉ kinds) :
    (parts (as ++ bs)).filter (fun part => part.kind ∉ kinds) = parts bs := by
  rw [parts_append, List.filter_append, filter_parts_of_none (by simpa using all),
    filter_parts_of_all (by simpa using none), List.nil_append]

theorem besides_append (all : ∀ a ∈ as, a.kind ∈ kinds) (none : ∀ b ∈ bs, b.kind ∉ kinds) :
    besides kinds (parts (as ++ bs)) = bs.map phrase := by
  rw [besides, filter_not_mem_append all none, map_words_parts]

theorem clauses_of_nouns (nouns : ∀ a ∈ as, a.kind = .isA) (some : as ≠ []) :
    clauses (parts as) = "that" :: "is" :: andJoined (as.map phrase) := by
  have all : ∀ a ∈ as, a.kind ∈ [Kind.isA] := fun a member => by simp [nouns a member]
  have front := among_append all (List.forall_mem_nil _)
  have behind := besides_append all (List.forall_mem_nil _)
  rw [List.append_nil] at front behind
  rw [clauses, thatIs, front, behind, if_neg (by simpa using some)]
  exact List.append_nil _

theorem clauses_of_none : clauses (parts []) = [] := rfl

theorem clauses_of_no_nouns (none : ∀ a ∈ as, a.kind ≠ .isA) :
    clauses (parts as) = andJoined (as.map phrase) := by
  have none : ∀ a ∈ as, a.kind ∉ [Kind.isA] :=
    fun a member same => none a member (List.mem_singleton.mp same)
  have front := among_append (List.forall_mem_nil _) none
  have behind := besides_append (List.forall_mem_nil _) none
  rw [List.nil_append] at front behind
  rw [clauses, thatIs, front, behind, List.map_nil, if_pos rfl, List.nil_append]

theorem clauses_singleton {attr : Attr} (kind : attr.kind ≠ .isA) :
    clauses (parts [attr]) = phrase attr := by
  rw [clauses_of_no_nouns (List.forall_mem_singleton.mpr kind), List.map_singleton]
  simp [andJoined, List.intercalate]

end Gloss

namespace Canonical

open Gloss (andJoined phrase parts)

variable {lexicon : Lexicon}

theorem phrase_nest_adverbs {how : Attr} (kind : how.kind = .isHow)
    (adverbs : List (Listed lexicon .adverb)) :
    ∃ whole, nestAdverbs [how] (adverbs.map (Listed.attr · [])) = [whole] ∧
      whole.kind = .isHow ∧ phrase whole = phrase how ++ adverbWords adverbs := by
  induction adverbs generalizing how with
  | nil => exact ⟨how, rfl, kind, by rw [adverbWords, List.map_nil, List.append_nil]⟩
  | cons first rest ih =>
      obtain ⟨whole, nested, kind, words⟩ := @ih (first.attr [how]) rfl
      have own : phrase (first.attr [how]) = phrase how ++ [first.text] := by
        simp [Listed.attr, phrase, Gloss.phraseOf, parts, Category.kind]
      refine ⟨whole, nested, kind, ?_⟩
      rw [words, own, adverbWords, adverbWords, List.map_cons, List.append_assoc]
      rfl

theorem adverb_attrs_eq_singleton {adverbs : List (Listed lexicon .adverb)} (some : adverbs ≠ []) :
    ∃ how, adverbAttrs adverbs = [how] ∧ how.kind = .isHow ∧
      phrase how = adverbWords adverbs := by
  cases adverbs with
  | nil => exact absurd rfl some
  | cons first rest =>
      have kind : (first.attr []).kind = .isHow := rfl
      exact phrase_nest_adverbs kind rest

theorem adverbs_kind (adverbs : List (Listed lexicon .adverb)) :
    ∀ a ∈ adverbAttrs adverbs, a.kind = .isHow := by
  by_cases none : adverbs = []
  · rw [none]
    exact List.forall_mem_nil _
  · obtain ⟨how, attrs, kind, -⟩ := adverb_attrs_eq_singleton none
    rw [attrs]
    exact List.forall_mem_singleton.mpr kind

theorem adverbs_phrases (adverbs : List (Listed lexicon .adverb)) :
    ((adverbAttrs adverbs).map phrase).flatten = adverbWords adverbs ∧
      andJoined ((adverbAttrs adverbs).map phrase) = adverbWords adverbs := by
  by_cases none : adverbs = []
  · rw [none]
    exact ⟨rfl, rfl⟩
  · obtain ⟨how, attrs, -, words⟩ := adverb_attrs_eq_singleton none
    rw [attrs, List.map_singleton, and_joined_singleton, List.flatten_singleton]
    exact ⟨words, words⟩

theorem Quality.phrase_attr (quality : Quality lexicon) : phrase quality.attr = quality.words := by
  rw [attr, Listed.attr, phrase, Quality.words, ← (adverbs_phrases quality.adverbs).1,
    ← Gloss.map_words_parts]
  rfl

theorem qualities_phrases (qualities : List (Quality lexicon)) :
    ((qualities.map Quality.attr).map phrase).flatten = qualityWords qualities := by
  rw [List.map_map, qualityWords, List.flatMap_def]
  congr 2
  funext quality
  exact quality.phrase_attr

theorem qualities_kind (qualities : List (Quality lexicon)) :
    ∀ a ∈ qualities.map Quality.attr, a.kind = .isLike :=
  List.forall_mem_map.mpr fun _ _ => rfl

theorem manners_phrases (manners : List (Manner lexicon)) :
    (mannerAttrs manners).map phrase = manners.map fun manner => adverbWords manner.adverbs := by
  induction manners with
  | nil => rfl
  | cons first rest ih =>
      obtain ⟨how, attrs, -, words⟩ := adverb_attrs_eq_singleton first.some
      rw [mannerAttrs, List.flatMap_cons, attrs, List.singleton_append, List.map_cons, words,
        List.map_cons]
      congr 1

theorem manners_kind (manners : List (Manner lexicon)) :
    ∀ a ∈ mannerAttrs manners, a.kind = .isHow := by
  intro a member
  obtain ⟨manner, -, inside⟩ := List.mem_flatMap.mp member
  exact adverbs_kind _ a inside

theorem Name.phrase_attr (name : Name lexicon) {clause : List Attr}
    (behind : ∀ a ∈ clause, a.kind ∉ Gloss.modifiers) :
    phrase (name.attr clause) = name.words ++ Gloss.clauses (parts clause) := by
  have before : ∀ a ∈ name.qualities.map Quality.attr, a.kind ∈ Gloss.modifiers :=
    fun a member => by simp [qualities_kind _ a member, Gloss.modifiers]
  rw [attr, Listed.attr, phrase, words, ← qualities_phrases]
  simp only [Category.kind, Gloss.phraseOf]
  rw [Gloss.among_append before behind, Gloss.filter_not_mem_append before behind]

theorem Name.phrase_bare (name : Name lexicon) : phrase (name.attr []) = name.words := by
  rw [Name.phrase_attr _ (List.forall_mem_nil _), Gloss.clauses_of_none, List.append_nil]

theorem Name.phrase_had {name : Name lexicon} (few : name.qualities.length ≤ 1)
    {clause : List Attr} (behind : ∀ a ∈ clause, a.kind ∉ Gloss.modifiers) :
    phrase (name.attr clause).toHasA = "that" :: "has" :: phrase (name.attr clause) := by
  obtain ⟨qualities, noun⟩ := name
  have before : ∀ a ∈ qualities.map Quality.attr, a.kind ∈ Gloss.modifiers :=
    fun a member => by simp [qualities_kind _ a member, Gloss.modifiers]
  have joined : andJoined ((qualities.map Quality.attr).map phrase) = qualityWords qualities := by
    rw [← qualities_phrases]
    rcases qualities with _ | ⟨quality, _ | ⟨next, others⟩⟩
    · rfl
    · simp
    · simp at few
  have had : (attr ⟨qualities, noun⟩ clause).toHasA =
      ⟨.hasA, noun.text, qualities.map Quality.attr ++ clause⟩ := rfl
  rw [Name.phrase_attr _ behind, had, phrase, words, ← joined]
  simp only [Gloss.phraseOf]
  rw [Gloss.among_append before behind, Gloss.filter_not_mem_append before behind]
  simp

theorem Action.phrase_attr (action : Action lexicon) {objects : List Attr}
    (nouns : ∀ a ∈ objects, a.kind = .isA) :
    phrase (action.attr objects) = "that" :: (action.words ++ andJoined (objects.map phrase)) := by
  have before : ∀ a ∈ mannerAttrs action.manners, a.kind ∈ [Kind.isHow] :=
    fun a member => by simp [manners_kind _ a member]
  have behind : ∀ a ∈ objects, a.kind ∉ [Kind.isHow] := fun a member => by simp [nouns a member]
  rw [attr, Listed.attr, phrase, words, mannerWords, ← manners_phrases]
  simp only [Category.kind, Gloss.phraseOf]
  rw [Gloss.among_append before behind, Gloss.besides_append before behind]
  simp

theorem Head.attrs_kind (head : Head lexicon) {objects : List Attr}
    (nouns : ∀ a ∈ objects, a.kind = .isA) : ∀ a ∈ head.attrs objects, a.kind ∉ Gloss.modifiers := by
  cases head with
  | does action => simp [attrs, Action.attr, Listed.attr, Category.kind, Gloss.modifiers]
  | has =>
      rw [attrs, toHasA, List.forall_mem_map]
      intro a member
      rw [Attr.toHasA, nouns a member]
      simp [Gloss.modifiers]
  | is =>
      intro a member
      rw [nouns a member]
      decide

namespace Leaf

def name : Leaf lexicon → Name lexicon
  | bare name => name
  | acting name _ => name

def clause : Leaf lexicon → List Attr
  | bare _ => []
  | acting _ action => [action.attr []]

theorem attr_eq (leaf : Leaf lexicon) : leaf.attr = leaf.name.attr leaf.clause := by
  cases leaf <;> rfl

theorem clause_kind (leaf : Leaf lexicon) : ∀ a ∈ leaf.clause, a.kind = .does := by
  cases leaf <;> simp [clause, Action.attr, Listed.attr, Category.kind]

theorem phrase_attr (leaf : Leaf lexicon) : phrase leaf.attr = leaf.words := by
  have behind : ∀ a ∈ leaf.clause, a.kind ∉ Gloss.modifiers := fun a member => by
    rw [leaf.clause_kind a member]
    decide
  rw [leaf.attr_eq, Name.phrase_attr _ behind]
  cases leaf with
  | bare name => exact List.append_nil _
  | acting name action =>
      have said := action.phrase_attr (List.forall_mem_nil _)
      rw [List.map_nil, and_joined_nil, List.append_nil] at said
      have kind : (action.attr []).kind ≠ .isA := nofun
      rw [clause, Gloss.clauses_singleton kind, said]
      rfl

end Leaf

namespace Group

def name : Group lexicon → Name lexicon
  | one leaf | more leaf _ => leaf.name
  | nested name _ _ | nestedMore name _ _ _ => name

def clause : Group lexicon → List Attr
  | one leaf | more leaf _ => leaf.clause
  | nested _ head objects | nestedMore _ head objects _ => head.attrs objects.attrs

def IsSingle : Group lexicon → Prop
  | one _ | nested _ _ _ => True
  | more _ _ | nestedMore _ _ _ _ => False

end Group

def Head.IsShared (objects : Group lexicon) : Head lexicon → Prop
  | does _ | is => True
  | has => objects.IsSingle ∧ objects.name.qualities.length ≤ 1

namespace Group

def IsGlossed : Group lexicon → Prop
  | one _ => True
  | more _ rest => rest.IsGlossed
  | nested _ head objects => head.IsShared objects ∧ objects.IsGlossed
  | nestedMore _ head objects rest =>
      (head.IsShared objects ∧ objects.IsGlossed) ∧ rest.IsGlossed

theorem IsGlossed.append {group rest : Group lexicon} (glossed : group.IsGlossed)
    (rest_glossed : rest.IsGlossed) : (group.append rest).IsGlossed := by
  induction group with
  | one leaf => exact rest_glossed
  | nested name head objects => exact ⟨glossed, rest_glossed⟩
  | more leaf others ih => exact ih glossed
  | nestedMore name head objects others _ ih => exact ⟨glossed.1, ih glossed.2⟩

theorem attrs_kind (group : Group lexicon) : ∀ a ∈ group.attrs, a.kind = .isA := by
  induction group with
  | one leaf => exact List.forall_mem_singleton.mpr (by rw [leaf.attr_eq]; rfl)
  | more leaf rest ih => exact List.forall_mem_cons.mpr ⟨by rw [leaf.attr_eq]; rfl, ih⟩
  | nested name head objects ih => exact List.forall_mem_singleton.mpr rfl
  | nestedMore name head objects rest ih rest_ih => exact List.forall_mem_cons.mpr ⟨rfl, rest_ih⟩

theorem attrs_ne_nil (group : Group lexicon) : group.attrs ≠ [] := by
  cases group <;> simp [attrs]

theorem attrs_of_single {group : Group lexicon} (single : group.IsSingle) :
    group.attrs = [group.name.attr group.clause] := by
  cases group with
  | one leaf => rw [attrs, leaf.attr_eq, name, clause]
  | nested => rfl
  | more | nestedMore => exact absurd single id

theorem clause_kind (group : Group lexicon) : ∀ a ∈ group.clause, a.kind ∉ Gloss.modifiers := by
  have acting (leaf : Leaf lexicon) : ∀ a ∈ leaf.clause, a.kind ∉ Gloss.modifiers := by
    intro a member
    rw [leaf.clause_kind a member]
    decide
  cases group with
  | one leaf | more leaf => exact acting leaf
  | nested _ head objects | nestedMore _ head objects => exact head.attrs_kind objects.attrs_kind

end Group

theorem Group.words_of_single {group : Group lexicon} (single : group.IsSingle)
    (same : andJoined (group.attrs.map phrase) = group.words) :
    group.name.words ++ Gloss.clauses (parts group.clause) = group.words := by
  rw [group.attrs_of_single single, List.map_singleton, and_joined_singleton,
    Name.phrase_attr _ group.clause_kind] at same
  exact same

theorem Head.clauses_attrs {head : Head lexicon} {objects : Group lexicon}
    (shared : head.IsShared objects)
    (same : andJoined (objects.attrs.map phrase) = objects.words) :
    Gloss.clauses (parts (head.attrs objects.attrs)) = "that" :: (head.words ++ objects.words) := by
  cases head with
  | does action =>
      have kind : (action.attr objects.attrs).kind ≠ .isA := nofun
      rw [attrs, Gloss.clauses_singleton kind, action.phrase_attr objects.attrs_kind, same]
      rfl
  | has =>
      obtain ⟨single, few⟩ := shared
      have kind : (objects.name.attr objects.clause).toHasA.kind ≠ .isA := nofun
      have had : toHasA objects.attrs = [(objects.name.attr objects.clause).toHasA] := by
        rw [objects.attrs_of_single single]
        rfl
      rw [attrs, had, Gloss.clauses_singleton kind, Name.phrase_had few objects.clause_kind,
        Name.phrase_attr _ objects.clause_kind, Group.words_of_single single same]
      rfl
  | is => rw [attrs, Gloss.clauses_of_nouns objects.attrs_kind objects.attrs_ne_nil, same]; rfl

theorem Name.phrase_nested {name : Name lexicon} {head : Head lexicon} {objects : Group lexicon}
    (shared : head.IsShared objects)
    (same : andJoined (objects.attrs.map phrase) = objects.words) :
    phrase (name.attr (head.attrs objects.attrs)) =
      name.words ++ "that" :: (head.words ++ objects.words) := by
  rw [Name.phrase_attr _ (head.attrs_kind objects.attrs_kind), Head.clauses_attrs shared same]

theorem Group.phrases_attrs {group : Group lexicon} (glossed : group.IsGlossed) :
    andJoined (group.attrs.map phrase) = group.words := by
  have joined {first : Attr} {rest : Group lexicon}
      (same : andJoined (rest.attrs.map phrase) = rest.words) :
      andJoined ((first :: rest.attrs).map phrase) = phrase first ++ "and" :: rest.words := by
    rw [← same]
    rcases attrs : rest.attrs with _ | ⟨next, others⟩
    · exact absurd attrs rest.attrs_ne_nil
    · exact and_joined_cons_cons ..
  induction group with
  | one leaf =>
      rw [attrs, List.map_singleton, and_joined_singleton, leaf.phrase_attr]
      rfl
  | more leaf rest ih =>
      rw [attrs, joined (ih glossed), leaf.phrase_attr]
      rfl
  | nested name head objects ih =>
      obtain ⟨shared, glossed⟩ := glossed
      rw [attrs, List.map_singleton, and_joined_singleton, Name.phrase_nested shared (ih glossed)]
      rfl
  | nestedMore name head objects rest ih rest_ih =>
      obtain ⟨⟨shared, glossed⟩, rest_glossed⟩ := glossed
      rw [attrs, joined (rest_ih rest_glossed), Name.phrase_nested shared (ih glossed)]
      rfl

def Group.IsIdentity : Group lexicon → Prop
  | nested _ .is _ | nestedMore _ .is _ _ => True
  | _ => False

def Predicate.IsGlossed : Predicate lexicon → Prop
  | like _ | acting _ => True
  | nested (.does _) objects => objects.IsGlossed
  | nested .has objects => objects.IsSingle ∧ objects.IsGlossed
  | nested .is objects => objects.IsSingle ∧ ¬objects.IsIdentity ∧ objects.IsGlossed

structure Sentence.IsGlossed (sentence : Sentence lexicon) : Prop where
  conditions : ∀ predicate ∈ sentence.conditions, predicate.IsGlossed
  conclusion : sentence.conclusion.IsGlossed

theorem Group.clauses_of_not_identity {group : Group lexicon} (glossed : group.IsGlossed)
    (other : ¬group.IsIdentity) :
    Gloss.clauses (parts group.clause) = andJoined (group.clause.map phrase) := by
  have single {attr : Attr} (kind : attr.kind ≠ .isA) :
      Gloss.clauses (parts [attr]) = andJoined ([attr].map phrase) := by
    rw [Gloss.clauses_singleton kind, List.map_singleton, and_joined_singleton]
  have acting (leaf : Leaf lexicon) :
      Gloss.clauses (parts leaf.clause) = andJoined (leaf.clause.map phrase) := by
    cases leaf with
    | bare name => rfl
    | acting name action => exact single nofun
  have shown {head : Head lexicon} {objects : Group lexicon} (shared : head.IsShared objects)
      (no_is : head ≠ .is) : Gloss.clauses (parts (head.attrs objects.attrs)) =
        andJoined ((head.attrs objects.attrs).map phrase) := by
    cases head with
    | does action => exact single nofun
    | has =>
        rw [objects.attrs_of_single shared.1]
        exact single nofun
    | is => exact absurd rfl no_is
  cases group with
  | one leaf | more leaf => exact acting leaf
  | nested name head objects => exact shown glossed.1 fun same => other (same ▸ trivial)
  | nestedMore name head objects rest => exact shown glossed.1.1 fun same => other (same ▸ trivial)

theorem sentence_action (action : Action lexicon) {objects : List Attr}
    (nouns : ∀ a ∈ objects, a.kind = .isA) :
    Gloss.sentence? (action.attr objects) =
      some ("it" :: (action.words ++ andJoined (objects.map phrase))) := by
  have before : ∀ a ∈ mannerAttrs action.manners, a.kind ∈ [Kind.isHow] :=
    fun a member => by simp [manners_kind _ a member]
  have behind : ∀ a ∈ objects, a.kind ∉ [Kind.isHow] := fun a member => by simp [nouns a member]
  rw [Action.attr, Listed.attr, Gloss.sentence?, Action.words, mannerWords, ← manners_phrases]
  simp only [Category.kind]
  rw [Gloss.among_append before behind, Gloss.besides_append before behind]
  simp

theorem Name.sentence_attr (name : Name lexicon) {clause : List Attr}
    (behind : ∀ a ∈ clause, a.kind ∉ Gloss.modifiers) :
    Gloss.sentence? (name.attr clause).toHasA =
        some ("it" :: "has" :: (name.words ++ Gloss.clauses (parts clause))) ∧
      Gloss.sentence? (name.attr clause) =
        some ("it" :: "is" :: (name.words ++ andJoined (clause.map phrase))) := by
  have before : ∀ a ∈ name.qualities.map Quality.attr, a.kind ∈ [Kind.isLike] :=
    fun a member => by simp [qualities_kind _ a member]
  have behind : ∀ a ∈ clause, a.kind ∉ [Kind.isLike] := fun a member like => by
    refine behind a member ?_
    rw [List.mem_singleton.mp like]
    decide
  have had : (name.attr clause).toHasA =
      ⟨.hasA, name.noun.text, name.qualities.map Quality.attr ++ clause⟩ := rfl
  rw [had, attr, Listed.attr, Gloss.sentence?, Gloss.sentence?, words, ← qualities_phrases]
  simp only [Category.kind]
  rw [Gloss.among_append before behind, Gloss.filter_not_mem_append before behind,
    Gloss.besides_append before behind]
  simp

theorem Quality.sentence_attr (quality : Quality lexicon) :
    Gloss.sentence? quality.attr = some ("it" :: "is" :: quality.words) := by
  have all : ∀ a ∈ adverbAttrs quality.adverbs, a.kind ∈ [Kind.isHow] :=
    fun a member => by simp [adverbs_kind _ a member]
  have front := Gloss.among_append all (List.forall_mem_nil _)
  have behind := Gloss.besides_append all (List.forall_mem_nil _)
  rw [List.append_nil] at front behind
  rw [attr, Listed.attr, Gloss.sentence?, words, ← (adverbs_phrases quality.adverbs).2]
  simp only [Category.kind]
  rw [front, behind]
  simp

theorem Predicate.sentence_attrs {predicate : Predicate lexicon} (glossed : predicate.IsGlossed) :
    ∃ claim, predicate.attrs = [claim] ∧
      Gloss.sentence? claim = some ("it" :: predicate.words) := by
  cases predicate with
  | like quality => exact ⟨_, rfl, quality.sentence_attr⟩
  | acting action =>
      refine ⟨_, rfl, ?_⟩
      rw [sentence_action action (List.forall_mem_nil _), List.map_nil, and_joined_nil,
        List.append_nil]
      rfl
  | nested head objects =>
      cases head with
      | does action =>
          refine ⟨_, rfl, ?_⟩
          rw [sentence_action action objects.attrs_kind, objects.phrases_attrs glossed]
          rfl
      | has =>
          obtain ⟨single, glossed⟩ := glossed
          have said := (objects.name.sentence_attr objects.clause_kind).1
          rw [Group.words_of_single single (Group.phrases_attrs glossed)] at said
          exact ⟨_, by rw [attrs, Head.attrs, objects.attrs_of_single single]; rfl, said⟩
      | is =>
          obtain ⟨single, other, glossed⟩ := glossed
          have said := (objects.name.sentence_attr objects.clause_kind).2
          rw [← Group.clauses_of_not_identity glossed other,
            Group.words_of_single single (Group.phrases_attrs glossed)] at said
          exact ⟨_, by rw [attrs, Head.attrs, objects.attrs_of_single single], said⟩

/-- The words of a whole text, from the words of what its sentences say of "it". -/
def textWords (conditions : List (List String)) (conclusion : List String) : List String :=
  match conditions with
  | [] => "it" :: conclusion
  | first :: rest =>
      "if" :: andJoined ((first :: rest).map fun words => "it" :: words) ++
        "then" :: "it" :: conclusion

theorem Sentence.words_eq (sentence : Sentence lexicon) :
    sentence.words = textWords (sentence.conditions.map Predicate.words) sentence.conclusion.words := by
  rcases sentence with ⟨conditions, conclusion⟩
  cases conditions with
  | nil => rfl
  | cons first rest =>
      have same : saidWords (first :: rest) =
          andJoined (((first :: rest).map Predicate.words).map fun words => "it" :: words) := by
        rw [List.map_map]
        rfl
      exact congrArg (fun said => "if" :: said ++ "then" :: "it" :: conclusion.words) same

def Said (claim : Attr) (words : List String) : Prop := Gloss.sentence? claim = some ("it" :: words)

theorem glosses_of_said {claims : List Attr} {listed : List (List String)}
    (said : List.Forall₂ Said claims listed) :
    Clause.glosses? (claims.map .attr) = some (listed.map fun words => "it" :: words) := by
  induction said with
  | nil => rfl
  | cons first rest ih =>
      rw [List.map_cons, Clause.glosses?, Clause.gloss?, show Gloss.sentence? _ = _ from first, ih]
      rfl

theorem gloss_rules_of_said {rule : Rule} {words : List String} {listed : List (List String)}
    (head : Said rule.head words) (body : List.Forall₂ Said rule.body listed) :
    glossRules? [rule] = some (textWords listed words) := by
  have alone {clause : Clause} {words : List String} (same : clause.gloss? = some words) :
      Clause.glossAll? [clause] = some words := by
    rw [Clause.glossAll?, Clause.glosses?, same, Clause.glosses?]
    exact congrArg some (and_joined_singleton words)
  apply alone
  rcases rule with ⟨claim, conditions⟩
  have conditions_glossed := glosses_of_said body
  cases body with
  | nil => exact head
  | cons first rest =>
      rw [Rule.clause, List.map_cons, Clause.gloss?, ← List.map_cons, conditions_glossed,
        show Gloss.sentence? claim = _ from head]
      simp [textWords]

theorem predicates_said {predicates : List (Predicate lexicon)}
    (glossed : ∀ predicate ∈ predicates, predicate.IsGlossed) :
    List.Forall₂ Said (saidAttrs predicates) (predicates.map Predicate.words) := by
  induction predicates with
  | nil => exact .nil
  | cons first rest ih =>
      rcases List.forall_mem_cons.mp glossed with ⟨first_glossed, rest_glossed⟩
      rcases Predicate.sentence_attrs first_glossed with ⟨claim, attrs, said⟩
      rw [said_attrs_cons, attrs, List.map_cons, List.singleton_append]
      exact .cons said (ih rest_glossed)

/-- A sentence is the gloss of the rule that it says. -/
theorem Sentence.gloss_rules {sentence : Sentence lexicon} (glossed : sentence.IsGlossed) :
    ∃ rule, sentence.rules = [rule] ∧ glossRules? [rule] = some sentence.words := by
  rcases Predicate.sentence_attrs glossed.conclusion with ⟨claim, head, said⟩
  refine ⟨⟨claim, saidAttrs sentence.conditions⟩, by rw [rules, head]; rfl, ?_⟩
  rw [sentence.words_eq]
  exact gloss_rules_of_said said (predicates_said glossed.conditions)

end Canonical

end ControlledEnglish
