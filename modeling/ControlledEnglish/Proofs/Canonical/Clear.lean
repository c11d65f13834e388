import ControlledEnglish.Proofs.Canonical.Adjacent
import ControlledEnglish.Proofs.Canonical.Built
import ControlledEnglish.Proofs.Canonical.Resettled
import ControlledEnglish.Proofs.Canonical.Restated

namespace ControlledEnglish

open Canonical
open Gloss (andJoined phrase thatIs)

def EndsInNoun (lexicon : Lexicon) (words : List String) : Prop :=
  ∃ noun, words.getLast? = some noun ∧ lexicon.lookup noun .noun = true

namespace Attr

/-- What is had or done is one thing at most, and there is a noun that it can be said of. -/
structure HasOneClause (lexicon : Lexicon) (attr : Attr) : Prop where
  few : attr.clauses.length ≤ 1
  reach : attr.clauses ≠ [] → ∀ last, attr.nouns.getLast? = some last →
    EndsInNoun lexicon (phrase last)

/-- Trees with one clause for every noun, and with one adjective for what is had. -/
inductive IsClear (lexicon : Lexicon) : Attr → Prop where
  | mk {attr : Attr} (own : attr.HasOneClause lexicon)
      (few : attr.kind = .hasA → attr.qualities.length ≤ 1)
      (inside : ∀ child ∈ attr.children, IsClear lexicon child) : IsClear lexicon attr

/-- Claims whose gloss is a predicate. At the top, adjectives are never joined by "and", but no "that
is" leads over to what a noun is. -/
structure IsReadable (lexicon : Lexicon) (claim : Attr) : Prop where
  own : claim.HasOneClause lexicon
  alone : claim.kind = .isA → claim.nouns = []
  inside : ∀ child ∈ claim.children, child.IsClear lexicon

end Attr

structure Rule.IsReadable (lexicon : Lexicon) (rule : Rule) : Prop where
  head : rule.head.IsReadable lexicon
  body : ∀ condition ∈ rule.body, condition.IsReadable lexicon

variable {lexicon : Lexicon} {attr : Attr} {vs ws : List String}

section Words

theorem Passes.inside (passes : Passes lexicon (plain ws)) (inside : vs <:+: ws) :
    Passes lexicon (plain vs) :=
  passes.of_infix (inside.map Word.plain)

theorem infix_and_joined {part : List String} {parts : List (List String)} (member : part ∈ parts) :
    part <:+: andJoined parts := by
  induction parts with
  | nil => exact absurd member List.not_mem_nil
  | cons first rest ih =>
      rcases List.mem_cons.mp member with rfl | later
      · rcases exists_joined_append part rest with ⟨tail, joined⟩
        rw [joined]
        exact List.infix_append_left
      · rcases List.exists_cons_of_ne_nil (List.ne_nil_of_mem later) with ⟨next, others, rfl⟩
        rw [and_joined_cons_cons]
        exact List.infix_append_of_infix_right (List.infix_cons (ih later))

theorem exists_joined_concat (init : List (List String)) (last : List String) :
    ∃ front, andJoined (init ++ [last]) = front ++ last := by
  by_cases none : init = []
  · subst none
    exact ⟨[], and_joined_singleton last⟩
  · have joined := and_joined_append none (List.cons_ne_nil last [])
    rw [and_joined_singleton] at joined
    exact ⟨andJoined init ++ ["and"], by rw [joined, List.append_assoc]; rfl⟩

theorem phrase_ne_nil (attr : Attr) : phrase attr ≠ [] := by
  rw [Gloss.phrase_eq]
  cases attr.kind <;> simp [Gloss.phraseOf]

theorem exists_that (kind : attr.kind = .hasA ∨ attr.kind = .does) :
    ∃ rest, phrase attr = "that" :: rest := by
  rw [Gloss.phrase_eq]
  rcases kind with had | done
  · rw [had]
    exact ⟨_, rfl⟩
  · rw [done]
    exact ⟨_, rfl⟩

theorem kind_of_clause {clause : Attr} (member : clause ∈ attr.clauses) :
    clause.kind = .hasA ∨ clause.kind = .does :=
  of_decide_eq_true (List.mem_filter.mp member).2

theorem that_is_cons {nouns : List (List String)} (some : nouns ≠ []) :
    thatIs nouns = "that" :: "is" :: andJoined nouns := if_neg some

theorem infix_follow {child : Attr} (member : child ∈ attr.nouns ∨ child ∈ attr.clauses) :
    phrase child <:+: attr.follow := by
  rw [Attr.follow]
  rcases member with noun | clause
  · have inside : phrase child ∈ attr.nouns.map phrase := List.mem_map_of_mem noun
    rw [that_is_cons (List.ne_nil_of_mem inside)]
    exact List.infix_append_of_infix_left
      (List.infix_cons (List.infix_cons (infix_and_joined inside)))
  · exact List.infix_append_of_infix_right (infix_and_joined (List.mem_map_of_mem clause))

theorem said_unique {claim : Attr} (said : Said claim vs) (again : Said claim ws) : vs = ws :=
  (List.cons.inj (Option.some.inj (said.symm.trans again))).2

theorem quality_modifiers (quality : Quality lexicon) :
    ∀ w ∈ plain quality.words, IsOf lexicon [.adverb, .adjective] w := by
  intro w member
  rcases List.mem_map.mp member with ⟨word, inside, rfl⟩
  rcases quality.words_listed word inside with listed | listed
  · exact ⟨.adverb, List.mem_cons_self, word, .listed listed⟩
  · exact ⟨.adjective, List.mem_cons_of_mem _ List.mem_cons_self, word, .listed listed⟩

theorem qualities_modifiers (qualities : List (Quality lexicon)) :
    ∀ w ∈ plain (qualityWords qualities), IsOf lexicon [.adverb, .adjective] w := by
  intro w member
  rcases List.mem_map.mp member with ⟨word, inside, rfl⟩
  rcases List.mem_flatMap.mp inside with ⟨quality, -, here⟩
  exact quality_modifiers quality _ (List.mem_map_of_mem here)

end Words

section Clear

theorem one_clause_of_none (none : ∀ child ∈ attr.children, child.kind ∉ [.hasA, .does]) :
    attr.HasOneClause lexicon := by
  have empty : attr.clauses = [] := by
    rw [Attr.clauses, List.filter_eq_nil_iff]
    intro child member
    rw [decide_eq_true_iff, ← List.mem_pair]
    exact none child member
  exact ⟨by rw [empty]; exact Nat.zero_le 1, fun some => absurd empty some⟩

theorem clear_modifier (other : attr.kind ≠ .hasA)
    (adverbs : ∀ child ∈ attr.children, IsAdverb lexicon child)
    (inside : ∀ child ∈ attr.children, child.IsClear lexicon) : attr.IsClear lexicon := by
  refine .mk (one_clause_of_none ?_) (fun had => absurd had other) inside
  intro child member
  rw [(adverbs child member).kind_eq]
  decide

theorem IsAdverb.is_clear (adverb : IsAdverb lexicon attr) : attr.IsClear lexicon := by
  induction adverb with
  | word =>
      exact clear_modifier (fun had => by cases had) (List.forall_mem_nil _) (List.forall_mem_nil _)
  | modified _ inner ih =>
      exact clear_modifier (fun had => by cases had) (List.forall_mem_singleton.mpr inner)
        (List.forall_mem_singleton.mpr ih)

theorem IsAdjective.is_clear (adjective : IsAdjective lexicon attr) : attr.IsClear lexicon := by
  cases adjective with
  | word =>
      exact clear_modifier (fun had => by cases had) (List.forall_mem_nil _) (List.forall_mem_nil _)
  | modified _ inner =>
      exact clear_modifier (fun had => by cases had) (List.forall_mem_singleton.mpr inner)
        (List.forall_mem_singleton.mpr inner.is_clear)

theorem IsAdverb.worded (adverb : IsAdverb lexicon attr) : attr.IsWorded lexicon := by
  induction adverb with
  | word listed => exact .mk listed (List.forall_mem_nil _)
  | modified listed _ ih => exact .mk listed (List.forall_mem_singleton.mpr ih)

theorem IsBuilt.worded (built : IsBuilt lexicon attr) : attr.IsWorded lexicon := by
  induction built with
  | quality adjective =>
      cases adjective with
      | word listed => exact .mk listed (List.forall_mem_nil _)
      | modified listed inner => exact .mk listed (List.forall_mem_singleton.mpr inner.worded)
  | thing _ listed _ _ ih => exact .mk listed ih
  | action listed how _ _ ih =>
      exact .mk listed (List.forall_mem_append.mpr ⟨fun a member => (how a member).worded, ih⟩)

theorem inside_clear (inside : ∀ child ∈ attr.children, IsBuilt lexicon child)
    (passes : Passes lexicon (plain attr.follow))
    (clear : ∀ child ∈ attr.children, Passes lexicon (plain (phrase child)) → child.IsClear lexicon) :
    ∀ child ∈ attr.children, child.IsClear lexicon := by
  intro child member
  have built := inside child member
  have behind (listed : child ∈ attr.nouns ∨ child ∈ attr.clauses) : child.IsClear lexicon :=
    clear child member (passes.inside (infix_follow listed))
  cases kind : child.kind with
  | isLike => exact (built.adjective kind).is_clear
  | isHow => exact absurd kind built.kind_ne
  | isA => exact behind (.inl (List.mem_filter.mpr ⟨member, decide_eq_true kind⟩))
  | hasA => exact behind (.inr (List.mem_filter.mpr ⟨member, decide_eq_true (.inl kind)⟩))
  | does => exact behind (.inr (List.mem_filter.mpr ⟨member, decide_eq_true (.inr kind)⟩))

theorem objects_clear {objects : List Attr}
    (passes : Passes lexicon (plain (andJoined (objects.map phrase))))
    (clear : ∀ a ∈ objects, Passes lexicon (plain (phrase a)) → a.IsClear lexicon) :
    ∀ a ∈ objects, a.IsClear lexicon := by
  intro a member
  exact clear a member (passes.inside (infix_and_joined (List.mem_map_of_mem member)))

theorem clear_action {w : String} {manners objects : List Attr}
    (how : ∀ a ∈ manners, IsAdverb lexicon a) (nouns : ∀ a ∈ objects, a.kind = .isA)
    (clear : ∀ a ∈ objects, a.IsClear lexicon) :
    (Attr.mk .does w (manners ++ objects)).HasOneClause lexicon ∧
      ∀ child ∈ manners ++ objects, child.IsClear lexicon := by
  have none : ∀ child ∈ manners ++ objects, child.kind ∉ [.hasA, .does] := by
    rw [List.forall_mem_append]
    constructor
    · intro a member
      rw [(how a member).kind_eq]
      decide
    · intro a member
      rw [nouns a member]
      decide
  refine ⟨one_clause_of_none none, List.forall_mem_append.mpr ⟨?_, clear⟩⟩
  exact fun a member => (how a member).is_clear

end Clear

section Clean

variable (clean : lexicon.IsClean)

include clean

theorem ends_in_noun (used : ∀ word ∈ vs, IsUsed lexicon word) (some : vs ≠ [])
    (passes : Passes lexicon (plain (vs ++ "that" :: ws))) : EndsInNoun lexicon vs := by
  rw [plain_append, plain_cons] at passes
  rcases noun_of_passes clean (mt List.map_eq_nil_iff.mp some) passes with ⟨w, text, last, reads⟩
  rw [List.getLast?_map, Option.map_eq_some_iff] at last
  rcases last with ⟨word, last, rfl⟩
  have bare := (used word (List.mem_of_getLast? last)).bare clean.writable
  exact ⟨word, last, (reads.of_bare bare).2⟩

theorem one_clause_of_passes (inside : ∀ child ∈ attr.children, IsBuilt lexicon child)
    (passes : Passes lexicon (plain attr.follow)) : attr.HasOneClause lexicon := by
  rw [Attr.follow] at passes
  constructor
  · by_contra many
    rcases same : attr.clauses with _ | ⟨first, _ | ⟨second, others⟩⟩
    · exact many (by simp [same])
    · exact many (by simp [same])
    · have member : second ∈ attr.clauses := by simp [same]
      rcases exists_that (kind_of_clause member) with ⟨rest, words⟩
      rcases exists_joined_append (phrase second) (others.map phrase) with ⟨tail, joined⟩
      apply no_and_that clean
      apply passes.inside
      rw [same, List.map_cons, List.map_cons, and_joined_cons_cons, joined, words]
      exact ⟨thatIs (attr.nouns.map phrase) ++ phrase first, rest ++ tail, by simp⟩
  · intro some last ends
    rcases List.exists_cons_of_ne_nil some with ⟨first, others, same⟩
    rcases List.getLast?_eq_some_iff.mp ends with ⟨init, nouns⟩
    rcases exists_that (kind_of_clause (same ▸ List.mem_cons_self)) with ⟨rest, words⟩
    rcases exists_joined_append (phrase first) (others.map phrase) with ⟨tail, joined⟩
    rcases exists_joined_concat (init.map phrase) (phrase last) with ⟨front, before⟩
    have nonempty : attr.nouns.map phrase ≠ [] := by simp [nouns]
    rw [same, that_is_cons nonempty, nouns, List.map_append, List.map_singleton, before,
      List.map_cons, joined, words] at passes
    have here : phrase last ++ "that" :: (rest ++ tail) <:+:
        "that" :: "is" :: (front ++ phrase last) ++ ("that" :: rest ++ tail) :=
      ⟨"that" :: "is" :: front, [], by simp⟩
    have noun := inside last (List.mem_of_mem_filter (List.mem_of_getLast? ends))
    exact ends_in_noun clean (Gloss.used_phrase last noun.worded) (phrase_ne_nil last)
      (passes.inside here)

theorem one_quality_of_passes {qualities : List (Quality lexicon)}
    (passes : Passes lexicon (plain ("has" :: andJoined (qualities.map Quality.words)))) :
    qualities.length ≤ 1 := by
  rcases qualities with _ | ⟨first, _ | ⟨second, others⟩⟩
  · exact Nat.zero_le 1
  · exact Nat.le_refl 1
  · exfalso
    rw [List.map_cons, List.map_cons, and_joined_cons_cons] at passes
    have front : "has" :: first.words ++ ["and"] <:+: "has" :: (first.words ++ "and" ::
        andJoined (second.words :: others.map Quality.words)) :=
      ⟨[], andJoined (second.words :: others.map Quality.words), by simp⟩
    have stuck := passes.inside front
    rw [plain_append] at stuck
    exact no_and_had clean (quality_modifiers first) stuck

/-- Of what cannot stand side by side, nothing is in the gloss of a tree that is not clear. -/
theorem clear_of_passes (built : IsBuilt lexicon attr)
    (passes : Passes lexicon (plain (phrase attr))) : attr.IsClear lexicon := by
  induction built with
  | quality adjective => exact adjective.is_clear
  | @thing kind w children thing listed inside alike ih =>
      have built : IsBuilt lexicon ⟨kind, w, children⟩ := .thing thing listed inside alike
      have no_how := built.no_how thing
      rcases exists_name_of_thing built thing with ⟨name, named⟩
      have follow : (Attr.mk kind w children).follow <:+: phrase ⟨kind, w, children⟩ := by
        rcases thing with noun | had
        · rw [phrase_noun no_how named noun]
          exact List.infix_append_right
        · rw [phrase_had no_how named had]
          exact ⟨"that" :: "has" :: (andJoined (name.qualities.map Quality.words) ++ [name.noun.text]),
            [], by simp⟩
      have behind := passes.inside follow
      refine .mk (one_clause_of_passes clean inside behind) ?_ (inside_clear inside behind ih)
      intro had
      rw [phrase_had no_how named had] at passes
      rw [← named.qualities, List.length_map]
      apply one_quality_of_passes clean
      apply passes.inside
      exact ⟨["that"], name.noun.text :: Attr.follow ⟨kind, w, children⟩, by simp⟩
  | @action w manners objects listed how inside nouns ih =>
      rcases exists_action listed how with ⟨action, same⟩
      rw [← same, action.phrase_attr nouns] at passes
      have behind : Passes lexicon (plain (andJoined (objects.map phrase))) :=
        passes.inside (List.infix_cons List.infix_append_right)
      rcases clear_action how nouns (objects_clear behind ih) with ⟨own, clear⟩
      exact .mk own (fun had => by cases had) clear

theorem no_nouns_behind {name : Name lexicon} {nouns : List Attr} (kinds : ∀ a ∈ nouns, a.kind = .isA)
    (inside : ∀ a ∈ nouns, IsBuilt lexicon a)
    (passes : Passes lexicon (plain (name.words ++ andJoined (nouns.map phrase)))) : nouns = [] := by
  cases nouns with
  | nil => rfl
  | cons first rest =>
      exfalso
      have kind := kinds first List.mem_cons_self
      have built := inside first List.mem_cons_self
      rcases exists_name_of_thing built (.inl kind) with ⟨other, named⟩
      rcases exists_joined_append (phrase first) (rest.map phrase) with ⟨tail, joined⟩
      rw [List.map_cons, joined, phrase_noun (built.no_how (.inl kind)) named kind] at passes
      have here : name.noun.text :: qualityWords other.qualities ++ [other.noun.text] <:+:
          name.words ++ (other.words ++ first.follow ++ tail) :=
        ⟨qualityWords name.qualities, first.follow ++ tail, by simp [Name.words]⟩
      have stuck := passes.inside here
      rw [List.cons_append, plain_cons, plain_append] at stuck
      exact no_noun_behind clean (.listed name.noun.listed) (qualities_modifiers other.qualities)
        (.listed other.noun.listed) stuck

theorem no_nouns_of_passes {name : Name lexicon} (built : IsBuilt lexicon attr)
    (noun : attr.kind = .isA)
    (passes : Passes lexicon (plain (name.words ++
      andJoined (Gloss.besides [.isLike] (Gloss.parts attr.children))))) : attr.nouns = [] := by
  rcases built.no_nouns_or noun with none | all
  · exact none
  · rw [besides_of_nouns all] at passes
    apply no_nouns_behind clean _ _ passes
    · intro a listed
      exact of_decide_eq_true (List.mem_filter.mp listed).2
    · intro a listed
      exact (built.of_thing (.inl noun)).2.1 a (List.mem_filter.mp listed).1

theorem readable_of_passes {claim : Attr} {words : List String} (built : IsBuilt lexicon claim)
    (said : Said claim words) (passes : Passes lexicon (plain words)) : claim.IsReadable lexicon := by
  cases built with
  | quality adjective =>
      cases adjective.is_clear with
      | mk own _ inside =>
          refine ⟨own, fun noun => ?_, inside⟩
          exact absurd (adjective.kind_eq.symm.trans noun) (by decide)
  | @thing kind w children thing listed inside alike =>
      have built : IsBuilt lexicon ⟨kind, w, children⟩ := .thing thing listed inside alike
      have no_how := built.no_how thing
      rcases exists_name_of_thing built thing with ⟨name, named⟩
      have clear (child : Attr) (member : child ∈ children) := clear_of_passes clean (inside child member)
      rcases thing with noun | had
      -- A clause comes right behind a thing only if it is not said what the thing is.
      · rw [said_unique said (said_noun no_how named noun)] at passes
        have none : (Attr.mk kind w children).nouns = [] :=
          no_nouns_of_passes clean built noun (passes.inside (List.infix_cons (List.infix_refl _)))
        rw [besides_of_no_nouns no_how none] at passes
        have behind := passes.inside (List.infix_cons List.infix_append_right)
        exact ⟨one_clause_of_passes clean inside behind, fun _ => none,
          inside_clear inside behind clear⟩
      · rw [said_unique said (said_had no_how named had)] at passes
        have behind := passes.inside (List.infix_cons List.infix_append_right)
        have no_noun : kind ≠ .isA := by
          rw [had]
          decide
        exact ⟨one_clause_of_passes clean inside behind, fun noun => absurd noun no_noun,
          inside_clear inside behind clear⟩
  | @action w manners objects listed how inside nouns =>
      rcases exists_action listed how with ⟨action, same⟩
      rw [← same] at said
      rw [said_unique said (sentence_action action nouns)] at passes
      have clear (child : Attr) (member : child ∈ objects) := clear_of_passes clean (inside child member)
      rcases clear_action how nouns (objects_clear (passes.inside List.infix_append_right) clear) with
        ⟨own, clear⟩
      exact ⟨own, fun noun => (by cases noun), clear⟩

end Clean

end ControlledEnglish
