import ControlledEnglish.Proofs.Canonical.Sentences
import ControlledEnglish.Proofs.Grammar.Content
import ControlledEnglish.Proofs.Mentions

namespace ControlledEnglish

open Canonical

namespace Gloss

variable {lexicon : Lexicon} {ps : List Part}

theorem count_keyword {w : String} (known : w ∈ keywords) (ws : List String) :
    (plain (w :: ws)).countP Word.isContent = (plain ws).countP Word.isContent := by
  rw [plain_cons, List.countP_cons, not_content_of_keyword known]
  rfl

def isContent (word : String) : Bool := (Word.plain word).isContent

theorem count_plain (ws : List String) : (plain ws).countP Word.isContent = ws.countP isContent :=
  List.countP_map

theorem joints_not_content : ∀ word ∈ joints, isContent word = false := by decide

mutual

theorem count_values (clean : lexicon.IsClean) (attr : Attr) (worded : attr.IsWorded lexicon) :
    attr.values.countP isContent = attr.size := by
  match attr, worded with
  | ⟨kind, value, children⟩, .mk listed inside =>
      have content : isContent value = true := decide_eq_true (clean.no_keyword _ _ listed)
      rw [Attr.values, List.countP_cons_of_pos content, count_values_of clean children inside]
      rfl

theorem count_values_of (clean : lexicon.IsClean) (attrs : List Attr)
    (worded : ∀ attr ∈ attrs, attr.IsWorded lexicon) :
    (Attr.valuesOf attrs).countP isContent = Attr.sizes attrs := by
  match attrs with
  | [] => rfl
  | attr :: attrs =>
      rcases List.forall_mem_cons.mp worded with ⟨first, rest⟩
      rw [Attr.valuesOf, List.countP_append, count_values clean attr first,
        count_values_of clean attrs rest, Attr.sizes_cons]

end

theorem content_phrase (clean : lexicon.IsClean) (attr : Attr) (worded : attr.IsWorded lexicon) :
    (plain (phrase attr)).countP Word.isContent = attr.size := by
  rw [count_plain, count_phrase joints_not_content, count_values clean attr worded]

section Used

theorem used_and_joined {parts : List (List String)}
    (used : ∀ words ∈ parts, ∀ word ∈ words, IsUsed lexicon word) :
    ∀ word ∈ andJoined parts, IsUsed lexicon word :=
  forall_mem_and_joined (.inl (by decide)) used

theorem used_among (used : ∀ p ∈ ps, ∀ word ∈ p.words, IsUsed lexicon word) (keep : Part → Bool) :
    ∀ words ∈ (ps.filter keep).map Part.words, ∀ word ∈ words, IsUsed lexicon word := by
  rw [List.forall_mem_map]
  intro part member
  exact used part (List.mem_of_mem_filter member)

theorem used_flatten (used : ∀ p ∈ ps, ∀ word ∈ p.words, IsUsed lexicon word)
    (keep : Part → Bool) :
    ∀ word ∈ ((ps.filter keep).map Part.words).flatten, IsUsed lexicon word := by
  intro word member
  rcases List.mem_flatten.mp member with ⟨words, listed, inside⟩
  exact used_among used keep words listed word inside

theorem used_clauses (used : ∀ p ∈ ps, ∀ word ∈ p.words, IsUsed lexicon word) :
    ∀ word ∈ clauses ps, IsUsed lexicon word := by
  rw [clauses, List.forall_mem_append]
  refine ⟨?_, used_and_joined (used_among used _)⟩
  rw [thatIs]
  split
  · exact List.forall_mem_nil _
  · rw [List.forall_mem_append, List.forall_mem_cons, List.forall_mem_singleton]
    exact ⟨⟨.inl (by decide), .inl (by decide)⟩, used_and_joined (used_among used _)⟩

theorem used_phrase_of {value : String} (named : IsUsed lexicon value) (kind : Kind)
    (used : ∀ p ∈ ps, ∀ word ∈ p.words, IsUsed lexicon word) :
    ∀ word ∈ phraseOf kind value ps, IsUsed lexicon word := by
  have value_used : ∀ word ∈ [value], IsUsed lexicon word := List.forall_mem_singleton.mpr named
  have rest (keep : Part → Bool) : ∀ word ∈ clauses (ps.filter keep), IsUsed lexicon word :=
    used_clauses fun part member => used part (List.mem_of_mem_filter member)
  have that_used : IsUsed lexicon "that" := .inl (by decide)
  have has_used : IsUsed lexicon "has" := .inl (by decide)
  cases kind with
  | isA =>
      rw [phraseOf, List.forall_mem_append, List.forall_mem_append]
      exact ⟨⟨used_flatten used _, value_used⟩, rest _⟩
  | does =>
      rw [phraseOf, List.forall_mem_append, List.forall_mem_append, List.forall_mem_append,
        List.forall_mem_singleton]
      exact ⟨⟨⟨that_used, used_and_joined (used_among used _)⟩, value_used⟩,
        used_and_joined (used_among used _)⟩
  | hasA =>
      rw [phraseOf, List.forall_mem_append, List.forall_mem_append, List.forall_mem_append,
        List.forall_mem_cons, List.forall_mem_singleton]
      exact ⟨⟨⟨⟨that_used, has_used⟩, used_and_joined (used_among used _)⟩, value_used⟩, rest _⟩
  | isLike | isHow =>
      rw [phraseOf, List.forall_mem_append]
      refine ⟨?_, value_used⟩
      have all := used_flatten used fun _ => true
      rwa [List.filter_true] at all

mutual

theorem used_phrase (attr : Attr) (worded : attr.IsWorded lexicon) :
    ∀ word ∈ phrase attr, IsUsed lexicon word := by
  match attr, worded with
  | ⟨kind, value, children⟩, .mk listed inside =>
      rw [phrase]
      exact used_phrase_of (.inr ⟨_, listed⟩) kind (used_parts children inside)

theorem used_parts (attrs : List Attr) (worded : ∀ attr ∈ attrs, attr.IsWorded lexicon) :
    ∀ p ∈ parts attrs, ∀ word ∈ p.words, IsUsed lexicon word := by
  match attrs with
  | [] => exact List.forall_mem_nil _
  | attr :: attrs =>
      rcases List.forall_mem_cons.mp worded with ⟨first, rest⟩
      rw [parts, List.forall_mem_cons]
      exact ⟨used_phrase attr first, used_parts attrs rest⟩

end

end Used

theorem sentence_words (clean : lexicon.IsClean) {attr : Attr} (worded : attr.IsWorded lexicon)
    {words : List String} (said : sentence? attr = some words) :
    ∃ predicate, words = "it" :: predicate ∧
      (plain predicate).countP Word.isContent = attr.size ∧
      ∀ word ∈ predicate, IsUsed lexicon word := by
  have size : (plain words).countP Word.isContent = attr.size := by
    rw [count_plain, count_sentence joints_not_content said, count_values clean attr worded]
  suffices spoken : ∃ predicate, words = "it" :: predicate ∧
      ∀ word ∈ predicate, IsUsed lexicon word by
    rcases spoken with ⟨predicate, rfl, used⟩
    rw [count_keyword (by decide)] at size
    exact ⟨predicate, rfl, size, used⟩
  cases worded with
  | @mk kind value category children listed inside =>
      have used := used_parts children inside
      have joined (keep : Part → Bool) := used_and_joined (used_among used keep)
      have inner : ["is", "has"] ⊆ innerKeywords := by decide
      -- What is said has the value in it, after a verb or after none.
      have whole (lead front back : List String) (verb : lead ⊆ ["is", "has"])
          (before : ∀ word ∈ front, IsUsed lexicon word)
          (behind : ∀ word ∈ back, IsUsed lexicon word) :
          ∀ word ∈ lead ++ front ++ [value] ++ back, IsUsed lexicon word := by
        rw [List.forall_mem_append, List.forall_mem_append, List.forall_mem_append,
          List.forall_mem_singleton]
        exact ⟨⟨⟨fun word member => .inl (inner (verb member)), before⟩, .inr ⟨_, listed⟩⟩, behind⟩
      cases kind with
      | does =>
          cases said
          exact ⟨_, rfl, whole [] _ _ (List.nil_subset _) (joined _) (joined _)⟩
      | hasA =>
          cases said
          exact ⟨_, rfl, whole ["has"] _ _ (by decide) (used_flatten used _)
            (used_clauses fun part member => used part (List.mem_of_mem_filter member))⟩
      | isA =>
          cases said
          exact ⟨_, rfl, whole ["is"] _ _ (by decide) (used_flatten used _) (joined _)⟩
      | isLike =>
          cases said
          exact ⟨_, rfl, whole ["is"] _ _ (by decide) (joined _) (joined _)⟩
      | isHow => cases said

end Gloss

end ControlledEnglish
