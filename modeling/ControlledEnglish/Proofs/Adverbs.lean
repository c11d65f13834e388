import Mathlib.Data.List.Induction
import ControlledEnglish.Proofs.Mentions
import ControlledEnglish.Proofs.Values.Checked

namespace ControlledEnglish

namespace Attr

def how (value : String) : Attr := ⟨.isHow, value, []⟩

inductive IsAdverbChain : Attr → Prop where
  | innermost (value : String) : IsAdverbChain ⟨.isHow, value, []⟩
  | around (value : String) {inner : Attr} (chain : IsAdverbChain inner) :
      IsAdverbChain ⟨.isHow, value, [inner]⟩

theorem map_how_values {adverbs : List Attr}
    (bare : ∀ a ∈ adverbs, a.kind = .isHow ∧ a.children = []) :
    (adverbs.map Attr.value).map how = adverbs := by
  rw [List.map_map]
  refine (List.map_congr_left fun a member => ?_).trans (List.map_id adverbs)
  rcases a with ⟨kind, value, children⟩
  obtain ⟨rfl, rfl⟩ := bare _ member
  rfl

theorem fold_hows_concat (values : List String) (last : String) :
    foldAdverbs ((values ++ [last]).map how) =
      [⟨.isHow, last, foldAdverbs (values.map how)⟩] := by
  rw [List.map_append, List.map_singleton, fold_adverbs_concat]
  rfl

end Attr

namespace Gloss

def sideBySide (attrs : List Attr) : List String := ((parts attrs).map Part.words).flatten

theorem side_by_side_how (value : String) (inner : List Attr) :
    sideBySide [⟨.isHow, value, inner⟩] = sideBySide inner ++ [value] := by
  simp [sideBySide, parts, phrase, phraseOf]

end Gloss

open Attr (how)
open Gloss (sideBySide side_by_side_how)

theorem Value.juxtaposed_of_attrs (attrs : List Attr) :
    Draft.juxtaposed (drafts (ofAttrs attrs)) = .ok (sideBySide attrs) := by
  have agree : Agree False _ _ := items_agree (ofAttrs attrs) nofun
  rw [attrs?_of_attrs] at agree
  rcases agree with ⟨ds, found, sound, parts⟩ | ⟨missing, -⟩
  · cases found
    have speaks := Draft.speaks_each List.flatten _ sound
    rw [parts] at speaks
    exact speaks.eq_ok
  · cases missing

namespace Attr

theorem exists_chain {values : List String} (some : values ≠ []) :
    ∃ chain, foldAdverbs (values.map how) = [chain] ∧ chain.IsAdverbChain ∧
      chain.values = values.reverse ∧ sideBySide [chain] = values := by
  induction values using List.reverseRecOn with
  | nil => exact absurd rfl some
  | append_singleton rest last ih =>
      rw [fold_hows_concat, List.reverse_append, List.reverse_singleton, List.singleton_append]
      by_cases alone : rest = []
      · subst alone
        exact ⟨how last, rfl, .innermost last, rfl, rfl⟩
      · obtain ⟨inner, folded, chain, values, said⟩ := ih alone
        refine ⟨⟨.isHow, last, [inner]⟩, by rw [folded], .around last chain, ?_, ?_⟩
        · rw [Attr.values, valuesOf, valuesOf, List.append_nil, values]
        · rw [side_by_side_how, said]

theorem IsAdverbChain.fold_hows_said {attr : Attr} (chain : attr.IsAdverbChain) :
    foldAdverbs ((sideBySide [attr]).map how) = [attr] := by
  induction chain with
  | innermost value => rfl
  | around value chain ih => rw [side_by_side_how, fold_hows_concat, ih]

end Attr

/-- Adverbs side by side, with nothing said of them yet, become one chain with the last outermost, and
they are said in the order in which they stood. Every chain is what becomes of the adverbs that its
gloss names. -/
theorem folded_adverbs_in_order :
    (∀ adverbs : List Attr, adverbs ≠ [] →
      (∀ a ∈ adverbs, a.kind = .isHow ∧ a.children = []) →
      ∃ chain, foldAdverbs adverbs = [chain] ∧ chain.IsAdverbChain ∧
        chain.values = (adverbs.map Attr.value).reverse ∧
        Value.Draft.juxtaposed (Value.drafts (Value.ofAttrs (foldAdverbs adverbs))) =
          .ok (adverbs.map Attr.value)) ∧
    ∀ chain : Attr, chain.IsAdverbChain →
      ∃ words, Value.Draft.juxtaposed (Value.drafts (Value.ofAttrs [chain])) = .ok words ∧
        foldAdverbs (words.map how) = [chain] := by
  refine ⟨fun adverbs some bare => ?_, fun chain given => ?_⟩
  · have values_some : adverbs.map Attr.value ≠ [] := by
      rwa [Ne, List.map_eq_nil_iff]
    obtain ⟨chain, folded, given, values, said⟩ := Attr.exists_chain values_some
    rw [Attr.map_how_values bare] at folded
    refine ⟨chain, folded, given, values, ?_⟩
    rw [folded, Value.juxtaposed_of_attrs, said]
  · exact ⟨_, Value.juxtaposed_of_attrs [chain], given.fold_hows_said⟩

theorem folded_adverbs_in_order_three :
    let adverbs := [how "not", how "very", how "slowly"]
    let chain : Attr := ⟨.isHow, "slowly", [⟨.isHow, "very", [how "not"]⟩]⟩
    adverbs ≠ [] ∧ (∀ a ∈ adverbs, a.kind = .isHow ∧ a.children = []) ∧
      (∃ folded, foldAdverbs adverbs = [folded] ∧ folded.IsAdverbChain ∧
        folded.values = ["slowly", "very", "not"] ∧
        Value.Draft.juxtaposed (Value.drafts (Value.ofAttrs (foldAdverbs adverbs))) =
          .ok ["not", "very", "slowly"]) ∧
      chain.IsAdverbChain ∧
      ∃ words, Value.Draft.juxtaposed (Value.drafts (Value.ofAttrs [chain])) = .ok words ∧
        foldAdverbs (words.map how) = [chain] := by
  intro adverbs chain
  have some : adverbs ≠ [] := List.cons_ne_nil _ _
  have bare : ∀ a ∈ adverbs, a.kind = .isHow ∧ a.children = [] := by decide
  have given : chain.IsAdverbChain := .around "slowly" (.around "very" (.innermost "not"))
  obtain ⟨folds, unfolds⟩ := folded_adverbs_in_order
  exact ⟨some, bare, folds adverbs some bare, given, unfolds chain given⟩

end ControlledEnglish
