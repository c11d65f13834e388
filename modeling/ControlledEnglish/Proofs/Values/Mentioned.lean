import ControlledEnglish.Proofs.Mentions
import ControlledEnglish.Proofs.Values.Glossable

namespace ControlledEnglish

namespace Value

mutual

def texts : Value → List String
  | .attr _ v children => v.string?.toList ++ texts children
  | .rule head body => texts head ++ texts body
  | .list items => textsOf items
  | .tuple items => textsOf items
  | .json _ | .kind _ => []

def textsOf : List Value → List String
  | [] => []
  | value :: rest => texts value ++ textsOf rest

end

mutual

theorem texts_of_attr (value : Value) {attr : Attr} (found : attr? value = some attr) :
    value.texts = attr.values := by
  match value, found with
  | .attr (.kind k) v children, found =>
      obtain ⟨text, own, found⟩ := Option.bind_eq_some_iff.mp found
      obtain ⟨attrs, inside, found⟩ := Option.bind_eq_some_iff.mp found
      cases found
      rw [texts, own, texts_of_children children inside]
      rfl

theorem texts_of_children (children : Value) {attrs : List Attr}
    (found : children? children = some attrs) : children.texts = Attr.valuesOf attrs := by
  match children, found with
  | .list items, found | .tuple items, found => exact texts_of_attrs items found
  | .json (.array []), found =>
      cases found
      rfl

theorem texts_of_attrs (items : List Value) {attrs : List Attr}
    (found : attrs? items = some attrs) : textsOf items = Attr.valuesOf attrs := by
  match items, found with
  | [], found =>
      cases found
      rfl
  | item :: items, found =>
      obtain ⟨attr, first, found⟩ := Option.bind_eq_some_iff.mp found
      obtain ⟨attrs, rest, found⟩ := Option.bind_eq_some_iff.mp found
      cases found
      rw [textsOf, texts_of_attr item first, texts_of_attrs items rest]
      rfl

end

mutual

theorem texts_of_clause (value : Value) {clause : Clause} (found : clause? value = some clause) :
    value.texts = clause.values := by
  match value, found with
  | .attr k v children, found =>
      obtain ⟨attr, read, rfl⟩ := Option.map_eq_some_iff.mp found
      exact texts_of_attr _ read
  | .rule head body, found =>
      obtain ⟨attr, claim, found⟩ := Option.bind_eq_some_iff.mp found
      obtain ⟨clauses, conditions, found⟩ := Option.bind_eq_some_iff.mp found
      cases found
      rw [texts, texts_of_attr head claim, texts_of_conditions body conditions]
      rfl

theorem texts_of_conditions (body : Value) {clauses : List Clause}
    (found : conditions? body = some clauses) : body.texts = Clause.valuesOf clauses := by
  match body, found with
  | .list items, found | .tuple items, found => exact texts_of_clauses items found
  | .json (.array []), found =>
      cases found
      rfl

theorem texts_of_clauses (items : List Value) {clauses : List Clause}
    (found : clauses? items = some clauses) : textsOf items = Clause.valuesOf clauses := by
  match items, found with
  | [], found =>
      cases found
      rfl
  | item :: items, found =>
      obtain ⟨clause, first, found⟩ := Option.bind_eq_some_iff.mp found
      obtain ⟨clauses, rest, found⟩ := Option.bind_eq_some_iff.mp found
      cases found
      rw [textsOf, texts_of_clause item first, texts_of_clauses items rest]
      rfl

end

theorem texts_of_items (value : Value) : textsOf value.items = value.texts := by
  match value with
  | .list items | .tuple items => rfl
  | .json (.array items) =>
      have none (items : List Json) : textsOf (items.map .json) = [] := by
        induction items with
        | nil => rfl
        | cons item items ih => exact ih
      exact none items
  | .json .null | .json (.bool _) | .json (.integer _) | .json (.decimal ..) | .json (.string _)
  | .json (.object _) | .kind _ => rfl
  | .attr .. | .rule .. => exact List.append_nil _

end Value

/-- Whatever can be glossed, each of its nodes is mentioned once. -/
theorem gloss_mentions_every_node_once {value : Value}
    (glossable : ∀ item ∈ value.items, item.IsGlossable) {word : String}
    (free : word ∉ ["it", "is", "has", "that", "and", "if", "then"]) :
    ∃ words, value.gloss = .ok (.words words) ∧ words.count word = value.texts.count word := by
  have free : ∀ joint ∈ Gloss.joints, (joint == word) = false := fun joint member => by
    rw [beq_eq_false_iff_ne]
    rintro rfl
    exact free member
  obtain ⟨words, said, glossed⟩ := Value.gloss_of_glossable glossable
  refine ⟨words, glossed, ?_⟩
  obtain ⟨clauses, read, said⟩ := Option.bind_eq_some_iff.mp said
  rw [← Value.texts_of_items, Value.texts_of_clauses _ read]
  exact Clause.count_gloss_all free said

theorem gloss_mentions_repeated_value :
    let claws : Attr := ⟨.hasA, "claws", [⟨.isLike, "sharp", [⟨.isHow, "very", []⟩]⟩]⟩
    let tears : Attr := ⟨.does, "tears", [⟨.isHow, "slowly", []⟩, ⟨.isA, "paper", []⟩]⟩
    let beak : Attr := ⟨.hasA, "beak", [⟨.isLike, "sharp", []⟩]⟩
    ∃ words, (Value.ofRule ⟨tears, [claws, beak]⟩).gloss = .ok (.words words) ∧
      words.count "sharp" = 2 := by
  intro claws tears beak
  have glossable : ∀ item ∈ (Value.ofRule ⟨tears, [claws, beak]⟩).items, item.IsGlossable :=
    List.forall_mem_singleton.mpr ((Value.rule_glossable_iff _).mpr (by decide))
  have free : "sharp" ∉ ["it", "is", "has", "that", "and", "if", "then"] := by decide
  exact gloss_mentions_every_node_once glossable free

end ControlledEnglish
