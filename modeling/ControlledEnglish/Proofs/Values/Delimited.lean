import ControlledEnglish.Attribute.Written
import ControlledEnglish.Proofs.Literals
import ControlledEnglish.Proofs.Mentions

namespace ControlledEnglish

theorem Kind.comma_not_mem_tag (kind : Kind) : ',' ∉ kind.tag.toList := by
  cases kind <;> decide

theorem Kind.tag_inj {kind other : Kind} (same : kind.tag = other.tag) : kind = other := by
  have found := Kind.ofTag?_tag kind
  rw [same, Kind.ofTag?_tag] at found
  exact (Option.some.inj found).symm

def NoComma (values : List String) : Prop := ∀ value ∈ values, ',' ∉ value.toList

instance (values : List String) : Decidable (NoComma values) := List.decidableBAll _ _

def Rule.values (rule : Rule) : List String := rule.head.values ++ Attr.valuesOf rule.body

namespace Attr

def behind : List Attr → List Char
  | [] => [']']
  | attr :: attrs => ',' :: ' ' :: (attr.written.toList ++ behind attrs)

def enclosed : List Attr → List Char
  | [] => [']']
  | attr :: attrs => attr.written.toList ++ behind attrs

theorem intercalate_written (attrs : List Attr) :
    (", ".intercalate (writtenAll attrs)).toList ++ [']'] = enclosed attrs := by
  cases attrs with
  | nil => rfl
  | cons attr attrs =>
      induction attrs generalizing attr with
      | nil => simp [writtenAll, enclosed, behind]
      | cons next attrs ih =>
          calc
            (", ".intercalate (writtenAll (attr :: next :: attrs))).toList ++ [']'] =
                attr.written.toList ++ ',' :: ' ' ::
                  ((", ".intercalate (writtenAll (next :: attrs))).toList ++ [']']) := by
              rw [writtenAll, writtenAll, String.intercalate_cons_cons]
              simp
            _ = enclosed (attr :: next :: attrs) := by
              rw [ih]
              rfl

theorem to_list_written (kind : Kind) (value : String) (children : List Attr) :
    (written ⟨kind, value, children⟩).toList = "attr(".toList ++ (kind.tag.toList ++
      ',' :: ' ' :: (value.toList ++ ',' :: ' ' :: '[' :: (enclosed children ++ [')']))) := by
  rw [← intercalate_written]
  simp [written, writtenAttr]

theorem exists_opening (attr : Attr) : ∃ rest, attr.written.toList = 'a' :: rest := by
  rcases attr with ⟨kind, value, children⟩
  rw [to_list_written]
  exact ⟨_, rfl⟩

theorem enclosed_cons_ne (attr : Attr) (attrs : List Attr) (rest rest' : List Char) :
    enclosed (attr :: attrs) ++ rest ≠ ']' :: rest' := by
  obtain ⟨more, opening⟩ := attr.exists_opening
  rw [enclosed, opening]
  exact fun same => absurd (List.cons.inj same).1 (by decide)

mutual

/-- A written attribute ends where it does, whatever stands behind it. -/
theorem written_append_inj (attr other : Attr) (plain : NoComma attr.values)
    (plain' : NoComma other.values) {rest rest' : List Char}
    (same : attr.written.toList ++ rest = other.written.toList ++ rest') :
    attr = other ∧ rest = rest' := by
  match attr, other with
  | ⟨kind, value, children⟩, ⟨kind', value', children'⟩ =>
      obtain ⟨first, inside⟩ := List.forall_mem_cons.mp plain
      obtain ⟨first', inside'⟩ := List.forall_mem_cons.mp plain'
      rw [to_list_written, to_list_written] at same
      simp only [List.append_assoc, List.cons_append, List.append_cancel_left_eq] at same
      obtain ⟨tags, behind_tag⟩ :=
        cut_at_mark_inj kind.comma_not_mem_tag kind'.comma_not_mem_tag same
      obtain ⟨values, behind_value⟩ := cut_at_mark_inj first first' (List.cons.inj behind_tag).2
      simp only [List.cons.injEq, true_and] at behind_value
      obtain ⟨nodes, ending⟩ := enclosed_append_inj children children' inside inside' behind_value
      rw [Kind.tag_inj (String.toList_inj.mp tags), String.toList_inj.mp values, nodes]
      exact ⟨rfl, (List.cons.inj ending).2⟩

theorem enclosed_append_inj (attrs others : List Attr) (plain : NoComma (valuesOf attrs))
    (plain' : NoComma (valuesOf others)) {rest rest' : List Char}
    (same : enclosed attrs ++ rest = enclosed others ++ rest') : attrs = others ∧ rest = rest' := by
  match attrs, others with
  | [], [] => exact ⟨rfl, (List.cons.inj same).2⟩
  | [], other :: others => exact absurd same.symm (enclosed_cons_ne other others _ _)
  | attr :: attrs, [] => exact absurd same (enclosed_cons_ne attr attrs _ _)
  | attr :: attrs, other :: others =>
      obtain ⟨first, later⟩ := List.forall_mem_append.mp plain
      obtain ⟨first', later'⟩ := List.forall_mem_append.mp plain'
      rw [enclosed, enclosed, List.append_assoc, List.append_assoc] at same
      obtain ⟨head, behind_head⟩ := written_append_inj attr other first first' same
      obtain ⟨tail, ending⟩ := behind_append_inj attrs others later later' behind_head
      exact ⟨congrArg₂ List.cons head tail, ending⟩

theorem behind_append_inj (attrs others : List Attr) (plain : NoComma (valuesOf attrs))
    (plain' : NoComma (valuesOf others)) {rest rest' : List Char}
    (same : behind attrs ++ rest = behind others ++ rest') : attrs = others ∧ rest = rest' := by
  match attrs, others with
  | [], [] => exact ⟨rfl, (List.cons.inj same).2⟩
  | [], other :: others => exact absurd (List.cons.inj same).1 (by decide)
  | attr :: attrs, [] => exact absurd (List.cons.inj same).1 (by decide)
  | attr :: attrs, other :: others =>
      obtain ⟨first, later⟩ := List.forall_mem_append.mp plain
      obtain ⟨first', later'⟩ := List.forall_mem_append.mp plain'
      rw [behind, behind] at same
      simp only [List.cons_append, List.append_assoc, List.cons.injEq, true_and] at same
      obtain ⟨head, behind_head⟩ := written_append_inj attr other first first' same
      obtain ⟨tail, ending⟩ := behind_append_inj attrs others later later' behind_head
      exact ⟨congrArg₂ List.cons head tail, ending⟩

end

end Attr

theorem Rule.to_list_written (rule : Rule) : rule.written.toList =
    "rule(".toList ++ (rule.head.written.toList ++
      ',' :: ' ' :: '[' :: (Attr.enclosed rule.body ++ [')'])) := by
  rw [← Attr.intercalate_written]
  simp [Rule.written, writtenRule]

/-- Attributes, and rules, whose values have no comma are told apart by how they are written. -/
theorem written_unambiguous :
    (∀ attr other : Attr, NoComma attr.values → NoComma other.values →
      (attr.written = other.written ↔ attr = other)) ∧
    ∀ rule other : Rule, NoComma rule.values → NoComma other.values →
      (rule.written = other.written ↔ rule = other) := by
  constructor
  · intro attr other plain plain'
    constructor
    · intro same
      have chars : attr.written.toList ++ [] = other.written.toList ++ [] := by rw [same]
      exact (Attr.written_append_inj attr other plain plain' chars).1
    · exact congrArg Attr.written
  · intro rule other plain plain'
    obtain ⟨head, body⟩ := List.forall_mem_append.mp plain
    obtain ⟨head', body'⟩ := List.forall_mem_append.mp plain'
    constructor
    · intro same
      have chars := congrArg String.toList same
      rw [Rule.to_list_written, Rule.to_list_written, List.append_cancel_left_eq] at chars
      obtain ⟨heads, behind_head⟩ := Attr.written_append_inj _ _ head head' chars
      simp only [List.cons.injEq, true_and] at behind_head
      obtain ⟨bodies, -⟩ := Attr.enclosed_append_inj _ _ body body' behind_head
      rcases rule with ⟨claim, conditions⟩
      rcases other with ⟨claim', conditions'⟩
      exact congrArg₂ Rule.mk heads bodies
    · exact congrArg Rule.written

theorem written_unambiguous_with_brackets :
    let inner : Attr := ⟨.isLike, "sharp", [⟨.isHow, "])", []⟩]⟩
    let outer : Attr := ⟨.isLike, "sharp [attr(is_how ])", []⟩
    NoComma inner.values ∧ NoComma outer.values ∧ inner.written ≠ outer.written ∧
      (Rule.mk inner [outer]).written ≠ (Rule.mk inner [outer, outer]).written := by
  intro inner outer
  obtain ⟨attrs, rules⟩ := written_unambiguous
  have plain : NoComma inner.values := by decide
  have plain' : NoComma outer.values := by decide
  refine ⟨plain, plain', ?_, ?_⟩
  · exact (attrs inner outer plain plain').not.mpr (by decide)
  · exact (rules ⟨inner, [outer]⟩ ⟨inner, [outer, outer]⟩ (by decide) (by decide)).not.mpr
      (by decide)

/-- A comma in a value can. -/
example :
    let children : Attr := ⟨.isA, "bird", [⟨.isLike, "long", []⟩, ⟨.isLike, "sharp", []⟩]⟩
    let child : Attr := ⟨.isA, "bird", [⟨.isLike, "long, []), attr(is_like, sharp", []⟩]⟩
    children ≠ child ∧ children.written = child.written := by
  decide

end ControlledEnglish
