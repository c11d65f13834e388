import ControlledEnglish.Proofs.Values.Checked
import ControlledEnglish.Service.Handle

namespace ControlledEnglish

theorem Text.few_digits_pow {n : Nat} (long : maxDigits ≤ n) :
    hasFewDigits (Int.pow 10 n) = false := by
  unfold hasFewDigits
  apply decide_eq_false
  have value : (Int.pow 10 n).natAbs = Nat.pow 10 n := Int.natAbs_pow 10 n
  have bound (m : Nat) (le : m ≤ n) : Nat.pow 10 m ≤ Nat.pow 10 n :=
    Nat.pow_le_pow_right (by decide) le
  rw [value]
  exact Nat.not_lt.mpr (bound maxDigits long)

namespace Value

/-- Every node of the tree has a kind, a text and a list or a tuple of attributes. -/
inductive IsTree : Value → Prop where
  | node {kind : Kind} {v children : Value} {items : List Value} (text : v.string?.isSome = true)
      (listed : children.listed? = some items) (trees : ∀ item ∈ items, IsTree item) :
      IsTree (.attr (.kind kind) v children)

/-- A tree that does not say how, or a rule of such a tree and of conditions that can be glossed. -/
inductive IsGlossable : Value → Prop where
  | attr {kind : Kind} {v children : Value} (tree : IsTree (.attr (.kind kind) v children))
      (sayable : kind ≠ .isHow) : IsGlossable (.attr (.kind kind) v children)
  | rule {head body : Value} {items : List Value} (claim : head.isAttr = true)
      (sayable : IsGlossable head) (listed : body.listed? = some items)
      (conditions : ∀ item ∈ items, IsGlossable item) : IsGlossable (.rule head body)

theorem is_tree_attr_iff {k v children : Value} :
    IsTree (.attr k v children) ↔ (∃ kind, k = .kind kind) ∧ v.string?.isSome = true ∧
      ∃ items, children.listed? = some items ∧ ∀ item ∈ items, IsTree item := by
  constructor
  · rintro ⟨text, listed, trees⟩
    exact ⟨⟨_, rfl⟩, text, _, listed, trees⟩
  · rintro ⟨⟨kind, rfl⟩, text, items, listed, trees⟩
    exact .node text listed trees

theorem is_glossable_attr_iff {k v children : Value} :
    IsGlossable (.attr k v children) ↔
      IsTree (.attr k v children) ∧ k ≠ .kind .isHow := by
  constructor
  · rintro (⟨tree, sayable⟩ | _)
    exact ⟨tree, fun same => sayable (by cases same; rfl)⟩
  · rintro ⟨⟨text, listed, trees⟩, sayable⟩
    exact .attr (.node text listed trees) fun same => sayable (by rw [same])

theorem is_glossable_rule_iff {head body : Value} :
    IsGlossable (.rule head body) ↔ head.isAttr = true ∧ IsGlossable head ∧
      ∃ items, body.listed? = some items ∧ ∀ item ∈ items, IsGlossable item := by
  constructor
  · rintro (_ | ⟨claim, sayable, listed, conditions⟩)
    exact ⟨claim, sayable, _, listed, conditions⟩
  · rintro ⟨claim, sayable, items, listed, conditions⟩
    exact .rule claim sayable listed conditions

mutual

theorem is_tree_iff (value : Value) : IsTree value ↔ (attr? value).isSome = true := by
  cases value with
  | attr k v children =>
      rw [is_tree_attr_iff, are_trees_iff children]
      cases k with
      | kind kind =>
          rw [attr?]
          cases v.string? <;> cases children? children <;> simp
      | json | list | tuple | attr | rule => simp [attr?]
  | json | kind | list | tuple | rule => exact iff_of_false nofun nofun

theorem are_trees_iff (children : Value) :
    (∃ items, children.listed? = some items ∧ ∀ item ∈ items, IsTree item) ↔
      (children? children).isSome = true := by
  match children with
  | .list items | .tuple items =>
      rw [children?, ← all_trees_iff items]
      simp [listed?]
  | .json (.array []) => simp [listed?, children?]
  | .json (.array (item :: items)) =>
      refine iff_of_false ?_ nofun
      rintro ⟨_, ⟨rfl⟩, trees⟩
      cases trees _ List.mem_cons_self
  | .json .null | .json (.bool _) | .json (.integer _) | .json (.decimal ..) | .json (.string _)
  | .json (.object _) | .kind _ | .attr .. | .rule .. => simp [listed?, children?]

theorem all_trees_iff (items : List Value) :
    (∀ item ∈ items, IsTree item) ↔ (attrs? items).isSome = true := by
  match items with
  | [] => exact iff_of_true nofun rfl
  | item :: items =>
      rw [List.forall_mem_cons, is_tree_iff item, all_trees_iff items, attrs?]
      cases attr? item <;> cases attrs? items <;> simp

end

theorem attr_gloss_iff (attr : Attr) :
    (Clause.attr attr).gloss?.isSome = true ↔ attr.kind ≠ .isHow := by
  rcases attr with ⟨kind, value, children⟩
  cases kind <;> simp [Clause.gloss?, Gloss.sentence?]

theorem rule_gloss_iff (head : Attr) (body : List Clause) :
    (Clause.rule head body).gloss?.isSome = true ↔
      (Clause.attr head).gloss?.isSome = true ∧ (Clause.glosses? body).isSome = true := by
  rw [Clause.gloss?]
  cases body with
  | nil => simp [Clause.gloss?, Clause.glosses?]
  | cons first rest =>
      rw [Clause.gloss?]
      cases Gloss.sentence? head <;> cases Clause.glosses? (first :: rest) <;> simp

mutual

theorem is_glossable_iff (value : Value) :
    IsGlossable value ↔ ((clause? value).bind Clause.gloss?).isSome = true := by
  cases value with
  | attr k v children =>
      rw [is_glossable_attr_iff, is_tree_iff, clause?]
      cases read : attr? (.attr k v children) with
      | none => simp
      | some attr =>
          have own : some k = some (.kind attr.kind) := kind_of_attr read
          cases own
          simpa using (attr_gloss_iff attr).symm
  | rule head body =>
      rw [is_glossable_rule_iff, are_glossable_iff body, clause?]
      cases side : head.isAttr with
      | false =>
          rw [attr_of_other side]
          simp
      | true =>
          rw [is_glossable_iff head, clause_of_attr side, Option.bind_map]
          cases attr? head with
          | none => simp
          | some claim =>
              cases conditions? body with
              | none => simp
              | some conditions => simpa using (rule_gloss_iff claim conditions).symm
  | json | kind | list | tuple => exact iff_of_false nofun nofun

theorem are_glossable_iff (body : Value) :
    (∃ items, body.listed? = some items ∧ ∀ item ∈ items, IsGlossable item) ↔
      ((conditions? body).bind Clause.glosses?).isSome = true := by
  match body with
  | .list items | .tuple items =>
      rw [conditions?, ← all_glossable_iff items]
      simp [listed?]
  | .json (.array []) => simp [listed?, conditions?, Clause.glosses?]
  | .json (.array (item :: items)) =>
      refine iff_of_false ?_ nofun
      rintro ⟨_, ⟨rfl⟩, conditions⟩
      cases conditions _ List.mem_cons_self
  | .json .null | .json (.bool _) | .json (.integer _) | .json (.decimal ..) | .json (.string _)
  | .json (.object _) | .kind _ | .attr .. | .rule .. => simp [listed?, conditions?]

theorem all_glossable_iff (items : List Value) :
    (∀ item ∈ items, IsGlossable item) ↔
      ((clauses? items).bind Clause.glosses?).isSome = true := by
  match items with
  | [] => exact iff_of_true nofun rfl
  | item :: items =>
      rw [List.forall_mem_cons, is_glossable_iff item, all_glossable_iff items, clauses_gloss]
      cases (clause? item).bind Clause.gloss? with
      | none => simp
      | some words =>
          rw [Option.bind_some, Option.isSome_map]
          simp

end

theorem all_glossable_iff_gloss (value : Value) :
    (∀ item ∈ value.items, IsGlossable item) ↔
      ((clauses? value.items).bind Clause.glossAll?).isSome = true := by
  rw [all_glossable_iff]
  cases clauses? value.items <;> simp [Clause.glossAll?]

theorem gloss_of_glossable {value : Value} (glossable : ∀ item ∈ value.items, item.IsGlossable) :
    ∃ words, (clauses? value.items).bind Clause.glossAll? = some words ∧
      value.gloss = .ok (.words words) := by
  rw [all_glossable_iff_gloss] at glossable
  rcases value.gloss_cases with found | ⟨none, -⟩
  · exact found
  · rw [none] at glossable
    cases glossable

theorem gloss_of_not_glossable {value : Value}
    (stray : ¬∀ item ∈ value.items, item.IsGlossable) : value.gloss = .ok (.itself value) ∨
      value.gloss = .error .unshowable ∧ value.isShowable = false := by
  rw [all_glossable_iff_gloss] at stray
  rcases value.gloss_cases with ⟨words, found, -⟩ | ⟨-, other⟩
  · rw [found] at stray
    exact absurd rfl stray
  · exact other

theorem gloss_eq_words_iff {value : Value} :
    (∃ words, value.gloss = .ok (.words words)) ↔ ∀ item ∈ value.items, item.IsGlossable := by
  constructor
  · intro ⟨words, said⟩
    by_contra stray
    rcases gloss_of_not_glossable stray with itself | ⟨hidden, -⟩
    · rw [itself] at said
      cases said
    · rw [hidden] at said
      cases said
  · intro glossable
    obtain ⟨words, -, said⟩ := gloss_of_glossable glossable
    exact ⟨words, said⟩

/-! Attributes and rules hold no numbers, so they can be shown. -/

mutual

theorem showable_of_attr (attr : Attr) : (ofAttr attr).isShowable = true := by
  rcases attr with ⟨kind, value, children⟩
  rw [ofAttr, isShowable, isShowable, isShowable, isShowable, showable_of_attrs children]
  rfl

theorem showable_of_attrs (attrs : List Attr) : allShowable (ofAttrs attrs) = true := by
  cases attrs with
  | nil => rfl
  | cons attr attrs => rw [ofAttrs, allShowable, showable_of_attr attr, showable_of_attrs attrs, Bool.and_self]

end

theorem showable_of_rules (rules : List Rule) : (ofRules rules).isShowable = true := by
  rw [ofRules, isShowable]
  induction rules with
  | nil => rfl
  | cons rule rules ih =>
      rw [List.map_cons, allShowable, ih, ofRule, isShowable, isShowable, showable_of_attr, showable_of_attrs]
      rfl

theorem attr_glossable_iff (attr : Attr) : (ofAttr attr).IsGlossable ↔ attr.kind ≠ .isHow := by
  have tree : IsTree (ofAttr attr) := by
    rw [is_tree_iff, attr?_of_attr]
    rfl
  rcases attr with ⟨kind, value, children⟩
  rw [ofAttr] at tree ⊢
  rw [is_glossable_attr_iff, and_iff_right tree, Ne, Value.kind.injEq]

theorem attrs_glossable_iff (attrs : List Attr) :
    (∀ item ∈ ofAttrs attrs, item.IsGlossable) ↔ ∀ attr ∈ attrs, attr.kind ≠ .isHow := by
  induction attrs with
  | nil => exact iff_of_true nofun nofun
  | cons attr attrs ih =>
      rw [ofAttrs, List.forall_mem_cons, List.forall_mem_cons, attr_glossable_iff, ih]

theorem rule_glossable_iff (rule : Rule) :
    (ofRule rule).IsGlossable ↔ ∀ atom ∈ rule.head :: rule.body, atom.kind ≠ .isHow := by
  have claim : (ofAttr rule.head).isAttr = true := by
    rcases rule.head with ⟨kind, value, children⟩
    rfl
  rw [ofRule, is_glossable_rule_iff, and_iff_right claim, List.forall_mem_cons,
    attr_glossable_iff, ← attrs_glossable_iff]
  simp [listed?]

end Value

namespace Service

variable {stores : Stores} {request : Request} {given : GlossRequest} {value : Value}

theorem handle_gloss (method : request.method = "POST") (path : request.path = "/api/gloss")
    (body : request.body.bind GlossRequest.ofBody? = some given) :
    handle stores request = (gloss given, stores) := by
  have found : routes.filter (fun route => route.path == "/api/gloss") =
      [⟨"POST", "/api/gloss", .glossRules⟩] := by decide
  have chosen : [⟨"POST", "/api/gloss", .glossRules⟩].find?
      (fun route : Route => route.method == "POST") = some ⟨"POST", "/api/gloss", .glossRules⟩ := by
    decide
  rw [handle, path, found]
  simp only [method, chosen, perform, orRefused, body]

theorem showable_of_request (found : given.value? = some value) : value.isShowable = true := by
  rw [GlossRequest.value?] at found
  split at found <;> cases found
  · exact Value.showable_of_rules _
  · rw [Value.isShowable]
    exact Value.showable_of_attrs _

/-- What is given is refused if not all of it can be glossed. -/
theorem gloss_status_iff (found : given.value? = some value) :
    (gloss given).status = 400 ↔ ¬∀ item ∈ value.items, item.IsGlossable := by
  rw [gloss, found]
  by_cases glossable : ∀ item ∈ value.items, item.IsGlossable
  · obtain ⟨words, -, said⟩ := Value.gloss_of_glossable glossable
    simp only [said]
    exact iff_of_false (show (200 : Nat) ≠ 400 by decide) (· glossable)
  · rcases Value.gloss_of_not_glossable glossable with itself | ⟨-, hidden⟩
    · simp only [itself]
      exact iff_of_true rfl glossable
    · rw [showable_of_request found] at hidden
      cases hidden

end Service

/-- A value is glossed if all of its items can be, and is its own gloss otherwise, unless there is a
number in it that cannot be shown. No attribute that the service is given holds a number, so all that
it refuses to gloss is what says how on its own. -/
theorem glosses_exactly_what_is_glossable (value : Value) (stores : Stores)
    (request : Service.Request) (given : Service.GlossRequest) :
    ((∃ words, value.gloss = .ok (.words words)) ↔ ∀ item ∈ value.items, item.IsGlossable) ∧
    (¬(∀ item ∈ value.items, item.IsGlossable) → value.gloss = .ok (.itself value) ∨
      value.gloss = .error .unshowable ∧ value.isShowable = false) ∧
    (request.method = "POST" → request.path = "/api/gloss" →
      request.body.bind Service.GlossRequest.ofBody? = some given →
      (∀ rules, given.rules = some rules →
        ((Service.handle stores request).1.status = 400 ↔
          ∃ rule ∈ rules, ∃ atom ∈ rule.head :: rule.body, atom.kind = .isHow)) ∧
      ∀ attrs, given.rules = none → given.attrs = some attrs →
        ((Service.handle stores request).1.status = 400 ↔ ∃ attr ∈ attrs, attr.kind = .isHow)) := by
  refine ⟨Value.gloss_eq_words_iff, Value.gloss_of_not_glossable, ?_⟩
  intro method path body
  rw [Service.handle_gloss method path body]
  constructor
  · intro rules listed
    have found : given.value? = some (.ofRules rules) := by
      rw [Service.GlossRequest.value?, listed]
    have items : (Value.ofRules rules).items = rules.map Value.ofRule := rfl
    rw [Service.gloss_status_iff found, items]
    simp only [List.forall_mem_map, Value.rule_glossable_iff]
    push Not
    rfl
  · intro attrs none listed
    have found : given.value? = some (.list (Value.ofAttrs attrs)) := by
      rw [Service.GlossRequest.value?, none, listed]
    have items : (Value.list (Value.ofAttrs attrs)).items = Value.ofAttrs attrs := rfl
    rw [Service.gloss_status_iff found, items, Value.attrs_glossable_iff]
    push Not
    rfl

theorem nameless_not_glossed_and_how_refused :
    let bird : Value := .attr (.kind .isA) (.json .null) (.tuple [])
    let claim : Json := jsonAttr (.string "does") (.string "flies") []
    let condition : Json := jsonAttr (.string "is_how") (.string "slowly") []
    let request : Service.Request :=
      ⟨"POST", "/api/gloss", [], some (.object [("rules", .array [jsonRule claim [condition]])])⟩
    bird.gloss = .ok (.itself bird) ∧ (Service.handle {} request).1.status = 400 := by
  intro bird claim condition request
  obtain ⟨-, refuses, serves⟩ := glosses_exactly_what_is_glossable bird {} request
    ⟨some [⟨⟨.does, "flies", []⟩, [⟨.isHow, "slowly", []⟩]⟩], none⟩
  have stray : ¬∀ item ∈ bird.items, item.IsGlossable := fun glossable => by
    have tree := Value.is_glossable_attr_iff.mp (glossable bird List.mem_cons_self)
    cases (Value.is_tree_attr_iff.mp tree.1).2.1
  have shown : bird.isShowable = true := by decide
  constructor
  · rcases refuses stray with itself | ⟨-, hidden⟩
    · exact itself
    · rw [shown] at hidden
      cases hidden
  · obtain ⟨rules, -⟩ := serves rfl rfl rfl
    exact (rules _ rfl).mpr ⟨_, List.mem_cons_self, ⟨.isHow, "slowly", []⟩, by simp, rfl⟩

/-- A number that is too long to be shown keeps its attribute from being its own gloss. -/
theorem long_number_breaks_gloss :
    let bird : Value := .attr (.kind .isA) (.json (.integer (Int.pow 10 5000))) (.tuple [])
    (¬∀ item ∈ bird.items, item.IsGlossable) ∧ bird.gloss = .error .unshowable := by
  intro bird
  have long : Text.hasFewDigits (Int.pow 10 5000) = false := Text.few_digits_pow (by decide)
  have hidden : bird.isShowable = false := by
    simp only [bird, Value.isShowable, Json.isShowable, long, Bool.and_false, Bool.false_and]
  have refused : bird.refusal = .unshowable := by
    rw [Value.refusal, hidden]
    rfl
  have glossed : bird.gloss = .error .unshowable := by
    have words : Value.words bird = .error bird.refusal := rfl
    have alone : bird.items = [bird] := rfl
    rw [Value.gloss, alone, Value.attempts, words, refused]
    rfl
  refine ⟨fun glossable => ?_, glossed⟩
  obtain ⟨words, said⟩ := Value.gloss_eq_words_iff.mpr glossable
  rw [glossed] at said
  cases said

end ControlledEnglish
