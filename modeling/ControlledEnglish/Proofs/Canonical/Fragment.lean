import ControlledEnglish.Proofs.Canonical.Ambiguous
import ControlledEnglish.Proofs.Canonical.Glossed

/-! Rules in canonical form, and how many readings their glosses have.

In canonical form every attribute stands where its gloss would put it, a clause has one object, and
of several objects of a sentence only the last has a clause. Such a gloss is read as its rule, and
as nothing else unless a condition that is not the last can end before its last object. -/

namespace ControlledEnglish

inductive IsAdverb (lexicon : Lexicon) : Attr → Prop where
  | word {w : String} (listed : lexicon.lookup w .adverb = true) :
      IsAdverb lexicon ⟨.isHow, w, []⟩
  | modified {w : String} {adverb : Attr} (listed : lexicon.lookup w .adverb = true)
      (inner : IsAdverb lexicon adverb) : IsAdverb lexicon ⟨.isHow, w, [adverb]⟩

inductive IsAdjective (lexicon : Lexicon) : Attr → Prop where
  | word {w : String} (listed : lexicon.lookup w .adjective = true) :
      IsAdjective lexicon ⟨.isLike, w, []⟩
  | modified {w : String} {adverb : Attr} (listed : lexicon.lookup w .adjective = true)
      (inner : IsAdverb lexicon adverb) : IsAdjective lexicon ⟨.isLike, w, [adverb]⟩

mutual

inductive IsNoun (lexicon : Lexicon) : Attr → Prop where
  | mk {w : String} {adjectives clause : List Attr} (listed : lexicon.lookup w .noun = true)
      (like : ∀ a ∈ adjectives, IsAdjective lexicon a) (behind : IsClause lexicon clause) :
      IsNoun lexicon ⟨.isA, w, adjectives ++ clause⟩

/-- What may follow the adjectives of a noun. -/
inductive IsClause (lexicon : Lexicon) : List Attr → Prop where
  | none : IsClause lexicon []
  | acts {w : String} {adverbs : List Attr} (listed : lexicon.lookup w .verb = true)
      (how : ∀ a ∈ adverbs, IsAdverb lexicon a) : IsClause lexicon [⟨.does, w, adverbs⟩]
  | actsOn {w : String} {adverbs : List Attr} {object : Attr}
      (listed : lexicon.lookup w .verb = true) (how : ∀ a ∈ adverbs, IsAdverb lexicon a)
      (noun : IsNoun lexicon object) : IsClause lexicon [⟨.does, w, adverbs ++ [object]⟩]
  | has {w : String} {adjectives clause : List Attr} (listed : lexicon.lookup w .noun = true)
      (like : ∀ a ∈ adjectives, IsAdjective lexicon a) (few : adjectives.length ≤ 1)
      (behind : IsClause lexicon clause) : IsClause lexicon [⟨.hasA, w, adjectives ++ clause⟩]
  | is {object : Attr} (noun : IsNoun lexicon object) : IsClause lexicon [object]

end

/-- Attributes that can stand on their own. -/
inductive IsStatement (lexicon : Lexicon) : Attr → Prop where
  | acts {w : String} {adverbs : List Attr} (listed : lexicon.lookup w .verb = true)
      (how : ∀ a ∈ adverbs, IsAdverb lexicon a) : IsStatement lexicon ⟨.does, w, adverbs⟩
  | actsOn {w : String} {adverbs objects : List Attr} {last : Attr}
      (listed : lexicon.lookup w .verb = true) (how : ∀ a ∈ adverbs, IsAdverb lexicon a)
      (nouns : ∀ a ∈ objects, IsNoun lexicon a)
      (bare : ∀ a ∈ objects, ∀ child ∈ a.children, IsAdjective lexicon child)
      (noun : IsNoun lexicon last) :
      IsStatement lexicon ⟨.does, w, adverbs ++ (objects ++ [last])⟩
  | has {w : String} {adjectives clause : List Attr} (listed : lexicon.lookup w .noun = true)
      (like : ∀ a ∈ adjectives, IsAdjective lexicon a) (behind : IsClause lexicon clause) :
      IsStatement lexicon ⟨.hasA, w, adjectives ++ clause⟩
  | is {w : String} {adjectives clause : List Attr} (listed : lexicon.lookup w .noun = true)
      (like : ∀ a ∈ adjectives, IsAdjective lexicon a) (behind : IsClause lexicon clause)
      (other : ∀ object, IsNoun lexicon object → clause ≠ [object]) :
      IsStatement lexicon ⟨.isA, w, adjectives ++ clause⟩
  | like {a : Attr} (adjective : IsAdjective lexicon a) : IsStatement lexicon a

structure Rule.IsCanonical (lexicon : Lexicon) (rule : Rule) : Prop where
  head : IsStatement lexicon rule.head
  body : ∀ condition ∈ rule.body, IsStatement lexicon condition

namespace Attr

def nouns (attr : Attr) : List Attr := attr.children.filter fun child => child.kind = .isA

def Opens (noun : Attr) : Prop :=
  ∃ child ∈ noun.children, child.kind = .hasA ∨ child.kind = .isA ∨
    child.kind = .does ∧ child.nouns ≠ []

/-- Whether something is done to several objects, and the last of them has objects. -/
def IsLoose (attr : Attr) : Prop :=
  attr.kind = .does ∧ 2 ≤ attr.nouns.length ∧ ∃ last, attr.nouns.getLast? = some last ∧ last.Opens

end Attr

namespace Canonical

variable {lexicon : Lexicon}

theorem exists_adverbs {attr : Attr} (adverb : IsAdverb lexicon attr) :
    ∃ adverbs : List (Listed lexicon .adverb), adverbs ≠ [] ∧ adverbAttrs adverbs = [attr] := by
  induction adverb with
  | @word w listed => exact ⟨[⟨w, listed⟩], List.cons_ne_nil _ _, rfl⟩
  | @modified w adverb listed inner ih =>
      obtain ⟨adverbs, -, same⟩ := ih
      refine ⟨adverbs ++ [⟨w, listed⟩], by simp, ?_⟩
      rw [adverbAttrs, List.map_append, List.map_singleton, fold_adverbs_concat]
      rw [adverbAttrs] at same
      rw [same]
      rfl

theorem exists_manners {attrs : List Attr} (how : ∀ a ∈ attrs, IsAdverb lexicon a) :
    ∃ manners : List (Manner lexicon), mannerAttrs manners = attrs := by
  induction attrs with
  | nil => exact ⟨[], rfl⟩
  | cons first rest ih =>
      obtain ⟨first_how, rest_how⟩ := List.forall_mem_cons.mp how
      obtain ⟨adverbs, some, same⟩ := exists_adverbs first_how
      obtain ⟨manners, rest_same⟩ := ih rest_how
      exact ⟨⟨adverbs, some⟩ :: manners, by
        rw [mannerAttrs, List.flatMap_cons, same, ← rest_same]; rfl⟩

theorem exists_quality {attr : Attr} (adjective : IsAdjective lexicon attr) :
    ∃ quality : Quality lexicon, quality.attr = attr := by
  cases adjective with
  | @word w listed => exact ⟨⟨[], ⟨w, listed⟩⟩, rfl⟩
  | @modified w adverb listed inner =>
      obtain ⟨adverbs, -, same⟩ := exists_adverbs inner
      exact ⟨⟨adverbs, ⟨w, listed⟩⟩, by rw [Quality.attr, same]; rfl⟩

theorem exists_qualities {attrs : List Attr} (like : ∀ a ∈ attrs, IsAdjective lexicon a) :
    ∃ qualities : List (Quality lexicon), qualities.map Quality.attr = attrs := by
  induction attrs with
  | nil => exact ⟨[], rfl⟩
  | cons first rest ih =>
      obtain ⟨first_like, rest_like⟩ := List.forall_mem_cons.mp like
      obtain ⟨quality, same⟩ := exists_quality first_like
      obtain ⟨qualities, rest_same⟩ := ih rest_like
      exact ⟨quality :: qualities, by rw [List.map_cons, same, rest_same]⟩

theorem exists_name {w : String} {attrs : List Attr} (listed : lexicon.lookup w .noun = true)
    (like : ∀ a ∈ attrs, IsAdjective lexicon a) :
    ∃ name : Name lexicon, name.qualities.length = attrs.length ∧
      ∀ clause, name.attr clause = ⟨.isA, w, attrs ++ clause⟩ := by
  obtain ⟨qualities, same⟩ := exists_qualities like
  refine ⟨⟨qualities, ⟨w, listed⟩⟩, ?_, fun clause => ?_⟩
  · rw [← same, List.length_map]
  · rw [Name.attr, same]
    rfl

theorem exists_action {w : String} {adverbs : List Attr} (listed : lexicon.lookup w .verb = true)
    (how : ∀ a ∈ adverbs, IsAdverb lexicon a) :
    ∃ action : Action lexicon, ∀ objects, action.attr objects = ⟨.does, w, adverbs ++ objects⟩ := by
  obtain ⟨manners, same⟩ := exists_manners how
  exact ⟨⟨manners, ⟨w, listed⟩⟩, fun objects => by rw [Action.attr, same]; rfl⟩

theorem Group.IsChain.isSingle {group : Group lexicon} (chain : group.IsChain) :
    group.IsSingle := by
  cases group with
  | one | nested => trivial
  | more | nestedMore => exact chain

mutual

theorem exists_group {attr : Attr} (noun : IsNoun lexicon attr) :
    ∃ group : Group lexicon, group.IsChain ∧ group.IsGlossed ∧ group.attrs = [attr] := by
  match noun with
  | .mk listed like behind =>
      obtain ⟨name, -, same⟩ := exists_name listed like
      obtain ⟨group, chain, glossed, attrs, -⟩ := exists_clause behind name
      exact ⟨group, chain, glossed, by rw [attrs, same]⟩

theorem exists_clause {clause : List Attr} (behind : IsClause lexicon clause)
    (name : Name lexicon) :
    ∃ group : Group lexicon, group.IsChain ∧ group.IsGlossed ∧
      group.attrs = [name.attr clause] ∧ group.name = name := by
  match behind with
  | .none => exact ⟨.one (.bare name), trivial, trivial, rfl, rfl⟩
  | .acts listed how =>
      obtain ⟨action, same⟩ := exists_action listed how
      refine ⟨.one (.acting name action), trivial, trivial, ?_, rfl⟩
      rw [Group.attrs, Leaf.attr, same, List.append_nil]
  | .actsOn listed how noun =>
      obtain ⟨action, same⟩ := exists_action listed how
      obtain ⟨objects, chain, glossed, attrs⟩ := exists_group noun
      refine ⟨.nested name (.does action) objects, chain, ⟨trivial, glossed⟩, ?_, rfl⟩
      rw [Group.attrs, Head.attrs, same, attrs]
  | .has listed like few behind =>
      obtain ⟨had, length, same⟩ := exists_name listed like
      obtain ⟨objects, chain, glossed, attrs, first⟩ := exists_clause behind had
      refine ⟨.nested name .has objects, chain, ⟨⟨chain.isSingle, ?_⟩, glossed⟩, ?_, rfl⟩
      · rw [first, length]
        exact few
      · rw [Group.attrs, Head.attrs, attrs, same]
        rfl
  | .is noun =>
      obtain ⟨objects, chain, glossed, attrs⟩ := exists_group noun
      refine ⟨.nested name .is objects, chain, ⟨trivial, glossed⟩, ?_, rfl⟩
      rw [Group.attrs, Head.attrs, attrs]

end

theorem exists_row {objects : List Attr} {last : Attr} (nouns : ∀ a ∈ objects, IsNoun lexicon a)
    (bare : ∀ a ∈ objects, ∀ child ∈ a.children, IsAdjective lexicon child)
    (noun : IsNoun lexicon last) :
    ∃ group : Group lexicon, group.IsRow ∧ group.IsGlossed ∧ group.attrs = objects ++ [last] := by
  induction objects with
  | nil =>
      obtain ⟨group, chain, glossed, attrs⟩ := exists_group noun
      exact ⟨group, chain.isRow, glossed, attrs⟩
  | cons first rest ih =>
      obtain ⟨first_noun, rest_nouns⟩ := List.forall_mem_cons.mp nouns
      obtain ⟨first_bare, rest_bare⟩ := List.forall_mem_cons.mp bare
      obtain ⟨group, row, glossed, attrs⟩ := ih rest_nouns rest_bare
      cases first_noun with
      | mk listed =>
          obtain ⟨name, -, same⟩ := exists_name listed first_bare
          refine ⟨.more (.bare name) group, row, glossed, ?_⟩
          rw [Group.attrs, Leaf.attr, same, attrs, List.append_nil]
          rfl

theorem exists_predicate {attr : Attr} (statement : IsStatement lexicon attr) :
    ∃ predicate : Predicate lexicon, predicate.IsRow ∧ predicate.IsGlossed ∧
      predicate.attrs = [attr] := by
  cases statement with
  | acts listed how =>
      obtain ⟨action, same⟩ := exists_action listed how
      refine ⟨.acting action, trivial, trivial, ?_⟩
      rw [Predicate.attrs, same, List.append_nil]
  | actsOn listed how nouns bare noun =>
      obtain ⟨action, same⟩ := exists_action listed how
      obtain ⟨group, row, glossed, attrs⟩ := exists_row nouns bare noun
      refine ⟨.nested (.does action) group, row, glossed, ?_⟩
      rw [Predicate.attrs, Head.attrs, same, attrs]
  | has listed like behind =>
      obtain ⟨name, -, same⟩ := exists_name listed like
      obtain ⟨group, chain, glossed, attrs, -⟩ := exists_clause behind name
      refine ⟨.nested .has group, chain, ⟨chain.isSingle, glossed⟩, ?_⟩
      rw [Predicate.attrs, Head.attrs, attrs, same]
      rfl
  | is listed like behind other =>
      obtain ⟨name, -, same⟩ := exists_name listed like
      obtain ⟨group, chain, glossed, attrs, first⟩ := exists_clause behind name
      refine ⟨.nested .is group, chain, ⟨chain.isSingle, fun identity => ?_, glossed⟩, ?_⟩
      · cases group with
        | one | more => exact identity
        | nestedMore => exact chain
        | nested own head objects =>
            cases head with
            | does | has => exact identity
            | is =>
                obtain rfl : own = name := first
                have objects_eq : objects.attrs = _ :=
                  List.append_cancel_left (Attr.mk.inj (List.cons.inj attrs).1).2.2
                have kinds := objects.attrs_kind
                rw [objects_eq] at kinds
                cases behind with
                | none => exact objects.attrs_ne_nil objects_eq
                | acts => cases kinds _ (List.mem_singleton_self _)
                | actsOn => cases kinds _ (List.mem_singleton_self _)
                | has => cases kinds _ (List.mem_singleton_self _)
                | is noun => exact other _ noun rfl
      · rw [Predicate.attrs, Head.attrs, attrs, same]
  | like adjective =>
      obtain ⟨quality, same⟩ := exists_quality adjective
      exact ⟨.like quality, trivial, trivial, by rw [Predicate.attrs, same]⟩

theorem exists_predicates {attrs : List Attr} (statements : ∀ a ∈ attrs, IsStatement lexicon a) :
    ∃ predicates : List (Predicate lexicon), (∀ predicate ∈ predicates, predicate.IsRow) ∧
      (∀ predicate ∈ predicates, predicate.IsGlossed) ∧
      predicates.map Predicate.attrs = attrs.map fun attr => [attr] := by
  induction attrs with
  | nil => exact ⟨[], List.forall_mem_nil _, List.forall_mem_nil _, rfl⟩
  | cons first rest ih =>
      obtain ⟨first_statement, rest_statements⟩ := List.forall_mem_cons.mp statements
      obtain ⟨predicate, row, glossed, same⟩ := exists_predicate first_statement
      obtain ⟨predicates, rows, all_glossed, rest_same⟩ := ih rest_statements
      exact ⟨predicate :: predicates, List.forall_mem_cons.mpr ⟨row, rows⟩,
        List.forall_mem_cons.mpr ⟨glossed, all_glossed⟩,
        by rw [List.map_cons, List.map_cons, same, rest_same]⟩

theorem Action.nouns_attr (action : Action lexicon) {objects : List Attr}
    (nouns : ∀ a ∈ objects, a.kind = .isA) : (action.attr objects).nouns = objects := by
  have manners : (mannerAttrs action.manners).filter (fun child => child.kind = .isA) = [] := by
    rw [List.filter_eq_nil_iff]
    intro a member
    simp [manners_kind _ a member]
  have all : objects.filter (fun child => child.kind = .isA) = objects :=
    List.filter_eq_self.mpr fun a member => by simp [nouns a member]
  rw [Attr.nouns, Action.attr, Listed.attr, List.filter_append, manners, all, List.nil_append]

theorem Name.opens_attr (name : Name lexicon) (clause : List Attr) :
    (name.attr clause).Opens ↔ ∃ child ∈ clause, child.kind = .hasA ∨ child.kind = .isA ∨
      child.kind = .does ∧ child.nouns ≠ [] := by
  constructor
  · rintro ⟨child, member, objects⟩
    rcases List.mem_append.mp member with adjective | member
    · rw [qualities_kind _ child adjective] at objects
      simp at objects
    · exact ⟨child, member, objects⟩
  · rintro ⟨child, member, objects⟩
    exact ⟨child, List.mem_append_right _ member, objects⟩

theorem Leaf.not_opens (leaf : Leaf lexicon) : ¬leaf.attr.Opens := by
  rw [leaf.attr_eq, Name.opens_attr]
  rintro ⟨child, member, objects⟩
  cases leaf with
  | bare => cases member
  | acting name action =>
      obtain rfl := List.mem_singleton.mp member
      rw [action.nouns_attr (List.forall_mem_nil _)] at objects
      simp [Action.attr, Listed.attr, Category.kind] at objects

theorem Group.opens_nested (name : Name lexicon) (head : Head lexicon) (objects : Group lexicon) :
    (name.attr (head.attrs objects.attrs)).Opens := by
  rw [Name.opens_attr]
  obtain ⟨first, rest, attrs⟩ := List.exists_cons_of_ne_nil objects.attrs_ne_nil
  have kind := objects.attrs_kind first (by simp [attrs])
  cases head with
  | does action =>
      refine ⟨_, List.mem_singleton_self _, .inr (.inr ⟨rfl, ?_⟩)⟩
      rw [action.nouns_attr objects.attrs_kind]
      exact objects.attrs_ne_nil
  | has =>
      refine ⟨first.toHasA, List.mem_map_of_mem (by simp [attrs]), .inl ?_⟩
      rw [Attr.toHasA, kind]
  | is => exact ⟨first, by simp [Head.attrs, attrs], .inr (.inl kind)⟩

namespace Group

theorem IsRow.chain_iff {group : Group lexicon} (row : group.IsRow) :
    group.IsChain ↔ group.attrs.length ≤ 1 := by
  cases group with
  | one leaf => simp [IsChain, attrs]
  | nested name head objects => exact ⟨fun _ => Nat.le_refl 1, fun _ => row⟩
  | nestedMore => exact absurd row id
  | more leaf rest =>
      have some := List.length_pos_iff.mpr rest.attrs_ne_nil
      simp only [IsChain, attrs, List.length_cons, false_iff]
      omega

theorem IsRow.flat_iff {group : Group lexicon} (row : group.IsRow) {last : Attr}
    (ends : group.attrs.getLast? = some last) : group.IsFlat ↔ ¬last.Opens := by
  induction group with
  | one leaf =>
      obtain rfl : leaf.attr = last := Option.some.inj ends
      simp [IsFlat, leaf.not_opens]
  | nested name head objects =>
      obtain rfl : name.attr (head.attrs objects.attrs) = last := Option.some.inj ends
      simp [IsFlat, opens_nested]
  | nestedMore => exact absurd row id
  | more leaf rest ih =>
      cases leaf with
      | acting => exact absurd row id
      | bare name =>
          refine ih row ?_
          obtain ⟨next, others, same⟩ := List.exists_cons_of_ne_nil rest.attrs_ne_nil
          rw [attrs, same, List.getLast?_cons_cons] at ends
          rw [same, ends]

end Group

theorem Predicate.firm_iff {predicate : Predicate lexicon} (row : predicate.IsRow) {attr : Attr}
    (same : predicate.attrs = [attr]) : predicate.IsFirm ↔ ¬attr.IsLoose := by
  have other (kind : attr.kind ≠ .does) : ¬attr.IsLoose := fun loose => kind loose.1
  cases predicate with
  | like quality =>
      obtain rfl := (List.cons.inj same).1
      exact iff_of_true trivial (other (by rintro ⟨⟩))
  | acting action =>
      obtain rfl := (List.cons.inj same).1
      refine iff_of_true trivial fun loose => ?_
      have length := loose.2.1
      rw [action.nouns_attr (List.forall_mem_nil _)] at length
      cases length
  | nested head objects =>
      cases head with
      | does action =>
          obtain rfl := (List.cons.inj same).1
          have row : objects.IsRow := row
          obtain ⟨last, ends⟩ : ∃ last, objects.attrs.getLast? = some last :=
            ⟨_, List.getLast?_eq_some_getLast objects.attrs_ne_nil⟩
          rw [IsFirm, row.chain_iff, row.flat_iff ends, Attr.IsLoose,
            action.nouns_attr objects.attrs_kind, ends]
          constructor
          · intro firm loose
            obtain ⟨-, several, opener, found, opens⟩ := loose
            cases found
            rcases firm with single | shut
            · omega
            · exact shut opens
          · intro tight
            by_cases single : objects.attrs.length ≤ 1
            · exact .inl single
            · exact .inr fun opens => tight ⟨rfl, by omega, last, rfl, opens⟩
      | has =>
          obtain ⟨noun, alone, rfl⟩ := List.map_eq_singleton_iff.mp same
          have kind := objects.attrs_kind noun (by simp [alone])
          refine iff_of_true (.inl row) (other ?_)
          rw [Attr.toHasA, kind]
          rintro ⟨⟩
      | is =>
          have kind := objects.attrs_kind attr (by
            rw [show objects.attrs = [attr] from same]
            exact List.mem_singleton_self _)
          refine iff_of_true (.inl row) (other ?_)
          rw [kind]
          decide

end Canonical

open Canonical

/-- The gloss of a canonical rule has the rule for its only reading, unless another condition comes
after one in which something is done to several objects of which the last has objects. -/
theorem read_all_gloss_iff {lexicon : Lexicon} (clean : lexicon.IsClean) {rule : Rule}
    (canonical : rule.IsCanonical lexicon) :
    readAll (.text (Value.glossRules [rule])) lexicon = .ok [[rule]] ↔
      ∀ condition ∈ rule.body.dropLast, ¬condition.IsLoose := by
  obtain ⟨conclusion, row, conclusion_glossed, head⟩ := exists_predicate canonical.head
  obtain ⟨conditions, rows, conditions_glossed, body⟩ := exists_predicates canonical.body
  let sentence : Sentence lexicon := ⟨conditions, conclusion⟩
  have said : saidAttrs conditions = rule.body := by
    rw [saidAttrs, List.flatMap_def, body, ← List.flatMap_def, List.flatMap_singleton']
  have rules : sentence.rules = [rule] := by
    rw [Sentence.rules, head, said]
    rfl
  have glossed : sentence.IsGlossed := ⟨conditions_glossed, conclusion_glossed⟩
  obtain ⟨same, alone, gloss⟩ := Sentence.gloss_rules glossed
  rw [rules] at alone
  obtain rfl := (List.cons.inj alone).1
  have last : conditions.dropLast.map Predicate.attrs =
      rule.body.dropLast.map fun attr => [attr] := by
    rw [List.map_dropLast, body, List.map_dropLast]
  rw [Value.glossRules, gloss]
  dsimp only
  rw [sentence.read_all_text clean, Except.ok.injEq, ← rules,
    Utterance.readings_eq_singleton_iff clean rfl (by rw [head]; simp) rows row]
  constructor
  · intro firm condition member
    have listed : [condition] ∈ conditions.dropLast.map Predicate.attrs := by
      rw [last]
      exact List.mem_map_of_mem member
    obtain ⟨predicate, inside, attrs⟩ := List.mem_map.mp listed
    exact (Predicate.firm_iff (rows _ (List.dropLast_subset _ inside)) attrs).mp
      (firm predicate inside)
  · intro tight predicate inside
    have listed : predicate.attrs ∈ rule.body.dropLast.map fun attr => [attr] := by
      rw [← last]
      exact List.mem_map_of_mem inside
    obtain ⟨condition, member, attrs⟩ := List.mem_map.mp listed
    exact (Predicate.firm_iff (rows _ (List.dropLast_subset _ inside)) attrs.symm).mpr
      (tight condition member)

theorem marsh_statements :
    IsStatement Lexicon.marsh ⟨.does, "eats", []⟩ ∧
      IsStatement Lexicon.marsh ⟨.does, "eats", [⟨.isA, "frog", []⟩,
        ⟨.isA, "heron", [⟨.does, "eats", [⟨.isA, "frog", []⟩]⟩]⟩]⟩ := by
  have eats : Lexicon.marsh.lookup "eats" .verb = true := by simp
  have frog : IsNoun Lexicon.marsh ⟨.isA, "frog", []⟩ :=
    .mk (by simp) (List.forall_mem_nil _) .none
  have heron : IsNoun Lexicon.marsh ⟨.isA, "heron", [⟨.does, "eats", [⟨.isA, "frog", []⟩]⟩]⟩ :=
    .mk (by simp) (List.forall_mem_nil _) (.actsOn eats (List.forall_mem_nil _) frog)
  have first : ∀ a ∈ [(⟨.isA, "frog", []⟩ : Attr)], IsNoun Lexicon.marsh a :=
    List.forall_mem_singleton.mpr frog
  have both := IsStatement.actsOn eats (List.forall_mem_nil _) first
    (List.forall_mem_singleton.mpr (List.forall_mem_nil _)) heron
  exact ⟨.acts eats (List.forall_mem_nil _), both⟩

theorem read_all_gloss_clause_at_end :
    let heron : Attr := ⟨.isA, "heron", [⟨.does, "eats", [⟨.isA, "frog", []⟩]⟩]⟩
    let rule : Rule := ⟨⟨.does, "eats", []⟩, [⟨.does, "eats", [⟨.isA, "frog", []⟩, heron]⟩]⟩
    Lexicon.marsh.IsClean ∧ rule.IsCanonical Lexicon.marsh ∧
      readAll (.text (Value.glossRules [rule])) Lexicon.marsh = .ok [[rule]] := by
  intro heron rule
  obtain ⟨eats, eats_both⟩ := marsh_statements
  have canonical : rule.IsCanonical Lexicon.marsh := ⟨eats, List.forall_mem_singleton.mpr eats_both⟩
  exact ⟨Lexicon.marsh_clean, canonical,
    (read_all_gloss_iff Lexicon.marsh_clean canonical).mpr (List.forall_mem_nil _)⟩

/-- Before another condition it is ambiguous: a heron that eats frogs may be what eats then. -/
theorem read_all_gloss_ambiguous :
    let heron : Attr := ⟨.isA, "heron", [⟨.does, "eats", [⟨.isA, "frog", []⟩]⟩]⟩
    let rule : Rule := ⟨⟨.does, "eats", []⟩,
      [⟨.does, "eats", [⟨.isA, "frog", []⟩, heron]⟩, ⟨.does, "eats", []⟩]⟩
    Lexicon.marsh.IsClean ∧ rule.IsCanonical Lexicon.marsh ∧
      readAll (.text (Value.glossRules [rule])) Lexicon.marsh ≠ .ok [[rule]] := by
  intro heron rule
  obtain ⟨eats, eats_both⟩ := marsh_statements
  have canonical : rule.IsCanonical Lexicon.marsh :=
    ⟨eats, List.forall_mem_cons.mpr ⟨eats_both, List.forall_mem_singleton.mpr eats⟩⟩
  refine ⟨Lexicon.marsh_clean, canonical, ?_⟩
  let action : Action Lexicon.marsh := ⟨[], ⟨"eats", by simp⟩⟩
  let frog : Name Lexicon.marsh := ⟨[], ⟨"frog", by simp⟩⟩
  let objects : Group Lexicon.marsh :=
    .more (.bare frog) (.nested ⟨[], ⟨"heron", by simp⟩⟩ (.does action) (.one (.bare frog)))
  let sentence : Sentence Lexicon.marsh :=
    ⟨[.nested (.does action) objects, .acting action], .acting action⟩
  have glossed : sentence.IsGlossed := by
    refine ⟨List.forall_mem_cons.mpr ⟨?_, List.forall_mem_singleton.mpr trivial⟩, trivial⟩
    exact ⟨trivial, trivial⟩
  obtain ⟨same, alone, gloss⟩ := Sentence.gloss_rules glossed
  obtain rfl : rule = same := (List.cons.inj alone).1
  rw [Value.glossRules, gloss]
  dsimp only
  rw [sentence.read_all_text Lexicon.marsh_clean, ne_eq, Except.ok.injEq, ← alone]
  have rows : ∀ predicate ∈ sentence.conditions, predicate.IsRow :=
    List.forall_mem_cons.mpr ⟨trivial, List.forall_mem_singleton.mpr trivial⟩
  have row : sentence.conclusion.IsRow := trivial
  have some : sentence.conclusion.attrs ≠ [] := List.cons_ne_nil _ _
  rw [Utterance.readings_eq_singleton_iff Lexicon.marsh_clean rfl some rows row]
  intro firm
  rcases firm _ List.mem_cons_self with chain | flat
  · exact chain
  · exact flat

end ControlledEnglish
