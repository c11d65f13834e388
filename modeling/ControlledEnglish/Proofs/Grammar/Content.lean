import ControlledEnglish.Proofs.Canonical.Clean

namespace ControlledEnglish

namespace Attr

mutual

def size : Attr → Nat
  | ⟨_, _, children⟩ => sizes children + 1

def sizes : List Attr → Nat
  | [] => 0
  | attr :: attrs => size attr + sizes attrs

end

/-- Every value is a word of the lexicon. -/
inductive IsWorded (lexicon : Lexicon) : Attr → Prop where
  | mk {kind : Kind} {w : String} {category : Category} {children : List Attr}
      (listed : lexicon.lookup w category = true)
      (inside : ∀ child ∈ children, IsWorded lexicon child) : IsWorded lexicon ⟨kind, w, children⟩

variable {as bs : List Attr} {attr : Attr}

@[simp] theorem sizes_nil : sizes [] = 0 := rfl

@[simp] theorem sizes_cons : sizes (attr :: as) = attr.size + sizes as := rfl

@[simp] theorem sizes_append : sizes (as ++ bs) = sizes as + sizes bs := by
  induction as with
  | nil => exact (Nat.zero_add _).symm
  | cons a as ih => rw [List.cons_append, sizes_cons, sizes_cons, ih, Nat.add_assoc]

theorem size_eq (attr : Attr) : attr.size = sizes attr.children + 1 := by
  cases attr
  rfl

theorem size_pos (attr : Attr) : 0 < attr.size := by
  rw [size_eq]
  exact Nat.succ_pos _

theorem eq_nil_of_sizes (none : sizes as = 0) : as = [] := by
  cases as with
  | nil => rfl
  | cons a as =>
      rw [sizes_cons] at none
      have some := a.size_pos
      omega

theorem append_inj_of_sizes {cs ds : List Attr} (same : as ++ bs = cs ++ ds)
    (equal : sizes as = sizes cs) : as = cs ∧ bs = ds := by
  rcases List.append_eq_append_iff.mp same with ⟨between, rfl, rfl⟩ | ⟨between, rfl, rfl⟩
  · have none := @eq_nil_of_sizes between (by rw [sizes_append] at equal; omega)
    subst none
    exact ⟨(List.append_nil _).symm, rfl⟩
  · have none := @eq_nil_of_sizes between (by rw [sizes_append] at equal; omega)
    subst none
    exact ⟨List.append_nil _, rfl⟩

@[simp] theorem size_to_has_a (attr : Attr) : attr.toHasA.size = attr.size := by
  rw [Attr.toHasA]
  split
  · rw [size_eq, size_eq]
  · rfl

@[simp] theorem sizes_to_has_a (as : List Attr) : sizes (ControlledEnglish.toHasA as) = sizes as := by
  induction as with
  | nil => rfl
  | cons a as ih =>
      rw [ControlledEnglish.toHasA, List.map_cons, sizes_cons, sizes_cons, size_to_has_a]
      exact congrArg _ ih

theorem sizes_attach {bases : List Attr} (one : ∃ base, bases = [base]) (attrs : List Attr) :
    sizes (attach bases attrs) = sizes bases + sizes attrs := by
  rcases one with ⟨base, rfl⟩
  rw [attach, List.map_singleton, sizes_cons, sizes_cons, sizes_nil, size_eq, size_eq base,
    sizes_append]
  omega

theorem sizes_nest_adverbs (inner as : List Attr) :
    sizes (nestAdverbs inner as) = sizes inner + sizes as := by
  induction as generalizing inner with
  | nil => rfl
  | cons a as ih =>
      rw [nestAdverbs, ih, sizes_cons, sizes_cons, sizes_nil, size_eq, size_eq a, sizes_append]
      omega

theorem sizes_fold_adverbs (as : List Attr) : sizes (foldAdverbs as) = sizes as := by
  rw [foldAdverbs, sizes_nest_adverbs, sizes_nil, Nat.zero_add]

end Attr

def Word.isContent : Word → Bool
  | plain text => text ∉ keywords
  | literal _ => true

theorem not_content_of_keyword {w : String} (known : w ∈ keywords) :
    (Word.plain w).isContent = false := by
  simp [Word.isContent, known]

variable {lexicon : Lexicon} {production : Production} {ws : List Word} {as : List Attr}

theorem Reads.is_content (avoids : lexicon.AvoidsKeywords) {category : Category} {w : Word} {text : String}
    (reads : Reads lexicon category w text) : w.isContent = true := by
  cases w with
  | literal => rfl
  | plain w =>
      have unknown : w ∉ keywords := fun known => avoids.not_reads_keyword known reads
      simp [Word.isContent, unknown]

theorem exists_attach {bases : List Attr} (one : ∃ base, bases = [base]) (attrs : List Attr) :
    ∃ base, attach bases attrs = [base] := by
  rcases one with ⟨base, rfl⟩
  exact ⟨_, rfl⟩

theorem Derives.word_attrs {category : Category}
    (h : Derives lexicon (Phrase.word category) ws as) : ∃ attr, as = [attr] := by
  cases h with
  | word reads => exact ⟨_, rfl⟩

theorem Derives.noun_phrase_attrs (h : Derives lexicon Phrase.nounPhrase ws as) :
    as = [] ∨ ∃ attr, as = [attr] := by
  cases h with
  | it => exact .inl rfl
  | noun determiner adjectives noun => exact .inr (exists_attach noun.word_attrs _)
  | nounClause determiner adjectives noun clause =>
      exact .inr (exists_attach (exists_attach noun.word_attrs _) _)

theorem Derives.determiner_attrs (h : Derives lexicon Phrase.determiner ws as) :
    as = [] ∧ ws.countP Word.isContent = 0 := by
  cases h with
  | noDeterminer => exact ⟨rfl, rfl⟩
  | determiner listed =>
      have known : determiners ⊆ keywords := by decide
      refine ⟨rfl, ?_⟩
      rw [List.countP_singleton, not_content_of_keyword (known listed)]
      rfl

/-- The content words are as many as the attributes. -/
theorem Derives.content_eq (avoids : lexicon.AvoidsKeywords) (h : Derives lexicon production ws as) :
    ws.countP Word.isContent = Attr.sizes as := by
  have after {w : String} {options : List String} {ws : List Word} (listed : w ∈ options)
      (known : options ⊆ keywords) :
      (Word.plain w :: ws).countP Word.isContent = ws.countP Word.isContent := by
    rw [List.countP_cons, not_content_of_keyword (known listed)]
    rfl
  induction h with
  | word reads =>
      rw [List.countP_singleton, reads.is_content avoids]
      rfl
  | noDeterminer | noAdverbs | noAdjectives | noItems | it => rfl
  | determiner listed => exact (@Derives.determiner lexicon _ listed).determiner_attrs.2
  | adverb _ ih | someAdverbs _ ih | single _ ih | items _ ih => exact ih
  | adverbs _ _ first_ih rest_ih | adjectives _ _ first_ih rest_ih =>
      rw [List.countP_append, Attr.sizes_append, first_ih, rest_ih]
  | adverbGroup _ ih => rw [ih, Attr.sizes_fold_adverbs]
  | adjectivePhrase adverbs adjective adverbs_ih adjective_ih =>
      rw [List.countP_append, Attr.sizes_attach adjective.word_attrs, adverbs_ih, adjective_ih,
        Nat.add_comm]
  | relativeClause _ ih | itSentence _ ih =>
      rw [after (List.mem_singleton_self _) (by decide), ih]
  | noun determiner adjectives noun _ adjectives_ih noun_ih =>
      rw [List.countP_append, List.countP_append, Attr.sizes_attach noun.word_attrs,
        determiner.determiner_attrs.2, adjectives_ih, noun_ih]
      omega
  | nounClause determiner adjectives noun clause _ adjectives_ih noun_ih clause_ih =>
      rw [List.countP_append, List.countP_append, List.countP_append,
        Attr.sizes_attach (exists_attach noun.word_attrs _), Attr.sizes_attach noun.word_attrs,
        determiner.determiner_attrs.2, adjectives_ih, noun_ih, clause_ih]
      omega
  | possession verb _ ih => rw [after verb (by decide), ih, Attr.sizes_to_has_a]
  | likeness copula _ ih | identity copula _ ih => rw [after copula (by decide), ih]
  | action adverbs verb objects adverbs_ih verb_ih objects_ih =>
      rw [List.countP_append, List.countP_append, Attr.sizes_attach verb.word_attrs,
        Attr.sizes_append, adverbs_ih, verb_ih, objects_ih]
      omega
  | manner verb adverbs verb_ih adverbs_ih =>
      rw [List.countP_append, Attr.sizes_attach verb.word_attrs, verb_ih, adverbs_ih]
  | subject subject real predicate subject_ih predicate_ih =>
      have one := subject.noun_phrase_attrs.resolve_left real
      rw [List.countP_append, Attr.sizes_attach (by rcases one with ⟨noun, rfl⟩; exact ⟨_, rfl⟩),
        Attr.sizes_to_has_a, subject_ih, predicate_ih]
  | several _ _ first_ih rest_ih =>
      rw [List.countP_append, after (List.mem_singleton_self _) (by decide), Attr.sizes_append,
        first_ih, rest_ih]

section Worded

variable {bs : List Attr}

theorem worded_attach (bases : ∀ a ∈ as, a.IsWorded lexicon) (attrs : ∀ b ∈ bs, b.IsWorded lexicon) :
    ∀ a ∈ attach as bs, a.IsWorded lexicon := by
  intro a member
  rcases List.mem_map.mp member with ⟨base, inside, rfl⟩
  cases bases base inside with
  | mk listed children => exact .mk listed (List.forall_mem_append.mpr ⟨children, attrs⟩)

theorem worded_to_has_a (nouns : ∀ a ∈ as, a.IsWorded lexicon) :
    ∀ a ∈ toHasA as, a.IsWorded lexicon := by
  intro a member
  rcases List.mem_map.mp member with ⟨noun, inside, rfl⟩
  rw [Attr.toHasA]
  cases nouns noun inside with
  | mk listed children =>
      split
      · exact .mk listed children
      · exact .mk listed children

theorem worded_nest_adverbs (inner : ∀ b ∈ bs, b.IsWorded lexicon)
    (adverbs : ∀ a ∈ as, a.IsWorded lexicon) : ∀ a ∈ nestAdverbs bs as, a.IsWorded lexicon := by
  induction as generalizing bs with
  | nil => exact inner
  | cons first rest ih =>
      rcases List.forall_mem_cons.mp adverbs with ⟨first_worded, rest_worded⟩
      apply ih _ rest_worded
      rw [List.forall_mem_singleton]
      cases first_worded with
      | mk listed children => exact .mk listed (List.forall_mem_append.mpr ⟨children, inner⟩)

theorem Derives.worded (h : Derives lexicon production ws as)
    (known : ∀ w ∈ ws, ∃ text, w = .plain text ∧ IsBare text) :
    ∀ a ∈ as, a.IsWorded lexicon := by
  induction h with
  | word reads =>
      rcases known _ (List.mem_singleton_self _) with ⟨text, rfl, bare⟩
      rcases reads.of_bare bare with ⟨rfl, listed⟩
      exact List.forall_mem_singleton.mpr (.mk listed (List.forall_mem_nil _))
  | noDeterminer | determiner | noAdverbs | noAdjectives | noItems | it => exact List.forall_mem_nil _
  | adverb _ ih | someAdverbs _ ih | single _ ih | items _ ih => exact ih known
  | adverbs _ _ first_ih rest_ih | adjectives _ _ first_ih rest_ih =>
      rw [List.forall_mem_append] at known ⊢
      exact ⟨first_ih known.1, rest_ih known.2⟩
  | adverbGroup _ ih => exact worded_nest_adverbs (List.forall_mem_nil _) (ih known)
  | adjectivePhrase _ _ adverbs_ih adjective_ih =>
      rw [List.forall_mem_append] at known
      exact worded_attach (adjective_ih known.2) (adverbs_ih known.1)
  | relativeClause _ ih | itSentence _ ih | likeness _ _ ih | identity _ _ ih =>
      exact ih (List.forall_mem_cons.mp known).2
  | noun _ _ _ _ adjectives_ih noun_ih =>
      rw [List.forall_mem_append, List.forall_mem_append] at known
      exact worded_attach (noun_ih known.2) (adjectives_ih known.1.2)
  | nounClause _ _ _ _ _ adjectives_ih noun_ih clause_ih =>
      rw [List.forall_mem_append, List.forall_mem_append, List.forall_mem_append] at known
      exact worded_attach (worded_attach (noun_ih known.1.2) (adjectives_ih known.1.1.2))
        (clause_ih known.2)
  | possession _ _ ih => exact worded_to_has_a (ih (List.forall_mem_cons.mp known).2)
  | action _ _ _ adverbs_ih verb_ih objects_ih =>
      rw [List.forall_mem_append, List.forall_mem_append] at known
      apply worded_attach (verb_ih known.1.2)
      exact List.forall_mem_append.mpr ⟨adverbs_ih known.1.1, objects_ih known.2⟩
  | manner _ _ verb_ih adverbs_ih =>
      rw [List.forall_mem_append] at known
      exact worded_attach (verb_ih known.1) (adverbs_ih known.2)
  | subject _ _ _ subject_ih predicate_ih =>
      rw [List.forall_mem_append] at known
      exact worded_attach (worded_to_has_a (subject_ih known.1)) (predicate_ih known.2)
  | several _ _ first_ih rest_ih =>
      rw [List.forall_mem_append, List.forall_mem_cons] at known
      rw [List.forall_mem_append]
      exact ⟨first_ih known.1, rest_ih known.2.2⟩

end Worded

theorem Derives.adverb_run_bare (h : Derives lexicon Phrase.adverbRun ws as) :
    ∀ a ∈ as, a.children = [] := by
  have one {ws as} (h : Derives lexicon (Phrase.word .adverb) ws as) : ∀ a ∈ as, a.children = [] := by
    rcases h.exists_eq_singleton with ⟨w, text, -, -, rfl⟩
    exact List.forall_mem_singleton.mpr rfl
  generalize same : Production.one .adverbRun = production at h
  induction h with
  | adverb adverb => exact one adverb
  | adverbs first rest first_ih rest_ih => exact List.forall_mem_append.mpr ⟨one first, rest_ih rfl⟩
  | _ => cases same

def Phrase.kinds : Phrase → List Kind
  | .word category => [category.kind]
  | .determiner => []
  | .adverbRun | .adverbGroup | .adverbsOpt => [.isHow]
  | .adjectivePhrase | .adjectivePhrases => [.isLike]
  | .nounPhrase => [.isA]
  | .relativeClause | .verbPhrase | .sentence => [.isA, .hasA, .isLike, .does]

theorem kind_mem_attach {kinds : List Kind} (bases : ∀ a ∈ as, a.kind ∈ kinds) (attrs : List Attr) :
    ∀ a ∈ attach as attrs, a.kind ∈ kinds := by
  intro a member
  rcases List.mem_map.mp member with ⟨base, inside, rfl⟩
  exact bases base inside

theorem kind_attach {kind : Kind} (bases : ∀ a ∈ as, a.kind = kind) (attrs : List Attr) :
    ∀ a ∈ attach as attrs, a.kind = kind := by
  intro a member
  rcases List.mem_map.mp member with ⟨base, inside, rfl⟩
  exact bases base inside

theorem kind_nest_adverbs {inner : List Attr} (given : ∀ a ∈ inner, a.kind = .isHow)
    (adverbs : ∀ a ∈ as, a.kind = .isHow) : ∀ a ∈ nestAdverbs inner as, a.kind = .isHow := by
  induction as generalizing inner with
  | nil => exact given
  | cons first rest ih =>
      rcases List.forall_mem_cons.mp adverbs with ⟨first_how, rest_how⟩
      exact ih (List.forall_mem_singleton.mpr first_how) rest_how

theorem kind_to_has_a (nouns : ∀ a ∈ as, a.kind = .isA) : ∀ a ∈ toHasA as, a.kind = .hasA := by
  intro a member
  rcases List.mem_map.mp member with ⟨noun, inside, rfl⟩
  rw [Attr.toHasA, nouns noun inside]

theorem Derives.kind_mem (h : Derives lexicon production ws as) :
    ∀ a ∈ as, a.kind ∈ production.item.kinds := by
  have among {kinds : List Kind} {kind : Kind} (listed : kind ∈ kinds) {as : List Attr}
      (all : ∀ a ∈ as, a.kind ∈ [kind]) : ∀ a ∈ as, a.kind ∈ kinds := by
    intro a member
    rw [List.mem_singleton.mp (all a member)]
    exact listed
  induction h with
  | word => exact List.forall_mem_singleton.mpr (List.mem_singleton_self _)
  | noDeterminer | determiner | noAdverbs | noAdjectives | noItems | it => exact List.forall_mem_nil _
  | adverb _ ih | someAdverbs _ ih | single _ ih | items _ ih | relativeClause _ ih
  | itSentence _ ih => exact ih
  | adverbs _ _ first_ih rest_ih | adjectives _ _ first_ih rest_ih
  | several _ _ first_ih rest_ih => exact List.forall_mem_append.mpr ⟨first_ih, rest_ih⟩
  | adverbGroup _ ih =>
      intro a member
      have hows := kind_nest_adverbs (List.forall_mem_nil _) fun a inside =>
        List.mem_singleton.mp (ih a inside)
      exact List.mem_singleton.mpr (hows a member)
  | adjectivePhrase _ _ _ adjective_ih => exact kind_mem_attach adjective_ih _
  | noun _ _ _ _ _ noun_ih => exact kind_mem_attach noun_ih _
  | nounClause _ _ _ _ _ _ noun_ih => exact kind_mem_attach (kind_mem_attach noun_ih _) _
  | possession _ _ ih =>
      intro a member
      rw [kind_to_has_a (fun a inside => List.mem_singleton.mp (ih a inside)) a member]
      decide
  | likeness _ _ ih | identity _ _ ih => exact among (by decide) ih
  | action _ _ _ _ verb_ih | manner _ _ verb_ih =>
      exact kind_mem_attach (among (by decide) verb_ih) _
  | subject _ _ _ subject_ih =>
      apply kind_mem_attach
      intro a member
      rw [kind_to_has_a (fun a inside => List.mem_singleton.mp (subject_ih a inside)) a member]
      decide

theorem Derives.kind_eq {kind : Kind} (h : Derives lexicon production ws as)
    (only : production.item.kinds = [kind]) : ∀ a ∈ as, a.kind = kind := by
  intro a member
  have listed := h.kind_mem a member
  rw [only] at listed
  exact List.mem_singleton.mp listed

end ControlledEnglish
