import ControlledEnglish.Proofs.Grammar.Recursion

/-! The grammar as a relation: which words can be taken for which attributes.

Nothing is said of positions, of the order of alternatives, or of how the words are searched. A
search finds what the relation allows, and nothing else. -/

namespace ControlledEnglish

/-- A word stands for a text of the category: because the lexicon lists it, or as a literal. -/
inductive Reads (lexicon : Lexicon) (category : Category) : Word → String → Prop where
  | listed {text : String} (known : lexicon.lookup text category = true) :
      Reads lexicon category (.plain text) text
  | spelled {word text : String} (spells : Literal.ofSpelling? word = some ⟨category, text⟩) :
      Reads lexicon category (.plain word) text
  | literal (text : String) : Reads lexicon category (.literal ⟨category, text⟩) text

inductive Derives (lexicon : Lexicon) : Production → List Word → List Attr → Prop where
  | word {category : Category} {w : Word} {text : String} (reads : Reads lexicon category w text) :
      Derives lexicon (Phrase.word category) [w] [⟨category.kind, text, []⟩]
  | noDeterminer : Derives lexicon Phrase.determiner [] []
  | determiner {w : String} (listed : w ∈ determiners) :
      Derives lexicon Phrase.determiner [.plain w] []
  | adverb {ws as} (adverb : Derives lexicon (Phrase.word .adverb) ws as) :
      Derives lexicon Phrase.adverbRun ws as
  | adverbs {vs ws as bs} (first : Derives lexicon (Phrase.word .adverb) vs as)
      (rest : Derives lexicon Phrase.adverbRun ws bs) :
      Derives lexicon Phrase.adverbRun (vs ++ ws) (as ++ bs)
  | adverbGroup {ws as} (run : Derives lexicon Phrase.adverbRun ws as) :
      Derives lexicon Phrase.adverbGroup ws (foldAdverbs as)
  | noAdverbs : Derives lexicon Phrase.adverbsOpt [] []
  | someAdverbs {ws as} (group : Derives lexicon Phrase.adverbGroup ws as) :
      Derives lexicon Phrase.adverbsOpt ws as
  | adjectivePhrase {vs ws as bs} (adverbs : Derives lexicon Phrase.adverbsOpt vs as)
      (adjective : Derives lexicon (Phrase.word .adjective) ws bs) :
      Derives lexicon Phrase.adjectivePhrase (vs ++ ws) (attach bs as)
  | noAdjectives : Derives lexicon Phrase.adjectivePhrases [] []
  | adjectives {vs ws as bs} (first : Derives lexicon Phrase.adjectivePhrase vs as)
      (rest : Derives lexicon Phrase.adjectivePhrases ws bs) :
      Derives lexicon Phrase.adjectivePhrases (vs ++ ws) (as ++ bs)
  | relativeClause {ws as} (clause : Derives lexicon Phrase.verbPhrase ws as) :
      Derives lexicon Phrase.relativeClause (.plain "that" :: ws) as
  | it : Derives lexicon Phrase.nounPhrase [.plain "it"] []
  | noun {ds vs ws ns as bs} (determiner : Derives lexicon Phrase.determiner ds ns)
      (adjectives : Derives lexicon Phrase.adjectivePhrases vs as)
      (noun : Derives lexicon (Phrase.word .noun) ws bs) :
      Derives lexicon Phrase.nounPhrase (ds ++ vs ++ ws) (attach bs as)
  | nounClause {ds vs ws xs ns as bs cs} (determiner : Derives lexicon Phrase.determiner ds ns)
      (adjectives : Derives lexicon Phrase.adjectivePhrases vs as)
      (noun : Derives lexicon (Phrase.word .noun) ws bs)
      (clause : Derives lexicon Phrase.relativeClause xs cs) :
      Derives lexicon Phrase.nounPhrase (ds ++ vs ++ ws ++ xs) (attach (attach bs as) cs)
  | possession {w : String} {ws as} (verb : w ∈ possessionVerbs)
      (objects : Derives lexicon (.joined .nounPhrase) ws as) :
      Derives lexicon Phrase.verbPhrase (.plain w :: ws) (toHasA as)
  | likeness {w : String} {ws as} (copula : w ∈ copulas)
      (adjectives : Derives lexicon (.joined .adjectivePhrase) ws as) :
      Derives lexicon Phrase.verbPhrase (.plain w :: ws) as
  | identity {w : String} {ws as} (copula : w ∈ copulas)
      (nouns : Derives lexicon (.joined .nounPhrase) ws as) :
      Derives lexicon Phrase.verbPhrase (.plain w :: ws) as
  | action {hs vs ws as bs cs} (adverbs : Derives lexicon (.joinedOpt .adverbGroup) hs as)
      (verb : Derives lexicon (Phrase.word .verb) vs bs)
      (objects : Derives lexicon (.joinedOpt .nounPhrase) ws cs) :
      Derives lexicon Phrase.verbPhrase (hs ++ vs ++ ws) (attach bs (as ++ cs))
  | manner {vs ws as bs} (verb : Derives lexicon (Phrase.word .verb) vs bs)
      (adverbs : Derives lexicon (.joined .adverbGroup) ws as) :
      Derives lexicon Phrase.verbPhrase (vs ++ ws) (attach bs as)
  | itSentence {ws as} (predicate : Derives lexicon Phrase.verbPhrase ws as) :
      Derives lexicon Phrase.sentence (.plain "it" :: ws) as
  | subject {vs ws as bs} (subject : Derives lexicon Phrase.nounPhrase vs as) (real : as ≠ [])
      (predicate : Derives lexicon Phrase.verbPhrase ws bs) :
      Derives lexicon Phrase.sentence (vs ++ ws) (attach (toHasA as) bs)
  | single {item : Phrase} {ws as} (one : Derives lexicon item ws as) :
      Derives lexicon (.joined item) ws as
  | several {item : Phrase} {vs ws as bs} (first : Derives lexicon item vs as)
      (rest : Derives lexicon (.joined item) ws bs) :
      Derives lexicon (.joined item) (vs ++ .plain "and" :: ws) (as ++ bs)
  | noItems {item : Phrase} : Derives lexicon (.joinedOpt item) [] []
  | items {item : Phrase} {ws as} (joined : Derives lexicon (.joined item) ws as) :
      Derives lexicon (.joinedOpt item) ws as

theorem Derives.exists_eq_singleton {lexicon : Lexicon} {category : Category} {ws : List Word}
    {as : List Attr} (h : Derives lexicon (Phrase.word category) ws as) :
    ∃ w text, Reads lexicon category w text ∧ ws = [w] ∧ as = [⟨category.kind, text, []⟩] := by
  cases h with
  | word reads => exact ⟨_, _, reads, rfl, rfl⟩

theorem Derives.ne_nil {lexicon : Lexicon} {production : Production} {ws : List Word}
    {as : List Attr} (h : Derives lexicon production ws as)
    (advances : production.advances = true) : ws ≠ [] := by
  induction h with
  | word | determiner | relativeClause | it | possession | likeness | identity | itSentence
  | several => simp
  | noDeterminer | noAdverbs | someAdverbs | noAdjectives | adjectives | noItems | items =>
      cases advances
  | adverb adverb ih => exact ih rfl
  | adverbs first rest first_ih => exact List.append_ne_nil_of_left_ne_nil (first_ih rfl) _
  | adverbGroup run ih => exact ih rfl
  | adjectivePhrase adverbs adjective adverbs_ih adjective_ih =>
      exact List.append_ne_nil_of_right_ne_nil _ (adjective_ih rfl)
  | noun determiner adjectives noun determiner_ih adjectives_ih noun_ih =>
      exact List.append_ne_nil_of_right_ne_nil _ (noun_ih rfl)
  | nounClause determiner adjectives noun clause determiner_ih adjectives_ih noun_ih clause_ih =>
      exact List.append_ne_nil_of_right_ne_nil _ (clause_ih rfl)
  | action adverbs verb objects adverbs_ih verb_ih =>
      have verb_ne := verb_ih rfl
      simp [verb_ne]
  | manner verb adverbs verb_ih => exact List.append_ne_nil_of_left_ne_nil (verb_ih rfl) _
  | subject subject real predicate subject_ih =>
      exact List.append_ne_nil_of_left_ne_nil (subject_ih rfl) _
  | single one ih => exact ih advances

def Production.item : Production → Phrase
  | .one item | .joined item | .joinedOpt item => item

def Phrase.categories? : Phrase → Option (List Category)
  | .word category => some [category]
  | .adverbRun | .adverbGroup | .adverbsOpt => some [.adverb]
  | .adjectivePhrase | .adjectivePhrases => some [.adverb, .adjective]
  | .determiner | .relativeClause | .nounPhrase | .verbPhrase | .sentence => none

theorem Derives.reads {lexicon : Lexicon} {item : Phrase} {categories : List Category}
    {ws : List Word} {as : List Attr} (h : Derives lexicon item ws as)
    (plain : item.categories? = some categories) :
    ∀ w ∈ ws, ∃ category ∈ categories, ∃ text, Reads lexicon category w text := by
  generalize same : Production.one item = production at h
  induction h generalizing item categories with
  | word reads =>
      cases same
      cases plain
      simpa using ⟨_, reads⟩
  | noAdverbs | noAdjectives => simp
  | adverb adverb ih =>
      cases same
      cases plain
      exact ih rfl rfl
  | adverbs first rest first_ih rest_ih =>
      cases same
      cases plain
      rw [List.forall_mem_append]
      exact ⟨first_ih rfl rfl, rest_ih rfl rfl⟩
  | adverbGroup run ih =>
      cases same
      cases plain
      exact ih rfl rfl
  | someAdverbs group ih =>
      cases same
      cases plain
      exact ih rfl rfl
  | adjectivePhrase adverbs adjective adverbs_ih adjective_ih =>
      cases same
      cases plain
      rw [List.forall_mem_append]
      refine ⟨fun w member => ?_, fun w member => ?_⟩
      · obtain ⟨category, listed, reads⟩ := adverbs_ih rfl rfl w member
        exact ⟨category, by simp_all, reads⟩
      · obtain ⟨category, listed, reads⟩ := adjective_ih rfl rfl w member
        exact ⟨category, by simp_all, reads⟩
  | adjectives first rest first_ih rest_ih =>
      cases same
      cases plain
      rw [List.forall_mem_append]
      exact ⟨first_ih rfl rfl, rest_ih rfl rfl⟩
  | _ => first | (cases same; cases plain) | cases same

theorem Reads.ne_it {lexicon : Lexicon} {category : Category} {w : Word} {text : String}
    (unlisted : lexicon.knows "it" = false) (h : Reads lexicon category w text) :
    w ≠ .plain "it" := by
  rintro rfl
  cases h with
  | listed known =>
      rw [Lexicon.knows_eq_false_iff.mp unlisted category] at known
      cases known
  | spelled spells =>
      have unquoted : Literal.ofSpelling? "it" = none := by decide
      rw [unquoted] at spells
      cases spells

theorem Derives.ne_it_of_noun {lexicon : Lexicon} {ds vs ws : List Word} {ns as bs : List Attr}
    (unlisted : lexicon.knows "it" = false) (determiner : Derives lexicon Phrase.determiner ds ns)
    (adjectives : Derives lexicon Phrase.adjectivePhrases vs as)
    (noun : Derives lexicon (Phrase.word .noun) ws bs) : ∀ w ∈ ds ++ vs ++ ws, w ≠ .plain "it" := by
  simp only [List.forall_mem_append]
  refine ⟨⟨?_, fun w member => ?_⟩, fun w member => ?_⟩
  · cases determiner with
    | noDeterminer => simp
    | determiner listed =>
        rintro w member rfl
        cases List.mem_singleton.mp member
        exact absurd listed (by decide)
  · obtain ⟨category, -, text, reads⟩ := adjectives.reads rfl w member
    exact reads.ne_it unlisted
  · obtain ⟨category, -, text, reads⟩ := noun.reads rfl w member
    exact reads.ne_it unlisted

theorem Derives.eq_it {lexicon : Lexicon} {ws : List Word}
    (h : Derives lexicon Phrase.nounPhrase ws []) : ws = [.plain "it"] := by
  generalize none : [] = as at h
  cases h with
  | it => rfl
  | noun determiner adjectives noun =>
      obtain ⟨w, text, -, -, rfl⟩ := noun.exists_eq_singleton
      cases none
  | nounClause determiner adjectives noun clause =>
      obtain ⟨w, text, -, -, rfl⟩ := noun.exists_eq_singleton
      cases none

/-- Whole sentences with their conditions, which come first or last, or not at all. -/
inductive DerivesRules (lexicon : Lexicon) : List Word → List Rule → Prop where
  | conditional {vs ws body heads} (conditions : Derives lexicon (.joined .sentence) vs body)
      (conclusions : Derives lexicon (.joined .sentence) ws heads) :
      DerivesRules lexicon (.plain "if" :: vs ++ .plain "then" :: ws) (buildRules body heads)
  | trailing {vs ws body heads} (conclusion : Derives lexicon Phrase.sentence vs heads)
      (conditions : Derives lexicon (.joined .sentence) ws body) :
      DerivesRules lexicon (vs ++ .plain "if" :: ws) (buildRules body heads)
  | fact {ws heads} (claim : Derives lexicon Phrase.sentence ws heads) :
      DerivesRules lexicon ws (buildRules [] heads)

theorem DerivesRules.exists_sentence {lexicon : Lexicon} {words : List Word} {rules : List Rule}
    (h : DerivesRules lexicon words rules) :
    ∀ rule ∈ rules, ∀ atom ∈ rule.head :: rule.body, ∃ production ws as,
      production.item = .sentence ∧ ws ⊆ words ∧ Derives lexicon production ws as ∧ atom ∈ as := by
  intro rule member
  cases h with
  | @conditional vs ws body heads conditions conclusions =>
      rcases List.mem_map.mp member with ⟨head, inside, rfl⟩
      have before : vs ⊆ .plain "if" :: vs ++ .plain "then" :: ws := fun w given => by simp [given]
      have behind : ws ⊆ .plain "if" :: vs ++ .plain "then" :: ws := fun w given => by simp [given]
      rw [List.forall_mem_cons]
      exact ⟨⟨_, ws, heads, rfl, behind, conclusions, inside⟩,
        fun condition given => ⟨_, vs, body, rfl, before, conditions, given⟩⟩
  | @trailing vs ws body heads conclusion conditions =>
      rcases List.mem_map.mp member with ⟨head, inside, rfl⟩
      have before : vs ⊆ vs ++ .plain "if" :: ws := List.subset_append_left ..
      have behind : ws ⊆ vs ++ .plain "if" :: ws := fun w given => by simp [given]
      rw [List.forall_mem_cons]
      exact ⟨⟨_, vs, heads, rfl, before, conclusion, inside⟩,
        fun condition given => ⟨_, ws, body, rfl, behind, conditions, given⟩⟩
  | @fact ws heads claim =>
      rcases List.mem_map.mp member with ⟨head, inside, rfl⟩
      rw [List.forall_mem_cons]
      exact ⟨⟨_, words, heads, rfl, List.Subset.refl _, claim, inside⟩, List.forall_mem_nil _⟩

namespace Utterance

variable {u : Utterance} {i j k : Nat} {vs ws : List Word}

structure Spans (u : Utterance) (i : Nat) (ws : List Word) (j : Nat) : Prop where
  words : u.words.drop i = ws ++ u.words.drop j
  stop : j = i + ws.length

theorem Spans.nil : u.Spans i [] i := ⟨rfl, rfl⟩

theorem Spans.append (first : u.Spans i vs j) (rest : u.Spans j ws k) : u.Spans i (vs ++ ws) k := by
  refine ⟨?_, ?_⟩
  · rw [first.words, rest.words, List.append_assoc]
  · have := first.stop
    have := rest.stop
    rw [List.length_append]
    omega

theorem Spans.split (h : u.Spans i (vs ++ ws) k) : ∃ j, u.Spans i vs j ∧ u.Spans j ws k := by
  obtain ⟨words, stop⟩ := h
  rw [List.append_assoc] at words
  have after : u.words.drop (i + vs.length) = ws ++ u.words.drop k := by
    rw [← List.drop_drop, words, List.drop_left]
  refine ⟨i + vs.length, ⟨by rw [after, words], rfl⟩, after, ?_⟩
  rw [stop, List.length_append]
  omega

theorem spans_singleton_iff {w : Word} : u.Spans i [w] j ↔ u.words[i]? = some w ∧ j = i + 1 := by
  constructor
  · rintro ⟨words, stop⟩
    refine ⟨?_, stop⟩
    rw [← List.head?_drop, words]
    rfl
  · rintro ⟨found, rfl⟩
    obtain ⟨inside, rfl⟩ := List.getElem?_eq_some_iff.mp found
    exact ⟨List.drop_eq_getElem_cons inside, rfl⟩

theorem Spans.of_cons {w : Word} (h : u.Spans i (w :: ws) j) :
    u.words[i]? = some w ∧ u.Spans (i + 1) ws j := by
  obtain ⟨k, first, rest⟩ := Spans.split (show u.Spans i ([w] ++ ws) j from h)
  obtain ⟨found, rfl⟩ := spans_singleton_iff.mp first
  exact ⟨found, rest⟩

theorem Spans.after_keyword {w : String} {rest : List Word} (spans : u.Spans (i + 1) rest j)
    (keyword : u.words[i]? = some (.plain w)) : u.Spans i (.plain w :: rest) j :=
  (spans_singleton_iff.mpr ⟨keyword, rfl⟩).append spans

theorem Spans.head_mem (h : u.Spans i ws j) (some : ws ≠ []) :
    ∃ w ∈ ws, u.words[i]? = .some w := by
  cases ws with
  | nil => exact absurd rfl some
  | cons w ws => exact ⟨w, List.mem_cons_self, h.of_cons.1⟩

theorem Spans.getElem_eq {s : Nat} (h : u.Spans i ws j) (from_start : i ≤ s) (before : s < j) :
    u.words[s]? = ws[s - i]? := by
  obtain ⟨words, stop⟩ := h
  have here : (u.words.drop i)[s - i]? = ws[s - i]? := by
    rw [words, List.getElem?_append_left (by omega)]
  rwa [List.getElem?_drop, show i + (s - i) = s by omega] at here

theorem Spans.getElem_mem {s : Nat} (h : u.Spans i ws j) (from_start : i ≤ s) (before : s < j) :
    ∃ w ∈ ws, u.words[s]? = some w := by
  have stop := h.stop
  have inside : s - i < ws.length := by omega
  refine ⟨ws[s - i], List.getElem_mem inside, ?_⟩
  rw [h.getElem_eq from_start before, List.getElem?_eq_getElem inside]

theorem Spans.infix {s : Nat} (h : u.Spans i ws j) (inner : u.Spans s vs k) (from_start : i ≤ s)
    (before : k ≤ j) : ∃ xs ys, ws = xs ++ vs ++ ys := by
  have stop := h.stop
  have inner_stop := inner.stop
  rw [← List.take_append_drop (s - i) ws] at h
  obtain ⟨m, first, rest⟩ := h.split
  have same : m = s := by
    rw [first.stop, List.length_take]
    omega
  subst same
  have first_prefix : vs <+: u.words.drop m := ⟨u.words.drop k, inner.words.symm⟩
  have rest_prefix : ws.drop (m - i) <+: u.words.drop m := ⟨u.words.drop j, rest.words.symm⟩
  have shorter : vs.length ≤ (ws.drop (m - i)).length := by
    rw [List.length_drop]
    omega
  obtain ⟨ys, same⟩ := List.prefix_of_prefix_length_le first_prefix rest_prefix shorter
  refine ⟨ws.take (m - i), ys, ?_⟩
  rw [List.append_assoc, same, List.take_append_drop]

theorem is_keyword_iff {options : List String} :
    u.isKeyword i options = true ↔ ∃ w ∈ options, u.words[i]? = some (.plain w) := by
  rw [isKeyword]
  cases u.words[i]? with
  | none => simp
  | some word => cases word <;> simp [Word.isPlain]

theorem is_keyword_singleton_iff {w : String} :
    u.isKeyword i [w] = true ↔ u.words[i]? = some (.plain w) := by
  simp [is_keyword_iff]

theorem mem_all_word {table : Goal → List Derivation} {category : Category} {d : Derivation} :
    d ∈ (u.word category i).all table ↔ ∃ word text, u.words[i]? = some word ∧
      Reads u.lexicon category word text ∧ d = ⟨[⟨category.kind, text, []⟩], i + 1⟩ := by
  rw [word]
  constructor
  · intro given
    split at given
    · cases given
    · next literal found =>
        simp only [Search.all_guarded, Search.all_pure, List.mem_ite_nil_right,
          List.mem_singleton, beq_iff_eq] at given
        obtain ⟨rfl, rfl⟩ := given
        exact ⟨_, _, found, .literal _, rfl⟩
    · next text found =>
        simp only [Search.all_append, Search.all_guarded, Search.all_pure, List.mem_append,
          List.mem_ite_nil_right, List.mem_singleton] at given
        rcases given with ⟨known, rfl⟩ | given
        · exact ⟨_, _, found, .listed known, rfl⟩
        · split at given
          · next literal spells =>
              simp only [Search.all_guarded, Search.all_pure, List.mem_ite_nil_right,
                List.mem_singleton, beq_iff_eq] at given
              obtain ⟨rfl, rfl⟩ := given
              exact ⟨_, _, found, .spelled spells, rfl⟩
          · cases given
  · rintro ⟨word, text, found, reads, rfl⟩
    cases reads with
    | listed known => simp [found, known]
    | spelled spells => simp [found, spells]
    | literal text => simp [found]

def Found (u : Utterance) (production : Production) (i : Nat) (d : Derivation) : Prop :=
  ∃ ws, u.Spans i ws d.stop ∧ Derives u.lexicon production ws d.attrs

section Soundness

variable {table : Goal → List Derivation} {d : Derivation}
  (sound : ∀ goal, ∀ d ∈ table goal, u.Found goal.production goal.start d)

theorem word_found {category : Category} (h : d ∈ (u.word category i).all table) :
    u.Found (Phrase.word category) i d := by
  obtain ⟨word, text, found, reads, rfl⟩ := mem_all_word.mp h
  exact ⟨[word], spans_singleton_iff.mpr ⟨found, rfl⟩, .word reads⟩

theorem determiner_found (h : d ∈ (u.determiner i).all table) :
    u.Found Phrase.determiner i d := by
  simp only [determiner, Search.all_append, Search.all_pure, Search.all_guarded, List.mem_append,
    List.mem_singleton, List.mem_ite_nil_right] at h
  rcases h with rfl | ⟨keyword, rfl⟩
  · exact ⟨[], .nil, .noDeterminer⟩
  · obtain ⟨w, listed, found⟩ := is_keyword_iff.mp keyword
    exact ⟨_, spans_singleton_iff.mpr ⟨found, rfl⟩, .determiner listed⟩

include sound

theorem adverb_run_found (h : d ∈ (u.adverbRun i).all table) : u.Found Phrase.adverbRun i d := by
  simp only [adverbRun, Search.all_bind, Search.all_append, Search.all_ask, Search.all_pure,
    List.mem_flatMap, List.mem_append, List.mem_singleton] at h
  obtain ⟨first, given, ⟨rest, more, rfl⟩ | rfl⟩ := h
  · obtain ⟨vs, spans, derives⟩ := word_found given
    obtain ⟨ws, spans', derives'⟩ := sound _ rest more
    exact ⟨vs ++ ws, spans.append spans', .adverbs derives derives'⟩
  · obtain ⟨vs, spans, derives⟩ := word_found given
    exact ⟨vs, spans, .adverb derives⟩

theorem adverb_group_found (h : d ∈ (adverbGroup i).all table) :
    u.Found Phrase.adverbGroup i d := by
  simp only [adverbGroup, Search.all_bind, Search.all_ask, Search.all_pure, List.mem_flatMap,
    List.mem_singleton] at h
  obtain ⟨run, given, rfl⟩ := h
  obtain ⟨ws, spans, derives⟩ := sound _ run given
  exact ⟨ws, spans, .adverbGroup derives⟩

theorem adverbs_opt_found (h : d ∈ (adverbsOpt i).all table) : u.Found Phrase.adverbsOpt i d := by
  simp only [adverbsOpt, Search.all_append, Search.all_pure, List.mem_append,
    List.mem_singleton] at h
  rcases h with given | rfl
  · obtain ⟨ws, spans, derives⟩ := adverb_group_found sound given
    exact ⟨ws, spans, .someAdverbs derives⟩
  · exact ⟨[], .nil, .noAdverbs⟩

theorem adjective_phrase_found (h : d ∈ (u.adjectivePhrase i).all table) :
    u.Found Phrase.adjectivePhrase i d := by
  simp only [adjectivePhrase, Search.all_bind, Search.all_pure, List.mem_flatMap,
    List.mem_singleton] at h
  obtain ⟨adverbs, given, adjective, more, rfl⟩ := h
  obtain ⟨vs, spans, derives⟩ := adverbs_opt_found sound given
  obtain ⟨ws, spans', derives'⟩ := word_found more
  exact ⟨vs ++ ws, spans.append spans', .adjectivePhrase derives derives'⟩

theorem adjective_phrases_found (h : d ∈ (u.adjectivePhrases i).all table) :
    u.Found Phrase.adjectivePhrases i d := by
  simp only [adjectivePhrases, Search.all_bind, Search.all_append, Search.all_ask,
    Search.all_pure, List.mem_flatMap, List.mem_append, List.mem_singleton] at h
  rcases h with ⟨first, given, rest, more, rfl⟩ | rfl
  · obtain ⟨vs, spans, derives⟩ := adjective_phrase_found sound given
    obtain ⟨ws, spans', derives'⟩ := sound _ rest more
    exact ⟨vs ++ ws, spans.append spans', .adjectives derives derives'⟩
  · exact ⟨[], .nil, .noAdjectives⟩

theorem relative_clause_found (h : d ∈ (u.relativeClause i).all table) :
    u.Found Phrase.relativeClause i d := by
  simp only [relativeClause, Search.all_guarded, Search.all_ask, List.mem_ite_nil_right,
    is_keyword_singleton_iff] at h
  obtain ⟨keyword, given⟩ := h
  obtain ⟨ws, spans, derives⟩ := sound _ d given
  exact ⟨_, spans.after_keyword keyword, .relativeClause derives⟩

theorem noun_phrase_found (h : d ∈ (u.nounPhrase i).all table) : u.Found Phrase.nounPhrase i d := by
  rw [nounPhrase] at h
  split at h
  · next keyword =>
      rw [Search.all_pure, List.mem_singleton] at h
      subst h
      rw [is_keyword_singleton_iff] at keyword
      exact ⟨_, spans_singleton_iff.mpr ⟨keyword, rfl⟩, .it⟩
  · simp only [Search.all_bind, Search.all_append, Search.all_ask, Search.all_pure,
      List.mem_flatMap, List.mem_append, List.mem_singleton] at h
    obtain ⟨determiner, before, adjectives, between, noun, given, h⟩ := h
    obtain ⟨ds, spans, derives⟩ := determiner_found before
    obtain ⟨vs, spans', derives'⟩ := sound _ adjectives between
    obtain ⟨ws, spans'', derives''⟩ := word_found given
    have phrase := (spans.append spans').append spans''
    rcases h with rfl | ⟨clause, given, rfl⟩
    · exact ⟨_, phrase, .noun derives derives' derives''⟩
    · obtain ⟨xs, spans, derives⟩ := relative_clause_found sound given
      exact ⟨_, phrase.append spans, .nounClause ‹_› derives' derives'' derives⟩

theorem joined_opt_found {item : Phrase} (h : d ∈ (joinedOpt item i).all table) :
    u.Found (.joinedOpt item) i d := by
  simp only [joinedOpt, Search.all_append, Search.all_ask, Search.all_pure, List.mem_append,
    List.mem_singleton] at h
  rcases h with given | rfl
  · obtain ⟨ws, spans, derives⟩ := sound _ d given
    exact ⟨ws, spans, .items derives⟩
  · exact ⟨[], .nil, .noItems⟩

theorem verb_phrase_found (h : d ∈ (u.verbPhrase i).all table) : u.Found Phrase.verbPhrase i d := by
  simp only [verbPhrase, Search.all_append, Search.all_guarded, Search.all_bind, Search.all_ask,
    Search.all_pure, List.mem_append, List.mem_ite_nil_right, List.mem_flatMap,
    List.mem_singleton, is_keyword_iff] at h
  rcases h with ((⟨⟨w, verb, found⟩, objects, given, rfl⟩ | ⟨⟨w, copula, found⟩, given | given⟩) |
    ⟨adverbs, before, verb, given, objects, after, rfl⟩) | ⟨verb, given, adverbs, after, rfl⟩
  · obtain ⟨ws, spans, derives⟩ := sound _ objects given
    exact ⟨_, spans.after_keyword found, .possession verb derives⟩
  · obtain ⟨ws, spans, derives⟩ := sound _ d given
    exact ⟨_, spans.after_keyword found, .likeness copula derives⟩
  · obtain ⟨ws, spans, derives⟩ := sound _ d given
    exact ⟨_, spans.after_keyword found, .identity copula derives⟩
  · obtain ⟨hs, spans, derives⟩ := joined_opt_found sound before
    obtain ⟨vs, spans', derives'⟩ := word_found given
    obtain ⟨ws, spans'', derives''⟩ := joined_opt_found sound after
    exact ⟨_, (spans.append spans').append spans'', .action derives derives' derives''⟩
  · obtain ⟨vs, spans, derives⟩ := word_found given
    obtain ⟨ws, spans', derives'⟩ := sound _ adverbs after
    exact ⟨_, spans.append spans', .manner derives derives'⟩

theorem sentence_found (h : d ∈ (sentence i).all table) : u.Found Phrase.sentence i d := by
  simp only [sentence, Search.all_append, Search.all_bind, Search.all_ask, Search.all_guarded,
    Search.all_pure, List.mem_append, List.mem_flatMap, List.mem_ite_nil_right,
    List.mem_singleton, Bool.not_eq_true', List.isEmpty_iff, List.isEmpty_eq_false_iff] at h
  rcases h with ⟨subject, before, none, given⟩ | ⟨subject, before, real, predicate, given, rfl⟩
  · obtain ⟨vs, spans, derives⟩ := sound _ subject before
    obtain ⟨ws, spans', derives'⟩ := sound _ d given
    rw [none] at derives
    cases derives.eq_it
    exact ⟨_, spans.append spans', .itSentence derives'⟩
  · obtain ⟨vs, spans, derives⟩ := sound _ subject before
    obtain ⟨ws, spans', derives'⟩ := sound _ predicate given
    exact ⟨_, spans.append spans', .subject derives real derives'⟩

theorem phrase_found {item : Phrase} (h : d ∈ (u.phrase item i).all table) : u.Found item i d := by
  cases item with
  | word category => exact word_found h
  | determiner => exact determiner_found h
  | adverbRun => exact adverb_run_found sound h
  | adverbGroup => exact adverb_group_found sound h
  | adverbsOpt => exact adverbs_opt_found sound h
  | adjectivePhrase => exact adjective_phrase_found sound h
  | adjectivePhrases => exact adjective_phrases_found sound h
  | relativeClause => exact relative_clause_found sound h
  | nounPhrase => exact noun_phrase_found sound h
  | verbPhrase => exact verb_phrase_found sound h
  | sentence => exact sentence_found sound h

theorem call_found {item : Phrase} (h : d ∈ (u.call item i).all table) : u.Found item i d := by
  rw [call] at h
  split at h
  · rw [Search.all_ask] at h
    exact sound _ d h
  · exact phrase_found sound h

theorem joined_found {item : Phrase} (h : d ∈ (u.joined item i).all table) :
    u.Found (.joined item) i d := by
  simp only [joined, Search.all_append, Search.all_bind, Search.all_guarded, Search.all_ask,
    Search.all_pure, List.mem_append, List.mem_flatMap, List.mem_ite_nil_right,
    List.mem_singleton, is_keyword_singleton_iff] at h
  rcases h with ⟨first, before, keyword, rest, given, rfl⟩ | given
  · obtain ⟨vs, spans, derives⟩ := call_found sound before
    obtain ⟨ws, spans', derives'⟩ := sound _ rest given
    exact ⟨_, spans.append (spans'.after_keyword keyword), .several derives derives'⟩
  · obtain ⟨ws, spans, derives⟩ := call_found sound given
    exact ⟨ws, spans, .single derives⟩

theorem search_found {goal : Goal} (h : d ∈ (u.search goal).all table) :
    u.Found goal.production goal.start d := by
  obtain ⟨production, start⟩ := goal
  cases production with
  | one item => exact phrase_found sound h
  | joined item => exact joined_found sound h
  | joinedOpt item => exact joined_opt_found sound h

end Soundness

theorem found_of_mem_below {bound : Nat} {goal : Goal} {d : Derivation}
    (h : d ∈ u.below bound goal) : u.Found goal.production goal.start d := by
  induction bound generalizing goal d with
  | zero => cases h
  | succ bound ih =>
      rw [below] at h
      split at h
      · exact search_found (fun _ _ given => ih given) h
      · exact ih h

/-- Whatever is found, the relation allows for the words that were used. -/
theorem found_of_mem {production : Production} {d : Derivation}
    (h : d ∈ u.derivations ⟨production, i⟩) : u.Found production i d :=
  found_of_mem_below h

section Completeness

theorem not_it_of_noun (unlisted : u.lexicon.knows "it" = false) {ds vs ws : List Word}
    {ns as bs : List Attr} (determiner : Derives u.lexicon Phrase.determiner ds ns)
    (adjectives : Derives u.lexicon Phrase.adjectivePhrases vs as)
    (noun : Derives u.lexicon (Phrase.word .noun) ws bs) (spans : u.Spans i (ds ++ vs ++ ws) j) :
    ¬u.isKeyword i ["it"] = true := by
  intro keyword
  obtain ⟨w, text, reads, rfl, rfl⟩ := noun.exists_eq_singleton
  obtain ⟨first, member, found⟩ := spans.head_mem (by simp)
  rw [is_keyword_singleton_iff, found] at keyword
  cases keyword
  exact Derives.ne_it_of_noun unlisted determiner adjectives noun _ member rfl

theorem mem_word {category : Category} {w : Word} {text : String}
    (reads : Reads u.lexicon category w text) (spans : u.Spans i [w] j) :
    ⟨[⟨category.kind, text, []⟩], j⟩ ∈ u.derivations ⟨Phrase.word category, i⟩ := by
  rw [spans_singleton_iff] at spans
  rw [← all_word, mem_all_word]
  exact ⟨w, text, spans.1, reads, by rw [spans.2]⟩

/-! What is found for a production, given what is found for its parts. -/

section Parts

variable {first rest clause subject adverbs adjectives noun verb objects : Derivation} {w : String}

theorem mem_determiner (listed : w ∈ determiners) (found : u.words[i]? = some (.plain w)) :
    ⟨[], i + 1⟩ ∈ u.derivations ⟨Phrase.determiner, i⟩ := by
  rw [derivations_determiner, if_pos (is_keyword_iff.mpr ⟨w, listed, found⟩)]
  simp

theorem mem_adverb_run (given : first ∈ u.derivations ⟨Phrase.word .adverb, i⟩)
    (more : rest ∈ u.derivations ⟨Phrase.adverbRun, first.stop⟩) :
    ⟨first.attrs ++ rest.attrs, rest.stop⟩ ∈ u.derivations ⟨Phrase.adverbRun, i⟩ := by
  rw [derivations_adverb_run, List.mem_flatMap]
  exact ⟨first, given, List.mem_append_left _ (List.mem_map.mpr ⟨rest, more, rfl⟩)⟩

theorem mem_adverb_run_alone (given : first ∈ u.derivations ⟨Phrase.word .adverb, i⟩) :
    first ∈ u.derivations ⟨Phrase.adverbRun, i⟩ := by
  rw [derivations_adverb_run, List.mem_flatMap]
  exact ⟨first, given, List.mem_append_right _ (List.mem_singleton_self _)⟩

theorem mem_adverb_group (given : first ∈ u.derivations ⟨Phrase.adverbRun, i⟩) :
    ⟨foldAdverbs first.attrs, first.stop⟩ ∈ u.derivations ⟨Phrase.adverbGroup, i⟩ := by
  rw [derivations_adverb_group, List.mem_map]
  exact ⟨first, given, rfl⟩

theorem mem_adjective_phrase (given : adverbs ∈ u.derivations ⟨Phrase.adverbsOpt, i⟩)
    (more : first ∈ u.derivations ⟨Phrase.word .adjective, adverbs.stop⟩) :
    ⟨attach first.attrs adverbs.attrs, first.stop⟩ ∈
      u.derivations ⟨Phrase.adjectivePhrase, i⟩ := by
  rw [derivations_adjective_phrase, List.mem_flatMap]
  exact ⟨adverbs, given, List.mem_map.mpr ⟨first, more, rfl⟩⟩

theorem mem_adjective_phrases (given : first ∈ u.derivations ⟨Phrase.adjectivePhrase, i⟩)
    (more : rest ∈ u.derivations ⟨Phrase.adjectivePhrases, first.stop⟩) :
    ⟨first.attrs ++ rest.attrs, rest.stop⟩ ∈ u.derivations ⟨Phrase.adjectivePhrases, i⟩ := by
  rw [derivations_adjective_phrases]
  refine List.mem_append_left _ (List.mem_flatMap.mpr ⟨first, given, ?_⟩)
  exact List.mem_map.mpr ⟨rest, more, rfl⟩

theorem mem_relative_clause (that : u.words[i]? = some (.plain "that"))
    (given : clause ∈ u.derivations ⟨Phrase.verbPhrase, i + 1⟩) :
    clause ∈ u.derivations ⟨Phrase.relativeClause, i⟩ := by
  rw [derivations_relative_clause, if_pos (is_keyword_singleton_iff.mpr that)]
  exact given

theorem mem_it (it : u.words[i]? = some (.plain "it")) :
    ⟨[], i + 1⟩ ∈ u.derivations ⟨Phrase.nounPhrase, i⟩ := by
  rw [derivations_noun_phrase, if_pos (is_keyword_singleton_iff.mpr it)]
  exact List.mem_singleton_self _

section NounPhrase

variable {determiner : Derivation} (no_it : ¬u.isKeyword i ["it"] = true)
  (before : determiner ∈ u.derivations ⟨Phrase.determiner, i⟩)
  (given : adjectives ∈ u.derivations ⟨Phrase.adjectivePhrases, determiner.stop⟩)
  (named : noun ∈ u.derivations ⟨Phrase.word .noun, adjectives.stop⟩)

include no_it before given named

theorem mem_noun_phrase_alone :
    ⟨attach noun.attrs adjectives.attrs, noun.stop⟩ ∈ u.derivations ⟨Phrase.nounPhrase, i⟩ := by
  rw [derivations_noun_phrase, if_neg no_it]
  simp only [List.mem_flatMap]
  exact ⟨determiner, before, adjectives, given, noun, named, List.mem_cons_self⟩

theorem mem_noun_phrase_with_clause
    (said : clause ∈ u.derivations ⟨Phrase.relativeClause, noun.stop⟩) :
    ⟨attach (attach noun.attrs adjectives.attrs) clause.attrs, clause.stop⟩ ∈
      u.derivations ⟨Phrase.nounPhrase, i⟩ := by
  rw [derivations_noun_phrase, if_neg no_it]
  simp only [List.mem_flatMap]
  refine ⟨determiner, before, adjectives, given, noun, named, List.mem_cons_of_mem _ ?_⟩
  exact List.mem_map.mpr ⟨clause, said, rfl⟩

end NounPhrase

theorem mem_possession (listed : w ∈ possessionVerbs) (found : u.words[i]? = some (.plain w))
    (given : objects ∈ u.derivations ⟨.joined .nounPhrase, i + 1⟩) :
    ⟨toHasA objects.attrs, objects.stop⟩ ∈ u.derivations ⟨Phrase.verbPhrase, i⟩ := by
  rw [derivations_verb_phrase, if_pos (is_keyword_iff.mpr ⟨w, listed, found⟩)]
  simp only [List.mem_append, List.mem_map]
  exact .inl (.inl (.inl ⟨objects, given, rfl⟩))

theorem mem_copula (listed : w ∈ copulas) (found : u.words[i]? = some (.plain w))
    (given : first ∈ u.derivations ⟨.joined .adjectivePhrase, i + 1⟩ ∨
      first ∈ u.derivations ⟨.joined .nounPhrase, i + 1⟩) :
    first ∈ u.derivations ⟨Phrase.verbPhrase, i⟩ := by
  have keyword := is_keyword_iff.mpr ⟨w, listed, found⟩
  rw [derivations_verb_phrase]
  simp only [if_pos keyword, List.mem_append]
  exact .inl (.inl (.inr given))

theorem mem_action (before : adverbs ∈ u.derivations ⟨.joinedOpt .adverbGroup, i⟩)
    (given : verb ∈ u.derivations ⟨Phrase.word .verb, adverbs.stop⟩)
    (behind : objects ∈ u.derivations ⟨.joinedOpt .nounPhrase, verb.stop⟩) :
    ⟨attach verb.attrs (adverbs.attrs ++ objects.attrs), objects.stop⟩ ∈
      u.derivations ⟨Phrase.verbPhrase, i⟩ := by
  rw [derivations_verb_phrase]
  simp only [List.mem_append, List.mem_flatMap, List.mem_map]
  exact .inl (.inr ⟨adverbs, before, verb, given, objects, behind, rfl⟩)

theorem mem_manner (given : verb ∈ u.derivations ⟨Phrase.word .verb, i⟩)
    (behind : adverbs ∈ u.derivations ⟨.joined .adverbGroup, verb.stop⟩) :
    ⟨attach verb.attrs adverbs.attrs, adverbs.stop⟩ ∈ u.derivations ⟨Phrase.verbPhrase, i⟩ := by
  rw [derivations_verb_phrase]
  simp only [List.mem_append, List.mem_flatMap, List.mem_map]
  exact .inr ⟨verb, given, adverbs, behind, rfl⟩

theorem mem_sentence_of_it (it : u.words[i]? = some (.plain "it"))
    (said : clause ∈ u.derivations ⟨Phrase.verbPhrase, i + 1⟩) :
    clause ∈ u.derivations ⟨Phrase.sentence, i⟩ := by
  rw [derivations_sentence]
  exact List.mem_append_left _ (List.mem_flatMap.mpr ⟨⟨[], i + 1⟩, mem_it it, said⟩)

theorem mem_sentence_of_subject (given : subject ∈ u.derivations ⟨Phrase.nounPhrase, i⟩)
    (real : subject.attrs ≠ [])
    (said : clause ∈ u.derivations ⟨Phrase.verbPhrase, subject.stop⟩) :
    ⟨attach (toHasA subject.attrs) clause.attrs, clause.stop⟩ ∈
      u.derivations ⟨Phrase.sentence, i⟩ := by
  rw [derivations_sentence]
  refine List.mem_append_right _ (List.mem_flatMap.mpr ⟨subject, given, ?_⟩)
  rw [if_neg (by simpa using real)]
  exact List.mem_map.mpr ⟨clause, said, rfl⟩

theorem mem_joined_of_one {item : Phrase} (given : first ∈ u.derivations ⟨item, i⟩) :
    first ∈ u.derivations ⟨.joined item, i⟩ := by
  rw [derivations_joined]
  exact List.mem_append_right _ given

theorem mem_joined {item : Phrase} (given : first ∈ u.derivations ⟨item, i⟩)
    (joins : u.words[first.stop]? = some (.plain "and"))
    (more : rest ∈ u.derivations ⟨.joined item, first.stop + 1⟩) :
    ⟨first.attrs ++ rest.attrs, rest.stop⟩ ∈ u.derivations ⟨.joined item, i⟩ := by
  rw [derivations_joined]
  refine List.mem_append_left _ (List.mem_flatMap.mpr ⟨first, given, ?_⟩)
  rw [if_pos (is_keyword_singleton_iff.mpr joins)]
  exact List.mem_map.mpr ⟨rest, more, rfl⟩

end Parts

/-- What the relation allows is found, unless "it" is also a word of the lexicon. -/
theorem mem_of_derives (unlisted : u.lexicon.knows "it" = false) {production : Production}
    {ws : List Word} {as : List Attr} (h : Derives u.lexicon production ws as)
    (spans : u.Spans i ws j) : ⟨as, j⟩ ∈ u.derivations ⟨production, i⟩ := by
  induction h generalizing i j with
  | word reads => exact mem_word reads spans
  | noDeterminer =>
      cases spans.stop
      rw [derivations_determiner]
      exact List.mem_cons_self
  | determiner listed =>
      obtain ⟨found, rfl⟩ := spans_singleton_iff.mp spans
      exact mem_determiner listed found
  | adverb adverb ih => exact mem_adverb_run_alone (ih spans)
  | adverbs first rest first_ih rest_ih =>
      obtain ⟨k, first_spans, rest_spans⟩ := spans.split
      exact mem_adverb_run (first_ih first_spans) (rest_ih rest_spans)
  | adverbGroup run ih => exact mem_adverb_group (ih spans)
  | noAdverbs =>
      cases spans.stop
      rw [derivations_adverbs_opt]
      simp
  | someAdverbs group ih =>
      rw [derivations_adverbs_opt]
      exact List.mem_append_left _ (ih spans)
  | adjectivePhrase adverbs adjective adverbs_ih adjective_ih =>
      obtain ⟨k, first_spans, rest_spans⟩ := spans.split
      exact mem_adjective_phrase (adverbs_ih first_spans) (adjective_ih rest_spans)
  | noAdjectives =>
      cases spans.stop
      rw [derivations_adjective_phrases]
      simp
  | adjectives first rest first_ih rest_ih =>
      obtain ⟨k, first_spans, rest_spans⟩ := spans.split
      exact mem_adjective_phrases (first_ih first_spans) (rest_ih rest_spans)
  | relativeClause clause ih =>
      obtain ⟨that, clause_spans⟩ := spans.of_cons
      exact mem_relative_clause that (ih clause_spans)
  | it =>
      obtain ⟨it, rfl⟩ := spans_singleton_iff.mp spans
      exact mem_it it
  | noun determiner adjectives noun determiner_ih adjectives_ih noun_ih =>
      -- The search takes an "it" for nothing else, so a noun spelled like that would not be found.
      have no_it := not_it_of_noun unlisted determiner adjectives noun spans
      obtain ⟨l, spans, noun_spans⟩ := spans.split
      obtain ⟨k, determiner_spans, adjectives_spans⟩ := spans.split
      exact mem_noun_phrase_alone no_it (determiner_ih determiner_spans)
        (adjectives_ih adjectives_spans) (noun_ih noun_spans)
  | nounClause determiner adjectives noun clause determiner_ih adjectives_ih noun_ih clause_ih =>
      obtain ⟨m, spans, clause_spans⟩ := spans.split
      have no_it := not_it_of_noun unlisted determiner adjectives noun spans
      obtain ⟨l, spans, noun_spans⟩ := spans.split
      obtain ⟨k, determiner_spans, adjectives_spans⟩ := spans.split
      exact mem_noun_phrase_with_clause no_it (determiner_ih determiner_spans)
        (adjectives_ih adjectives_spans) (noun_ih noun_spans) (clause_ih clause_spans)
  | possession verb objects ih =>
      obtain ⟨found, rest⟩ := spans.of_cons
      exact mem_possession verb found (ih rest)
  | likeness copula adjectives ih =>
      obtain ⟨found, rest⟩ := spans.of_cons
      exact mem_copula copula found (.inl (ih rest))
  | identity copula nouns ih =>
      obtain ⟨found, rest⟩ := spans.of_cons
      exact mem_copula copula found (.inr (ih rest))
  | action adverbs verb objects adverbs_ih verb_ih objects_ih =>
      obtain ⟨l, spans, objects_spans⟩ := spans.split
      obtain ⟨k, adverbs_spans, verb_spans⟩ := spans.split
      exact mem_action (adverbs_ih adverbs_spans) (verb_ih verb_spans) (objects_ih objects_spans)
  | manner verb adverbs verb_ih adverbs_ih =>
      obtain ⟨k, verb_spans, adverbs_spans⟩ := spans.split
      exact mem_manner (verb_ih verb_spans) (adverbs_ih adverbs_spans)
  | itSentence predicate ih =>
      obtain ⟨it, rest⟩ := spans.of_cons
      exact mem_sentence_of_it it (ih rest)
  | subject subject real predicate subject_ih predicate_ih =>
      obtain ⟨k, subject_spans, predicate_spans⟩ := spans.split
      exact mem_sentence_of_subject (subject_ih subject_spans) real (predicate_ih predicate_spans)
  | single one ih => exact mem_joined_of_one (ih spans)
  | several first rest first_ih rest_ih =>
      obtain ⟨k, first_spans, rest_spans⟩ := spans.split
      obtain ⟨joins, rest_spans⟩ := rest_spans.of_cons
      exact mem_joined (first_ih first_spans) joins (rest_ih rest_spans)
  | noItems =>
      cases spans.stop
      rw [derivations_joined_opt]
      simp
  | items joined ih =>
      rw [derivations_joined_opt]
      exact List.mem_append_left _ (ih spans)

end Completeness

end Utterance

end ControlledEnglish
