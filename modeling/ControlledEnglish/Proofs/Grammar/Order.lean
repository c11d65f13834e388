import Mathlib.Data.List.Basic
import ControlledEnglish.Proofs.Grammar.Content
import ControlledEnglish.Proofs.Reading

/-! The order of words: no reading loses, repeats or moves one.

An attribute is linear in some texts if they are the values of its tree from left to right, where
every value has some of its children before it and the others behind. Whatever a phrase stands for
is linear in its content words, and a rule has its conditions on one side of its claims. -/

namespace ControlledEnglish

/-- What a word adds to the content of a sentence: a keyword nothing, a literal its text. -/
def Word.content : Word → List String
  | literal word => [word.text]
  | plain text =>
      if text ∈ keywords then []
      else match Literal.ofSpelling? text with
        | some word => [word.text]
        | none => [text]

def contents (words : List Word) : List String := words.flatMap Word.content

/-- The texts are the values of all the trees from left to right, every one of them between some of
its children and the rest of them. -/
inductive LinearIn : List Attr → List String → Prop where
  | nil : LinearIn [] []
  | cons {kind : Kind} {value : String} {front back rest : List Attr} {us vs ws : List String}
      (before : LinearIn front us) (behind : LinearIn back vs) (others : LinearIn rest ws) :
      LinearIn (⟨kind, value, front ++ back⟩ :: rest) (us ++ value :: vs ++ ws)

namespace LinearIn

variable {as bs : List Attr} {attr : Attr} {us vs ws : List String}

theorem append (first : LinearIn as us) (rest : LinearIn bs vs) : LinearIn (as ++ bs) (us ++ vs) := by
  induction first with
  | nil => exact rest
  | cons before behind others before_ih behind_ih ih =>
      rw [List.append_assoc]
      exact .cons before behind ih

theorem node {kind : Kind} {value : String} (before : LinearIn as us) (behind : LinearIn bs vs) :
    LinearIn [⟨kind, value, as ++ bs⟩] (us ++ value :: vs) := by
  have alone : LinearIn [⟨kind, value, as ++ bs⟩] (us ++ value :: vs ++ []) :=
    .cons before behind .nil
  rwa [List.append_nil] at alone

theorem exists_node (h : LinearIn [attr] ws) : ∃ front back us vs,
    attr.children = front ++ back ∧ ws = us ++ attr.value :: vs ∧
      LinearIn front us ∧ LinearIn back vs := by
  cases h with
  | cons before behind others =>
      cases others
      exact ⟨_, _, _, _, rfl, List.append_nil _, before, behind⟩

theorem attach_behind (base : LinearIn [attr] us) (rest : LinearIn bs vs) :
    LinearIn (attach [attr] bs) (us ++ vs) := by
  rcases base.exists_node with ⟨front, back, before, behind, children, rfl, front_linear, back_linear⟩
  have whole : LinearIn [⟨attr.kind, attr.value, front ++ (back ++ bs)⟩]
      (before ++ attr.value :: (behind ++ vs)) := .node front_linear (back_linear.append rest)
  rw [List.append_assoc, List.cons_append]
  rwa [attach, List.map_singleton, children, List.append_assoc]

theorem to_has_a (nouns : LinearIn as ws) : LinearIn (toHasA as) ws := by
  induction nouns with
  | nil => exact .nil
  | @cons kind value front back rest us vs ws before behind others before_ih behind_ih ih =>
      rw [toHasA, List.map_cons]
      cases kind with
      | isA | hasA | isLike | isHow | does => exact .cons before behind ih

theorem nest_adverbs {inner adverbs : List Attr} (bare : ∀ a ∈ adverbs, a.children = [])
    (inside : LinearIn inner us) :
    LinearIn (nestAdverbs inner adverbs) (us ++ adverbs.map Attr.value) := by
  induction adverbs generalizing inner us with
  | nil =>
      rw [List.map_nil, List.append_nil]
      exact inside
  | cons first rest ih =>
      rcases List.forall_mem_cons.mp bare with ⟨first_bare, rest_bare⟩
      have outer : LinearIn [⟨first.kind, first.value, inner ++ []⟩] (us ++ first.value :: []) :=
        .node inside .nil
      have whole := ih rest_bare outer
      rw [List.append_nil, List.append_assoc, List.singleton_append] at whole
      rw [nestAdverbs, first_bare, List.map_cons]
      exact whole

theorem eq_of_bare (bare : ∀ a ∈ as, a.children = []) (h : LinearIn as ws) :
    ws = as.map Attr.value := by
  induction h with
  | nil => rfl
  | cons before behind others before_ih behind_ih ih =>
      rcases List.forall_mem_cons.mp bare with ⟨first_bare, rest_bare⟩
      rcases List.append_eq_nil_iff.mp first_bare with ⟨rfl, rfl⟩
      cases before
      cases behind
      rw [ih rest_bare]
      rfl

end LinearIn

variable {lexicon : Lexicon} {production : Production} {ws : List Word} {as : List Attr}

theorem contents_append (vs ws : List Word) : contents (vs ++ ws) = contents vs ++ contents ws :=
  List.flatMap_append

theorem contents_keyword {w : String} (known : w ∈ keywords) (ws : List Word) :
    contents (.plain w :: ws) = contents ws := by
  rw [contents, List.flatMap_cons, Word.content, if_pos known]
  rfl

section Linear

variable (avoids : lexicon.AvoidsKeywords)
  (no_literal : ∀ word category, lexicon.lookup word category = true →
    Literal.ofSpelling? word = none)

include avoids no_literal

theorem Reads.contents_eq {category : Category} {w : Word} {text : String}
    (reads : Reads lexicon category w text) : contents [w] = [text] := by
  rw [contents, List.flatMap_singleton]
  cases reads with
  | listed known => rw [Word.content, if_neg (avoids _ _ known), no_literal _ _ known]
  | @spelled word text spells =>
      have unknown : word ∉ keywords := by
        intro known
        rw [of_spelling_eq_none (is_bare_of_mem_keywords known).unquoted] at spells
        cases spells
      rw [Word.content, if_neg unknown, spells]
  | literal => rfl

theorem Derives.linear_around {category : Category} {front back : List Attr} {us vs : List String}
    (word : Derives lexicon (Phrase.word category) ws as) (before : LinearIn front us)
    (behind : LinearIn back vs) :
    LinearIn (attach as (front ++ back)) (us ++ contents ws ++ vs) := by
  rcases word.exists_eq_singleton with ⟨w, text, reads, rfl, rfl⟩
  rw [reads.contents_eq avoids no_literal, List.append_assoc, List.singleton_append]
  have whole : LinearIn [⟨category.kind, text, front ++ back⟩] (us ++ text :: vs) :=
    .node before behind
  exact whole

theorem Derives.linear_before {category : Category} {front : List Attr} {us : List String}
    (word : Derives lexicon (Phrase.word category) ws as) (before : LinearIn front us) :
    LinearIn (attach as front) (us ++ contents ws) := by
  have around := word.linear_around avoids no_literal before .nil
  rwa [List.append_nil, List.append_nil] at around

/-- Whatever a phrase stands for is linear in its content words. -/
theorem Derives.linear (h : Derives lexicon production ws as) : LinearIn as (contents ws) := by
  have skip {w : String} {options : List String} (listed : w ∈ options) (known : options ⊆ keywords)
      (ws : List Word) : contents (.plain w :: ws) = contents ws := contents_keyword (known listed) ws
  have silent {ds : List Word} {ns : List Attr} (determiner : Derives lexicon Phrase.determiner ds ns) :
      contents ds = [] := by
    cases determiner with
    | noDeterminer => rfl
    | determiner listed => exact skip listed (by decide) []
  induction h with
  | word reads =>
      rw [reads.contents_eq avoids no_literal]
      exact .cons .nil .nil .nil
  | noDeterminer | noAdverbs | noAdjectives | noItems => exact .nil
  | determiner listed =>
      rw [skip listed (by decide)]
      exact .nil
  | it =>
      rw [contents_keyword (by decide)]
      exact .nil
  | adverb _ ih | someAdverbs _ ih | single _ ih | items _ ih => exact ih
  | adverbs _ _ first_ih rest_ih | adjectives _ _ first_ih rest_ih =>
      rw [contents_append]
      exact first_ih.append rest_ih
  | adverbGroup run ih =>
      rw [ih.eq_of_bare run.adverb_run_bare]
      exact .nest_adverbs run.adverb_run_bare .nil
  | adjectivePhrase _ adjective adverbs_ih =>
      rw [contents_append]
      exact adjective.linear_before avoids no_literal adverbs_ih
  | relativeClause _ ih | itSentence _ ih =>
      rw [contents_keyword (by decide)]
      exact ih
  | noun determiner _ noun _ adjectives_ih =>
      rw [contents_append, contents_append, silent determiner, List.nil_append]
      exact noun.linear_before avoids no_literal adjectives_ih
  | nounClause determiner _ noun _ _ adjectives_ih _ clause_ih =>
      rw [contents_append, contents_append, contents_append, silent determiner, List.nil_append]
      have phrase := noun.linear_before avoids no_literal adjectives_ih
      rcases exists_attach noun.word_attrs _ with ⟨base, same⟩
      rw [same] at phrase ⊢
      exact phrase.attach_behind clause_ih
  | possession verb _ ih =>
      rw [skip verb (by decide)]
      exact ih.to_has_a
  | likeness copula _ ih | identity copula _ ih =>
      rw [skip copula (by decide)]
      exact ih
  | action _ verb _ adverbs_ih _ objects_ih =>
      rw [contents_append, contents_append]
      exact verb.linear_around avoids no_literal adverbs_ih objects_ih
  | manner verb _ _ adverbs_ih =>
      rw [contents_append]
      exact verb.linear_around avoids no_literal .nil adverbs_ih
  | subject subject real _ subject_ih predicate_ih =>
      rw [contents_append]
      rcases subject.noun_phrase_attrs.resolve_left real with ⟨noun, rfl⟩
      exact subject_ih.to_has_a.attach_behind predicate_ih
  | several _ _ first_ih rest_ih =>
      rw [contents_append, contents_keyword (by decide)]
      exact first_ih.append rest_ih

/-- The content words of a sentence are the values of all rules that it is read as, in their order:
the rules share their conditions, which come before all that is claimed or after it. -/
theorem read_all_content_order {source : Source} {words : List Word} {readings : List (List Rule)}
    {rules : List Rule} (given : source.words = .ok words)
    (read : readAll source lexicon = .ok readings) (member : rules ∈ readings) :
    ∃ body heads, rules = buildRules body heads ∧
      ∃ conditions conclusions, LinearIn body conditions ∧ LinearIn heads conclusions ∧
        (contents words = conditions ++ conclusions ∨
          contents words = conclusions ++ conditions) := by
  have meaning := (meaning_of_read_all given read member).2
  cases meaning with
  | @conditional vs ws body heads conditions conclusions =>
      refine ⟨body, heads, rfl, contents vs, contents ws, conditions.linear avoids no_literal,
        conclusions.linear avoids no_literal, .inl ?_⟩
      rw [List.cons_append, contents_keyword (by decide), contents_append,
        contents_keyword (by decide)]
  | @trailing vs ws body heads conclusion conditions =>
      refine ⟨body, heads, rfl, contents ws, contents vs, conditions.linear avoids no_literal,
        conclusion.linear avoids no_literal, .inr ?_⟩
      rw [contents_append, contents_keyword (by decide)]
  | @fact _ heads claim =>
      exact ⟨[], heads, rfl, [], contents words, .nil, claim.linear avoids no_literal, .inl rfl⟩

end Linear

theorem read_all_content_order_condition_last :
    let text := "heron that eats frog eats \"n:canada goose\" if it eats"
    let words := [.plain "heron", .plain "that", .plain "eats", .plain "frog", .plain "eats",
      .plain "\"n:canada goose\"", .plain "if", .plain "it", .plain "eats"]
    let heron : Attr := ⟨.hasA, "heron", [⟨.does, "eats", [⟨.isA, "frog", []⟩]⟩,
      ⟨.does, "eats", [⟨.isA, "canada goose", []⟩]⟩]⟩
    ∃ readings, readAll (.text text) Lexicon.marsh = .ok readings ∧
      [⟨heron, [⟨.does, "eats", []⟩]⟩] ∈ readings ∧
      ∃ body heads, [⟨heron, [⟨.does, "eats", []⟩]⟩] = buildRules body heads ∧
        ∃ conditions conclusions, LinearIn body conditions ∧ LinearIn heads conclusions ∧
          (contents words = conditions ++ conclusions ∨
            contents words = conclusions ++ conditions) := by
  intro text words heron
  have given : Source.words (.text text) = .ok words := by decide +kernel
  have clean := Lexicon.marsh_clean
  have no_literal (word : String) (category : Category)
      (listed : Lexicon.marsh.lookup word category = true) : Literal.ofSpelling? word = none :=
    of_spelling_eq_none (clean.bare word category listed).unquoted
  have spelled : Literal.ofSpelling? "\"n:canada goose\"" = some ⟨.noun, "canada goose"⟩ := by decide
  have recognized : Utterance.check ⟨words, Lexicon.marsh⟩ = .ok () := by
    simp [Utterance.check_ok_iff, Utterance.recognizes, words, Lexicon.knows, Category.all, keywords,
      spelled]
  have frog := Lexicon.marsh_noun (w := "frog") (by simp) .noDeterminer
  have goose_noun : Derives Lexicon.marsh (Phrase.word .noun) [.plain "\"n:canada goose\""]
      [⟨.isA, "canada goose", []⟩] := .word (.spelled spelled)
  have goose := Derives.noun .noDeterminer .noAdjectives goose_noun
  have clause := Derives.relativeClause (Lexicon.marsh_eats (.items (.single frog)))
  have subject := Derives.nounClause .noDeterminer .noAdjectives
    (Lexicon.marsh_word (w := "heron") (by simp)) clause
  have predicate := Lexicon.marsh_eats (.items (.single goose))
  have conclusion := Derives.subject subject (List.cons_ne_nil _ _) predicate
  have condition := Derives.itSentence (Lexicon.marsh_eats .noItems)
  have meant := DerivesRules.trailing conclusion (.single condition)
  rcases exists_read_all given clean.unlisted_it recognized meant (List.cons_ne_nil _ _) with
    ⟨readings, read, member⟩
  exact ⟨readings, read, member,
    read_all_content_order clean.avoids no_literal given read member⟩

end ControlledEnglish
