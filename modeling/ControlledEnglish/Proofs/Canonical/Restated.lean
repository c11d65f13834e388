import ControlledEnglish.Proofs.Canonical.Faithful

namespace ControlledEnglish

namespace Canonical

open Gloss (andJoined phrase parts clauses)

variable {lexicon : Lexicon} {vs ws : List Word} {as bs : List Attr} {words : List String}

def StartsWell (words : List String) : Prop := ∃ w, words.head? = some w ∧ w ≠ "and"

theorem StartsWell.append (starts : StartsWell words) (more : List String) :
    StartsWell (words ++ more) := by
  rcases starts with ⟨w, head, no_and⟩
  exact ⟨w, by rw [List.head?_append, head]; rfl, no_and⟩

theorem starts_well_flatten {listed : List (List String)} (all : ∀ part ∈ listed, StartsWell part)
    {value : String} (no_and : value ≠ "and") : StartsWell (listed.flatten ++ [value]) := by
  cases listed with
  | nil => exact ⟨value, rfl, no_and⟩
  | cons first rest =>
      rw [List.flatten_cons, List.append_assoc]
      exact (all first List.mem_cons_self).append _

theorem starts_well_joined {listed : List (List String)} (all : ∀ part ∈ listed, StartsWell part)
    {value : String} (no_and : value ≠ "and") : StartsWell (andJoined listed ++ [value]) := by
  cases listed with
  | nil => exact ⟨value, rfl, no_and⟩
  | cons first rest =>
      have starts := all first List.mem_cons_self
      cases rest with
      | nil =>
          rw [and_joined_singleton]
          exact starts.append _
      | cons next rest =>
          rw [and_joined_cons_cons, List.append_assoc]
          exact starts.append _

theorem starts_well_among {children : List Attr} (all : ∀ child ∈ children, StartsWell (phrase child))
    (keep : Gloss.Part → Bool) :
    ∀ part ∈ ((parts children).filter keep).map Gloss.Part.words, StartsWell part := by
  rw [List.forall_mem_map]
  intro part member
  have inside := List.mem_of_mem_filter member
  rw [Gloss.parts_eq_map] at inside
  rcases List.mem_map.mp inside with ⟨child, listed, rfl⟩
  exact all child listed

theorem starts_well_phrase (clean : lexicon.IsClean) {attr : Attr}
    (worded : attr.IsWorded lexicon) : StartsWell (phrase attr) := by
  have no_and {w : String} {category : Category} (listed : lexicon.lookup w category = true) :
      w ≠ "and" := by
    rintro rfl
    exact clean.no_keyword _ _ listed (by decide)
  induction worded with
  | @mk kind w category children listed inside ih =>
      have that : StartsWell ["that"] := ⟨"that", rfl, by decide⟩
      rw [phrase]
      cases kind with
      | isA =>
          rw [Gloss.phraseOf]
          exact (starts_well_flatten (starts_well_among ih _) (no_and listed)).append _
      | does => exact ⟨"that", rfl, by decide⟩
      | hasA => exact ⟨"that", rfl, by decide⟩
      | isLike | isHow =>
          have all := starts_well_among ih fun _ => true
          rw [List.filter_true] at all
          exact starts_well_flatten all (no_and listed)

structure Stated (lexicon : Lexicon) (claim : Attr) (words : List String) : Prop where
  worded : claim.IsWorded lexicon
  said : Said claim words

namespace Stated

variable {claim : Attr}

theorem count_and_used (clean : lexicon.IsClean) (stated : Stated lexicon claim words) :
    (plain words).countP Word.isContent = claim.size ∧ AreUsed lexicon (plain words) := by
  rcases Gloss.sentence_words clean stated.worded stated.said with ⟨predicate, same, count, used⟩
  cases same
  refine ⟨count, ?_⟩
  intro w member
  rcases List.mem_map.mp member with ⟨word, inside, rfl⟩
  exact ⟨word, rfl, used word inside⟩

theorem starts_well (clean : lexicon.IsClean) (stated : Stated lexicon claim words) :
    StartsWell words := by
  rcases stated with ⟨worded, said⟩
  cases worded with
  | @mk kind w category children listed inside =>
      have starts : ∀ child ∈ children, StartsWell (phrase child) :=
        fun child member => starts_well_phrase clean (inside child member)
      have no_and : w ≠ "and" := by
        rintro rfl
        exact clean.no_keyword _ _ listed (by decide)
      cases kind with
      | does =>
          cases said
          exact (starts_well_joined (starts_well_among starts _) no_and).append _
      | hasA =>
          cases said
          exact ⟨"has", rfl, by decide⟩
      | isA | isLike =>
          cases said
          exact ⟨"is", rfl, by decide⟩
      | isHow => cases said

end Stated

section Clean

variable (clean : lexicon.IsClean)

include clean

theorem it_of_noun (h : Derives lexicon Phrase.nounPhrase (.plain "it" :: vs) as) : as = [] := by
  generalize same : .plain "it" :: vs = ws at h
  have named {ds us xs rest : List Word} {ns as bs : List Attr}
      (determiner : Derives lexicon Phrase.determiner ds ns)
      (adjectives : Derives lexicon Phrase.adjectivePhrases us as)
      (noun : Derives lexicon (Phrase.word .noun) xs bs)
      (same : .plain "it" :: vs = ds ++ us ++ xs ++ rest) : False := by
    have others := Derives.ne_it_of_noun clean.unlisted_it determiner adjectives noun
    rcases noun.exists_eq_singleton with ⟨w, text, -, rfl, -⟩
    rcases List.exists_cons_of_ne_nil (List.append_ne_nil_of_right_ne_nil (ds ++ us)
      (List.cons_ne_nil w [])) with ⟨first, more, words⟩
    rw [words] at same others
    exact others first List.mem_cons_self (List.cons.inj same).1.symm
  cases h with
  | it => rfl
  | noun determiner adjectives noun =>
      rw [← List.append_nil (_ ++ _)] at same
      exact (named determiner adjectives noun same).elim
  | nounClause determiner adjectives noun clause =>
      exact (named determiner adjectives noun same).elim

theorem predicate_of_it (h : Derives lexicon Phrase.sentence (.plain "it" :: vs) as) :
    Derives lexicon Phrase.verbPhrase vs as := by
  generalize same : .plain "it" :: vs = ws at h
  cases h with
  | itSentence predicate =>
      cases same
      exact predicate
  | @subject us ws as bs subject real predicate =>
      rcases List.exists_cons_of_ne_nil (subject.ne_nil rfl) with ⟨first, more, rfl⟩
      cases same
      exact absurd (it_of_noun clean subject) real

theorem no_predicate_behind_it {next : Word} {rest : List Word} (no_and : next ≠ .plain "and") :
    ¬Derives lexicon Phrase.verbPhrase (vs ++ .plain "it" :: next :: rest) as := by
  intro predicate
  have ends := predicate.it_ends clean (by decide)
  have behind := (List.isChain_append.mp ends).2.1
  exact no_and ((List.isChain_cons_cons.mp behind).1 rfl)

/-- What is said first of "it" ends before the next "it", and no noun can start earlier. -/
theorem divided_said {next : Word} {rest : List Word}
    (predicate : Derives lexicon Phrase.verbPhrase vs as)
    (others : Derives lexicon (.joined .sentence) ws bs) (used : AreUsed lexicon (plain words))
    (no_and : next ≠ .plain "and")
    (enough : AreUsed lexicon vs →
      (plain words).countP Word.isContent ≤ vs.countP Word.isContent)
    (same : vs ++ .plain "and" :: ws =
      plain words ++ .plain "and" :: .plain "it" :: next :: rest) :
    vs = plain words ∧ ws = .plain "it" :: next :: rest := by
  rcases append_cons_cases same with equal | ⟨between, before, behind⟩ | ⟨between, before, behind⟩
  · exact equal
  · -- The words end where other sentences start, too early for the ones that are said.
    exfalso
    have vs_used : AreUsed lexicon vs := by
      rw [before] at used
      exact (are_used_append.mp used).1
    have count := enough vs_used
    rw [before, List.countP_append, List.countP_cons] at count
    have none : between.countP Word.isContent = 0 := by omega
    have starts := others.joined_starts fun _ _ h => h.sentence_starts clean
    rw [behind] at starts
    cases between with
    | nil =>
        rcases starts with ⟨w, head, options⟩
        cases head
        rcases options with content | ⟨keyword, listed, same⟩
        · exact absurd content (by decide)
        · cases same
          exact absurd listed (by decide)
    | cons first between =>
        rw [before] at used
        have inside := (are_used_append.mp used).2.of_cons
        rcases starts with ⟨w, head, options⟩
        have opens : StartsNoun (first :: between) := ⟨w, head, options⟩
        rcases opens.content clean inside with ⟨v, found, content⟩
        exact List.countP_eq_zero.mp none v (List.mem_of_head? found) content
  · -- The words go on behind the next "it".
    exfalso
    rcases between with _ | ⟨it, _ | ⟨after, between⟩⟩
    · exact absurd (List.cons.inj behind).1 (by decide)
    · exact no_and (List.cons.inj (List.cons.inj behind).2).1
    · rcases List.cons.inj behind with ⟨rfl, next_words⟩
      rw [(List.cons.inj next_words).1] at no_and
      rw [before, ← List.singleton_append, ← List.append_assoc] at predicate
      exact no_predicate_behind_it clean no_and predicate

omit clean in
theorem exists_it_of_append {us : List Word} (some : us ≠ [])
    (same : us ++ vs = .plain "it" :: ws) : ∃ rest, us = .plain "it" :: rest ∧ rest ++ vs = ws := by
  cases us with
  | nil => exact absurd rfl some
  | cons u us =>
      cases same
      exact ⟨us, rfl, rfl⟩

theorem recover_statement {claim : Attr} (stated : Stated lexicon claim words)
    (given : Derives lexicon (.joined .sentence) (plain ("it" :: words)) [claim]) :
    ∃ predicate : Predicate lexicon, predicate.IsGlossed ∧ predicate.words = words ∧
      predicate.attrs = [claim] := by
  have used := (stated.count_and_used clean).2
  rw [plain_cons] at given
  generalize text : .plain "it" :: plain words = ws at given
  generalize alone : [claim] = claims at given
  cases given with
  | single one =>
      subst text alone
      exact recover_predicate clean (predicate_of_it clean one) used stated.said rfl
  | several first rest =>
      exfalso
      rcases exists_it_of_append (first.ne_nil rfl) text.symm with ⟨vs, rfl, inner⟩
      rw [← inner] at used
      rcases are_used_append.mp used with ⟨first_used, rest_used⟩
      have predicate := predicate_of_it clean first
      have first_some := predicate.attrs_ne_nil clean rfl first_used (predicate.ne_nil rfl)
      have rest_some := rest.attrs_ne_nil clean rfl rest_used.of_cons (rest.ne_nil rfl)
      rcases List.append_eq_singleton_iff.mp alone.symm with ⟨none, -⟩ | ⟨-, none⟩
      · exact first_some none
      · exact rest_some none

theorem first_statement {claim : Attr} {claims : List Attr} {next : Word} {rest : List Word}
    (stated : Stated lexicon claim words) (predicate : Derives lexicon Phrase.verbPhrase vs as)
    (others : Derives lexicon (.joined .sentence) ws bs) (no_and : next ≠ .plain "and")
    (alone : claim :: claims = as ++ bs)
    (same : vs ++ .plain "and" :: ws =
      plain words ++ .plain "and" :: .plain "it" :: next :: rest) :
    vs = plain words ∧ as = [claim] ∧ ws = .plain "it" :: next :: rest ∧ bs = claims := by
  rcases stated.count_and_used clean with ⟨count, used⟩
  have size := predicate.content_eq clean.avoids
  have starts (vs_used : AreUsed lexicon vs) : ∃ more, as = claim :: more := by
    have some := predicate.attrs_ne_nil clean rfl vs_used (predicate.ne_nil rfl)
    rcases List.exists_cons_of_ne_nil some with ⟨a, more, rfl⟩
    exact ⟨more, by rw [(List.cons.inj alone).1]⟩
  have enough (vs_used : AreUsed lexicon vs) :
      (plain words).countP Word.isContent ≤ vs.countP Word.isContent := by
    rcases starts vs_used with ⟨more, rfl⟩
    rw [count, size, Attr.sizes_cons]
    exact Nat.le_add_right _ _
  rcases divided_said clean predicate others used no_and enough same with ⟨rfl, rfl⟩
  rcases starts used with ⟨more, rfl⟩
  have none : more = [] := by
    rw [count, Attr.sizes_cons] at size
    exact Attr.eq_nil_of_sizes (by omega)
  subst none
  rw [List.singleton_append] at alone
  exact ⟨rfl, rfl, rfl, (List.cons.inj alone).2.symm⟩

theorem recover_said {claims : List Attr} {listed : List (List String)}
    (stated : List.Forall₂ (Stated lexicon) claims listed) (some : claims ≠ [])
    (given : Derives lexicon (.joined .sentence)
      (plain (andJoined (listed.map fun words => "it" :: words))) claims) :
    ∃ predicates : List (Predicate lexicon), (∀ predicate ∈ predicates, predicate.IsGlossed) ∧
      predicates.map Predicate.words = listed ∧ saidAttrs predicates = claims := by
  induction stated with
  | nil => exact absurd rfl some
  | @cons claim words claims listed first rest ih =>
      cases rest with
      | nil =>
          rw [List.map_singleton, and_joined_singleton] at given
          rcases recover_statement clean first given with ⟨predicate, glossed, same, attrs⟩
          refine ⟨[predicate], List.forall_mem_singleton.mpr glossed, ?_, ?_⟩
          · rw [List.map_singleton, same]
          · rw [said_attrs_singleton, attrs]
      | @cons next next_words others others_words second rest =>
          rw [List.map_cons, List.map_cons, and_joined_cons_cons, ← List.map_cons, List.cons_append,
            plain_cons, plain_append, plain_cons] at given
          rcases second.starts_well clean with ⟨after, head, no_and⟩
          rcases List.head?_eq_some_iff.mp head with ⟨more, rfl⟩
          rcases exists_joined_append ("it" :: after :: more)
            (others_words.map fun words => "it" :: words) with ⟨tail, joined⟩
          have no_and : Word.plain after ≠ .plain "and" := fun same => no_and (Word.plain.inj same)
          have behind : plain (andJoined (((after :: more) :: others_words).map fun words =>
              "it" :: words)) = .plain "it" :: .plain after :: plain (more ++ tail) := by
            rw [List.map_cons, joined]
            rfl
          rw [behind] at given ih
          generalize text : .plain "it" :: (plain words ++ _) = ws at given
          generalize alone : claim :: next :: others = claims at given
          cases given with
          -- One sentence would have to go on behind the second "it".
          | single one =>
              subst text
              have predicate := predicate_of_it clean one
              rw [← List.singleton_append, ← List.append_assoc] at predicate
              exact absurd predicate (no_predicate_behind_it clean no_and)
          | @several _ us vs bs cs sentence sentences =>
              -- The first sentence says the first claim about the first "it", and so on.
              rcases exists_it_of_append (sentence.ne_nil rfl) text.symm with ⟨us, rfl, inner⟩
              have predicate := predicate_of_it clean sentence
              rcases first_statement clean first predicate sentences no_and alone inner with
                ⟨rfl, rfl, rfl, rfl⟩
              rcases recover_predicate clean predicate (first.count_and_used clean).2 first.said rfl
                with ⟨predicate, glossed, same, attrs⟩
              rcases ih (List.cons_ne_nil _ _) sentences with
                ⟨predicates, all_glossed, rest_same, rest_attrs⟩
              refine ⟨predicate :: predicates, List.forall_mem_cons.mpr ⟨glossed, all_glossed⟩, ?_, ?_⟩
              · rw [List.map_cons, same, rest_same]
              · rw [said_attrs_cons, attrs, rest_attrs]

end Clean

theorem exists_stated (clean : lexicon.IsClean) {claim : Attr} (worded : claim.IsWorded lexicon)
    (kind : claim.kind ≠ .isHow) : ∃ words, Stated lexicon claim words := by
  rcases Gloss.exists_sentence kind with ⟨words, said⟩
  rcases Gloss.sentence_words clean worded said with ⟨predicate, rfl, -⟩
  exact ⟨predicate, worded, said⟩

theorem exists_all_stated (clean : lexicon.IsClean) {claims : List Attr}
    (worded : ∀ claim ∈ claims, claim.IsWorded lexicon)
    (kinds : ∀ claim ∈ claims, claim.kind ≠ .isHow) :
    ∃ listed, List.Forall₂ (Stated lexicon) claims listed := by
  induction claims with
  | nil => exact ⟨[], .nil⟩
  | cons claim claims ih =>
      rcases List.forall_mem_cons.mp worded with ⟨first_worded, rest_worded⟩
      rcases List.forall_mem_cons.mp kinds with ⟨first_kind, rest_kinds⟩
      rcases exists_stated clean first_worded first_kind with ⟨words, first⟩
      rcases ih rest_worded rest_kinds with ⟨listed, rest⟩
      exact ⟨words :: listed, .cons first rest⟩

theorem text_words_used (clean : lexicon.IsClean) {claim : Attr} {claims : List Attr}
    {words : List String} {listed : List (List String)} (head : Stated lexicon claim words)
    (body : List.Forall₂ (Stated lexicon) claims listed) :
    ∀ word ∈ textWords listed words, word ∈ ["if", "then", "it"] ∨ IsUsed lexicon word := by
  have said {claim : Attr} {words : List String} (stated : Stated lexicon claim words) :
      ∀ word ∈ "it" :: words, word ∈ ["if", "then", "it"] ∨ IsUsed lexicon word := by
    rw [List.forall_mem_cons]
    refine ⟨.inl (by decide), ?_⟩
    intro word member
    rcases (stated.count_and_used clean).2 (.plain word) (List.mem_map_of_mem member) with
      ⟨own, same, used⟩
    cases same
    exact .inr used
  have all : ∀ part ∈ listed.map fun words => "it" :: words,
      ∀ word ∈ part, word ∈ ["if", "then", "it"] ∨ IsUsed lexicon word := by
    rw [List.forall_mem_map]
    clear head
    induction body with
    | nil => exact List.forall_mem_nil _
    | cons first rest ih => exact List.forall_mem_cons.mpr ⟨said first, ih⟩
  cases listed with
  | nil => exact said head
  | cons first rest =>
      have conditions := forall_mem_and_joined (.inr (.inl (by decide))) all
      rw [textWords, List.cons_append, List.forall_mem_cons, List.forall_mem_append,
        List.forall_mem_cons]
      exact ⟨.inl (by decide), conditions, .inl (by decide), said head⟩

/-- Whoever derives a rule from its gloss has derived a canonical sentence. -/
theorem recover_sentence (clean : lexicon.IsClean) {rule : Rule} {listed : List (List String)}
    (head : Stated lexicon rule.head words)
    (body : List.Forall₂ (Stated lexicon) rule.body listed)
    (given : DerivesRules lexicon (plain (textWords listed words)) [rule]) :
    ∃ sentence : Sentence lexicon, sentence.IsGlossed ∧ sentence.words = textWords listed words ∧
      sentence.rules = [rule] := by
  rcases rule with ⟨claim, conditions⟩
  have used := (head.count_and_used clean).2
  generalize text : plain (textWords listed words) = ws at given
  generalize alone : [Rule.mk claim conditions] = rules at given
  cases body with
  | nil =>
      rw [textWords, plain_cons] at text
      cases given with
      | conditional => exact absurd (List.cons.inj text).1 (by decide)
      | trailing =>
          -- Without conditions there is no "if" in the gloss.
          have inside : .plain "if" ∈ Word.plain "it" :: plain words := by
            rw [text]
            exact List.mem_append_right _ List.mem_cons_self
          rcases List.mem_cons.mp inside with same | inside
          · exact absurd same (by decide)
          · exact absurd inside (used.outer_not_mem clean (by decide) (by decide))
      | fact said =>
          rcases List.map_eq_singleton_iff.mp alone.symm with ⟨own, rfl, same⟩
          cases same
          rw [← text] at said
          rcases recover_statement clean head (.single said) with ⟨predicate, glossed, rfl, attrs⟩
          refine ⟨⟨[], predicate⟩, ⟨List.forall_mem_nil _, glossed⟩, rfl, ?_⟩
          rw [Sentence.rules, attrs]
          rfl
  | cons first rest =>
      cases given with
      | trailing said =>
          have opens := congrArg List.head? text
          rcases List.exists_cons_of_ne_nil (said.ne_nil rfl) with ⟨w, more, rfl⟩
          cases opens
          exact absurd List.mem_cons_self (said.outer_not_mem clean.avoids (by decide))
      | fact said =>
          rw [← text] at said
          exact absurd List.mem_cons_self (said.outer_not_mem clean.avoids (by decide))
      | conditional body_said head_said =>
          rcases List.map_eq_singleton_iff.mp alone.symm with ⟨own, rfl, same⟩
          cases same
          rw [textWords, plain_append, plain_cons, plain_cons] at text
          have inner := (List.cons.inj text).2
          -- There is one "then", so the text is divided where it was put together.
          rcases (List.append_cons_inj_of_notMem (body_said.outer_not_mem clean.avoids (by decide))
            (head_said.outer_not_mem clean.avoids (by decide))).mp inner.symm with ⟨rfl, -, rfl⟩
          rcases recover_said clean (.cons first rest) (List.cons_ne_nil _ _) body_said with
            ⟨predicates, all_glossed, same, attrs⟩
          rcases recover_statement clean head head_said with ⟨predicate, glossed, rfl, attrs'⟩
          refine ⟨⟨predicates, predicate⟩, ⟨all_glossed, glossed⟩, ?_, ?_⟩
          · rw [Sentence.words_eq, same]
          · rw [Sentence.rules, attrs, attrs']

end Canonical

end ControlledEnglish
