import ControlledEnglish.Proofs.Canonical.Clear
import ControlledEnglish.Proofs.Canonical.Several

/-! Rules whose gloss is a sentence again, the same one or another.

A clause can be put behind any phrase that ends with a noun, because the noun is where the grammar
asks for it. So a clear gloss is put together from its phrases, and what is not clear has words side
by side that no sentence has. -/

namespace ControlledEnglish

open Canonical
open Gloss (andJoined phrase thatIs)

variable {lexicon : Lexicon} {production : Production} {attr : Attr} {vs ws : List String}

/-- Words that are a phrase, and with a clause behind them still are if they end with a noun. -/
structure Extendable (lexicon : Lexicon) (production : Production) (words : List String) : Prop where
  means : ∃ as, Derives lexicon production (plain words) as
  more : EndsInNoun lexicon words → ∀ ws bs, Derives lexicon Phrase.verbPhrase ws bs →
    ∃ as, Derives lexicon production (plain words ++ .plain "that" :: ws) as

section Phrases

theorem EndsInNoun.of_append (some : ws ≠ []) (ends : EndsInNoun lexicon (vs ++ ws)) :
    EndsInNoun lexicon ws := by
  rcases ends with ⟨noun, last, listed⟩
  rw [List.getLast?_append_of_ne_nil _ some] at last
  exact ⟨noun, last, listed⟩

theorem EndsInNoun.append (ends : EndsInNoun lexicon ws) : EndsInNoun lexicon (vs ++ ws) := by
  rcases ends with ⟨noun, last, listed⟩
  exact ⟨noun, by rw [List.getLast?_append, last]; rfl, listed⟩

theorem Canonical.Name.ends_in_noun (name : Name lexicon) : EndsInNoun lexicon name.words :=
  ⟨name.noun.text, List.getLast?_concat, name.noun.listed⟩

namespace Extendable

theorem ne_nil (given : Extendable lexicon production ws) (advances : production.advances = true) :
    ws ≠ [] := by
  rintro rfl
  rcases given.means with ⟨as, derives⟩
  exact derives.ne_nil advances rfl

theorem behind (front : Extendable lexicon production vs) (noun : EndsInNoun lexicon vs)
    (clause : Extendable lexicon Phrase.verbPhrase ws) :
    Extendable lexicon production (vs ++ "that" :: ws) := by
  constructor
  · rcases clause.means with ⟨bs, derives⟩
    rw [plain_append, plain_cons]
    exact front.more noun _ bs derives
  · intro ends us cs more
    have last : EndsInNoun lexicon ws := by
      rw [← List.singleton_append, ← List.append_assoc] at ends
      exact ends.of_append (clause.ne_nil rfl)
    rcases clause.more last us cs more with ⟨bs, derives⟩
    rw [plain_append, plain_cons, List.append_assoc, List.cons_append]
    exact front.more noun _ bs derives

theorem after {inner : Production} (front : List String) (advances : inner.advances = true)
    (lead : ∀ us as, Derives lexicon inner us as →
      ∃ bs, Derives lexicon production (plain front ++ us) bs)
    (given : Extendable lexicon inner ws) : Extendable lexicon production (front ++ ws) := by
  constructor
  · rcases given.means with ⟨as, derives⟩
    rw [plain_append]
    exact lead _ as derives
  · intro ends us cs more
    rcases given.more (ends.of_append (given.ne_nil advances)) us cs more with ⟨as, derives⟩
    rw [plain_append, List.append_assoc]
    exact lead _ as derives

theorem single (given : Extendable lexicon Phrase.nounPhrase ws) :
    Extendable lexicon (.joined .nounPhrase) ws :=
  after [] rfl (fun _ as derives => ⟨as, .single derives⟩) given

theorem joined {parts : List (List String)} (some : parts ≠ [])
    (all : ∀ part ∈ parts, Extendable lexicon Phrase.nounPhrase part) :
    Extendable lexicon (.joined .nounPhrase) (andJoined parts) := by
  induction parts with
  | nil => exact absurd rfl some
  | cons first rest ih =>
      rcases List.forall_mem_cons.mp all with ⟨first_extends, rest_extends⟩
      by_cases none : rest = []
      · subst none
        rw [and_joined_singleton, ← List.nil_append first]
        exact after [] rfl (fun us as derives => ⟨as, .single derives⟩) first_extends
      · rcases first_extends.means with ⟨as, derives⟩
        rw [and_joined_cons none, ← List.singleton_append, ← List.append_assoc]
        apply after (first ++ ["and"]) rfl _ (ih none rest_extends)
        intro us bs others
        refine ⟨as ++ bs, ?_⟩
        rw [plain_append, List.append_assoc]
        exact .several derives others

end Extendable

theorem Canonical.Name.extendable (name : Name lexicon) :
    Extendable lexicon Phrase.nounPhrase name.words :=
  ⟨⟨_, name.derives⟩, fun _ _ _ clause => ⟨_, name.derives_clause clause⟩⟩

theorem Canonical.Head.extendable (head : Head lexicon)
    (objects : Extendable lexicon (.joined .nounPhrase) ws) :
    Extendable lexicon Phrase.verbPhrase (head.words ++ ws) :=
  .after head.words rfl (fun _ _ derives => ⟨_, head.derives derives⟩) objects

theorem Canonical.Action.extendable (clean : lexicon.IsClean) (action : Action lexicon) :
    Extendable lexicon Phrase.verbPhrase action.words := by
  refine ⟨⟨_, action.derives_alone⟩, ?_⟩
  rintro ⟨noun, last, listed⟩
  have verb : action.words.getLast? = some action.verb.text := List.getLast?_concat
  rw [verb] at last
  cases last
  exact absurd (clean.alone _ _ _ action.verb.listed listed) (by decide)

end Phrases

section Trees

theorem Attr.HasOneClause.cases (own : attr.HasOneClause lexicon) :
    attr.clauses = [] ∨ ∃ clause, attr.clauses = [clause] := by
  have few := own.few
  generalize attr.clauses = clauses at few
  rcases clauses with _ | ⟨clause, _ | ⟨second, others⟩⟩
  · exact .inl rfl
  · exact .inr ⟨clause, rfl⟩
  · exact absurd few (by simp)

structure IsPhrased (lexicon : Lexicon) (attr : Attr) : Prop where
  noun : attr.kind = .isA → Extendable lexicon Phrase.nounPhrase (phrase attr)
  clause : attr.kind = .hasA ∨ attr.kind = .does →
    ∃ ws, phrase attr = "that" :: ws ∧ Extendable lexicon Phrase.verbPhrase ws

theorem follow_extendable (name : Name lexicon) (own : attr.HasOneClause lexicon)
    (inside : ∀ child ∈ attr.children, IsPhrased lexicon child) :
    Extendable lexicon Phrase.nounPhrase (name.words ++ attr.follow) := by
  have nouns : ∀ a ∈ attr.nouns, Extendable lexicon Phrase.nounPhrase (phrase a) := by
    intro a member
    rcases List.mem_filter.mp member with ⟨child, noun⟩
    exact (inside a child).noun (of_decide_eq_true noun)
  have clauses (a : Attr) (member : a ∈ attr.clauses) :
      ∃ ws, phrase a = "that" :: ws ∧ Extendable lexicon Phrase.verbPhrase ws :=
    (inside a (List.mem_of_mem_filter member)).clause (kind_of_clause member)
  rw [Attr.follow]
  by_cases none : attr.nouns = []
  · rw [none]
    rcases own.cases with no_clause | ⟨clause, one⟩
    · rw [no_clause]
      exact (List.append_nil name.words).symm ▸ name.extendable
    · rcases clauses clause (one ▸ List.mem_cons_self) with ⟨ws, words, given⟩
      rw [one, List.map_singleton, and_joined_singleton, words]
      exact name.extendable.behind name.ends_in_noun given
  · have some : attr.nouns.map phrase ≠ [] := by simpa using none
    have said : Extendable lexicon Phrase.verbPhrase ("is" :: andJoined (attr.nouns.map phrase)) :=
      Head.is.extendable (.joined some (List.forall_mem_map.mpr nouns))
    rw [that_is_cons some]
    rcases own.cases with no_clause | ⟨clause, one⟩
    · rw [no_clause, List.map_nil, and_joined_nil, List.append_nil]
      exact name.extendable.behind name.ends_in_noun said
    · rcases clauses clause (one ▸ List.mem_cons_self) with ⟨ws, words, given⟩
      have noun : EndsInNoun lexicon ("is" :: andJoined (attr.nouns.map phrase)) := by
        rcases List.eq_nil_or_concat attr.nouns with empty | ⟨init, last, same⟩
        · exact absurd empty none
        · rw [List.concat_eq_append] at same
          have reach := own.reach (one ▸ List.cons_ne_nil clause []) last
            (same ▸ List.getLast?_concat)
          rcases exists_joined_concat (init.map phrase) (phrase last) with ⟨front, joined⟩
          rw [same, List.map_append, List.map_singleton, joined, ← List.cons_append]
          exact reach.append
      rw [one, List.map_singleton, and_joined_singleton, words]
      exact name.extendable.behind name.ends_in_noun (said.behind noun given)

theorem joined_of_few {name : Name lexicon} (few : name.qualities.length ≤ 1) (words : List String) :
    andJoined (name.qualities.map Quality.words) ++ name.noun.text :: words = name.words ++ words := by
  rcases name with ⟨qualities, noun⟩
  rcases qualities with _ | ⟨quality, _ | ⟨second, others⟩⟩
  · rfl
  · simp [Name.words, qualityWords]
  · exact absurd few (by simp)

variable (clean : lexicon.IsClean)

include clean

theorem action_extendable (action : Action lexicon) {objects : List Attr}
    (given : ∀ a ∈ objects, Extendable lexicon Phrase.nounPhrase (phrase a)) :
    Extendable lexicon Phrase.verbPhrase (action.words ++ andJoined (objects.map phrase)) := by
  by_cases none : objects = []
  · rw [none, List.map_nil, and_joined_nil, List.append_nil]
    exact action.extendable clean
  · have some : objects.map phrase ≠ [] := by simpa using none
    exact (Head.does action).extendable (.joined some (List.forall_mem_map.mpr given))

/-- The gloss of a clear tree is a noun, or a clause with its "that". -/
theorem phrased_of_clear (built : IsBuilt lexicon attr) (clear : attr.IsClear lexicon) :
    IsPhrased lexicon attr := by
  induction built with
  | quality adjective =>
      constructor
      · intro noun
        exact absurd (adjective.kind_eq.symm.trans noun) (by decide)
      · rw [adjective.kind_eq]
        rintro (had | done) <;> contradiction
  | @thing kind w children thing listed inside alike ih =>
      have built : IsBuilt lexicon ⟨kind, w, children⟩ := .thing thing listed inside alike
      have no_how := built.no_how thing
      rcases exists_name_of_thing built thing with ⟨name, named⟩
      cases clear with
      | mk own few children_clear =>
          have phrased (child : Attr) (member : child ∈ children) : IsPhrased lexicon child :=
            ih child member (children_clear child member)
          have follow := @follow_extendable _ ⟨kind, w, children⟩ name own phrased
          constructor
          · intro noun
            rw [phrase_noun no_how named noun]
            exact follow
          · intro clause
            have had : kind = .hasA := by
              rcases clause with had | done
              · exact had
              · rcases thing with rfl | rfl <;> cases done
            -- Adjectives of what is had would be joined by "and", so there is one at most.
            have one := few had
            rw [← named.qualities, List.length_map] at one
            refine ⟨_, phrase_had no_how named had, ?_⟩
            rw [joined_of_few one]
            exact Head.has.extendable follow.single
  | @action w manners objects listed how inside nouns ih =>
      cases clear with
      | mk _ _ children_clear =>
          rcases exists_action listed how with ⟨action, same⟩
          have given : ∀ a ∈ objects, Extendable lexicon Phrase.nounPhrase (phrase a) := by
            intro a member
            exact (ih a member (children_clear a (List.mem_append_right _ member))).noun
              (nouns a member)
          constructor
          · intro noun
            cases noun
          · intro _
            rw [← same, action.phrase_attr nouns]
            exact ⟨_, rfl, action_extendable clean action given⟩

/-- What is claimed of "it" is a predicate if it is readable. -/
theorem predicate_of_readable {claim : Attr} {words : List String} (built : IsBuilt lexicon claim)
    (readable : claim.IsReadable lexicon) (said : Said claim words) :
    ∃ as, Derives lexicon Phrase.verbPhrase (plain words) as := by
  cases built with
  | quality adjective =>
      rcases exists_quality adjective with ⟨quality, rfl⟩
      cases said_unique said quality.sentence_attr
      exact ⟨_, (Predicate.like quality).derives⟩
  | @thing kind w children thing listed inside alike =>
      have built : IsBuilt lexicon ⟨kind, w, children⟩ := .thing thing listed inside alike
      have no_how := built.no_how thing
      rcases exists_name_of_thing built thing with ⟨name, named⟩
      have phrased (child : Attr) (member : child ∈ children) : IsPhrased lexicon child :=
        phrased_of_clear clean (inside child member) (readable.inside child member)
      have follow := (@follow_extendable _ ⟨kind, w, children⟩ name readable.own phrased).single
      rcases thing with noun | had
      · rw [said_unique said (said_noun no_how named noun),
          besides_of_no_nouns no_how (readable.alone noun)]
        exact (Head.is.extendable follow).means
      · rw [said_unique said (said_had no_how named had)]
        exact (Head.has.extendable follow).means
  | @action w manners objects listed how inside nouns =>
      rcases exists_action listed how with ⟨action, same⟩
      have given : ∀ a ∈ objects, Extendable lexicon Phrase.nounPhrase (phrase a) := by
        intro a member
        have clear := readable.inside a (List.mem_append_right _ member)
        exact (phrased_of_clear clean (inside a member) clear).noun (nouns a member)
      rw [← same] at said
      rw [said_unique said (sentence_action action nouns)]
      exact (action_extendable clean action given).means

end Trees

section Texts

variable {claim : Attr} {claims : List Attr} {words : List String} {listed : List (List String)}

theorem infix_text (conclusion : List String) :
    conclusion <:+: textWords listed conclusion ∧
      ∀ words ∈ listed, words <:+: textWords listed conclusion := by
  cases listed with
  | nil => exact ⟨List.infix_cons (List.infix_refl _), List.forall_mem_nil _⟩
  | cons first rest =>
      rw [textWords]
      constructor
      · exact List.infix_append_of_infix_right
          (List.infix_cons (List.infix_cons (List.infix_refl _)))
      · intro words member
        have said : "it" :: words <:+: andJoined ((first :: rest).map fun words => "it" :: words) :=
          infix_and_joined (List.mem_map_of_mem member)
        have inside : words <:+: "it" :: words := List.infix_cons (List.infix_refl _)
        exact List.infix_append_of_infix_left (List.infix_cons (inside.trans said))

theorem exists_said (some : listed ≠ [])
    (each : ∀ words ∈ listed, ∃ as, Derives lexicon Phrase.verbPhrase (plain words) as) :
    ∃ as, Derives lexicon (.joined .sentence)
      (plain (andJoined (listed.map fun words => "it" :: words))) as := by
  induction listed with
  | nil => exact absurd rfl some
  | cons first rest ih =>
      rcases List.forall_mem_cons.mp each with ⟨⟨as, predicate⟩, others⟩
      have sentence : Derives lexicon Phrase.sentence (plain ("it" :: first)) as := .itSentence predicate
      by_cases none : rest = []
      · subst none
        rw [List.map_singleton, and_joined_singleton]
        exact ⟨as, .single sentence⟩
      · rcases ih none others with ⟨bs, joined⟩
        rw [List.map_cons, and_joined_cons (by simpa using none), plain_append]
        exact ⟨as ++ bs, .several sentence joined⟩

theorem forall_said_iff {P : Attr → Prop} {Q : List String → Prop}
    (same : ∀ claim words, IsBuilt lexicon claim → Said claim words → (P claim ↔ Q words))
    (built : ∀ claim ∈ claims, IsBuilt lexicon claim)
    (stated : List.Forall₂ (Stated lexicon) claims listed) :
    (∀ claim ∈ claims, P claim) ↔ ∀ words ∈ listed, Q words := by
  induction stated with
  | nil => exact iff_of_true (List.forall_mem_nil _) (List.forall_mem_nil _)
  | cons first rest ih =>
      rcases List.forall_mem_cons.mp built with ⟨first_built, rest_built⟩
      rw [List.forall_mem_cons, List.forall_mem_cons, same _ _ first_built first.said, ih rest_built]

theorem Derives.passes {ws : List Word} {as : List Attr}
    (predicate : Derives lexicon Phrase.verbPhrase ws as) : Passes lexicon ws := by
  rcases predicate.runs .free (by decide) with ⟨t, -, runs⟩
  exact ⟨_, t, runs⟩

theorem DerivesRules.passes {ws : List Word} {rules : List Rule}
    (meant : DerivesRules lexicon ws rules) : Passes lexicon ws :=
  ⟨.free, meant.runs⟩

variable (clean : lexicon.IsClean)

include clean

theorem readable_iff_predicate (built : IsBuilt lexicon claim) (said : Said claim words) :
    claim.IsReadable lexicon ↔ ∃ as, Derives lexicon Phrase.verbPhrase (plain words) as := by
  constructor
  · exact fun readable => predicate_of_readable clean built readable said
  · rintro ⟨as, predicate⟩
    exact readable_of_passes clean built said predicate.passes

theorem readable_iff_passes (built : IsBuilt lexicon claim) (said : Said claim words) :
    claim.IsReadable lexicon ↔ Passes lexicon (plain words) := by
  constructor
  · intro readable
    rcases predicate_of_readable clean built readable said with ⟨as, predicate⟩
    exact predicate.passes
  · exact readable_of_passes clean built said

theorem exists_meaning (head : Stated lexicon claim words)
    (conclusion : ∃ as, Derives lexicon Phrase.verbPhrase (plain words) as)
    (conditions : ∀ words ∈ listed, ∃ as, Derives lexicon Phrase.verbPhrase (plain words) as) :
    ∃ rules, rules ≠ [] ∧ DerivesRules lexicon (plain (textWords listed words)) rules := by
  rcases conclusion with ⟨heads, predicate⟩
  have some : heads ≠ [] :=
    predicate.attrs_ne_nil clean rfl (head.count_and_used clean).2 (predicate.ne_nil rfl)
  have rules_some (body : List Attr) : buildRules body heads ≠ [] := mt List.map_eq_nil_iff.mp some
  have said : Derives lexicon Phrase.sentence (plain ("it" :: words)) heads := .itSentence predicate
  cases listed with
  | nil => exact ⟨buildRules [] heads, rules_some [], .fact said⟩
  | cons first rest =>
      rcases exists_said (List.cons_ne_nil first rest) conditions with ⟨body, joined⟩
      refine ⟨buildRules body heads, rules_some body, ?_⟩
      rw [textWords, plain_append]
      exact .conditional joined (.single said)

theorem meant_iff_readable {rule : Rule} (built : ∀ atom ∈ rule.head :: rule.body, IsBuilt lexicon atom)
    (head : Stated lexicon rule.head words) (body : List.Forall₂ (Stated lexicon) rule.body listed) :
    (∃ rules, rules ≠ [] ∧ DerivesRules lexicon (plain (textWords listed words)) rules) ↔
      rule.IsReadable lexicon := by
  rcases List.forall_mem_cons.mp built with ⟨head_built, body_built⟩
  constructor
  · rintro ⟨rules, -, meant⟩
    rcases infix_text words with ⟨conclusion, conditions⟩
    constructor
    · exact (readable_iff_passes clean head_built head.said).mpr (meant.passes.inside conclusion)
    · apply (forall_said_iff (fun _ _ => readable_iff_passes clean) body_built body).mpr
      exact fun words member => meant.passes.inside (conditions words member)
  · rintro ⟨conclusion, conditions⟩
    apply exists_meaning clean head
    · exact (readable_iff_predicate clean head_built head.said).mp conclusion
    · exact (forall_said_iff (fun _ _ => readable_iff_predicate clean) body_built body).mp conditions

end Texts

/-- What is read first, of a sentence in words of the lexicon, has a gloss that is a sentence again
exactly if every claim in it is readable. -/
theorem read_gloss_ok_iff {lexicon : Lexicon} (clean : lexicon.IsClean) {source : Source}
    {words : List Word} {rule : Rule} (given : source.words = .ok words)
    (made : ∀ w ∈ words, ∃ word, w = .plain word ∧ (word ∈ keywords ∨ lexicon.knows word = true))
    (first : read source lexicon = .ok [rule]) :
    (∃ rules, read (.text (Value.glossRules [rule])) lexicon = .ok rules) ↔
      rule.IsReadable lexicon := by
  have bare := clean.bare_of_made made
  have meant := (Utterance.meaning_of_mem_readings
    (List.mem_of_head? (first_reading_of_read given first))).2
  rcases exists_stated_atoms clean bare meant List.mem_cons_self with ⟨claim, listed, head, body⟩
  have built := meant.built clean bare List.mem_cons_self
  have gloss := gloss_rules_of_said head.said (body.imp fun _ _ stated => stated.said)
  have used := text_words_used clean head body
  have spaced_words := words_spaced (words_bare_of_used used clean.writable)
  rw [← meant_iff_readable clean built head body, Value.glossRules, gloss]
  dsimp only
  constructor
  · rintro ⟨rules, again⟩
    have member := List.mem_of_head? (first_reading_of_read spaced_words again)
    exact ⟨rules, Utterance.meaning_of_mem_readings member⟩
  · rintro ⟨rules, meaning⟩
    have member : rules ∈ Utterance.readings ⟨plain (textWords listed claim), lexicon⟩ :=
      (Utterance.mem_readings_iff clean.unlisted_it).mpr meaning
    rcases List.exists_cons_of_ne_nil (List.ne_nil_of_mem member) with ⟨best, others, readings⟩
    refine ⟨best, ?_⟩
    rw [read_ok spaced_words (recognized_of_used used), readings]
    rfl

section Marsh

open Marsh

theorem read_gloss_ok_two_objects :
    let frog_and_heron : List Attr := [⟨.isA, "frog", []⟩, ⟨.isA, "heron", []⟩]
    let rule : Rule := ⟨⟨.hasA, "heron", [⟨.does, "eats", frog_and_heron⟩]⟩, []⟩
    let words := ["heron", "eats", "frog", "and", "heron"]
    Lexicon.marsh.IsClean ∧ Source.words (.text "heron eats frog and heron") = .ok (plain words) ∧
      (∀ w ∈ plain words, ∃ word, w = .plain word ∧
        (word ∈ keywords ∨ Lexicon.marsh.knows word = true)) ∧
      read (.text "heron eats frog and heron") Lexicon.marsh = .ok [rule] ∧
      rule.IsReadable Lexicon.marsh ∧
      ∃ rules, read (.text (Value.glossRules [rule])) Lexicon.marsh = .ok rules := by
  intro frog_and_heron rule words
  have clean := Lexicon.marsh_clean
  obtain ⟨given, made, first⟩ := two_objects_read
  have bare (noun : String) : (Attr.mk .isA noun []).IsClear Lexicon.marsh :=
    .mk (one_clause_of_none (List.forall_mem_nil _)) (fun had => by cases had) (List.forall_mem_nil _)
  have clause : (Attr.mk .does "eats" frog_and_heron).IsClear Lexicon.marsh := by
    refine .mk (one_clause_of_none (by decide)) (fun had => by cases had) ?_
    exact List.forall_mem_cons.mpr ⟨bare "frog", List.forall_mem_singleton.mpr (bare "heron")⟩
  have own : rule.head.HasOneClause Lexicon.marsh := ⟨by decide, fun _ _ none => by cases none⟩
  have readable : rule.IsReadable Lexicon.marsh := by
    refine ⟨⟨own, ?_, List.forall_mem_singleton.mpr clause⟩, List.forall_mem_nil _⟩
    intro noun
    cases noun
  exact ⟨clean, given, made, first, readable, (read_gloss_ok_iff clean given made first).mpr readable⟩

/-- Both things that a heron has are clauses of its gloss, and no noun has two. -/
theorem read_gloss_fails_two_clauses :
    let rule : Rule := ⟨⟨.hasA, "heron", [⟨.hasA, "frog", []⟩, ⟨.hasA, "heron", []⟩]⟩, []⟩
    let words := ["heron", "has", "frog", "and", "heron"]
    Lexicon.marsh.IsClean ∧ Source.words (.text "heron has frog and heron") = .ok (plain words) ∧
      (∀ w ∈ plain words, ∃ word, w = .plain word ∧
        (word ∈ keywords ∨ Lexicon.marsh.knows word = true)) ∧
      read (.text "heron has frog and heron") Lexicon.marsh = .ok [rule] ∧
      ∀ rules, read (.text (Value.glossRules [rule])) Lexicon.marsh ≠ .ok rules := by
  intro rule words
  have clean := Lexicon.marsh_clean
  let predicate : Predicate Lexicon.marsh := .nested .has (.more (.bare frog) (.one (.bare heron)))
  have settled : predicate.IsSettled := trivial
  obtain ⟨given, made, first⟩ : IsRead "heron has frog and heron" words [rule] :=
    .of_spaced (read_subject clean heron settled) rfl (by decide) (by cbv)
  refine ⟨clean, given, made, first, ?_⟩
  intro rules again
  let gloss := ["it", "has", "heron", "that", "has", "frog", "and", "that", "has", "heron"]
  have same : Value.glossRules [rule] = spaced gloss := by cbv
  rw [same] at again
  have again := first_reading_of_read (words_spaced (by decide)) again
  have meant := (Utterance.meaning_of_mem_readings (List.mem_of_head? again)).2
  have inside : ["and", "that"] <:+: gloss :=
    ⟨["it", "has", "heron", "that", "has", "frog"], ["has", "heron"], rfl⟩
  exact no_and_that clean (meant.passes.inside inside)

end Marsh

end ControlledEnglish
