import ControlledEnglish.Proofs.Canonical.Preserved

/-! Several rules at once.

The rules that one sentence becomes are glossed one after the other, with "and" between every two,
and every one of them repeats its "it" and its "if". But no predicate goes on behind another "it",
and there is one "if" in a text. So the gloss of several rules has no reading at all. -/

namespace ControlledEnglish

namespace Canonical

open Gloss (andJoined)

variable {lexicon : Lexicon} {words : List String} {listed claims : List (List String)}
  {rules : List Rule} {heads body : List Attr}

theorem gloss_clause_of_said {rule : Rule} (head : Said rule.head words)
    (conditions : List.Forall₂ Said rule.body listed) :
    rule.clause.gloss? = some (textWords listed words) := by
  have alone := gloss_rules_of_said head conditions
  rw [glossRules?, List.map_singleton, Clause.glossAll?, Clause.glosses?, Clause.glosses?] at alone
  cases same : rule.clause.gloss? with
  | none =>
      rw [same] at alone
      cases alone
  | some text =>
      rw [same] at alone
      rw [← Option.some.inj alone]
      exact congrArg some (and_joined_singleton text).symm

theorem gloss_rules_of_all_said (said : List.Forall₂ Said heads claims)
    (conditions : List.Forall₂ Said body listed) :
    glossRules? (buildRules body heads) = some (andJoined (claims.map (textWords listed))) := by
  have texts : Clause.glosses? ((buildRules body heads).map Rule.clause) =
      some (claims.map (textWords listed)) := by
    induction said with
    | nil => rfl
    | @cons head words heads claims first rest ih =>
        have clause := @gloss_clause_of_said words listed ⟨head, body⟩ first conditions
        rw [buildRules, List.map_cons, List.map_cons, ← buildRules, Clause.glosses?, clause, ih]
        rfl
  rw [glossRules?, Clause.glossAll?, texts]
  rfl

theorem one_if (avoids : lexicon.AvoidsKeywords) {ws : List Word}
    (meant : DerivesRules lexicon (.plain "if" :: ws) rules) : .plain "if" ∉ ws := by
  have no_if {production : Production} {vs : List Word} {as : List Attr}
      (derives : Derives lexicon production vs as) : .plain "if" ∉ vs :=
    derives.outer_not_mem avoids (by decide)
  generalize text : Word.plain "if" :: ws = given at meant
  cases meant with
  | conditional conditions conclusions =>
      cases text
      intro member
      rcases List.mem_append.mp member with before | behind
      · exact no_if conditions before
      · rcases List.mem_cons.mp behind with same | behind
        · exact absurd same (by decide)
        · exact no_if conclusions behind
  | trailing conclusion conditions =>
      rcases List.exists_cons_of_ne_nil (conclusion.ne_nil rfl) with ⟨first, more, rfl⟩
      cases text
      exact absurd List.mem_cons_self (no_if conclusion)
  | fact claim =>
      subst text
      exact absurd List.mem_cons_self (no_if claim)

section Clean

variable (clean : lexicon.IsClean)

include clean

theorem facts_used (stated : List.Forall₂ (Stated lexicon) heads claims) :
    ∀ word ∈ andJoined (claims.map (textWords [])), word ∈ ["it"] ∨ IsUsed lexicon word := by
  have all : ∀ text ∈ claims.map (textWords []),
      ∀ word ∈ text, word ∈ ["it"] ∨ IsUsed lexicon word := by
    rw [List.forall_mem_map]
    induction stated with
    | nil => exact List.forall_mem_nil _
    | cons first rest ih =>
        rw [List.forall_mem_cons]
        refine ⟨List.forall_mem_cons.mpr ⟨.inl List.mem_cons_self, ?_⟩, ih⟩
        intro word member
        rcases (first.count_and_used clean).2 (.plain word) (List.mem_map_of_mem member) with
          ⟨own, same, used⟩
        cases same
        exact .inr used
  exact forall_mem_and_joined (.inr (.inl (by decide))) all

theorem texts_used (stated : List.Forall₂ (Stated lexicon) heads claims)
    (conditions : List.Forall₂ (Stated lexicon) body listed) :
    ∀ word ∈ andJoined (claims.map (textWords listed)),
      word ∈ ["if", "then", "it"] ∨ IsUsed lexicon word := by
  have all : ∀ text ∈ claims.map (textWords listed),
      ∀ word ∈ text, word ∈ ["if", "then", "it"] ∨ IsUsed lexicon word := by
    rw [List.forall_mem_map]
    induction stated with
    | nil => exact List.forall_mem_nil _
    | cons first rest ih =>
        exact List.forall_mem_cons.mpr ⟨text_words_used clean first conditions, ih⟩
  exact forall_mem_and_joined (.inr (.inl (by decide))) all

/-- No two claims are one sentence: the first cannot go on behind the "it" of the second. -/
theorem facts_not_meant {first second : Attr} {others : List Attr}
    (stated : List.Forall₂ (Stated lexicon) (first :: second :: others) claims) :
    ¬DerivesRules lexicon (plain (andJoined (claims.map (textWords [])))) rules := by
  have no_if : .plain "if" ∉ plain (andJoined (claims.map (textWords []))) := by
    intro member
    rcases List.mem_map.mp member with ⟨word, inside, same⟩
    cases same
    rcases facts_used clean stated "if" inside with listed | used
    · exact absurd listed (by decide)
    · exact used.not_outer clean (by decide) (by decide)
  intro meant
  generalize text : plain (andJoined _) = ws at meant no_if
  cases meant with
  | conditional => exact no_if List.mem_cons_self
  | trailing => exact no_if (List.mem_append_right _ List.mem_cons_self)
  | fact said =>
      cases stated with
      | @cons _ words _ claims first rest =>
          cases rest with
          | @cons _ next_words _ claims second rest =>
              rcases second.starts_well clean with ⟨next, head, no_and⟩
              rcases List.head?_eq_some_iff.mp head with ⟨more, rfl⟩
              rcases exists_joined_append ("it" :: next :: more) (claims.map (textWords []))
                with ⟨tail, joined⟩
              rw [List.map_cons, List.map_cons, and_joined_cons_cons, textWords, textWords, joined,
                List.cons_append, plain_cons, plain_append] at text
              subst text
              have predicate := predicate_of_it clean said
              rw [← List.singleton_append, plain_append, ← List.append_assoc] at predicate
              exact no_predicate_behind_it clean (fun same => no_and (Word.plain.inj same)) predicate

/-- No two claims have the same conditions: the "if" would be repeated. -/
theorem rules_not_meant {first second condition : Attr} {others conditions : List Attr}
    (stated : List.Forall₂ (Stated lexicon) (first :: second :: others) claims)
    (body : List.Forall₂ (Stated lexicon) (condition :: conditions) listed) :
    ¬DerivesRules lexicon (plain (andJoined (claims.map (textWords listed)))) rules := by
  cases body
  cases stated with
  | @cons _ words _ claims first rest =>
      cases rest with
      | @cons _ next_words _ claims second rest =>
          rcases exists_joined_append (textWords (_ :: _) next_words) (claims.map (textWords _))
            with ⟨tail, joined⟩
          intro meant
          rw [List.map_cons, List.map_cons, and_joined_cons_cons, joined, textWords, textWords,
            List.cons_append, List.cons_append, List.cons_append, List.cons_append, plain_cons,
            plain_append, plain_cons, plain_cons] at meant
          exact one_if clean.avoids meant
            (List.mem_append_right _ (List.mem_cons_of_mem _ List.mem_cons_self))

theorem several_not_meant (several : 2 ≤ heads.length)
    (stated : List.Forall₂ (Stated lexicon) heads claims)
    (conditions : List.Forall₂ (Stated lexicon) body listed) :
    ¬DerivesRules lexicon (plain (andJoined (claims.map (textWords listed)))) rules := by
  rcases heads with _ | ⟨first, _ | ⟨second, others⟩⟩
  · exact absurd several (by decide)
  · exact absurd several (by simp)
  · cases body with
    | nil =>
        cases conditions
        exact facts_not_meant clean stated
    | cons => exact rules_not_meant clean stated conditions

theorem exists_stated_rules {ws : List Word} (bare : ∀ w ∈ ws, ∃ word, w = .plain word ∧ IsBare word)
    (meant : DerivesRules lexicon ws rules) (some : rules ≠ []) :
    ∃ body heads claims listed, rules = buildRules body heads ∧
      List.Forall₂ (Stated lexicon) heads claims ∧ List.Forall₂ (Stated lexicon) body listed := by
  have atoms (rule : Rule) (member : rule ∈ rules) := exists_stated_atoms clean bare meant member
  have built : ∃ body heads, rules = buildRules body heads := by
    cases meant with
    | conditional | trailing | fact => exact ⟨_, _, rfl⟩
  rcases built with ⟨body, heads, rfl⟩
  have conditions : ∃ listed, List.Forall₂ (Stated lexicon) body listed := by
    rcases List.exists_mem_of_ne_nil _ some with ⟨rule, member⟩
    rcases List.mem_map.mp member with ⟨head, inside, rfl⟩
    rcases atoms _ member with ⟨-, listed, -, stated⟩
    exact ⟨listed, stated⟩
  have conclusions : ∃ claims, List.Forall₂ (Stated lexicon) heads claims := by
    clear meant some
    induction heads with
    | nil => exact ⟨[], .nil⟩
    | cons head heads ih =>
        rcases atoms ⟨head, body⟩ List.mem_cons_self with ⟨words, -, first, -⟩
        rcases ih fun rule member => atoms rule (List.mem_cons_of_mem _ member) with ⟨claims, rest⟩
        exact ⟨words :: claims, .cons first rest⟩
  rcases conditions with ⟨listed, conditions⟩
  rcases conclusions with ⟨claims, conclusions⟩
  exact ⟨body, heads, claims, listed, rfl, conclusions, conditions⟩

end Clean

end Canonical

open Canonical
open Gloss (andJoined)

/-- Where a sentence in words of the lexicon becomes several rules, their gloss is recognized word
for word, but nothing is read from it. -/
theorem read_gloss_of_several {lexicon : Lexicon} (clean : lexicon.IsClean) {source : Source}
    {words : List Word} {rules : List Rule} (given : source.words = .ok words)
    (made : ∀ w ∈ words, ∃ word, w = .plain word ∧ (word ∈ keywords ∨ lexicon.knows word = true))
    (first : read source lexicon = .ok rules) (several : 2 ≤ rules.length) :
    ∃ gloss, glossRules? rules = some gloss ∧
      readAll (.text (Value.glossRules rules)) lexicon = .ok [] ∧
      read (.text (Value.glossRules rules)) lexicon = .error (.noReading (plain gloss)) := by
  rcases Utterance.meaning_of_mem_readings (List.mem_of_head? (first_reading_of_read given first)) with
    ⟨some, meant⟩
  rcases exists_stated_rules clean (clean.bare_of_made made) meant some with
    ⟨body, heads, claims, listed, rfl, conclusions, conditions⟩
  rw [buildRules, List.length_map] at several
  have gloss := gloss_rules_of_all_said (conclusions.imp fun _ _ stated => stated.said)
    (conditions.imp fun _ _ stated => stated.said)
  have used := texts_used clean conclusions conditions
  have recognized := recognized_of_used used
  have spaced_words := words_spaced (words_bare_of_used used clean.writable)
  have none : Utterance.readings ⟨plain (andJoined (claims.map (textWords listed))), lexicon⟩ = [] := by
    apply List.eq_nil_iff_forall_not_mem.mpr
    intro rules member
    exact several_not_meant clean several conclusions conditions
      (Utterance.meaning_of_mem_readings member).2
  have text : plain (andJoined (claims.map (textWords listed))) ≠ [] := by
    cases conclusions with
    | nil => exact absurd several (by decide)
    | @cons _ words _ claims =>
        rcases exists_joined_append (textWords listed words) (claims.map (textWords listed)) with
          ⟨tail, joined⟩
        rw [List.map_cons, joined]
        cases listed <;> exact List.cons_ne_nil _ _
  refine ⟨_, gloss, ?_, ?_⟩
  · rw [Value.glossRules, gloss]
    exact (read_all_ok spaced_words recognized).trans (congrArg Except.ok none)
  · rw [Value.glossRules, gloss]
    dsimp only
    rw [read_ok spaced_words recognized, none, firstReading, if_neg text]

section Marsh

open Marsh

theorem read_gloss_of_several_with_condition :
    let rules : List Rule :=
      [⟨⟨.isA, "frog", []⟩, [⟨.does, "eats", []⟩]⟩, ⟨⟨.isA, "heron", []⟩, [⟨.does, "eats", []⟩]⟩]
    let words := ["if", "it", "eats", "then", "it", "is", "frog", "and", "heron"]
    let gloss := ["if", "it", "eats", "then", "it", "is", "frog", "and",
      "if", "it", "eats", "then", "it", "is", "heron"]
    Lexicon.marsh.IsClean ∧
      Source.words (.text "if it eats then it is frog and heron") = .ok (plain words) ∧
      (∀ w ∈ plain words, ∃ word, w = .plain word ∧
        (word ∈ keywords ∨ Lexicon.marsh.knows word = true)) ∧
      read (.text "if it eats then it is frog and heron") Lexicon.marsh = .ok rules ∧
      2 ≤ rules.length ∧ glossRules? rules = some gloss ∧
      readAll (.text (Value.glossRules rules)) Lexicon.marsh = .ok [] ∧
      read (.text (Value.glossRules rules)) Lexicon.marsh = .error (.noReading (plain gloss)) := by
  intro rules words gloss
  have clean := Lexicon.marsh_clean
  let sentence : Sentence Lexicon.marsh :=
    ⟨[.acting eats], .nested .is (.more (.bare frog) (.one (.bare heron)))⟩
  have settled : sentence.IsSettled := ⟨List.forall_mem_singleton.mpr trivial, trivial⟩
  obtain ⟨given, made, first⟩ : IsRead "if it eats then it is frog and heron" words rules :=
    .of_spaced (sentence.read_settled clean settled) rfl (by decide) (by cbv)
  have several : 2 ≤ rules.length := le_refl 2
  rcases read_gloss_of_several clean given made first several with ⟨own, glossed, none, fails⟩
  have same : glossRules? rules = some gloss := by cbv
  cases glossed.symm.trans same
  exact ⟨clean, given, made, first, several, same, none, fails⟩

/-- What is said of "it" in one sentence is glossed in two, and those are not one sentence. -/
theorem read_gloss_fails_two_facts :
    let rules : List Rule := [⟨⟨.isA, "frog", []⟩, []⟩, ⟨⟨.isA, "heron", []⟩, []⟩]
    let words := ["it", "is", "frog", "and", "heron"]
    Lexicon.marsh.IsClean ∧ Source.words (.text "it is frog and heron") = .ok (plain words) ∧
      (∀ w ∈ plain words, ∃ word, w = .plain word ∧
        (word ∈ keywords ∨ Lexicon.marsh.knows word = true)) ∧
      read (.text "it is frog and heron") Lexicon.marsh = .ok rules ∧ 2 ≤ rules.length ∧
      read (.text (Value.glossRules rules)) Lexicon.marsh ≠ .ok rules := by
  intro rules words
  have clean := Lexicon.marsh_clean
  let sentence : Sentence Lexicon.marsh :=
    ⟨[], .nested .is (.more (.bare frog) (.one (.bare heron)))⟩
  have settled : sentence.IsSettled := ⟨List.forall_mem_nil _, trivial⟩
  obtain ⟨given, made, first⟩ : IsRead "it is frog and heron" words rules :=
    .of_spaced (sentence.read_settled clean settled) rfl (by decide) (by cbv)
  refine ⟨clean, given, made, first, le_refl 2, ?_⟩
  intro again
  have gloss : Value.glossRules rules =
      spaced ["it", "is", "frog", "and", "it", "is", "heron"] := by cbv
  rw [gloss] at again
  have again := first_reading_of_read (words_spaced (by decide)) again
  have meant := (Utterance.meaning_of_mem_readings (List.mem_of_head? again)).2
  have stated (noun : String) (listed : Lexicon.marsh.lookup noun .noun = true) :
      Stated Lexicon.marsh ⟨.isA, noun, []⟩ ["is", noun] :=
    ⟨.mk listed (List.forall_mem_nil _), rfl⟩
  exact facts_not_meant clean (.cons (stated "frog" (by simp)) (.cons (stated "heron" (by simp)) .nil))
    meant

end Marsh

end ControlledEnglish
