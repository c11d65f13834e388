import ControlledEnglish.Proofs.Canonical.Settled
import ControlledEnglish.Proofs.Canonical.Texts

namespace ControlledEnglish

open ControlledEnglish.Derivation Canonical

namespace Canonical

variable {lexicon : Lexicon}

def Predicate.IsSettled : Predicate lexicon → Prop
  | .like _ | .acting _ => True
  | .nested _ objects => objects.IsSettled

structure Sentence.IsSettled (sentence : Sentence lexicon) : Prop where
  conditions : ∀ predicate ∈ sentence.conditions, predicate.IsSettled
  conclusion : sentence.conclusion.IsSettled

end Canonical

theorem Derivation.stopping_stopping {p q : Nat → Bool} (implies : ∀ s, p s = true → q s = true)
    (l : List Derivation) : stopping p (stopping q l) = stopping p l := by
  refine (List.filter_filter ..).trans (List.filter_congr fun d _ => ?_)
  rw [Bool.and_eq_left_iff_imp]
  exact implies d.stop

theorem Derivation.findSome_of_first {β : Type} {p : Nat → Bool} {f : Derivation → Option β}
    {l : List Derivation} {d : Derivation} {b : β} (first : (stopping p l).head? = some d)
    (useless : ∀ e ∈ l, p e.stop = false → f e = none) (given : f d = some b) :
    l.findSome? f = some b := by
  induction l with
  | nil => cases first
  | cons e l ih =>
      rw [stopping_cons] at first
      split at first
      · cases first
        rw [List.findSome?_cons, given]
      · next stops =>
          rw [List.findSome?_cons, useless e List.mem_cons_self (by simpa using stops)]
          exact ih first fun e member => useless e (List.mem_cons_of_mem _ member)

namespace Utterance

variable {u : Utterance} {i j k t : Nat}

section Clean

variable (clean : u.lexicon.IsClean)

include clean

theorem first_predicate {predicate : Predicate u.lexicon} (settled : predicate.IsSettled)
    (spans : u.Spans i (plain predicate.words) k) (ends : u.Ends k) {q : Nat → Bool}
    (here : q k = true) (last : ∀ s, q s = true → s ≤ k)
    (closing : ∀ s, q s = true → u.closes s = true) :
    (stopping q (u.derivations ⟨Phrase.verbPhrase, i⟩)).head? = some ⟨predicate.attrs, k⟩ := by
  rw [← stopping_stopping closing]
  change (stopping q (u.closed _)).head? = _
  cases predicate with
  | like quality =>
      rw [closed_like clean spans ends, stopping_cons, if_pos here]
      rfl
  | acting action =>
      rw [closed_acting clean spans ends.closes, stopping_cons, if_pos here]
      rfl
  | nested head objects =>
      obtain ⟨j, inner, same⟩ := closed_predicate_nested clean spans
      rw [same, stopping_map]
      exact head_map _ (first_settled clean settled inner ends.closes here last)

theorem none_joined {predicate : Predicate u.lexicon}
    (spans : u.Spans i (plain predicate.words) t) :
    stopping (· == t) ((u.derivations ⟨Phrase.verbPhrase, i⟩).flatMap fun first =>
      if u.isKeyword first.stop ["and"] then
        (u.derivations ⟨.joined .sentence, first.stop + 1⟩).map (.map (first.attrs ++ ·))
      else []) = [] := by
  rw [stopping_flatMap, List.flatMap_eq_nil_iff]
  intro first given
  have beyond := (u.reaches_of_mem given).start_lt rfl
  dsimp only at beyond
  split
  · rw [stopping_map, List.map_eq_nil_iff, List.eq_nil_iff_forall_not_mem]
    intro d found
    obtain ⟨member, stop⟩ := mem_stopping.mp found
    exact no_sentence_inside clean spans (by omega) (by simp_all) member
  · rfl

theorem first_said {predicates : List (Predicate u.lexicon)}
    (settled : ∀ predicate ∈ predicates, predicate.IsSettled) (some : predicates ≠ [])
    (spans : u.Spans i (plain (saidWords predicates)) t) (ends : u.Ends t) :
    (stopping (· == t) (u.derivations ⟨.joined .sentence, i⟩)).head? =
      .some ⟨saidAttrs predicates, t⟩ := by
  induction predicates generalizing i with
  | nil => exact absurd rfl some
  | cons first rest ih =>
      obtain ⟨first_settled, rest_settled⟩ := List.forall_mem_cons.mp settled
      cases rest with
      | nil =>
          obtain ⟨it, spans⟩ := spans_said_singleton spans
          rw [derivations_joined, sentence_of_it it, stopping_append, none_joined clean spans,
            List.nil_append]
          have said := first_predicate clean first_settled spans ends (q := (· == t))
            (beq_self_eq_true t) (by simp) (by simpa using ends.closes)
          rw [said, said_attrs_singleton]
      | cons next rest =>
          obtain ⟨it, m, before, first_ends, joint, after⟩ := spans_said_cons clean spans
          have rest_first := ih rest_settled (List.cons_ne_nil _ _) after
          rw [← is_keyword_singleton_iff] at joint
          -- The first predicate may stop wherever other sentences can follow up to the end.
          let q (s : Nat) : Bool := decide (s ≤ m) && u.isKeyword s ["and"] &&
            !(stopping (· == t) (u.derivations ⟨.joined .sentence, s + 1⟩)).isEmpty
          have here : q m = true := by
            have found : stopping (· == t) (u.derivations ⟨.joined .sentence, m + 1⟩) ≠ [] :=
              List.ne_nil_of_mem (List.mem_of_head? rest_first)
            simp [q, joint, found]
          have closing (s : Nat) (stops : q s = true) : u.closes s = true := by
            simp only [q, Bool.and_eq_true, is_keyword_singleton_iff] at stops
            exact closes_of_and stops.1.2
          have last (s : Nat) (stops : q s = true) : s ≤ m := by
            simp only [q, Bool.and_eq_true, decide_eq_true_eq] at stops
            exact stops.1.1
          have said := first_predicate clean first_settled before first_ends here last closing
          rw [derivations_joined, sentence_of_it it, stopping_append, stopping_flatMap]
          refine head_append ?_
          rw [flatMap_stopping (p := q)]
          · refine head_flatMap said ?_
            dsimp only
            rw [if_pos joint, stopping_map]
            exact head_map _ rest_first
          · intro d given useless
            split
            · next next_and =>
                have ended := closes_of_and (is_keyword_singleton_iff.mp next_and)
                have beyond := (u.reaches_of_mem given).start_lt rfl
                have stop := before.stop
                have stop_le := stop_le_of_ends clean (by decide) (by omega) first_ends
                  (mem_closed.mpr ⟨given, ended⟩)
                simp only [q, stop_le, next_and, decide_true, Bool.true_and, Bool.not_eq_false',
                  List.isEmpty_iff] at useless
                rw [stopping_map, useless, List.map_nil]
            · rfl

end Clean

theorem head_distinct {α : Type} [DecidableEq α] (l : List α) :
    (distinct [] l).head? = l.head? := by
  cases l with
  | nil => rfl
  | cons a l => rw [distinct, if_neg List.not_mem_nil]; rfl

theorem head_readings :
    u.readings.head? = ((u.rules 0).all u.derivations).findSome? u.reading? := by
  rw [readings, head_distinct, List.head?_filterMap]

section Clean

variable (clean : u.lexicon.IsClean) {sentence : Sentence u.lexicon}

include clean

/-- The first reading of a settled sentence is what it says. -/
theorem first_reading (settled : sentence.IsSettled) (words : u.words = plain sentence.words)
    (some : sentence.rules ≠ []) : u.readings.head? = .some sentence.rules := by
  have reading (heads body : List Attr) (same : buildRules body heads = sentence.rules) :
      u.reading? (buildRules body heads, u.words.length) = .some sentence.rules :=
    reading_eq_some_iff.mpr ⟨by rw [same], some⟩
  have no_reading {rules : List Rule} {stop : Nat} (early : (stop == u.words.length) = false) :
      u.reading? (rules, stop) = none := by
    rw [reading?, if_neg]
    rintro ⟨same, -⟩
    simp [same] at early
  have text_end : u.Ends u.words.length := .text (by simp)
  rw [head_readings]
  obtain ⟨conditions, conclusion⟩ := sentence
  cases conditions with
  | nil =>
      obtain ⟨spans, all⟩ := rules_fact clean words
      have said := first_predicate clean settled.conclusion spans text_end
        (q := (· == u.words.length)) (beq_self_eq_true _) (by simp) (by simpa using text_end.closes)
      rw [all, List.findSome?_map]
      refine findSome_of_first said (fun e _ early => no_reading early) ?_
      exact reading _ [] rfl
  | cons first rest =>
      obtain ⟨t, before, ends, after, all⟩ := rules_conditional clean words
      have body := first_said clean settled.conditions (List.cons_ne_nil first rest) before ends
      have heads := first_said clean (List.forall_mem_singleton.mpr settled.conclusion)
        (List.cons_ne_nil _ _) after text_end
      rw [all, ← List.head?_filterMap, List.filterMap_flatMap, List.head?_flatMap]
      refine findSome_of_first body (fun e _ early => ?_) ?_
      · rw [if_neg (by simpa using early)]
        rfl
      · rw [if_pos rfl, List.head?_filterMap, List.findSome?_map]
        refine findSome_of_first heads (fun e _ early => no_reading early) ?_
        refine reading _ _ ?_
        rw [said_attrs_singleton]
        rfl

omit sentence in
/-- What is said of a name is first read as its clause, and the name as what "it" has. -/
theorem first_reading_of_subject {name : Name u.lexicon} {predicate : Predicate u.lexicon}
    (settled : predicate.IsSettled) (words : u.words = plain (name.words ++ predicate.words)) :
    u.readings.head? = some (buildRules [] (toHasA [name.attr predicate.attrs])) := by
  have spans := spans_all.mpr words.symm
  rw [plain_append] at spans
  rcases spans.split with ⟨m, before, after⟩
  have text_end : u.Ends u.words.length := .text (by simp)
  have no_if (s : Nat) : u.isKeyword s ["if"] = false := by
    apply Bool.eq_false_iff.mpr
    intro keyword
    have inside := List.mem_of_getElem? (is_keyword_singleton_iff.mp keyword)
    rw [words] at inside
    rcases List.mem_map.mp inside with ⟨word, member, same⟩
    cases same
    have used : IsUsed u.lexicon "if" := by
      rcases List.mem_append.mp member with named | said
      · exact name.words_used _ named
      · exact predicate.words_used _ said
    exact used.not_outer clean (by decide) (by decide)
  have no_that : u.isKeyword m ["that"] = false := by
    rcases predicate_word clean after with ⟨w, found, other⟩
    apply Bool.eq_false_iff.mpr
    intro keyword
    rw [is_keyword_singleton_iff.mp keyword] at found
    cases found
    exact other (by decide)
  have subject : u.derivations ⟨Phrase.nounPhrase, 0⟩ = [⟨[name.attr []], m⟩] := by
    rw [derivations_name clean before, derivations_relative_clause, no_that]
    rfl
  -- What is said of a subject is attached to it, so it is as if the subject had come with a clause.
  have attached : attach (toHasA [name.attr []]) = fun attrs => toHasA [name.attr attrs] := by
    funext attrs
    simp [attach, toHasA, Attr.toHasA, Name.attr, Listed.attr, Category.kind]
  have sentence : u.derivations ⟨Phrase.sentence, 0⟩ =
      (u.derivations ⟨Phrase.verbPhrase, m⟩).map (.map fun clause => toHasA [name.attr clause]) := by
    rw [derivations_sentence, subject, ← attached]
    exact List.append_nil _
  have all : (u.rules 0).all u.derivations =
      (u.derivations ⟨Phrase.verbPhrase, m⟩).map fun clause =>
        (buildRules [] (toHasA [name.attr clause.attrs]), clause.stop) := by
    rw [all_rules, sentence]
    simp [no_if, Function.comp_def, Derivation.map]
  have said := first_predicate clean settled after text_end (q := (· == u.words.length))
    (beq_self_eq_true _) (by simp) (by simpa using text_end.closes)
  rw [head_readings, all, List.findSome?_map]
  refine findSome_of_first said ?_ ?_
  · intro e _ early
    apply if_neg
    rintro ⟨same, -⟩
    simp [same] at early
  · exact reading_eq_some_iff.mpr ⟨rfl, List.cons_ne_nil _ _⟩

end Clean

end Utterance

end ControlledEnglish
