import ControlledEnglish.Proofs.Canonical.Texts

namespace ControlledEnglish

open ControlledEnglish.Derivation Canonical

namespace Canonical

variable {lexicon : Lexicon}

namespace Group

/-- Any number of names, and then one noun that may have a clause. -/
def IsRow : Group lexicon → Prop
  | one _ => True
  | more (.bare _) rest => rest.IsRow
  | more (.acting _ _) _ => False
  | nested _ _ objects => objects.IsChain
  | nestedMore _ _ _ _ => False

def IsFlat : Group lexicon → Prop
  | one _ => True
  | more _ rest => rest.IsFlat
  | nested _ _ _ | nestedMore _ _ _ _ => False

end Group

namespace Predicate

def IsRow : Predicate lexicon → Prop
  | like _ | acting _ => True
  | nested (.does _) objects => objects.IsRow
  | nested .has objects | nested .is objects => objects.IsChain

/-- Whether no other sentence can take its last nouns away. -/
def IsFirm : Predicate lexicon → Prop
  | like _ | acting _ => True
  | nested _ objects => objects.IsChain ∨ objects.IsFlat

end Predicate

theorem Group.IsChain.isRow {group : Group lexicon} (chain : group.IsChain) : group.IsRow := by
  cases group with
  | one leaf => trivial
  | nested name head objects => exact chain
  | more | nestedMore => exact absurd chain id

end Canonical

namespace Utterance

variable {u : Utterance} {i k m t : Nat} {d : Derivation}

section Clean

variable (clean : u.lexicon.IsClean)

include clean

theorem row_exact {group : Group u.lexicon} (row : group.IsRow)
    (spans : u.Spans i (plain group.words) k) (closes : u.closes k = true)
    (given : d ∈ u.closed ⟨.joined .nounPhrase, i⟩) (stop : d.stop = k) : d.attrs = group.attrs := by
  induction group generalizing i d with
  | one leaf => exact (chain_ends clean (Group.one_is_chain leaf) spans closes d given).2 stop
  | nested name head objects =>
      exact (chain_ends clean (Group.nested_is_chain name head row) spans closes d given).2 stop
  | nestedMore => exact absurd row id
  | more leaf rest ih =>
      cases leaf with
      | acting => exact absurd row id
      | bare name =>
          rw [Group.words, plain_append] at spans
          obtain ⟨m, before, after⟩ := spans.split
          obtain ⟨joint, after⟩ := after.of_cons
          have length := after.stop
          rw [closed_more clean before joint, List.mem_append, List.mem_map,
            List.mem_singleton] at given
          rcases given with ⟨e, found, rfl⟩ | rfl
          · rw [Derivation.map, ih row after found stop]
            rfl
          · dsimp only at stop
            omega

theorem flat_rest {group : Group u.lexicon} (flat : group.IsFlat)
    (spans : u.Spans i (plain group.words) k) (closes : u.closes k = true)
    (given : d ∈ u.closed ⟨.joined .nounPhrase, i⟩) (early : d.stop < k) :
    ∃ rest : Group u.lexicon, rest.IsFlat ∧ u.Spans (d.stop + 1) (plain rest.words) k := by
  induction group generalizing i d with
  | one leaf =>
      have late := (chain_ends clean (Group.one_is_chain leaf) spans closes d given).1
      omega
  | nested | nestedMore => exact absurd flat id
  | more leaf rest ih =>
      rw [Group.words, plain_append] at spans
      obtain ⟨m, before, after⟩ := spans.split
      obtain ⟨joint, after⟩ := after.of_cons
      rw [closed_more clean before joint, List.mem_append, List.mem_map, List.mem_singleton] at given
      rcases given with ⟨e, found, rfl⟩ | rfl
      · exact ih flat after (d := e) found early
      · exact ⟨rest, flat, after⟩

theorem leaf_short {leaf : Leaf u.lexicon} (spans : u.Spans i (plain leaf.words) k)
    (closes : u.closes k = true) (given : d ∈ u.derivations ⟨Phrase.nounPhrase, i⟩) :
    d.stop ≤ k := by
  cases leaf with
  | bare name =>
      have no_that : u.isKeyword k ["that"] = false :=
        is_keyword_of_closes closes (by decide) (by decide)
      rw [derivations_name clean spans, derivations_relative_clause, no_that] at given
      obtain rfl := List.mem_singleton.mp given
      exact Nat.le_refl k
  | acting name action =>
      rw [Leaf.words, plain_append] at spans
      obtain ⟨m, before, after⟩ := spans.split
      obtain ⟨that, after⟩ := after.of_cons
      have length := after.stop
      have no_adverb : u.Lacks .adverb k := lacks_of_closes clean closes
      have no_manner := joined_adverbs_eq_nil no_adverb
      have long : stopping (decide <| k < ·) (u.derivations ⟨Phrase.verbPhrase, m + 1⟩) = [] := by
        rw [verb_phrase_action clean after (by rw [no_manner, stopping_nil]),
          objects_of_closes clean closes, stopping_cons, if_neg (by simp), stopping_nil,
          List.map_nil]
      rw [derivations_name clean before, derivations_relative_clause,
        if_pos (is_keyword_singleton_iff.mpr that), List.mem_cons, List.mem_map] at given
      rcases given with rfl | ⟨e, found, rfl⟩
      · dsimp only
        omega
      · refine Nat.le_of_not_lt fun late => ?_
        have member : e ∈ stopping (decide <| k < ·) (u.derivations ⟨Phrase.verbPhrase, m + 1⟩) :=
          mem_stopping.mpr ⟨found, decide_eq_true late⟩
        rw [long] at member
        cases member

theorem flat_short {group : Group u.lexicon} (flat : group.IsFlat)
    (spans : u.Spans i (plain group.words) k) (closes : u.closes k = true)
    (given : d ∈ u.derivations ⟨Phrase.nounPhrase, i⟩) : d.stop ≤ k := by
  cases group with
  | one leaf => exact leaf_short clean spans closes given
  | nested | nestedMore => exact absurd flat id
  | more leaf rest =>
      rw [Group.words, plain_append] at spans
      obtain ⟨m, before, after⟩ := spans.split
      have short := leaf_short clean before (closes_of_and after.of_cons.1) given
      have length := after.stop
      omega

theorem predicate_exact {predicate : Predicate u.lexicon} (row : predicate.IsRow)
    (spans : u.Spans i (plain predicate.words) k) (ends : u.Ends k)
    (given : d ∈ u.closed ⟨Phrase.verbPhrase, i⟩) (stop : d.stop = k) :
    d.attrs = predicate.attrs := by
  cases predicate with
  | like quality =>
      rw [closed_like clean spans ends, List.mem_singleton] at given
      subst given
      rfl
  | acting action =>
      rw [closed_acting clean spans ends.closes, List.mem_singleton] at given
      subst given
      rfl
  | nested head objects =>
      have objects_row : objects.IsRow := by
        cases head with
        | does action => exact row
        | has | is => exact row.isRow
      obtain ⟨j, inner, same⟩ := closed_predicate_nested clean spans
      rw [same] at given
      obtain ⟨e, found, rfl⟩ := List.mem_map.mp given
      rw [Derivation.map, row_exact clean objects_row inner ends.closes found stop]
      rfl

theorem firm_short {predicate : Predicate u.lexicon} (firm : predicate.IsFirm)
    (spans : u.Spans i (plain predicate.words) k) (ends : u.Ends k)
    (given : d ∈ u.closed ⟨Phrase.verbPhrase, i⟩) (early : d.stop < k) :
    ∀ e ∈ u.derivations ⟨Phrase.nounPhrase, d.stop + 1⟩, e.stop ≤ k := by
  cases predicate with
  | like quality =>
      rw [closed_like clean spans ends, List.mem_singleton] at given
      subst given
      exact absurd early (Nat.lt_irrefl k)
  | acting action =>
      rw [closed_acting clean spans ends.closes, List.mem_singleton] at given
      subst given
      exact absurd early (Nat.lt_irrefl k)
  | nested head objects =>
      obtain ⟨j, inner, same⟩ := closed_predicate_nested clean spans
      rw [same] at given
      obtain ⟨e, found, rfl⟩ := List.mem_map.mp given
      rcases firm with chain | flat
      · have late := (chain_ends clean chain inner ends.closes e found).1
        exact absurd early (Nat.not_lt.mpr late)
      · obtain ⟨rest, flat, after⟩ := flat_rest clean flat inner ends.closes found early
        exact fun e member => flat_short clean flat after ends.closes member

theorem no_sentence_from {predicate : Predicate u.lexicon} (firm : predicate.IsFirm)
    {predicates : List (Predicate u.lexicon)} {j : Nat} {e : Derivation}
    (text : u.Spans j (plain (saidWords predicates)) t) (from_text : j ≤ i)
    (spans : u.Spans i (plain predicate.words) k) (ends : u.Ends k)
    (given : d ∈ u.closed ⟨Phrase.verbPhrase, i⟩) (early : d.stop < k)
    (next : e ∈ u.derivations ⟨Phrase.sentence, d.stop + 1⟩) (inside : e.stop ≤ t) : False := by
  have no_it (s : Nat) (from_start : i ≤ s) (before : s < k) : u.words[s]? ≠ some (.plain "it") := by
    intro here
    exact predicate.no_it clean (spans.mem_of_plain from_start before here)
  have started := (u.reaches_of_mem (mem_closed.mp given).1).start_lt rfl
  have short := firm_short clean firm spans ends given early
  obtain ⟨attrs, stop⟩ := e
  obtain ⟨ws, inner, derives⟩ := found_of_mem next
  dsimp only at derives inner
  obtain ⟨xs, ys, same⟩ := text.infix inner (by dsimp only at started; omega) inside
  have governed : Governed u.lexicon True (plain (saidWords predicates)) :=
    said_governed clean predicates
  rw [same, governed_append, governed_append] at governed
  dsimp only at started
  cases derives with
  | itSentence =>
      obtain ⟨it, -⟩ := inner.of_cons
      -- Up to the end of the predicate there is no "it", and the word at its end closes it.
      by_cases here : d.stop + 1 = k
      · have closes := ends.closes
        rw [here] at it
        rw [not_closes_of_found it (by decide) (by decide)] at closes
        cases closes
      · exact no_it _ (by omega) (by omega) it
  | subject subject real predicate =>
      obtain ⟨l, subject_spans, -⟩ := inner.split
      -- A subject ends with an "it", but no noun phrase from here reaches the next one.
      have last := subject.subject_last_it clean predicate governed.1.2
      have some := List.length_pos_iff.mpr (subject.ne_nil rfl)
      have stop := subject_spans.stop
      have stop_le := short _ (mem_of_derives clean.unlisted_it subject subject_spans)
      dsimp only at stop_le
      rw [List.getLast?_eq_getElem?] at last
      refine no_it (l - 1) (by omega) (by omega) ?_
      rw [subject_spans.getElem_eq (by omega) (by omega), ← last]
      congr 1
      omega

omit clean in
theorem first_of_joined {item : Phrase} (given : d ∈ u.derivations ⟨.joined item, i⟩) :
    ∃ e ∈ u.derivations ⟨item, i⟩, e.stop ≤ d.stop := by
  rw [derivations_joined, List.mem_append, List.mem_flatMap] at given
  rcases given with ⟨first, found, later⟩ | found
  · split at later
    · obtain ⟨rest, others, rfl⟩ := List.mem_map.mp later
      have later : first.stop + 1 ≤ rest.stop := (u.reaches_of_mem others).start_le
      exact ⟨first, found, Nat.le_of_succ_le later⟩
    · cases later
  · exact ⟨d, found, Nat.le_refl _⟩

/-- Rows of which all but the last are firm are said in one way only. -/
theorem said_exact {predicates : List (Predicate u.lexicon)} {d : Derivation}
    (rows : ∀ predicate ∈ predicates, predicate.IsRow)
    (firm : ∀ predicate ∈ predicates.dropLast, predicate.IsFirm)
    (spans : u.Spans i (plain (saidWords predicates)) t) (ends : u.Ends t)
    (given : d ∈ u.derivations ⟨.joined .sentence, i⟩) (stop : d.stop = t) :
    d.attrs = saidAttrs predicates := by
  have closes : u.closes d.stop = true := stop ▸ ends.closes
  induction predicates generalizing i d with
  | nil =>
      have same : t = i := spans.stop
      have started := (u.reaches_of_mem given).start_lt rfl
      dsimp only at started
      omega
  | cons first rest ih =>
      obtain ⟨first_row, rest_rows⟩ := List.forall_mem_cons.mp rows
      cases rest with
      | nil =>
          obtain ⟨it, inner⟩ := spans_said_singleton spans
          rw [derivations_joined, sentence_of_it it, List.mem_append, List.mem_flatMap] at given
          rcases given with ⟨e, found, later⟩ | found
          · have started := (u.reaches_of_mem found).start_lt rfl
            dsimp only at started
            split at later
            · obtain ⟨rest, said, rfl⟩ := List.mem_map.mp later
              refine (no_sentence_inside clean inner (by omega) ?_ said).elim
              exact Nat.le_of_eq stop
            · cases later
          · rw [predicate_exact clean first_row inner ends (mem_closed.mpr ⟨found, closes⟩) stop,
              said_attrs_singleton]
      | cons next rest =>
          obtain ⟨it, m, before, first_ends, joint, after⟩ := spans_said_cons clean spans
          have first_firm := firm first List.mem_cons_self
          have first_stop := before.stop
          have rest_stop := after.stop
          have stop_le {e : Derivation} (found : e ∈ u.derivations ⟨Phrase.verbPhrase, i + 1⟩)
              (closes : u.closes e.stop = true) : e.stop ≤ m :=
            stop_le_of_ends clean (by decide) (by omega) first_ends (mem_closed.mpr ⟨found, closes⟩)
          rw [derivations_joined, sentence_of_it it, List.mem_append, List.mem_flatMap] at given
          rcases given with ⟨e, found, later⟩ | found
          · split at later
            · next next_and =>
                obtain ⟨others, said, rfl⟩ := List.mem_map.mp later
                have ended := closes_of_and (is_keyword_singleton_iff.mp next_and)
                have closed := mem_closed.mpr ⟨found, ended⟩
                rcases Nat.eq_or_lt_of_le (stop_le found ended) with here | early
                · have first_attrs := predicate_exact clean first_row before first_ends closed here
                  rw [here] at said
                  have rest_attrs := ih rest_rows (fun p member => firm p (List.mem_cons_of_mem _ member))
                    after said stop closes
                  rw [said_attrs_cons, ← first_attrs, ← rest_attrs]
                  rfl
                -- A predicate that ends early leaves words that no sentence starts with.
                · obtain ⟨sentence, start, inside⟩ := first_of_joined said
                  have inside := inside.trans (Nat.le_of_eq stop)
                  exact (no_sentence_from clean first_firm spans (by omega) before first_ends closed
                    early start inside).elim
            · cases later
          · have early := stop_le found closes
            omega

theorem readings_exact {sentence : Sentence u.lexicon} (words : u.words = plain sentence.words)
    (some : sentence.rules ≠ []) (rows : ∀ predicate ∈ sentence.conditions, predicate.IsRow)
    (row : sentence.conclusion.IsRow)
    (firm : ∀ predicate ∈ sentence.conditions.dropLast, predicate.IsFirm) :
    u.readings = [sentence.rules] := by
  have text_end : u.Ends u.words.length := .text (by simp)
  have found : sentence.rules ∈ u.readings :=
    (mem_readings_iff clean.unlisted_it).mpr ⟨some, words ▸ sentence.derives⟩
  have only (rules : List Rule) (member : rules ∈ u.readings) : rules = sentence.rules := by
    obtain ⟨given, -⟩ := mem_readings.mp member
    obtain ⟨conditions, conclusion⟩ := sentence
    cases conditions with
    | nil =>
        obtain ⟨spans, all⟩ := rules_fact clean words
        rw [all] at given
        obtain ⟨heads, found, same⟩ := List.mem_map.mp given
        obtain ⟨rfl, stop⟩ := Prod.mk.inj same
        have closed := mem_closed.mpr ⟨found, stop ▸ text_end.closes⟩
        rw [predicate_exact clean row spans text_end closed stop]
        rfl
    | cons first rest =>
        obtain ⟨t, before, ends, after, all⟩ := rules_conditional clean words
        rw [all] at given
        obtain ⟨body, body_found, given⟩ := List.mem_flatMap.mp given
        split at given
        · next stop =>
            obtain ⟨heads, found, same⟩ := List.mem_map.mp given
            obtain ⟨rfl, heads_stop⟩ := Prod.mk.inj same
            have conclusion_attrs := said_exact clean (List.forall_mem_singleton.mpr row)
              (List.forall_mem_nil _) after text_end found heads_stop
            rw [said_attrs_singleton] at conclusion_attrs
            rw [said_exact clean rows firm before ends body_found stop, conclusion_attrs]
            rfl
        · cases given
  have once : u.readings.Nodup := nodup_distinct [] _
  refine List.perm_singleton.mp ((List.perm_ext_iff_of_nodup once (by simp)).mpr fun rules => ?_)
  rw [List.mem_singleton]
  exact ⟨only rules, fun same => same ▸ found⟩

end Clean

end Utterance

end ControlledEnglish
