import ControlledEnglish.Proofs.Canonical.Predicates

/-! Settled groups: the ones that are found first.

The search takes the longest group of objects that leaves something to come after the next "and" of
every group around it. So of all groups with the same words, the settled one comes first: where
objects are followed by more of the group that they stand in, all but the last noun belong to the
objects, and where nothing follows they are a single noun. -/

namespace ControlledEnglish

open ControlledEnglish.Derivation Canonical

namespace Canonical.Group

def IsSettled {lexicon : Lexicon} : Group lexicon → Prop
  | one _ => True
  | more _ rest => rest.IsSettled
  | nested _ _ objects => objects.IsChain
  | nestedMore _ _ objects rest => objects.IsSettled ∧ rest.IsChain

end Canonical.Group

namespace Derivation

theorem head_of_all_eq {l : List Derivation} {d : Derivation} (member : d ∈ l)
    (all : ∀ e ∈ l, e = d) : l.head? = some d := by
  cases l with
  | nil => cases member
  | cons e l => rw [List.head?_cons, all e List.mem_cons_self]

theorem head_append {l m : List Derivation} {d : Derivation} (first : l.head? = some d) :
    (l ++ m).head? = some d := by
  rw [List.head?_append, first]
  rfl

theorem head_map {l : List Derivation} {d : Derivation} (f : List Attr → List Attr)
    (first : l.head? = some d) : (l.map (.map f)).head? = some (d.map f) := by
  rw [List.head?_map, first]
  rfl

theorem head_flatMap {f : Derivation → List Derivation} {l : List Derivation} {d e : Derivation}
    (first : l.head? = some d) (inner : (f d).head? = some e) :
    (l.flatMap f).head? = some e := by
  cases l with
  | nil => cases first
  | cons c l =>
      cases first
      rw [List.flatMap_cons]
      exact head_append inner

end Derivation

namespace Utterance

variable {u : Utterance} {i j k m s : Nat} {d : Derivation}

def JoinsNoNouns (u : Utterance) (i k : Nat) : Prop :=
  ∀ s, i ≤ s → s < k → u.words[s]? = some (.plain "and") →
    u.derivations ⟨Phrase.nounPhrase, s + 1⟩ = []

theorem JoinsNoNouns.append (first : u.JoinsNoNouns i m) (rest : u.JoinsNoNouns m k) :
    u.JoinsNoNouns i k := by
  intro s from_start before here
  by_cases early : s < m
  · exact first s from_start early here
  · exact rest s (by omega) before here

theorem joins_no_nouns_of_no_and {words : List String} (spans : u.Spans i (plain words) k)
    (no_and : "and" ∉ words) : u.JoinsNoNouns i k := by
  intro s from_start before here
  exact absurd (spans.mem_of_plain from_start before here) no_and

section Clean

variable (clean : u.lexicon.IsClean)

include clean

theorem noun_phrase_of_manner {manner : Manner u.lexicon}
    (spans : u.Spans i (plain (adverbWords manner.adverbs)) k) (no_adverb : u.Lacks .adverb k)
    (no_adjective : u.Lacks .adjective k) : u.derivations ⟨Phrase.nounPhrase, i⟩ = [] := by
  have no_phrase := adjective_phrase_after_adverbs clean spans no_adverb
  rw [no_adjective, List.map_nil] at no_phrase
  obtain ⟨adverbs, some⟩ := manner
  cases adverbs with
  | nil => exact absurd rfl some
  | cons first rest =>
      have found := spans.of_cons.1
      exact noun_phrase_eq_nil (is_keyword_of_listed clean found (by decide))
        (is_keyword_of_listed clean found (by decide)) no_phrase
        (lacks_of_listed clean found (by decide))

theorem noun_phrase_of_manners {first : Manner u.lexicon} {rest : List (Manner u.lexicon)}
    (spans : u.Spans i (plain (mannerWords (first :: rest))) k) (no_adverb : u.Lacks .adverb k)
    (no_adjective : u.Lacks .adjective k) : u.derivations ⟨Phrase.nounPhrase, i⟩ = [] := by
  cases rest with
  | nil =>
      rw [mannerWords, List.map_singleton, and_joined_singleton] at spans
      exact noun_phrase_of_manner clean spans no_adverb no_adjective
  | cons next rest =>
      rw [mannerWords, List.map_cons, List.map_cons, and_joined_cons_cons, plain_append] at spans
      obtain ⟨m, before, after⟩ := spans.split
      have here := after.of_cons.1
      exact noun_phrase_of_manner clean before (lacks_of_keyword clean here (by decide))
        (lacks_of_keyword clean here (by decide))

theorem adverbs_join {adverbs : List (Listed u.lexicon .adverb)}
    (spans : u.Spans i (plain (adverbWords adverbs)) k) : u.JoinsNoNouns i k := by
  refine joins_no_nouns_of_no_and spans fun member => ?_
  exact clean.no_keyword "and" .adverb (adverbs_listed adverbs "and" member) (by decide)

theorem manners_join {manners : List (Manner u.lexicon)}
    (spans : u.Spans i (plain (mannerWords manners)) k) (no_adverb : u.Lacks .adverb k)
    (no_adjective : u.Lacks .adjective k) : u.JoinsNoNouns i k := by
  induction manners generalizing i with
  | nil =>
      obtain rfl : k = i := spans.stop
      exact fun s from_start before => absurd before (Nat.not_lt.mpr from_start)
  | cons first rest ih =>
      cases rest with
      | nil =>
          rw [mannerWords, List.map_singleton, and_joined_singleton] at spans
          exact adverbs_join clean spans
      | cons next rest =>
          rw [mannerWords, List.map_cons, List.map_cons, and_joined_cons_cons, plain_append] at spans
          obtain ⟨m, before, after⟩ := spans.split
          obtain ⟨here, after⟩ := after.of_cons
          refine ((adverbs_join clean before).append fun s from_start before _ => ?_).append (ih after)
          obtain rfl : s = m := by omega
          exact noun_phrase_of_manners clean after no_adverb no_adjective

theorem action_joins {action : Action u.lexicon} (spans : u.Spans i (plain action.words) k) :
    u.JoinsNoNouns i k := by
  rw [Action.words, plain_append] at spans
  obtain ⟨m, before, verb⟩ := spans.split
  obtain ⟨found, -⟩ := spans_singleton_iff.mp verb
  have manners := manners_join clean before (lacks_of_listed clean found (by decide))
    (lacks_of_listed clean found (by decide))
  refine manners.append (joins_no_nouns_of_no_and verb fun member => ?_)
  rw [List.mem_singleton] at member
  exact clean.no_keyword _ .verb action.verb.listed (member ▸ by decide)

theorem head_joins {head : Head u.lexicon} (spans : u.Spans i (plain head.words) k) :
    u.JoinsNoNouns i k := by
  cases head with
  | does action => exact action_joins clean spans
  | has => exact joins_no_nouns_of_no_and spans (by simp [Head.words])
  | is => exact joins_no_nouns_of_no_and spans (by simp [Head.words])

theorem name_joins {name : Name u.lexicon} (spans : u.Spans i (plain name.words) k) :
    u.JoinsNoNouns i k :=
  joins_no_nouns_of_no_and spans (name.no_and clean)

theorem clause_joins {name : Name u.lexicon} {words : List String}
    (spans : u.Spans i (plain (name.words ++ "that" :: words)) k)
    (clause : ∀ m, u.Spans m (plain words) k → u.JoinsNoNouns m k) : u.JoinsNoNouns i k := by
  rw [← List.singleton_append, plain_append, plain_append] at spans
  obtain ⟨m, before, after⟩ := spans.split
  obtain ⟨l, that, after⟩ := after.split
  have middle := joins_no_nouns_of_no_and that (by decide)
  exact ((name_joins clean before).append middle).append (clause l after)

theorem chain_joins {group : Group u.lexicon} (chain : group.IsChain)
    (spans : u.Spans i (plain group.words) k) : u.JoinsNoNouns i k := by
  induction group generalizing i with
  | one leaf =>
      cases leaf with
      | bare name => exact name_joins clean spans
      | acting name action => exact clause_joins clean spans fun m after => action_joins clean after
  | nested name head objects ih =>
      refine clause_joins clean spans fun m after => ?_
      rw [plain_append] at after
      obtain ⟨l, start, after⟩ := after.split
      exact (head_joins clean start).append (ih chain after)
  | more => exact absurd chain id
  | nestedMore => exact absurd chain id

theorem mem_closed_group {group : Group u.lexicon} (spans : u.Spans i (plain group.words) k)
    (closes : u.closes k = true) : ⟨group.attrs, k⟩ ∈ u.closed ⟨.joined .nounPhrase, i⟩ :=
  mem_closed.mpr ⟨mem_of_derives clean.unlisted_it group.derives spans, closes⟩

theorem first_chain {group : Group u.lexicon} (chain : group.IsChain)
    (spans : u.Spans i (plain group.words) k) (closes : u.closes k = true) {q : Nat → Bool}
    (here : q k = true) (last : ∀ s, q s = true → s ≤ k) :
    (stopping q (u.closed ⟨.joined .nounPhrase, i⟩)).head? = some ⟨group.attrs, k⟩ := by
  refine head_of_all_eq (mem_stopping.mpr ⟨mem_closed_group clean spans closes, here⟩) fun e given => ?_
  obtain ⟨member, stops⟩ := mem_stopping.mp given
  obtain ⟨later, exactly⟩ := chain_ends clean chain spans closes e member
  obtain ⟨attrs, stop⟩ := e
  obtain rfl : stop = k := Nat.le_antisymm (last stop stops) later
  rw [← exactly rfl]

theorem first_settled {group : Group u.lexicon} (settled : group.IsSettled)
    (spans : u.Spans i (plain group.words) k) (closes : u.closes k = true) {q : Nat → Bool}
    (here : q k = true) (last : ∀ s, q s = true → s ≤ k) :
    (stopping q (u.closed ⟨.joined .nounPhrase, i⟩)).head? = some ⟨group.attrs, k⟩ := by
  induction group generalizing i k q with
  | one leaf => exact first_chain clean (Group.one_is_chain leaf) spans closes here last
  | more leaf rest ih =>
      rw [Group.words, plain_append] at spans
      obtain ⟨m, before, after⟩ := spans.split
      obtain ⟨joint, after⟩ := after.of_cons
      have rest_first := ih settled after closes here last
      rw [closed_more clean before joint, stopping_append, stopping_map]
      exact head_append (head_map _ rest_first)
  | nested name head objects =>
      exact first_chain clean (Group.nested_is_chain name head settled) spans closes here last
  | nestedMore name head objects rest ih =>
      obtain ⟨settled, chain⟩ := settled
      rw [Group.words, plain_append] at spans
      obtain ⟨m, before, after⟩ := spans.split
      obtain ⟨joint, after⟩ := after.of_cons
      obtain ⟨j, inner, same⟩ := closed_opener clean before
      have joint_closes := closes_of_and joint
      have rest_first := first_chain clean chain after closes here last
      rw [← is_keyword_singleton_iff] at joint
      -- The objects may stop wherever something usable can follow an "and".
      let p (s : Nat) : Bool :=
        u.isKeyword s ["and"] && !(stopping q (u.closed ⟨.joined .nounPhrase, s + 1⟩)).isEmpty
      have objects_here : p m = true := by
        have found : stopping q (u.closed ⟨.joined .nounPhrase, m + 1⟩) ≠ [] :=
          List.ne_nil_of_mem (List.mem_of_head? rest_first)
        simp [p, joint, found]
      have objects_last (s : Nat) (stops : p s = true) : s ≤ m := by
        rw [Bool.and_eq_true, is_keyword_singleton_iff] at stops
        obtain ⟨next, usable⟩ := stops
        obtain ⟨d, given⟩ := List.isEmpty_eq_false_iff_exists_mem.mp (by simpa using usable)
        obtain ⟨member, stop⟩ := mem_stopping.mp given
        have found := (mem_closed.mp member).1
        have beyond := (u.reaches_of_mem found).start_lt rfl
        have stop_le := last d.stop stop
        dsimp only at beyond
        refine Nat.le_of_not_lt fun later => ?_
        have none := chain_joins clean chain after s (by omega) (by omega) next
        rw [joined_eq_nil none] at found
        cases found
      have objects_first := ih settled inner joint_closes objects_here objects_last
      rw [closed_joined, same, stopping_append, stopping_flatMap]
      refine head_append ?_
      rw [flatMap_stopping (p := p)]
      · refine head_flatMap (d := ⟨[name.attr (head.attrs objects.attrs)], m⟩) ?_ ?_
        · rw [stopping_map]
          exact head_map _ objects_first
        · dsimp only
          rw [if_pos joint, stopping_map]
          exact head_map _ rest_first
      · intro d _ useless
        split
        · next next_and =>
            simp only [p, next_and, Bool.true_and, Bool.not_eq_false', List.isEmpty_iff] at useless
            rw [stopping_map, useless, List.map_nil]
        · exact stopping_nil

end Clean

end Utterance

end ControlledEnglish
