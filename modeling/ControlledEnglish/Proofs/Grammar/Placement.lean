import ControlledEnglish.Proofs.Canonical.Governed
import ControlledEnglish.Proofs.Canonical.First
import ControlledEnglish.Proofs.Grammar.Locality
import ControlledEnglish.Proofs.Grammar.Recognized
import ControlledEnglish.Proofs.Grammar.Taught

/-! Conditions in front of what they govern, and behind it.

The words of the conditions and those of the conclusions are each searched on their own, wherever
they stand. The two forms of a sentence go through the same pairs of what is found, one with the
conclusions outermost and the other with the conditions. Only in front can conclusions be joined. -/

namespace ControlledEnglish

section Lists

variable {α β γ : Type}

theorem head_loops {f : β → α → γ} (as : List α) (bs : List β) :
    (as.flatMap fun a => bs.map fun b => f b a).head? =
      (bs.flatMap fun b => as.map fun a => f b a).head? := by
  cases as with
  | nil =>
      have none : (bs.flatMap fun _ => ([] : List γ)) = [] :=
        List.flatMap_eq_nil_iff.mpr fun _ _ => rfl
      simp only [List.flatMap_nil, List.map_nil, none]
  | cons a as =>
      cases bs with
      | nil => simp
      | cons b bs => simp

theorem flatMap_if {p : α → Bool} {f : α → List β} (l : List α) :
    (l.flatMap fun a => if p a then f a else []) = (l.filter p).flatMap f := by
  calc
    (l.flatMap fun a => if p a then f a else [])
      = (l.filter p).flatMap fun a => if p a then f a else [] :=
        flatMap_filter fun a _ fails => by rw [if_neg (Bool.eq_false_iff.mp fails)]
    _ = (l.filter p).flatMap f := by
        rw [List.flatMap_def, List.flatMap_def]
        congr 1
        apply List.map_congr_left
        intro a member
        rw [if_pos (List.mem_filter.mp member).2]

theorem getElem_between {x : α} {xs ys : List α} (before : x ∉ xs) (behind : x ∉ ys) {i : Nat} :
    (xs ++ x :: ys)[i]? = some x ↔ i = xs.length := by
  constructor
  · intro found
    rcases Nat.lt_trichotomy i xs.length with early | here | late
    · rw [List.getElem?_append_left early] at found
      exact absurd (List.mem_of_getElem? found) before
    · exact here
    · rw [List.getElem?_append_right (Nat.le_of_lt late), List.getElem?_cons] at found
      rw [if_neg (by omega)] at found
      exact absurd (List.mem_of_getElem? found) behind
  · rintro rfl
    simp

end Lists

namespace Utterance

def complete (u : Utterance) (production : Production) : List (List Attr) :=
  ((u.derivations ⟨production, 0⟩).filter fun d => d.stop = u.words.length).map (·.attrs)

variable {u whole part : Utterance} {offset : Nat}

theorem filter_complete (contains : whole.Contains part offset) (production : Production) :
    (whole.derivations ⟨production, offset⟩).filter
        (fun d => d.stop = offset + part.words.length) =
      (part.complete production).map fun attrs => ⟨attrs, offset + part.words.length⟩ := by
  have ending := (derivations_agree contains production 0).ending (Nat.zero_le _)
  refine Eq.trans ending ?_
  rw [complete, List.map_map]
  apply List.map_congr_left
  intro d member
  have ends : d.stop = part.words.length :=
    of_decide_eq_true (List.mem_filter.mp member).2
  simp only [Function.comp_apply, Placed.moved, ends]

theorem filterMap_reading (f : List Attr → List Rule) (l : List Derivation) :
    (l.map fun d => (f d.attrs, d.stop)).filterMap u.reading? =
      ((l.filter fun d => d.stop = u.words.length).map fun d => f d.attrs).filter (· ≠ []) := by
  induction l with
  | nil => rfl
  | cons d l ih =>
      rw [List.map_cons, List.filterMap_cons, List.filter_cons, ih, reading?]
      by_cases ends : d.stop = u.words.length
      · by_cases empty : f d.attrs = []
        · simp [ends, empty]
        · simp [ends, empty]
      · simp [ends]

variable {hs bs : List Word}

theorem keyword_between {keyword : String} (words : u.words = hs ++ .plain keyword :: bs)
    (before : .plain keyword ∉ hs) (behind : .plain keyword ∉ bs) (i : Nat) :
    u.isKeyword i [keyword] = decide (i = hs.length) := by
  rw [Bool.eq_iff_iff, is_keyword_singleton_iff, words, getElem_between before behind,
    decide_eq_true_iff]

theorem not_keyword {keyword : String} (nowhere : .plain keyword ∉ u.words) (i : Nat) :
    u.isKeyword i [keyword] = false := by
  rw [Bool.eq_false_iff, ne_eq, is_keyword_singleton_iff]
  intro found
  exact nowhere (List.mem_of_getElem? found)

theorem filterMap_reading_parts (production : Production) {f : List Attr → List Attr → List Rule}
    {keyword : String} {i : Nat}
    (front : u.Contains ⟨hs, u.lexicon⟩ i)
    (back : u.Contains ⟨bs, u.lexicon⟩ (i + hs.length + 1))
    (fits : i + hs.length + 1 + bs.length = u.words.length)
    (only : ∀ j, u.isKeyword j [keyword] = decide (j = i + hs.length)) :
    ((u.derivations ⟨production, i⟩).flatMap fun first =>
      if u.isKeyword first.stop [keyword] then
        (u.derivations ⟨.joined .sentence, first.stop + 1⟩).map fun rest =>
          (f first.attrs rest.attrs, rest.stop)
      else []).filterMap u.reading? =
    (complete ⟨hs, u.lexicon⟩ production).flatMap fun first =>
      ((complete ⟨bs, u.lexicon⟩ (.joined .sentence)).map fun rest => f first rest).filter
        (· ≠ []) := by
  have ended : (u.derivations ⟨production, i⟩).filter (fun d => decide (d.stop = i + hs.length)) =
      (complete ⟨hs, u.lexicon⟩ production).map fun attrs => ⟨attrs, i + hs.length⟩ :=
    filter_complete front production
  have rest : (u.derivations ⟨.joined .sentence, i + hs.length + 1⟩).filter
      (fun d => decide (d.stop = u.words.length)) =
      (complete ⟨bs, u.lexicon⟩ (.joined .sentence)).map fun attrs => ⟨attrs, u.words.length⟩ := by
    rw [← fits]
    exact filter_complete back _
  simp only [only]
  rw [flatMap_if, ended, List.flatMap_map, List.filterMap_flatMap]
  congr 1
  funext first
  rw [filterMap_reading (f first), rest, List.map_map]
  rfl

section Keywords

variable (avoids : u.lexicon.AvoidsKeywords)

include avoids

theorem no_fact (keyword : String) (outer : keyword ∈ ["if", "then"])
    (somewhere : .plain keyword ∈ u.words) :
    ((u.derivations ⟨Phrase.sentence, 0⟩).map fun heads =>
      (buildRules [] heads.attrs, heads.stop)).filterMap u.reading? = [] := by
  have shorter : (u.derivations ⟨Phrase.sentence, 0⟩).filter (fun d => d.stop = u.words.length) =
      [] := by
    rw [List.filter_eq_nil_iff]
    intro d given
    rw [decide_eq_true_iff]
    intro ends
    obtain ⟨ws, spans, derives⟩ := found_of_mem given
    rw [ends, spans_all] at spans
    subst spans
    exact derives.outer_not_mem avoids outer somewhere
  rw [filterMap_reading (buildRules []), shorter]
  rfl

theorem no_sentence (keyword : String) {rest : List Word} (outer : keyword ∈ ["if", "then"])
    (words : u.words = .plain keyword :: rest) : u.derivations ⟨Phrase.sentence, 0⟩ = [] := by
  refine List.eq_nil_iff_forall_not_mem.mpr fun d given => ?_
  obtain ⟨ws, spans, derives⟩ := found_of_mem given
  obtain ⟨w, member, found⟩ := spans.head_mem (derives.ne_nil rfl)
  rw [words] at found
  cases found
  exact derives.outer_not_mem avoids outer member

variable (no_then : .plain "then" ∉ hs) (no_then' : .plain "then" ∉ bs)

include no_then no_then'

theorem found_last (no_if : .plain "if" ∉ hs) (no_if' : .plain "if" ∉ bs)
    (words : u.words = hs ++ .plain "if" :: bs) :
    ((u.rules 0).all u.derivations).filterMap u.reading? =
      (complete ⟨hs, u.lexicon⟩ Phrase.sentence).flatMap fun heads =>
        ((complete ⟨bs, u.lexicon⟩ (.joined .sentence)).map fun body =>
          buildRules body heads).filter (· ≠ []) := by
  have front : u.Contains ⟨hs, u.lexicon⟩ 0 := .of_append [] (.plain "if" :: bs) words rfl
  have back : u.Contains ⟨bs, u.lexicon⟩ (0 + hs.length + 1) := by
    have ahead : 0 + hs.length + 1 = (hs ++ [Word.plain "if"]).length := by simp
    rw [ahead]
    exact .of_append _ [] (by simp [words]) rfl
  have fits : 0 + hs.length + 1 + bs.length = u.words.length := by
    simp only [words, List.length_append, List.length_cons]
    omega
  have only (j : Nat) : u.isKeyword j ["if"] = decide (j = 0 + hs.length) := by
    rw [keyword_between words no_if no_if', Nat.zero_add]
  have nowhere (j : Nat) : u.isKeyword j ["then"] = false :=
    not_keyword (by simp [words, no_then, no_then']) j
  have behind := filterMap_reading_parts Phrase.sentence
    (f := fun heads body => buildRules body heads) front back fits only
  -- Of the three forms of a rule only the conclusion with conditions behind it is left.
  rw [all_rules, List.filterMap_append, List.filterMap_append, behind,
    no_fact avoids "if" (by decide) (by simp [words]), List.append_nil]
  simp [nowhere]

theorem found_first (words : u.words = .plain "if" :: bs ++ .plain "then" :: hs) :
    ((u.rules 0).all u.derivations).filterMap u.reading? =
      (complete ⟨bs, u.lexicon⟩ (.joined .sentence)).flatMap fun body =>
        ((complete ⟨hs, u.lexicon⟩ (.joined .sentence)).map fun heads =>
          buildRules body heads).filter (· ≠ []) := by
  have front : u.Contains ⟨bs, u.lexicon⟩ 1 :=
    .of_append [.plain "if"] (.plain "then" :: hs) words rfl
  have back : u.Contains ⟨hs, u.lexicon⟩ (1 + bs.length + 1) := by
    have ahead : 1 + bs.length + 1 = (.plain "if" :: bs ++ [Word.plain "then"]).length := by
      simp only [List.cons_append, List.length_cons, List.length_append, List.length_nil]
      omega
    rw [ahead]
    exact .of_append _ [] (by simp [words]) rfl
  have fits : 1 + bs.length + 1 + hs.length = u.words.length := by
    simp only [words, List.cons_append, List.length_append, List.length_cons]
    omega
  have only (j : Nat) : u.isKeyword j ["then"] = decide (j = 1 + bs.length) := by
    rw [keyword_between words (by simp [no_then']) no_then, List.length_cons, Nat.add_comm]
  have opens : u.isKeyword 0 ["if"] = true := by
    rw [is_keyword_singleton_iff, words]
    rfl
  rw [all_rules, no_sentence avoids "if" (by decide) words, if_pos opens,
    List.flatMap_nil, List.map_nil, List.append_nil, List.append_nil]
  exact filterMap_reading_parts _ front back fits only

end Keywords

theorem complete_subset (item : Phrase) : u.complete item ⊆ u.complete (.joined item) := by
  intro attrs member
  simp only [complete, List.mem_map, List.mem_filter] at member ⊢
  obtain ⟨d, ⟨given, ends⟩, rfl⟩ := member
  exact ⟨d, ⟨mem_joined_of_one given, ends⟩, rfl⟩

theorem complete_joined (no_and : .plain "and" ∉ u.words) (item : Phrase) :
    u.complete (.joined item) = u.complete item := by
  have alone : u.derivations ⟨.joined item, 0⟩ = u.derivations ⟨item, 0⟩ := by
    rw [derivations_joined]
    simp [not_keyword no_and]
  rw [complete, complete, alone]

end Utterance

theorem filter_bodies (heads : List Attr) (bodies : List (List Attr)) :
    (bodies.map fun body => buildRules body heads).filter (· ≠ []) =
      if heads ≠ [] then bodies.map fun body => buildRules body heads else [] := by
  by_cases empty : heads = []
  · simp [empty, buildRules]
  · simp [empty, buildRules]

theorem filter_heads (body : List Attr) (heads : List (List Attr)) :
    (heads.map fun head => buildRules body head).filter (· ≠ []) =
      (heads.filter (· ≠ [])).map fun head => buildRules body head := by
  rw [List.filter_map]
  congr 1
  apply List.filter_congr
  intro head _
  simp [buildRules]

section Forms

variable {hs bs : List Word} {lexicon : Lexicon}

def conditionsLast (hs bs : List Word) (lexicon : Lexicon) : Utterance :=
  ⟨hs ++ .plain "if" :: bs, lexicon⟩

def conditionsFirst (hs bs : List Word) (lexicon : Lexicon) : Utterance :=
  ⟨.plain "if" :: bs ++ .plain "then" :: hs, lexicon⟩

theorem check_placement : (conditionsLast hs bs lexicon).check = .ok () ↔
    (conditionsFirst hs bs lexicon).check = .ok () := by
  have opens : IsRecognized lexicon (.plain "if") := .keyword (by decide)
  have turns : IsRecognized lexicon (.plain "then") := .keyword (by decide)
  simp only [Utterance.check_ok_iff, Utterance.recognizes_iff, conditionsLast, conditionsFirst,
    List.cons_append, List.forall_mem_cons, List.forall_mem_append, opens, turns, true_and]
  exact and_comm

section Readings

variable (avoids : lexicon.AvoidsKeywords) (no_then : .plain "then" ∉ hs)
  (no_then' : .plain "then" ∉ bs)

include avoids no_then no_then'

/-- The conclusions are found first, then the conditions for each. -/
theorem readings_last (no_if : .plain "if" ∉ hs) (no_if' : .plain "if" ∉ bs) :
    (conditionsLast hs bs lexicon).readings =
      distinct [] (((Utterance.complete ⟨hs, lexicon⟩ Phrase.sentence).filter (· ≠ [])).flatMap
        fun heads => (Utterance.complete ⟨bs, lexicon⟩ (.joined .sentence)).map
          fun body => buildRules body heads) := by
  have found := Utterance.found_last (u := conditionsLast hs bs lexicon) avoids no_then no_then'
    no_if no_if' rfl
  have loops := flatMap_if (p := fun heads => heads ≠ [])
    (f := fun heads => (Utterance.complete ⟨bs, lexicon⟩ (.joined .sentence)).map
      fun body => buildRules body heads) (Utterance.complete ⟨hs, lexicon⟩ Phrase.sentence)
  rw [Utterance.readings, found, ← loops]
  simp only [filter_bodies, decide_eq_true_eq]
  rfl

/-- The conditions are found first, then the conclusions for each. -/
theorem readings_first :
    (conditionsFirst hs bs lexicon).readings =
      distinct [] ((Utterance.complete ⟨bs, lexicon⟩ (.joined .sentence)).flatMap fun body =>
        ((Utterance.complete ⟨hs, lexicon⟩ (.joined .sentence)).filter (· ≠ [])).map
          fun heads => buildRules body heads) := by
  have found := Utterance.found_first (u := conditionsFirst hs bs lexicon) avoids no_then
    no_then' rfl
  rw [Utterance.readings, found]
  simp only [filter_heads]
  rfl

variable (no_if : .plain "if" ∉ hs) (no_if' : .plain "if" ∉ bs)

include no_if no_if'

theorem readings_last_subset :
    (conditionsLast hs bs lexicon).readings ⊆ (conditionsFirst hs bs lexicon).readings := by
  rw [readings_last avoids no_then no_then' no_if no_if',
    readings_first avoids no_then no_then']
  intro rules
  simp only [mem_distinct_iff, List.mem_flatMap, List.mem_map, List.mem_filter]
  rintro ⟨⟨heads, ⟨said, some⟩, body, given, rfl⟩, fresh⟩
  exact ⟨⟨body, given, heads, ⟨Utterance.complete_subset _ said, some⟩, rfl⟩, fresh⟩

theorem readings_first_subset (no_and : .plain "and" ∉ hs) :
    (conditionsFirst hs bs lexicon).readings ⊆ (conditionsLast hs bs lexicon).readings := by
  have alone := Utterance.complete_joined (u := ⟨hs, lexicon⟩) no_and .sentence
  rw [readings_last avoids no_then no_then' no_if no_if',
    readings_first avoids no_then no_then', alone]
  intro rules
  simp only [mem_distinct_iff, List.mem_flatMap, List.mem_map, List.mem_filter]
  rintro ⟨⟨body, given, heads, said, rfl⟩, fresh⟩
  exact ⟨⟨heads, said, body, given, rfl⟩, fresh⟩

theorem head_readings_placement (no_and : .plain "and" ∉ hs) :
    (conditionsLast hs bs lexicon).readings.head? =
      (conditionsFirst hs bs lexicon).readings.head? := by
  have alone := Utterance.complete_joined (u := ⟨hs, lexicon⟩) no_and .sentence
  rw [readings_last avoids no_then no_then' no_if no_if',
    readings_first avoids no_then no_then', alone, Utterance.head_distinct,
    Utterance.head_distinct]
  exact head_loops _ _

end Readings

theorem read_eq_ok_iff {source : Source} {words : List Word} {rules : List Rule}
    (given : source.words = .ok words) : read source lexicon = .ok rules ↔
    Utterance.check ⟨words, lexicon⟩ = .ok () ∧
      (Utterance.readings ⟨words, lexicon⟩).head? = some rules := by
  constructor
  · intro ok
    refine ⟨?_, first_reading_of_read given ok⟩
    cases recognized : Utterance.check ⟨words, lexicon⟩ with
    | ok => rfl
    | error fault =>
        rw [read_error given recognized] at ok
        cases ok
  · rintro ⟨recognized, first⟩
    rw [read_ok given recognized]
    exact first_reading_eq_ok_iff.mpr first

/-- Conditions mean the same behind what they govern as in front of it. Whatever is read with the
conditions behind is read with them in front as well; if the conclusions are not joined, so is the
other way round, and the first reading is the same. -/
theorem placement_agrees (avoids : lexicon.AvoidsKeywords)
    (no_if : .plain "if" ∉ hs) (no_then : .plain "then" ∉ hs)
    (no_if' : .plain "if" ∉ bs) (no_then' : .plain "then" ∉ bs) {behind front : Source}
    (given : behind.words = .ok (hs ++ .plain "if" :: bs))
    (given' : front.words = .ok (.plain "if" :: bs ++ .plain "then" :: hs)) :
    (∀ readings, readAll behind lexicon = .ok readings →
      ∃ others, readAll front lexicon = .ok others ∧ readings ⊆ others) ∧
    (.plain "and" ∉ hs →
      (∀ others, readAll front lexicon = .ok others →
        ∃ readings, readAll behind lexicon = .ok readings ∧ others ⊆ readings) ∧
      ∀ rules, read behind lexicon = .ok rules ↔ read front lexicon = .ok rules) := by
  have checked : Utterance.check ⟨hs ++ .plain "if" :: bs, lexicon⟩ = .ok () ↔
      Utterance.check ⟨.plain "if" :: bs ++ .plain "then" :: hs, lexicon⟩ = .ok () :=
    check_placement
  refine ⟨fun readings => ?_, fun no_and => ⟨fun others => ?_, fun rules => ?_⟩⟩
  · exact read_all_subset given given' checked.mp
      (readings_last_subset avoids no_then no_then' no_if no_if')
  · exact read_all_subset given' given checked.mpr
      (readings_first_subset avoids no_then no_then' no_if no_if' no_and)
  · have first := head_readings_placement avoids no_then no_then' no_if no_if' no_and
    rw [conditionsLast, conditionsFirst] at first
    rw [read_eq_ok_iff given, read_eq_ok_iff given', checked, first]

theorem placement_agrees_one_condition :
    let behind : Source := .text "it eats a frog if it has a heron"
    let front : Source := .text "if it has a heron then it eats a frog"
    let rule : Rule := ⟨⟨.does, "eats", [⟨.isA, "frog", []⟩]⟩, [⟨.hasA, "heron", []⟩]⟩
    ∃ readings others, readAll behind Lexicon.marsh = .ok readings ∧ [rule] ∈ readings ∧
      readAll front Lexicon.marsh = .ok others ∧ [rule] ∈ others ∧
      (∀ rules, rules ∈ readings ↔ rules ∈ others) ∧
      ∀ rules, read behind Lexicon.marsh = .ok rules ↔ read front Lexicon.marsh = .ok rules := by
  intro behind front rule
  have given : behind.words = .ok (plain ["it", "eats", "a", "frog"] ++ .plain "if" ::
      plain ["it", "has", "a", "heron"]) := by cbv
  have given' : front.words = .ok (.plain "if" :: plain ["it", "has", "a", "heron"] ++
      .plain "then" :: plain ["it", "eats", "a", "frog"]) := by cbv
  have frog := Lexicon.marsh_noun (w := "frog") (by simp) (.determiner (w := "a") (by decide))
  have heron := Lexicon.marsh_noun (w := "heron") (by simp) (.determiner (w := "a") (by decide))
  have eats := Lexicon.marsh_eats (.items (.single frog))
  have has := Derives.possession (w := "has") (by decide) (.single heron)
  have meant := DerivesRules.trailing (.itSentence eats) (.single (.itSentence has))
  have recognized : Utterance.check
      ⟨plain ["it", "eats", "a", "frog", "if", "it", "has", "a", "heron"], Lexicon.marsh⟩ =
        .ok () :=
    Lexicon.marsh_check _ (by decide)
  obtain ⟨readings, read, member⟩ := exists_read_all given Lexicon.marsh_clean.unlisted_it
    recognized meant (by simp [buildRules])
  obtain ⟨subset, same⟩ := placement_agrees Lexicon.marsh_clean.avoids (by decide) (by decide)
    (by decide) (by decide) given given'
  obtain ⟨superset, first⟩ := same (by decide)
  obtain ⟨others, read', within⟩ := subset readings read
  obtain ⟨readings', again, within'⟩ := superset others read'
  rw [read] at again
  cases again
  exact ⟨readings, others, read, member, read', within member,
    fun rules => ⟨fun given => within given, fun given => within' given⟩, first⟩

end Forms

end ControlledEnglish
