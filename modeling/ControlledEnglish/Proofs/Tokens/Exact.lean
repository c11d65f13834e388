import Mathlib.Data.List.Nodup
import Mathlib.Data.List.SplitBy
import ControlledEnglish.Proofs.Tokens.Layout

/-! The law of tokens.

The tokens of a text stand in it at their positions, one behind the other, and leave out nothing but
blanks and periods. They are words in quotes and bare words that go on as far as they can, and the
sentences are their runs without a period between. No other sentences are like that, so these are
the ones that are read. A text that has none has a quote where a word starts and no other behind
it. -/

namespace ControlledEnglish

namespace Token

def stop (token : Token) : Nat := token.position + token.text.length

def Piece.token? : Piece → Option Token
  | .word token => some token
  | .period => none

/-- Tokens of a text from an offset on. -/
structure Covers (text : List Char) (start : Nat) (tokens : List Token) : Prop where
  starts : ∀ token ∈ tokens, start ≤ token.position
  ordered : tokens.Pairwise fun a b => a.position < b.position ∧ a.stop ≤ b.position
  found : ∀ token ∈ tokens, (text.drop token.position).take token.text.length = token.text.toList
  formed : ∀ token ∈ tokens, IsEnclosed token.text ∨
    IsBare token.text ∧ ∀ c ∈ text[token.stop]?, Text.isBlank c = true ∨ c = '.'
  covered : ∀ i, start ≤ i → ∀ c ∈ text[i]?,
    (∃ token ∈ tokens, token.position ≤ i ∧ i < token.stop) ∨ Text.isBlank c = true ∨ c = '.'

def NoPeriod (text : List Char) (i j : Nat) : Prop := ∀ k, i ≤ k → k < j → text[k]? ≠ some '.'

/-- Sentences of a text. Two tokens in a row are in one of them if no period is between. -/
structure AreSentences (text : List Char) (sentences : List (List Token)) : Prop where
  covers : Covers text 0 sentences.flatten
  nonempty : [] ∉ sentences
  grouped : ∀ a b, [a, b] <:+: sentences.flatten →
    ((∃ sentence ∈ sentences, [a, b] <:+: sentence) ↔ NoPeriod text a.stop b.position)

/-- Words start at the start of a text, behind a blank or a period, and behind a word in quotes. -/
def StartsWord (start : Nat) (before : List Char) (tokens : List Token) : Prop :=
  before = [] ∨ (∃ c ∈ before.getLast?, Text.isBlank c = true ∨ c = '.') ∨
    ∃ token ∈ tokens, IsEnclosed token.text ∧ token.stop = start + before.length

/-- A quote that starts a word of a text which can be read so far, and no other quote behind it. -/
structure IsUnclosed (text : List Char) (p : Nat) : Prop where
  quote : text[p]? = some '"'
  last : ∀ i, p < i → text[i]? ≠ some '"'
  starts : ∃ read, sentences (String.ofList (text.take p)) = .ok read ∧
    StartsWord 0 (text.take p) read.flatten

variable {text rest : List Char} {i : Nat} {ps : List Piece} {ts : List Token} {w : String}

section Offsets

theorem getElem_of_drop {c : Char} (here : text.drop i = c :: rest) : text[i]? = some c := by
  have first := @List.getElem?_drop _ text i 0
  rw [here] at first
  exact first.symm

theorem drop_of_cons {c : Char} (here : text.drop i = c :: rest) : text.drop (i + 1) = rest := by
  rw [← List.drop_drop, here, List.drop_one, List.tail_cons]

theorem drop_of_word (here : text.drop i = w.toList ++ rest) :
    text.drop (i + w.length) = rest := by
  rw [← List.drop_drop, here, List.drop_left' String.length_toList]

theorem take_of_word (here : text.drop i = w.toList ++ rest) :
    (text.drop i).take w.length = w.toList := by
  rw [here, List.take_left' String.length_toList]

theorem head_of_drop (here : text.drop i = rest) : rest.head? = text[i]? := by
  rw [← here, List.head?_drop]

end Offsets

namespace Covers

theorem ending (here : text.drop i = []) : Covers text i [] := by
  refine ⟨nofun, .nil, nofun, nofun, fun j from_start c there => ?_⟩
  have length := List.drop_eq_nil_iff.mp here
  rw [List.getElem?_eq_none (Nat.le_trans length from_start)] at there
  cases there

theorem skip {c : Char} (here : text[i]? = some c) (ends : endsBare c = true)
    (behind : Covers text (i + 1) ts) : Covers text i ts := by
  refine ⟨?_, behind.ordered, behind.found, behind.formed, fun j from_start d there => ?_⟩
  · intro token member
    exact Nat.le_of_succ_le (behind.starts token member)
  · rcases Nat.eq_or_lt_of_le from_start with rfl | later
    · rw [here] at there
      cases there
      exact .inr (ends_bare_iff.mp ends)
    · exact behind.covered j later d there

theorem word (here : text.drop i = w.toList ++ rest) (whole : IsWhole w rest)
    (behind : Covers text (i + w.length) ts) : Covers text i (⟨w, i⟩ :: ts) := by
  have some := length_pos_of_whole whole
  refine ⟨?_, ?_, ?_, ?_, fun j from_start c there => ?_⟩
  · rw [List.forall_mem_cons]
    refine ⟨Nat.le_refl i, fun token member => ?_⟩
    exact Nat.le_of_add_right_le (behind.starts token member)
  · refine List.pairwise_cons.mpr ⟨fun token member => ?_, behind.ordered⟩
    have later := behind.starts token member
    exact ⟨Nat.lt_of_lt_of_le (Nat.lt_add_of_pos_right some) later, later⟩
  · exact List.forall_mem_cons.mpr ⟨take_of_word here, behind.found⟩
  · refine List.forall_mem_cons.mpr ⟨?_, behind.formed⟩
    rcases whole with enclosed | ⟨bare, ends⟩
    · exact .inl enclosed
    · rw [head_of_drop (drop_of_word here)] at ends
      exact .inr ⟨bare, fun c there => ends_bare_iff.mp (ends c there)⟩
  · rcases Nat.lt_or_ge j (i + w.length) with inside | outside
    · exact .inl ⟨_, List.mem_cons_self, from_start, inside⟩
    · rcases behind.covered j outside c there with ⟨token, member, inside⟩ | separates
      · exact .inl ⟨token, List.mem_cons_of_mem _ member, inside⟩
      · exact .inr separates

end Covers

theorem Layout.covers (layout : Layout i rest ps) (here : text.drop i = rest) :
    Covers text i (ps.filterMap Piece.token?) := by
  induction layout with
  | ending => exact .ending here
  | period behind ih => exact .skip (getElem_of_drop here) (by decide) (ih (drop_of_cons here))
  | blank blank behind ih =>
      exact .skip (getElem_of_drop here) (ends_bare_iff.mpr (.inl blank)) (ih (drop_of_cons here))
  | word whole behind ih => exact .word here whole (ih (drop_of_word here))

namespace Covers

variable {token : Token} {c : Char}

theorem exists_head (covers : Covers text i ts) (member : token ∈ ts) :
    ∃ c, text[token.position]? = some c ∧ endsBare c = false := by
  have first : ∃ c more, token.text.toList = c :: more ∧ endsBare c = false := by
    rcases covers.formed token member with ⟨inner, -, enclosed⟩ | ⟨bare, -⟩
    · exact ⟨'"', _, enclosed, not_ends_bare_quote⟩
    · obtain ⟨c, more, bare, period, blank, -, -⟩ := is_bare_cons bare
      exact ⟨c, more, bare, by simp [endsBare, period, blank]⟩
  obtain ⟨c, more, cons, goes_on⟩ := first
  have stands : token.text.toList <+: text.drop token.position := by
    rw [← covers.found token member]
    exact List.take_prefix _ _
  rw [cons] at stands
  obtain ⟨behind, same⟩ := stands
  exact ⟨c, getElem_of_drop same.symm, goes_on⟩

theorem eq_nil (covers : Covers text i ts) (here : text.drop i = []) : ts = [] := by
  refine List.eq_nil_iff_forall_not_mem.mpr fun token member => ?_
  obtain ⟨c, there, -⟩ := covers.exists_head member
  have length := List.drop_eq_nil_iff.mp here
  have from_start := covers.starts token member
  rw [List.getElem?_eq_none (Nat.le_trans length from_start)] at there
  cases there

theorem behind_separator (covers : Covers text i ts) (here : text[i]? = some c)
    (ends : endsBare c = true) : Covers text (i + 1) ts := by
  refine ⟨fun token member => ?_, covers.ordered, covers.found, covers.formed, ?_⟩
  · obtain ⟨d, there, goes_on⟩ := covers.exists_head member
    refine Nat.lt_of_le_of_ne (covers.starts token member) ?_
    intro same
    rw [← same, here] at there
    cases there
    rw [ends] at goes_on
    cases goes_on
  · intro j from_start
    exact covers.covered j (Nat.le_of_succ_le from_start)

theorem exists_first (covers : Covers text i ts) (here : text[i]? = some c)
    (goes_on : endsBare c = false) : ∃ w behind us, ts = ⟨w, i⟩ :: us ∧
      text.drop i = w.toList ++ behind ∧ IsWhole w behind ∧ Covers text (i + w.length) us := by
  have separates : ¬(Text.isBlank c = true ∨ c = '.') := by
    rw [← ends_bare_iff, goes_on]
    exact Bool.false_ne_true
  obtain ⟨⟨w, position⟩, member, from_here, -⟩ :=
    (covers.covered i (Nat.le_refl i) c here).resolve_right separates
  have at_start : position = i := Nat.le_antisymm from_here (covers.starts _ member)
  subst at_start
  cases ts with
  | nil => cases member
  | cons first us =>
      obtain ⟨behind_first, ordered⟩ := List.pairwise_cons.mp covers.ordered
      -- A token behind the first would start behind it, and so behind the offset.
      have is_first : ⟨w, position⟩ = first := by
        rcases List.mem_cons.mp member with same | later
        · exact same
        · have after := (behind_first _ later).1
          have from_start := covers.starts first List.mem_cons_self
          exact absurd from_start (Nat.not_le_of_lt after)
      subst is_first
      have found := covers.found _ List.mem_cons_self
      have cut : text.drop position = w.toList ++ (text.drop position).drop w.length := by
        rw [← found, List.take_append_drop]
      refine ⟨w, _, us, rfl, cut, ?_, ⟨?_, ordered, ?_, ?_, ?_⟩⟩
      · rcases covers.formed _ List.mem_cons_self with enclosed | ⟨bare, ends⟩
        · exact .inl enclosed
        · refine .inr ⟨bare, fun d there => ?_⟩
          rw [List.drop_drop, List.head?_drop] at there
          exact ends_bare_iff.mpr (ends d there)
      · intro token later
        exact (behind_first token later).2
      · exact (List.forall_mem_cons.mp covers.found).2
      · exact (List.forall_mem_cons.mp covers.formed).2
      · intro j behind d there
        have from_start := Nat.le_of_add_right_le behind
        rcases covers.covered j from_start d there with ⟨token, listed, inside⟩ | separates
        · rcases List.mem_cons.mp listed with rfl | later
          · exact absurd inside.2 (Nat.not_lt_of_le behind)
          · exact .inl ⟨token, later, inside⟩
        · exact .inr separates

theorem exists_layout (covers : Covers text i ts) :
    ∃ ps, Layout i (text.drop i) ps ∧ ps.filterMap Piece.token? = ts := by
  induction length : (text.drop i).length using Nat.strong_induction_on generalizing i ts with
  | _ n ih =>
      subst length
      cases rest : text.drop i with
      | nil =>
          rw [covers.eq_nil rest]
          exact ⟨[], .ending, rfl⟩
      | cons c behind =>
          have here := getElem_of_drop rest
          have next := drop_of_cons rest
          cases kind : endsBare c with
          | true =>
              have shorter : (text.drop (i + 1)).length < (text.drop i).length := by
                rw [next, rest]
                exact Nat.lt_succ_self _
              obtain ⟨ps, layout, tokens⟩ := ih _ shorter (covers.behind_separator here kind) rfl
              rw [next] at layout
              rcases ends_bare_iff.mp kind with blank | rfl
              · exact ⟨ps, .blank blank layout, tokens⟩
              · exact ⟨.period :: ps, .period layout, tokens⟩
          | false =>
              obtain ⟨w, after, us, rfl, cut, whole, later⟩ := covers.exists_first here kind
              have some := length_pos_of_whole whole
              have shorter : (text.drop (i + w.length)).length < (text.drop i).length := by
                rw [drop_of_word cut, cut, List.length_append, String.length_toList]
                exact Nat.lt_add_of_pos_left some
              obtain ⟨ps, layout, tokens⟩ := ih _ shorter later rfl
              rw [drop_of_word cut] at layout
              rw [← rest, cut]
              exact ⟨.word ⟨w, i⟩ :: ps, .word whole layout, congrArg _ tokens⟩

end Covers

/-- Sentences by their ends: no period is inside of one, and there is one between two in a row. -/
structure Grouped (text : List Char) (ss : List (List Token)) : Prop where
  nonempty : [] ∉ ss
  joined : ∀ s ∈ ss, s.IsChain fun a b => NoPeriod text a.stop b.position
  apart : ss.IsChain fun s t =>
    ∀ a ∈ s.getLast?, ∀ b ∈ t.head?, ¬NoPeriod text a.stop b.position

section Sentences

variable {ss us : List (List Token)}

theorem flatten_gather (sentence : List Token) (ps : List Piece) :
    (gather sentence ps).flatten = sentence ++ ps.filterMap Piece.token? := by
  induction ps generalizing sentence with
  | nil =>
      rw [gather]
      split
      · next none => rw [none]; rfl
      · exact List.flatten_cons
  | cons p ps ih =>
      cases p with
      | word token =>
          rw [gather, ih, List.append_assoc]
          rfl
      | period =>
          rw [gather]
          split
          · next none =>
              rw [ih, none]
              rfl
          · rw [List.flatten_cons, ih]
            rfl

theorem NoPeriod.succ {j : Nat} {c : Char} (before : NoPeriod text i j) (here : text[j]? = some c)
    (other : c ≠ '.') : NoPeriod text i (j + 1) := by
  intro k from_start inside
  rcases Nat.lt_or_eq_of_le (Nat.le_of_lt_succ inside) with earlier | rfl
  · exact before k from_start earlier
  · rw [here]
    exact fun period => other (Option.some.inj period)

theorem Layout.grouped (layout : Layout i rest ps) (here : text.drop i = rest)
    {sentence : List Token}
    (joined : sentence.IsChain fun a b => NoPeriod text a.stop b.position)
    (still : ∀ a ∈ sentence.getLast?, a.stop ≤ i ∧ NoPeriod text a.stop i) :
    Grouped text (gather sentence ps) := by
  induction layout generalizing sentence with
  | ending =>
      rw [gather]
      split
      · exact ⟨List.not_mem_nil, nofun, .nil⟩
      · next some =>
          refine ⟨fun empty => some (List.mem_singleton.mp empty).symm, ?_, .singleton _⟩
          exact List.forall_mem_singleton.mpr joined
  | @period i rest ps behind ih =>
      have next := ih (drop_of_cons here) .nil nofun
      rw [gather]
      split
      · exact next
      · next some =>
          refine ⟨?_, ?_, List.isChain_cons.mpr ⟨?_, next.apart⟩⟩
          · exact List.not_mem_cons_of_ne_of_not_mem (Ne.symm some) next.nonempty
          · exact List.forall_mem_cons.mpr ⟨joined, next.joined⟩
          · intro t first a last b head no_period
            have listed : b ∈ (gather [] ps).flatten :=
              List.mem_flatten_of_mem (List.mem_of_mem_head? first) (List.mem_of_mem_head? head)
            rw [flatten_gather, List.nil_append] at listed
            have later := (behind.covers (drop_of_cons here)).starts b listed
            exact no_period i (still a last).1 later (getElem_of_drop here)
  | @blank i c rest ps blank behind ih =>
      refine ih (drop_of_cons here) joined fun a last => ?_
      have before := still a last
      refine ⟨Nat.le_succ_of_le before.1, before.2.succ (getElem_of_drop here) ?_⟩
      rintro rfl
      exact absurd blank (by decide)
  | @word i w rest ps whole behind ih =>
      refine ih (drop_of_word here) ?_ ?_
      · refine List.isChain_append.mpr ⟨joined, .singleton _, fun a last b head => ?_⟩
        cases head
        exact (still a last).2
      · intro a last
        rw [List.getLast?_concat] at last
        cases last
        exact ⟨Nat.le_refl _, fun k from_stop before => absurd before (Nat.not_lt_of_le from_stop)⟩

theorem Grouped.unique (first : Grouped text ss) (second : Grouped text us)
    (same : ss.flatten = us.flatten) : ss = us := by
  classical
  have split {vs : List (List Token)} (grouped : Grouped text vs) :
      vs.flatten.splitBy (fun a b => decide (NoPeriod text a.stop b.position)) = vs := by
    refine List.splitBy_flatten grouped.nonempty ?_ ?_
    · simpa only [decide_eq_true_eq] using grouped.joined
    · refine grouped.apart.imp_of_mem_imp fun s t left right apart => ?_
      have some (v : List Token) (member : v ∈ vs) : v ≠ [] :=
        ne_of_mem_of_not_mem member grouped.nonempty
      refine ⟨some s left, some t right, decide_eq_false ?_⟩
      exact apart _ (List.getLast_mem_getLast? _) _ (List.head_mem_head? _)
  rw [← split first, same, split second]

theorem AreSentences.nodup (are : AreSentences text ss) : ss.flatten.Nodup := by
  refine are.covers.ordered.imp fun before => ?_
  rintro rfl
  exact Nat.lt_irrefl _ before.1

theorem AreSentences.grouped_ends (are : AreSentences text ss) : Grouped text ss := by
  refine ⟨are.nonempty, ?_, ?_⟩
  · intro s member
    refine List.isChain_iff_forall_rel_of_append_cons_cons.mpr fun a b l r cut => ?_
    have inside : [a, b] <:+: s := ⟨l, r, by rw [cut]; simp⟩
    exact (are.grouped a b (inside.trans (List.infix_of_mem_flatten member))).mp
      ⟨s, member, inside⟩
  · refine List.isChain_iff_forall_rel_of_append_cons_cons.mpr fun s t l r cut => ?_
    intro a last b head no_period
    have disjoint := (List.nodup_flatten.mp are.nodup).2
    obtain ⟨front, rfl⟩ := List.getLast?_eq_some_iff.mp last
    obtain ⟨back, rfl⟩ := List.head?_eq_some_iff.mp head
    have row : [a, b] <:+: ss.flatten := by
      refine ⟨l.flatten ++ front, back ++ r.flatten, ?_⟩
      rw [cut]
      simp
    obtain ⟨v, member, inside⟩ := (are.grouped a b row).mpr no_period
    have left : a ∈ v := inside.subset List.mem_cons_self
    have right : b ∈ v := inside.subset (List.mem_cons_of_mem _ List.mem_cons_self)
    rw [cut, List.pairwise_append, List.pairwise_cons, List.pairwise_cons] at disjoint
    obtain ⟨-, ⟨of_first, of_second, -⟩, across⟩ := disjoint
    rw [cut, List.mem_append, List.mem_cons, List.mem_cons] at member
    -- The two tokens would be in one sentence, but each is only in its own.
    rcases member with before | rfl | rfl | behind
    · exact across v before (b :: back) (by simp) right List.mem_cons_self
    · exact of_first _ List.mem_cons_self right List.mem_cons_self
    · exact of_first _ List.mem_cons_self (by simp) left
    · exact of_first v (List.mem_cons_of_mem _ behind) (by simp) left

theorem Grouped.are_sentences (grouped : Grouped text ss) (covers : Covers text 0 ss.flatten) :
    AreSentences text ss := by
  refine ⟨covers, grouped.nonempty, fun a b row => ⟨?_, fun no_period => ?_⟩⟩
  · rintro ⟨s, member, inside⟩
    have chain := grouped.joined s member
    simpa only [List.isChain_pair] using chain.infix inside
  · have rows : ss.flatten.IsChain fun a b =>
        (∃ s ∈ ss, [a, b] <:+: s) ∨ ¬NoPeriod text a.stop b.position := by
      refine (List.isChain_flatten grouped.nonempty).mpr ⟨fun s member => ?_, ?_⟩
      · refine List.isChain_iff_forall_rel_of_append_cons_cons.mpr fun a b l r cut => ?_
        exact .inl ⟨s, member, l, r, by rw [cut]; simp⟩
      · exact grouped.apart.imp fun s t apart a last b head => .inr (apart a last b head)
    have next := rows.infix row
    rw [List.isChain_pair] at next
    rcases next with found | period
    · exact found
    · exact absurd no_period period

theorem sentences_eq_ok_iff {raw : String} :
    sentences raw = .ok ss ↔ ∃ ps, Layout 0 raw.toList ps ∧ gather [] ps = ss := by
  constructor
  · intro read
    cases broken : pieces 0 raw.toList with
    | ok ps =>
        rw [sentences, broken] at read
        exact ⟨ps, pieces_eq_ok_iff.mp broken, Except.ok.inj read⟩
    | error fault =>
        rw [sentences, broken] at read
        cases read
  · rintro ⟨ps, layout, rfl⟩
    rw [sentences, layout.pieces_eq]
    rfl

/-- The sentences that are read are the sentences of the text, and there are no others. -/
theorem are_sentences_iff {raw : String} :
    sentences raw = .ok ss ↔ AreSentences raw.toList ss := by
  have gathered {ps : List Piece} (layout : Layout 0 raw.toList ps) :
      Grouped raw.toList (gather [] ps) := layout.grouped rfl .nil nofun
  rw [sentences_eq_ok_iff]
  constructor
  · rintro ⟨ps, layout, rfl⟩
    refine (gathered layout).are_sentences ?_
    rw [flatten_gather]
    exact layout.covers rfl
  · intro are
    obtain ⟨ps, layout, tokens⟩ := are.covers.exists_layout
    refine ⟨ps, layout, (gathered layout).unique are.grouped_ends ?_⟩
    rw [flatten_gather, tokens, List.nil_append]

end Sentences

section Unclosed

variable {before behind : List Char} {p : Nat}

theorem starts_word_cons {c : Char} (ends : endsBare c = true) :
    StartsWord i (c :: before) ts ↔ StartsWord (i + 1) before ts := by
  cases before with
  | nil => exact iff_of_true (.inr (.inl ⟨c, rfl, ends_bare_iff.mp ends⟩)) (.inl rfl)
  | cons d before =>
      have length : i + (c :: d :: before).length = i + 1 + (d :: before).length := by
        rw [List.length_cons, Nat.add_assoc, Nat.add_comm 1]
      rw [StartsWord, StartsWord, List.getLast?_cons_cons, length]
      simp

theorem not_ends_of_bare (bare : IsBare w) {c : Char} (member : c ∈ w.toList) :
    endsBare c = false := by
  simp [endsBare, bare.unbroken c member]

theorem starts_word_word (whole : IsWhole w before) (rest : before = [] → ts = []) :
    StartsWord i (w.toList ++ before) (⟨w, i⟩ :: ts) ↔
      (before = [] → IsEnclosed w) ∧ StartsWord (i + w.length) before ts := by
  have some := length_pos_of_whole whole
  have nonempty : w.toList ≠ [] := by
    rw [← List.length_pos_iff, String.length_toList]
    exact some
  cases before with
  | nil =>
      rw [rest rfl, List.append_nil]
      constructor
      · rintro (empty | ⟨c, last, ends⟩ | ⟨token, member, enclosed, -⟩)
        · exact absurd empty nonempty
        · refine ⟨fun _ => ?_, .inl rfl⟩
          rcases whole with enclosed | ⟨bare, -⟩
          · exact enclosed
          · rw [← ends_bare_iff, not_ends_of_bare bare (List.mem_of_mem_getLast? last)] at ends
            cases ends
        · obtain rfl := List.mem_singleton.mp member
          exact ⟨fun _ => enclosed, .inl rfl⟩
      · rintro ⟨enclosed, -⟩
        refine .inr (.inr ⟨_, List.mem_singleton_self _, enclosed rfl, ?_⟩)
        rw [String.length_toList]
        rfl
  | cons d before =>
      have length : i + (w.toList ++ d :: before).length = i + w.length + (d :: before).length := by
        rw [List.length_append, String.length_toList, Nat.add_assoc]
      have earlier : Token.stop ⟨w, i⟩ ≠ i + w.length + (d :: before).length := by
        have stop : Token.stop ⟨w, i⟩ = i + w.length := rfl
        rw [stop, List.length_cons]
        omega
      rw [StartsWord, StartsWord, List.getLast?_append_of_ne_nil _ (List.cons_ne_nil _ _), length,
        List.exists_mem_cons_iff, and_iff_right (show d :: before = [] → _ from nofun)]
      simp only [nonempty, List.append_eq_nil_iff, List.cons_ne_nil, earlier, and_false, false_or]

theorem whole_before_quote : IsWhole w (before ++ '"' :: behind) ↔
    IsWhole w before ∧ (before = [] → IsEnclosed w) := by
  cases before with
  | nil =>
      have quote : ¬∀ c ∈ ([] ++ '"' :: behind).head?, endsBare c = true := fun ends =>
        Bool.false_ne_true (not_ends_bare_quote.symm.trans (ends '"' rfl))
      constructor
      · rintro (enclosed | ⟨-, ends⟩)
        · exact ⟨.inl enclosed, fun _ => enclosed⟩
        · exact absurd ends quote
      · rintro ⟨-, enclosed⟩
        exact .inl (enclosed rfl)
  | cons c before => simp [IsWhole]

theorem Layout.tokens_nil (layout : Layout i before ps) (empty : before = []) :
    ps.filterMap Piece.token? = [] := by
  subst empty
  exact (layout.covers List.drop_nil).eq_nil List.drop_nil

theorem error_of_cons {read : Except Unterminated (List Piece)} {q : Piece} {fault : Unterminated}
    (failed : (do return q :: (← read)) = Except.error fault) : read = .error fault := by
  cases read with
  | ok qs => cases failed
  | error other =>
      cases failed
      rfl

theorem exists_unclosed (failed : pieces i text = .error ⟨p⟩) :
    ∃ before behind ps, text = before ++ '"' :: behind ∧ '"' ∉ behind ∧ Layout i before ps ∧
      StartsWord i before (ps.filterMap Piece.token?) ∧ p = i + before.length := by
  induction text using text_induction generalizing i with
  | ending =>
      rw [pieces] at failed
      cases failed
  | period rest ih =>
      rw [pieces_period] at failed
      obtain ⟨before, behind, ps, rfl, none, layout, starts, rfl⟩ := ih (error_of_cons failed)
      refine ⟨'.' :: before, behind, .period :: ps, rfl, none, .period layout, ?_, ?_⟩
      · exact (starts_word_cons (by decide)).mpr starts
      · rw [List.length_cons]
        omega
  | blank c rest blank ih =>
      rw [pieces_of_blank blank] at failed
      obtain ⟨before, behind, ps, rfl, none, layout, starts, rfl⟩ := ih failed
      refine ⟨c :: before, behind, ps, rfl, none, .blank blank layout, ?_, ?_⟩
      · exact (starts_word_cons (ends_bare_iff.mpr (.inl blank))).mpr starts
      · rw [List.length_cons]
        omega
  | word w rest whole ih =>
      rw [pieces_word whole] at failed
      obtain ⟨before, behind, ps, rfl, none, layout, starts, rfl⟩ := ih (error_of_cons failed)
      obtain ⟨whole, ends⟩ := whole_before_quote.mp whole
      refine ⟨w.toList ++ before, behind, .word ⟨w, i⟩ :: ps, ?_, none, .word whole layout, ?_, ?_⟩
      · rw [List.append_assoc]
      · exact (starts_word_word whole layout.tokens_nil).mpr ⟨ends, starts⟩
      · rw [List.length_append, String.length_toList, Nat.add_assoc]
  | unclosed rest none =>
      rw [pieces_unclosed none] at failed
      cases failed
      exact ⟨[], rest, [], rfl, none, .ending, .inl rfl, rfl⟩

theorem Layout.unclosed (layout : Layout i before ps)
    (starts : StartsWord i before (ps.filterMap Piece.token?)) (none : '"' ∉ behind) :
    pieces i (before ++ '"' :: behind) = .error ⟨i + before.length⟩ := by
  induction layout with
  | ending => exact pieces_unclosed none
  | @period i rest ps layout ih =>
      rw [List.cons_append, pieces_period, ih ((starts_word_cons (by decide)).mp starts),
        List.length_cons, Nat.add_assoc, Nat.add_comm 1]
      rfl
  | @blank i c rest ps blank layout ih =>
      rw [List.cons_append, pieces_of_blank blank,
        ih ((starts_word_cons (ends_bare_iff.mpr (.inl blank))).mp starts), List.length_cons,
        Nat.add_assoc, Nat.add_comm 1]
  | @word i w rest ps whole layout ih =>
      obtain ⟨ends, starts⟩ := (starts_word_word whole layout.tokens_nil).mp starts
      rw [List.append_assoc, pieces_word (whole_before_quote.mpr ⟨whole, ends⟩), ih starts,
        List.length_append, String.length_toList, Nat.add_assoc]
      rfl

theorem sentences_eq_error {raw : String} {fault : Unterminated} :
    sentences raw = .error fault ↔ pieces 0 raw.toList = .error fault := by
  rw [sentences]
  cases pieces 0 raw.toList with
  | ok ps => exact iff_of_false nofun nofun
  | error other =>
      constructor
      · intro failed
        cases failed
        rfl
      · intro failed
        cases failed
        rfl

theorem not_mem_drop_iff {c : Char} :
    c ∉ text.drop (p + 1) ↔ ∀ i, p < i → text[i]? ≠ some c := by
  constructor
  · intro none i later found
    refine none (List.mem_of_getElem? (i := i - (p + 1)) ?_)
    rw [List.getElem?_drop, Nat.add_sub_cancel' later]
    exact found
  · intro none member
    obtain ⟨k, found⟩ := List.getElem?_of_mem member
    rw [List.getElem?_drop] at found
    exact none _ (Nat.lt_of_lt_of_le (Nat.lt_succ_self p) (Nat.le_add_right _ _)) found

/-- A text is not read if a quote starts a word and no other ends it, and the first is reported. -/
theorem is_unclosed_iff {raw : String} :
    sentences raw = .error ⟨p⟩ ↔ IsUnclosed raw.toList p := by
  rw [sentences_eq_error]
  constructor
  · intro failed
    obtain ⟨before, behind, ps, text, none, layout, starts, at_quote⟩ := exists_unclosed failed
    rw [Nat.zero_add] at at_quote
    have here : raw.toList.drop p = '"' :: behind := by
      rw [text, at_quote, List.drop_left]
    have read : raw.toList.take p = before := by
      rw [text, at_quote, List.take_left]
    refine ⟨getElem_of_drop here, ?_, gather [] ps, ?_, ?_⟩
    · rw [← not_mem_drop_iff, drop_of_cons here]
      exact none
    · rw [read, sentences_eq_ok_iff, String.toList_ofList]
      exact ⟨ps, layout, rfl⟩
    · rw [read, flatten_gather]
      exact starts
  · rintro ⟨quote, last, read, before, starts⟩
    obtain ⟨ps, layout, rfl⟩ := sentences_eq_ok_iff.mp before
    rw [String.toList_ofList] at layout
    rw [flatten_gather] at starts
    have none := not_mem_drop_iff.mpr last
    obtain ⟨inside, same⟩ := List.getElem?_eq_some_iff.mp quote
    have whole : raw.toList = raw.toList.take p ++ '"' :: raw.toList.drop (p + 1) := by
      rw [← same, ← List.drop_eq_getElem_cons inside, List.take_append_drop]
    have failed := layout.unclosed starts none
    rw [← whole, List.length_take_of_le (Nat.le_of_lt inside), Nat.zero_add] at failed
    exact failed

end Unclosed

end Token

/-- The sentences that are read are exactly those of the text. Nothing is read exactly if a quote
that starts a word is not closed, and then the place of this quote is reported. -/
theorem sentences_exact (text : String) :
    (∀ sentences, Token.sentences text = .ok sentences ↔
      Token.AreSentences text.toList sentences) ∧
    ∀ p, Token.sentences text = .error ⟨p⟩ ↔ Token.IsUnclosed text.toList p :=
  ⟨fun _ => Token.are_sentences_iff, fun _ => Token.is_unclosed_iff⟩

/-- A quote inside of a bare word is one of its characters, and a word in quotes ends with its own. -/
example : Token.sentences "a\"b \"c. d\"e.. f" = .ok
    [[⟨"a\"b", 0⟩, ⟨"\"c. d\"", 4⟩, ⟨"e", 10⟩], [⟨"f", 14⟩]] := by
  cbv

end ControlledEnglish
