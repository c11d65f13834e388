import Mathlib.Data.List.Basic
import ControlledEnglish.Command.Run
import ControlledEnglish.Proofs.Spacing

namespace ControlledEnglish

namespace Text

variable {c : Char} {line rest text : String}

theorem not_mem_append (first : c ∉ line.toList) (second : c ∉ rest.toList) :
    c ∉ (line ++ rest).toList := by
  rw [String.toList_append]
  exact List.not_mem_append first second

theorem colons_apart_append {line rest : List Char} (first : colonsApart line = true)
    (second : colonsApart rest = true) : colonsApart (line ++ rest) = true := by
  induction line with
  | nil => exact second
  | cons c line ih =>
      simp only [colonsApart, List.cons_append, Bool.and_eq_true, Bool.or_eq_true] at first ⊢
      refine ⟨first.1.imp_right fun blank => ?_, ih first.2⟩
      rw [beq_iff_eq] at blank ⊢
      rw [List.head?_append, blank, Option.some_or]

theorem colons_apart_of_none {line : List Char} (none : ':' ∉ line) : colonsApart line = true := by
  induction line with
  | nil => rfl
  | cons c line ih =>
      have other : (c != ':') = true := bne_iff_ne.mpr (List.ne_of_not_mem_cons none).symm
      rw [colonsApart, other, ih (List.not_mem_of_not_mem_cons none)]
      rfl

theorem steady_append (first : IsSteady line) (second : IsSteady rest) : IsSteady (line ++ rest) := by
  rw [IsSteady, String.toList_append]
  exact ⟨List.forall_mem_append.mpr ⟨first.1, second.1⟩, colons_apart_append first.2 second.2⟩

theorem digit_of_mem_nat {n : Nat} (member : c ∈ (toString n).toList) : c.isDigit = true := by
  have listed : c ∈ Nat.toDigits 10 n := by
    rw [← Nat.toList_repr]
    exact member
  exact Nat.isDigit_of_mem_toDigits (by decide) (by decide) listed

theorem steady_nat (n : Nat) : IsSteady (toString n) := by
  have only {c : Char} (other : c.isDigit = false) : c ∉ (toString n).toList := fun member => by
    rw [digit_of_mem_nat member] at other
    cases other
  refine ⟨fun c member => ⟨?_, ?_, fun control => ?_⟩, colons_apart_of_none (only (by decide))⟩
  · exact ne_of_mem_of_not_mem member (only (by decide))
  · exact ne_of_mem_of_not_mem member (only (by decide))
  · have silent : controls.all (!·.isDigit) = true := by decide
    exact only (by simpa using List.all_eq_true.mp silent c control) member

theorem steady_int (i : Int) : IsSteady (toString i) := by
  cases i with
  | ofNat n => exact steady_nat n
  | negSucc n => exact steady_append (by decide) (steady_nat (n + 1))

/-! Brackets: none comes in as words are put together and shown. -/

theorem bracket_not_mem_nat (n : Nat) : '[' ∉ (toString n).toList :=
  fun member => ((steady_nat n).1 _ member).1 rfl

theorem bracket_not_mem_digits (value : Nat) : '[' ∉ Nat.toDigits 16 value := by
  have digit (n : Nat) (small : n < 16) : '[' ≠ n.digitChar := by
    have all : ∀ n : Fin 16, '[' ≠ n.val.digitChar := by decide
    exact all ⟨n, small⟩
  induction value using Nat.strongRecOn with
  | _ value ih =>
      rw [Nat.toDigits_eq_if (by decide)]
      split
      · next small => exact fun member => digit _ small (List.mem_singleton.mp member)
      · next large =>
          refine List.not_mem_append (ih _ (by omega)) fun member => ?_
          exact digit _ (Nat.mod_lt _ (by decide)) (List.mem_singleton.mp member)

theorem bracket_not_mem_hex (width value : Nat) : '[' ∉ hexDigits width value := by
  refine List.not_mem_append (fun member => ?_) (bracket_not_mem_digits value)
  exact absurd (List.eq_of_mem_replicate member) (by decide)

theorem bracket_not_mem_escaped {quote : Char} (other : c ≠ '[') : '[' ∉ escaped quote c := by
  have slash (d : Char) (kept : d ≠ '[') : '[' ∉ ['\\', d] := by
    simp [kept.symm]
  have code (d : Char) (kept : d ≠ '[') (width value : Nat) :
      '[' ∉ '\\' :: d :: hexDigits width value := by
    simp [kept.symm, bracket_not_mem_hex]
  unfold escaped
  repeat' split
  · exact slash c other
  · exact slash _ (by decide)
  · exact slash _ (by decide)
  · exact slash _ (by decide)
  · exact fun member => other (List.mem_singleton.mp member).symm
  · exact code _ (by decide) _ _
  · exact code _ (by decide) _ _
  · exact code _ (by decide) _ _

theorem bracket_not_mem_quoted (free : '[' ∉ text.toList) : '[' ∉ (quoted text).toList := by
  have quote : '[' ≠ quoteFor text.toList := by
    unfold quoteFor
    split <;> decide
  have shown : '[' ∉ text.toList.flatMap (escaped (quoteFor text.toList)) := fun member => by
    obtain ⟨c, listed, inside⟩ := List.mem_flatMap.mp member
    exact bracket_not_mem_escaped (ne_of_mem_of_not_mem listed free) inside
  rw [quoted, String.toList_ofList]
  simp [quote, shown]

end Text

theorem bracket_not_mem_spaced {words : List String}
    (free : ∀ word ∈ words, '[' ∉ word.toList) : '[' ∉ (spaced words).toList := by
  induction words with
  | nil => decide
  | cons word words ih =>
      obtain ⟨first, later⟩ := List.forall_mem_cons.mp free
      cases words with
      | nil => rwa [Token.spaced_singleton]
      | cons next words =>
          rw [Token.spaced_cons_cons]
          exact Text.not_mem_append (Text.not_mem_append first (by decide)) (ih later)

theorem Token.bracket_not_mem_word {text : String} {sentences : List (List Token)}
    {tokens : List Token} (read : Token.sentences text = .ok sentences) (free : '[' ∉ text.toList)
    (member : tokens ∈ sentences) :
    ∀ word ∈ tokens.map Token.text, '[' ∉ word.toList := by
  have are := are_sentences_iff.mp read
  rw [List.forall_mem_map]
  intro token inside bracket
  have found := are.covers.found token (List.mem_flatten_of_mem member inside)
  rw [← found] at bracket
  exact free (List.mem_of_mem_drop (List.mem_of_mem_take bracket))

theorem Style.mark_normal (line : String) : normal.mark line = line := by
  rw [mark, opening, closing, String.empty_append, String.append_empty]

namespace Report

variable {code other : Nat} {lines : List (Option String)} {report first second last : Report}
  {before rest reports : List Report}

theorem ending_printing (code : Nat) (lines : List (Option String)) :
    (printing code lines).ending = .exit code ∨ (printing code lines).ending = .refused := by
  induction lines with
  | nil => exact .inl rfl
  | cons line rest ih =>
      cases line with
      | none => exact .inr rfl
      | some line => exact ih

theorem ending_printing_taken (taken : ∀ line ∈ lines, line.isSome) :
    (printing code lines).ending = .exit code := by
  induction lines with
  | nil => rfl
  | cons line rest ih =>
      obtain ⟨here, later⟩ := List.forall_mem_cons.mp taken
      obtain ⟨line, rfl⟩ := Option.isSome_iff_exists.mp here
      exact ih later

theorem followedBy_exit (here : first.ending = .exit code) (there : second.ending = .exit other) :
    first.followedBy second = ⟨first.lines ++ second.lines, .exit (max code other)⟩ := by
  rw [followedBy, here, there]

theorem followedBy_refused (here : first.ending = .exit code) (there : second.ending = .refused) :
    first.followedBy second = ⟨first.lines ++ second.lines, .refused⟩ := by
  rw [followedBy, here, there]

theorem refused_followedBy (here : first.ending = .refused) : first.followedBy second = first := by
  rw [followedBy, here]

theorem printing_ne_nil (some : lines ≠ []) (taken : (printing code lines).ending ≠ .refused) :
    (printing code lines).lines ≠ [] := by
  obtain ⟨line, rest, rfl⟩ := List.exists_cons_of_ne_nil some
  cases line with
  | none => exact absurd rfl taken
  | some line => exact List.cons_ne_nil _ _

def IsWhole (report : Report) : Prop := report.ending = .exit 0 ∨ report.ending = .exit 1

theorem IsWhole.ne_refused (whole : report.IsWhole) : report.ending ≠ .refused := by
  rcases whole with success | failure
  · rw [success]
    nofun
  · rw [failure]
    nofun

theorem followedBy_whole (here : first.IsWhole) (there : second.IsWhole) :
    (first.followedBy second).lines = first.lines ++ second.lines ∧
      (first.followedBy second).IsWhole ∧
      ((first.followedBy second).ending = .exit 1 ↔
        first.ending = .exit 1 ∨ second.ending = .exit 1) := by
  rcases here with here | here <;> rcases there with there | there <;>
    simp [followedBy_exit here there, IsWhole, here, there]

theorem whole_followedBy_refused (here : first.IsWhole) (there : second.ending = .refused) :
    first.followedBy second = ⟨first.lines ++ second.lines, .refused⟩ := by
  rcases here with here | here
  · exact followedBy_refused here there
  · exact followedBy_refused here there

theorem joined_cons (first : Report) (rest : List Report) :
    joined (first :: rest) = first.followedBy (joined rest) := rfl

theorem joined_singleton (whole : report.IsWhole ∨ report.ending = .refused) :
    joined [report] = report := by
  obtain ⟨lines, ending⟩ := report
  rcases whole with (rfl | rfl) | rfl
  · exact congrArg (Report.mk · (.exit 0)) (List.append_nil lines)
  · exact congrArg (Report.mk · (.exit 1)) (List.append_nil lines)
  · rfl

theorem joined_whole (whole : ∀ report ∈ reports, report.IsWhole) :
    (joined reports).lines = reports.flatMap Report.lines ∧ (joined reports).IsWhole ∧
      ((joined reports).ending = .exit 1 ↔ ∃ report ∈ reports, report.ending = .exit 1) := by
  induction reports with
  | nil => exact ⟨rfl, .inl rfl, by simp [joined]⟩
  | cons first rest ih =>
      obtain ⟨here, later⟩ := List.forall_mem_cons.mp whole
      obtain ⟨lines, ends, failed⟩ := ih later
      rw [joined_cons, List.flatMap_cons, List.exists_mem_cons_iff, ← failed, ← lines]
      exact followedBy_whole here ends

theorem joined_refused (whole : ∀ report ∈ before, report.IsWhole) (refused : last.ending = .refused) :
    joined (before ++ last :: rest) = ⟨(before ++ [last]).flatMap Report.lines, .refused⟩ := by
  induction before with
  | nil =>
      rw [List.nil_append, List.nil_append, joined_cons, refused_followedBy refused, ← refused,
        List.flatMap_singleton]
  | cons first before ih =>
      obtain ⟨here, later⟩ := List.forall_mem_cons.mp whole
      have there := ih later
      have ended := congrArg Report.ending there
      rw [List.cons_append, joined_cons, List.cons_append, List.flatMap_cons,
        whole_followedBy_refused here (congrArg Report.ending there), there]

end Report

namespace Console

variable {console : Console} {message : String}

theorem takes_line (free : '[' ∉ message.toList) : (console.marked message).isSome := by
  have taken := console.takes .normal message free
  rwa [Style.mark_normal] at taken

theorem shows_line (steady : Text.IsSteady message) : console.marked message = some message := by
  have shown := console.shows .normal message steady
  rwa [Style.mark_normal] at shown

theorem failed_of_shown {line : String}
    (shown : console.marked (Style.red.mark ("✗ " ++ message)) = some line) :
    console.failed message = ⟨[line], .exit 1⟩ := by
  rw [failed, shown]
  rfl

theorem failed_of_steady (steady : Text.IsSteady message) :
    console.failed message = ⟨["✗ " ++ message], .exit 1⟩ :=
  failed_of_shown (console.shows .red _ (Text.steady_append (by decide) steady))

theorem failed_of_free (free : '[' ∉ message.toList) : (console.failed message).ending = .exit 1 := by
  apply Report.ending_printing_taken
  intro line listed
  rw [List.mem_singleton.mp listed]
  exact console.takes .red _ (Text.not_mem_append (by decide) free)

theorem failed_of_refused (refused : console.marked (Style.red.mark ("✗ " ++ message)) = none) :
    console.failed message = ⟨[], .refused⟩ := by
  rw [failed, refused]
  rfl

theorem ending_failed (console : Console) (message : String) :
    (console.failed message).ending = .exit 1 ∨ (console.failed message).ending = .refused :=
  Report.ending_printing 1 _

theorem failed_unterminated (console : Console) (fault : Token.Unterminated) :
    console.failed ("Tokenize error: " ++ fault.message) =
      ⟨["✗ Tokenize error: " ++ fault.message], .exit 1⟩ := by
  have steady : Text.IsSteady fault.message := by
    rw [Token.Unterminated.message]
    exact Text.steady_append (Text.steady_append (by decide) (Text.steady_nat _)) (by decide)
  exact failed_of_steady (Text.steady_append (by decide) steady)

end Console

end ControlledEnglish
