import Mathlib.Data.List.TakeWhile
import ControlledEnglish.Source

namespace ControlledEnglish

/-- A word that no blank, period or opening quote breaks. -/
structure IsBare (word : String) : Prop where
  some : word.toList ≠ []
  unbroken : ∀ c ∈ word.toList, Text.isBlank c = false ∧ c ≠ '.'
  unquoted : word.toList.head? ≠ .some '"'

-- Only the characters of the word are looked at.
instance (word : String) :
    Decidable (∀ c ∈ word.toList, Text.isBlank c = false ∧ c ≠ '.') :=
  List.decidableBAll _ _

instance (word : String) : Decidable (IsBare word) :=
  decidable_of_iff (word.toList ≠ [] ∧ (∀ c ∈ word.toList, Text.isBlank c = false ∧ c ≠ '.') ∧
      word.toList.head? ≠ some '"')
    ⟨fun ⟨nonempty, unbroken, unquoted⟩ => ⟨nonempty, unbroken, unquoted⟩,
      fun bare => ⟨bare.some, bare.unbroken, bare.unquoted⟩⟩

/-- A word between two quotes, without others. -/
def IsEnclosed (word : String) : Prop :=
  ∃ inner, '"' ∉ inner ∧ word.toList = '"' :: (inner ++ ['"'])

namespace Token

variable {word : String} {i : Nat} {text rest : List Char} {ps : List Piece}

theorem is_bare_cons (bare : IsBare word) : ∃ c rest, word.toList = c :: rest ∧ c ≠ '.' ∧
    Text.isBlank c = false ∧ c ≠ '"' ∧ ∀ d ∈ rest, endsBare d = false := by
  obtain ⟨some, unbroken, unquoted⟩ := bare
  cases text : word.toList with
  | nil => exact absurd text some
  | cons c rest =>
      rw [text] at unbroken unquoted
      have first := unbroken c List.mem_cons_self
      refine ⟨c, rest, rfl, first.2, first.1, by simpa using unquoted, fun d member => ?_⟩
      have later := unbroken d (List.mem_cons_of_mem c member)
      simp [endsBare, later]

theorem ends_bare_iff {c : Char} : endsBare c = true ↔ Text.isBlank c = true ∨ c = '.' := by
  simp [endsBare]

theorem not_ends_bare_quote : endsBare '"' = false := by decide

def IsWhole (word : String) (rest : List Char) : Prop :=
  IsEnclosed word ∨ IsBare word ∧ ∀ c ∈ rest.head?, endsBare c = true

theorem length_of_enclosed {inner : List Char} (text : word.toList = '"' :: (inner ++ ['"'])) :
    word.length = inner.length + 2 := by
  rw [← String.length_toList, text]
  simp

theorem length_pos_of_whole (whole : IsWhole word rest) : 0 < word.length := by
  rcases whole with ⟨inner, -, text⟩ | ⟨bare, -⟩
  · rw [length_of_enclosed text]
    exact Nat.succ_pos _
  · rw [← String.length_toList]
    exact List.length_pos_iff.mpr bare.some

/-- How pieces make up a text that starts at the offset. -/
inductive Layout : Nat → List Char → List Piece → Prop where
  | ending {i : Nat} : Layout i [] []
  | period {i : Nat} {rest : List Char} {ps : List Piece} (behind : Layout (i + 1) rest ps) :
      Layout i ('.' :: rest) (.period :: ps)
  | blank {i : Nat} {c : Char} {rest : List Char} {ps : List Piece} (blank : Text.isBlank c = true)
      (behind : Layout (i + 1) rest ps) : Layout i (c :: rest) ps
  | word {i : Nat} {word : String} {rest : List Char} {ps : List Piece} (whole : IsWhole word rest)
      (behind : Layout (i + word.length) rest ps) :
      Layout i (word.toList ++ rest) (.word ⟨word, i⟩ :: ps)

section Steps

theorem pieces_period (rest : List Char) :
    pieces i ('.' :: rest) = do return .period :: (← pieces (i + 1) rest) := by
  rw [pieces, if_pos rfl]

theorem pieces_of_blank {c : Char} (blank : Text.isBlank c = true) (rest : List Char) :
    pieces i (c :: rest) = pieces (i + 1) rest := by
  have other : c ≠ '.' := by
    rintro rfl
    exact absurd blank (by decide)
  rw [pieces, if_neg other, if_pos blank]

theorem pieces_bare (bare : IsBare word) (ends : ∀ c ∈ rest.head?, endsBare c = true) :
    pieces i (word.toList ++ rest) = do
      return .word ⟨word, i⟩ :: (← pieces (i + word.length) rest) := by
  obtain ⟨c, more, text, period, blank, quote, inside⟩ := is_bare_cons bare
  have none_left : rest.takeWhile (!endsBare ·) = [] := by
    cases rest with
    | nil => rfl
    | cons d rest => simp [ends d rfl]
  have all_left : rest.dropWhile (!endsBare ·) = rest := by
    cases rest with
    | nil => rfl
    | cons d rest => simp [ends d rfl]
  have taken : (more ++ rest).takeWhile (!endsBare ·) = more := by
    rw [List.takeWhile_append_of_pos (by simpa using inside), none_left, List.append_nil]
  have dropped : (more ++ rest).dropWhile (!endsBare ·) = rest := by
    rw [List.dropWhile_append_of_pos (by simpa using inside), all_left]
  have whole : String.ofList (c :: more) = word := by rw [← text, String.ofList_toList]
  rw [← String.length_toList, text, List.cons_append, pieces, if_neg period,
    if_neg (by simp [blank]), if_neg quote]
  simp only [taken, dropped, whole, List.length_cons]
  rw [Nat.add_assoc]

theorem pieces_enclosed (enclosed : IsEnclosed word) (rest : List Char) :
    pieces i (word.toList ++ rest) = do
      return .word ⟨word, i⟩ :: (← pieces (i + word.length) rest) := by
  obtain ⟨inner, none, text⟩ := enclosed
  have inside : ∀ c ∈ inner, (c != '"') = true := by
    rintro c member
    rw [bne_iff_ne]
    rintro rfl
    exact none member
  have taken : (inner ++ '"' :: rest).takeWhile (· != '"') = inner := by
    rw [List.takeWhile_append_of_pos inside]
    simp
  have dropped : (inner ++ '"' :: rest).dropWhile (· != '"') = '"' :: rest := by
    rw [List.dropWhile_append_of_pos inside]
    simp
  have whole : String.ofList ('"' :: (inner ++ ['"'])) = word := by
    rw [← text, String.ofList_toList]
  rw [text, List.cons_append, List.append_assoc, List.singleton_append, pieces,
    if_neg (by decide), if_neg (by decide), if_pos rfl]
  simp only [taken, whole]
  split
  · next empty =>
      rw [dropped] at empty
      cases empty
  · next after found =>
      rw [dropped] at found
      cases found
      rw [length_of_enclosed text, Nat.add_assoc]

theorem pieces_word (whole : IsWhole word rest) :
    pieces i (word.toList ++ rest) = do
      return .word ⟨word, i⟩ :: (← pieces (i + word.length) rest) := by
  rcases whole with enclosed | ⟨bare, ends⟩
  · exact pieces_enclosed enclosed rest
  · exact pieces_bare bare ends

theorem pieces_unclosed (none : '"' ∉ rest) : pieces i ('"' :: rest) = .error ⟨i⟩ := by
  have all : rest.dropWhile (· != '"') = [] := by
    rw [List.dropWhile_eq_nil_iff]
    rintro c member
    rw [bne_iff_ne]
    rintro rfl
    exact none member
  rw [pieces, if_neg (by decide), if_neg (by decide), if_pos rfl]
  simp only
  split
  · rfl
  · next found =>
      rw [all] at found
      cases found

end Steps

theorem enclosed_or_unclosed (rest : List Char) :
    (∃ word behind, IsEnclosed word ∧ '"' :: rest = word.toList ++ behind) ∨ '"' ∉ rest := by
  by_cases quoted : '"' ∈ rest
  · obtain ⟨inner, behind, rfl, none⟩ := List.eq_append_cons_of_mem quoted
    refine .inl ⟨String.ofList ('"' :: (inner ++ ['"'])), behind, ⟨inner, none, ?_⟩, ?_⟩
    · rw [String.toList_ofList]
    · simp
  · exact .inr quoted

theorem exists_bare {c : Char} (period : c ≠ '.') (blank : Text.isBlank c = false) (quote : c ≠ '"')
    (rest : List Char) : ∃ word behind, IsBare word ∧
      (∀ d ∈ behind.head?, endsBare d = true) ∧ c :: rest = word.toList ++ behind := by
  let more := rest.takeWhile (!endsBare ·)
  refine ⟨String.ofList (c :: more), rest.dropWhile (!endsBare ·), ⟨?_, ?_, ?_⟩, ?_, ?_⟩
  · simp
  · intro d member
    rw [String.toList_ofList, List.mem_cons] at member
    rcases member with rfl | member
    · exact ⟨blank, period⟩
    · have goes_on := List.mem_takeWhile_imp member
      simpa [endsBare] using goes_on
  · simpa using quote
  · intro d first
    have stops := List.head?_dropWhile_not (!endsBare ·) rest
    rw [Option.mem_def.mp first] at stops
    simpa using stops
  · rw [String.toList_ofList, List.cons_append, List.takeWhile_append_dropWhile]

/-- A text is read step by step, to its end or to a quote that no other follows. -/
@[elab_as_elim]
theorem text_induction {motive : List Char → Prop} (ending : motive [])
    (period : ∀ rest, motive rest → motive ('.' :: rest))
    (blank : ∀ c rest, Text.isBlank c = true → motive rest → motive (c :: rest))
    (word : ∀ word rest, IsWhole word rest → motive rest → motive (word.toList ++ rest))
    (unclosed : ∀ rest, '"' ∉ rest → motive ('"' :: rest)) (text : List Char) : motive text := by
  match text with
  | [] => exact ending
  | c :: rest =>
      have again (behind : List Char) (shorter : behind.length ≤ rest.length) : motive behind :=
        text_induction ending period blank word unclosed behind
      have go_on {w : String} {behind : List Char} (whole : IsWhole w behind)
          (same : c :: rest = w.toList ++ behind) : motive (c :: rest) := by
        have length := congrArg List.length same
        rw [List.length_append, String.length_toList, List.length_cons] at length
        have some := length_pos_of_whole whole
        rw [same]
        exact word w behind whole (again behind (by omega))
      by_cases dot : c = '.'
      · subst dot
        exact period rest (again rest le_rfl)
      cases space : Text.isBlank c with
      | true => exact blank c rest space (again rest le_rfl)
      | false =>
          by_cases quote : c = '"'
          · subst quote
            rcases enclosed_or_unclosed rest with ⟨w, behind, enclosed, same⟩ | none
            · exact go_on (.inl enclosed) same
            · exact unclosed rest none
          · obtain ⟨w, behind, bare, ends, same⟩ := exists_bare dot space quote rest
            exact go_on (.inr ⟨bare, ends⟩) same
termination_by text.length
decreasing_by exact Nat.lt_succ_of_le shorter

theorem Layout.pieces_eq (layout : Layout i text ps) : pieces i text = .ok ps := by
  induction layout with
  | ending => rw [pieces]
  | period behind ih =>
      rw [pieces_period, ih]
      rfl
  | blank blank behind ih => rw [pieces_of_blank blank, ih]
  | word whole behind ih =>
      rw [pieces_word whole, ih]
      rfl

theorem cons_of_ok {read : Except Unterminated (List Piece)} {p : Piece}
    (found : (do return p :: (← read)) = Except.ok ps) : ∃ qs, read = .ok qs ∧ ps = p :: qs := by
  cases read with
  | ok qs => exact ⟨qs, rfl, (Except.ok.inj found).symm⟩
  | error fault => cases found

/-- A text breaks into the pieces that it is laid out in. -/
theorem pieces_eq_ok_iff : pieces i text = .ok ps ↔ Layout i text ps := by
  refine ⟨fun read => ?_, Layout.pieces_eq⟩
  induction text using text_induction generalizing i ps with
  | ending =>
      rw [pieces] at read
      cases read
      exact .ending
  | period rest ih =>
      rw [pieces_period] at read
      obtain ⟨qs, behind, rfl⟩ := cons_of_ok read
      exact .period (ih behind)
  | blank c rest blank ih =>
      rw [pieces_of_blank blank] at read
      exact .blank blank (ih read)
  | word w rest whole ih =>
      rw [pieces_word whole] at read
      obtain ⟨qs, behind, rfl⟩ := cons_of_ok read
      exact .word whole (ih behind)
  | unclosed rest none =>
      rw [pieces_unclosed none] at read
      cases read

end Token

end ControlledEnglish
