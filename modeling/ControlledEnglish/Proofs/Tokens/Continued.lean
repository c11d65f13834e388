import Mathlib.Data.List.Basic
import ControlledEnglish.Proofs.Tokens.Exact

namespace ControlledEnglish

namespace Token

def shifted (offset : Nat) (token : Token) : Token :=
  { token with position := token.position + offset }

def Piece.shifted (offset : Nat) : Piece → Piece
  | .word token => .word (token.shifted offset)
  | .period => .period

def Unterminated.shifted (offset : Nat) (fault : Unterminated) : Unterminated :=
  ⟨fault.position + offset⟩

variable {i : Nat} {word : String} {before behind : List Char} {ps : List Piece}

theorem pieces_shifted (offset : Nat) (text : List Char) :
    pieces (i + offset) text =
      ((pieces i text).map (List.map (Piece.shifted offset))).mapError
        (Unterminated.shifted offset) := by
  induction text using text_induction generalizing i with
  | ending => rw [pieces, pieces]; rfl
  | period rest ih =>
      rw [pieces_period, pieces_period, Nat.add_right_comm, ih]
      cases pieces (i + 1) rest <;> rfl
  | blank c rest blank ih =>
      rw [pieces_of_blank blank, pieces_of_blank blank, Nat.add_right_comm, ih]
  | word w rest whole ih =>
      rw [pieces_word whole, pieces_word whole, Nat.add_right_comm, ih]
      cases pieces (i + w.length) rest <;> rfl
  | unclosed rest none => rw [pieces_unclosed none, pieces_unclosed none]; rfl

theorem whole_before_period (whole : IsWhole word before) :
    IsWhole word (before ++ '.' :: behind) := by
  rcases whole with enclosed | ⟨bare, ends⟩
  · exact .inl enclosed
  · refine .inr ⟨bare, fun c first => ?_⟩
    cases before with
    | nil =>
        cases first
        decide
    | cons d before => exact ends c first

/-- Behind a text that is laid out, and a period, reading starts anew. -/
theorem Layout.pieces_before_period (layout : Layout i before ps) (behind : List Char) :
    pieces i (before ++ '.' :: behind) =
      (pieces (i + before.length + 1) behind).map (ps ++ .period :: ·) := by
  induction layout with
  | ending =>
      rw [List.nil_append, pieces_period, List.length_nil, Nat.add_zero]
      rfl
  | @period i rest ps layout ih =>
      rw [List.cons_append, pieces_period, ih, List.length_cons, Nat.add_assoc i, Nat.add_comm 1]
      cases pieces (i + (rest.length + 1) + 1) behind <;> rfl
  | @blank i c rest ps blank layout ih =>
      rw [List.cons_append, pieces_of_blank blank, ih, List.length_cons, Nat.add_assoc i,
        Nat.add_comm 1]
  | @word i w rest ps whole layout ih =>
      rw [List.append_assoc, pieces_word (whole_before_period whole), ih, List.length_append,
        String.length_toList, Nat.add_assoc i]
      cases pieces (i + (w.length + rest.length) + 1) behind <;> rfl

theorem gather_before_period (sentence : List Token) (ps qs : List Piece) :
    gather sentence (ps ++ .period :: qs) = gather sentence ps ++ gather [] qs := by
  induction ps generalizing sentence with
  | nil =>
      rw [List.nil_append, gather, gather]
      split <;> rfl
  | cons p ps ih =>
      cases p with
      | word token => rw [List.cons_append, gather, gather, ih]
      | period =>
          rw [List.cons_append, gather, gather, ih]
          split
          · rfl
          · rw [List.cons_append]

theorem gather_shifted (offset : Nat) (sentence : List Token) (ps : List Piece) :
    gather (sentence.map (shifted offset)) (ps.map (Piece.shifted offset)) =
      (gather sentence ps).map (List.map (shifted offset)) := by
  induction ps generalizing sentence with
  | nil =>
      rw [List.map_nil, gather, gather]
      simp only [List.map_eq_nil_iff]
      split <;> rfl
  | cons p ps ih =>
      cases p with
      | word token =>
          have read : sentence.map (shifted offset) ++ [token.shifted offset] =
              (sentence ++ [token]).map (shifted offset) := by
            rw [List.map_append, List.map_singleton]
          rw [List.map_cons, Piece.shifted, gather, gather, read, ih]
      | period =>
          have next := ih []
          rw [List.map_nil] at next
          rw [List.map_cons, Piece.shifted, gather, gather, next]
          simp only [List.map_eq_nil_iff]
          split <;> rfl

theorem sentences_eq_map (text : String) :
    sentences text = (pieces 0 text.toList).map (gather []) := by
  rw [sentences]
  cases pieces 0 text.toList <;> rfl

end Token

/-- Behind a text that can be read and a period, a text has the sentences that it has alone, or the
fault that it has alone, farther on by the length of what stands before. -/
theorem sentences_behind_period {text : String} {sentences : List (List Token)}
    (read : Token.sentences text = .ok sentences) (behind : String) :
    Token.sentences (text ++ "." ++ behind) =
      match Token.sentences behind with
      | .ok others => .ok (sentences ++ others.map (List.map (Token.shifted (text.length + 1))))
      | .error fault => .error (fault.shifted (text.length + 1)) := by
  obtain ⟨ps, layout, rfl⟩ := Token.sentences_eq_ok_iff.mp read
  have joined : (text ++ "." ++ behind).toList = text.toList ++ '.' :: behind.toList := by
    rw [String.toList_append, String.toList_append, List.append_assoc]
    rfl
  have start : 0 + text.toList.length + 1 = 0 + (text.length + 1) := by
    rw [String.length_toList, Nat.add_assoc]
  rw [Token.sentences_eq_map, Token.sentences_eq_map, joined, layout.pieces_before_period, start,
    Token.pieces_shifted]
  cases Token.pieces 0 behind.toList with
  | error fault => rfl
  | ok qs =>
      have shifted := Token.gather_shifted (text.length + 1) [] qs
      rw [List.map_nil] at shifted
      simp only [Except.map, Except.mapError, Token.gather_before_period, shifted]

theorem sentences_behind_period_inner_quote :
    let text := "it eats \"n:canada goose.\" o\"clock"
    Token.sentences text =
        .ok [[⟨"it", 0⟩, ⟨"eats", 3⟩, ⟨"\"n:canada goose.\"", 8⟩, ⟨"o\"clock", 26⟩]] ∧
      Token.sentences (text ++ "." ++ "it flies") =
        .ok [[⟨"it", 0⟩, ⟨"eats", 3⟩, ⟨"\"n:canada goose.\"", 8⟩, ⟨"o\"clock", 26⟩],
          [⟨"it", 34⟩, ⟨"flies", 37⟩]] ∧
      Token.sentences (text ++ "." ++ "it \"flies") = .error ⟨37⟩ := by
  intro text
  have read : Token.sentences text =
      .ok [[⟨"it", 0⟩, ⟨"eats", 3⟩, ⟨"\"n:canada goose.\"", 8⟩, ⟨"o\"clock", 26⟩]] := by
    decide +kernel
  have length : text.length = 33 := by decide
  have flies : Token.sentences "it flies" = .ok [[⟨"it", 0⟩, ⟨"flies", 3⟩]] := by decide +kernel
  have unclosed : Token.sentences "it \"flies" = .error ⟨3⟩ := by decide +kernel
  refine ⟨read, ?_, ?_⟩
  · rw [sentences_behind_period read, flies, length]
    rfl
  · rw [sentences_behind_period read, unclosed, length]
    rfl

end ControlledEnglish
