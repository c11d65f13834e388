import ControlledEnglish.Console
import ControlledEnglish.Text.Integer

/-! A plain terminal, without colours.

Tags are found from left to right. Backslashes in front of a tag stand for half as many, and if they
are odd in number the tag stands for itself. Styles go by the names that they are given, and there
are no codes to replace. -/

namespace ControlledEnglish

namespace Markup

inductive Piece where
  | text (text : List Char)
  | tag (name : List Char)
  deriving DecidableEq, Repr

/-- What stands before the bracket that ends a tag. A tag holds no other. -/
def untilBracket : List Char → Option (List Char)
  | [] => none
  | c :: rest =>
      if c = ']' then some []
      else if c = '[' then none
      else (untilBracket rest).map (c :: ·)

def startsTag (c : Char) : Bool := ('a' ≤ c && c ≤ 'z') || c == '#' || c == '/' || c == '@'

def tag? : List Char → Option (List Char)
  | '[' :: c :: rest => if startsTag c then (untilBracket rest).map (c :: ·) else none
  | _ => none

/-- What backslashes and the tag behind them come to, and how many characters they are. -/
def markup? (text : List Char) : Option (List Piece × Nat) :=
  let slashes := (text.takeWhile (· == '\\')).length
  (tag? (text.dropWhile (· == '\\'))).map fun name =>
    let tag := if slashes % 2 = 0 then .tag name else .text ('[' :: name ++ [']'])
    ([.text (List.replicate (slashes / 2) '\\'), tag], slashes + name.length + 2)

/-- The pieces of a line behind the text that has been read. Characters that have been used up are
passed over. -/
def pieces (before : List Char) : Nat → List Char → List Piece
  | _, [] => [.text before]
  | used + 1, _ :: rest => pieces before used rest
  | 0, c :: rest =>
      match markup? (c :: rest) with
      | some (found, size) => .text before :: (found ++ pieces [] (size - 1) rest)
      | none => pieces (before ++ [c]) 0 rest

/-- A backslash before a bracket is dropped, also where there is no tag. -/
def unescaped : List Char → List Char
  | '\\' :: '[' :: rest => '[' :: unescaped rest
  | c :: rest => c :: unescaped rest
  | [] => []

def styleName (name : List Char) : List Char := (Text.trimmed name).map Char.toLower

/-- The styles that are left when one of them ends, by its name or because it is the last. -/
def close? (name : List Char) (styles : List (List Char)) : Option (List (List Char)) :=
  if name = [] then styles.tail?
  else if name ∈ styles then some (styles.erase name)
  else none

/-- The text without its tags, as long as no tag ends a style that has not begun. -/
def render (styles : List (List Char)) : List Piece → Option (List Char)
  | [] => some []
  | .text text :: rest => (render styles rest).map (unescaped text ++ ·)
  | .tag tag :: rest =>
      match tag.takeWhile (· != '=') with
      | '/' :: name => (close? (styleName name) styles).bind fun styles => render styles rest
      | name => render (styleName name :: styles) rest

end Markup

namespace Text

def ineffective : List Char := ['\x07', '\x08', '\x0b', '\x0c', '\x0d']

/-- A tab moves to the next column that is a multiple of eight. -/
def expandTabs (column : Nat) : List Char → List Char
  | [] => []
  | '\t' :: rest => List.replicate (8 - column % 8) ' ' ++ expandTabs 0 rest
  | '\n' :: rest => '\n' :: expandTabs 0 rest
  | c :: rest => c :: expandTabs (column + 1) rest

def displayed (line : List Char) : String :=
  String.ofList (expandTabs 0 (line.filter (· ∉ ineffective)))

theorem expand_tabs_of_none {column : Nat} {text : List Char} (none : '\t' ∉ text) :
    expandTabs column text = text := by
  induction text generalizing column with
  | nil => rw [expandTabs]
  | cons c rest ih =>
      have tab := List.ne_of_not_mem_cons none
      have later := List.not_mem_of_not_mem_cons none
      by_cases newline : c = '\n'
      · subst newline
        rw [expandTabs, ih later]
      · rw [expandTabs, ih later]
        · exact fun same => tab same.symm
        · exact newline

theorem displayed_of_steady {line : String} (steady : IsSteady line) :
    displayed line.toList = line := by
  have kept : line.toList.filter (· ∉ ineffective) = line.toList := by
    apply List.filter_eq_self.mpr
    intro c member
    have free := (steady.1 c member).2.2
    simp only [controls, ineffective, List.mem_cons, not_or] at free ⊢
    simp [free]
  have tabs : '\t' ∉ line.toList := fun member => (steady.1 _ member).2.2 (by decide)
  rw [displayed, kept, expand_tabs_of_none tabs, String.ofList_toList]

end Text

namespace Markup

variable {before text name : List Char}

theorem unescaped_of_none (none : '\\' ∉ text) : unescaped text = text := by
  induction text with
  | nil => rfl
  | cons c rest ih =>
      rw [unescaped, ih (List.not_mem_of_not_mem_cons none)]
      exact fun _ same => absurd same.symm (List.ne_of_not_mem_cons none)

theorem render_text (styles : List (List Char)) (text : List Char) (rest : List Piece) :
    render styles (.text text :: rest) = (render styles rest).map (unescaped text ++ ·) := rfl

theorem tag?_eq_none {text : List Char} (head : text.head? ≠ some '[') : tag? text = none := by
  unfold tag?
  split
  · exact absurd rfl head
  · rfl

theorem markup?_eq_none (head : (text.dropWhile (· == '\\')).head? ≠ some '[') :
    markup? text = none := by
  rw [markup?, tag?_eq_none head, Option.map_none]

theorem until_bracket_append (opens : '[' ∉ name) (closes : ']' ∉ name) (rest : List Char) :
    untilBracket (name ++ ']' :: rest) = some name := by
  induction name with
  | nil => rfl
  | cons c name ih =>
      have later := ih (List.not_mem_of_not_mem_cons opens) (List.not_mem_of_not_mem_cons closes)
      rw [List.cons_append, untilBracket, if_neg (List.ne_of_not_mem_cons closes).symm,
        if_neg (List.ne_of_not_mem_cons opens).symm, later]
      rfl

theorem pieces_used (before text : List Char) {used : Nat} (all : text.length ≤ used) :
    pieces before used text = [.text before] := by
  induction text generalizing used with
  | nil => rw [pieces]
  | cons c rest ih =>
      cases used with
      | zero => cases all
      | succ used => rw [pieces, ih (Nat.le_of_succ_le_succ all)]

theorem head_dropWhile_ne (free : '[' ∉ text) (p : Char → Bool) :
    (text.dropWhile p).head? ≠ some '[' := by
  intro head
  exact free (List.dropWhile_sublist p |>.mem (List.mem_of_head? head))

theorem eq_replicate_of_dropWhile {c : Char} (none : text.dropWhile (· == c) = []) :
    text = List.replicate text.length c := by
  induction text with
  | nil => rfl
  | cons d rest ih =>
      by_cases same : d = c
      · subst same
        rw [List.dropWhile_cons_of_pos (by simp)] at none
        rw [List.length_cons, List.replicate_succ, ← ih none]
      · rw [List.dropWhile_cons_of_neg (by simpa using same)] at none
        cases none

theorem pieces_of_free (free : '[' ∉ text) : pieces before 0 text = [.text (before ++ text)] := by
  induction text generalizing before with
  | nil => rw [pieces, List.append_nil]
  | cons c rest ih =>
      rw [pieces, markup?_eq_none (head_dropWhile_ne free _)]
      dsimp only
      rw [ih (List.not_mem_of_not_mem_cons free), List.append_assoc]
      rfl

theorem pieces_append (before used rest : List Char) :
    pieces before used.length (used ++ rest) = pieces before 0 rest := by
  induction used with
  | nil => rfl
  | cons c used ih => rw [List.length_cons, List.cons_append, pieces, ih]

section Tags

variable (opens : '[' ∉ name) (closes : ']' ∉ name)

def endTag (name : List Char) : List Char := '[' :: '/' :: (name ++ [']'])

def escaped (slashes : Nat) (name : List Char) : Piece :=
  if slashes % 2 = 0 then .tag name else .text ('[' :: name ++ [']'])

include opens closes

theorem markup?_opening {first : Char} (starts : startsTag first = true) (rest : List Char) :
    markup? ('[' :: first :: (name ++ ']' :: rest)) =
      some ([.text [], .tag (first :: name)], name.length + 3) := by
  have tag : tag? ('[' :: first :: (name ++ ']' :: rest)) = some (first :: name) := by
    rw [tag?, if_pos starts, until_bracket_append opens closes]
    rfl
  rw [markup?, List.dropWhile_cons_of_neg (by decide), List.takeWhile_cons_of_neg (by decide), tag]
  simp

theorem markup?_slashes (slashes : Nat) :
    markup? (List.replicate slashes '\\' ++ endTag name) =
      some ([.text (List.replicate (slashes / 2) '\\'), escaped slashes ('/' :: name)],
        slashes + name.length + 3) := by
  have all : ∀ c ∈ List.replicate slashes '\\', (c == '\\') = true := fun c member => by
    rw [List.eq_of_mem_replicate member]
    rfl
  have tag : tag? (endTag name) = some ('/' :: name) := by
    rw [endTag, tag?, if_pos (by decide), until_bracket_append opens closes]
    rfl
  have none : (endTag name).takeWhile (· == '\\') = [] := rfl
  have kept : (endTag name).dropWhile (· == '\\') = endTag name := rfl
  rw [markup?, List.dropWhile_append_of_pos all, List.takeWhile_append_of_pos all, none, kept,
    List.append_nil, List.length_replicate, tag]
  rfl

theorem pieces_slashes (before : List Char) (slashes : Nat) :
    pieces before 0 (List.replicate slashes '\\' ++ endTag name) =
      [.text before, .text (List.replicate (slashes / 2) '\\'), escaped slashes ('/' :: name),
        .text []] := by
  have found := markup?_slashes opens closes slashes
  obtain ⟨c, rest, line⟩ :=
    List.exists_cons_of_ne_nil (l := List.replicate slashes '\\' ++ endTag name) (by simp [endTag])
  have size := congrArg List.length line
  simp only [List.length_append, List.length_replicate, endTag, List.length_cons,
    List.length_nil] at size
  rw [line] at found ⊢
  rw [pieces, found]
  dsimp only
  rw [pieces_used [] rest (by omega)]
  rfl

theorem exists_pieces (free : '[' ∉ text) (before : List Char) :
    ∃ front slashes, pieces before 0 (text ++ endTag name) =
      [.text front, .text (List.replicate (slashes / 2) '\\'), escaped slashes ('/' :: name),
        .text []] := by
  induction text generalizing before with
  | nil => exact ⟨before, 0, pieces_slashes opens closes before 0⟩
  | cons c rest ih =>
      by_cases stops : (c :: rest).dropWhile (· == '\\') = []
      · rw [eq_replicate_of_dropWhile stops]
        exact ⟨before, _, pieces_slashes opens closes before _⟩
      · have head : (((c :: rest) ++ endTag name).dropWhile (· == '\\')).head? ≠ some '[' := by
          obtain ⟨d, others, left⟩ := List.exists_cons_of_ne_nil stops
          have other := head_dropWhile_ne free (· == '\\')
          rw [left] at other
          rwa [List.dropWhile_append, left, if_neg (by simp)]
        rw [List.cons_append] at head ⊢
        rw [pieces, markup?_eq_none head]
        exact ih (List.not_mem_of_not_mem_cons free) _

theorem pieces_of_plain (free : '[' ∉ text) (unescaped : '\\' ∉ text) (before : List Char) :
    pieces before 0 (text ++ endTag name) =
      [.text (before ++ text), .text [], .tag ('/' :: name), .text []] := by
  induction text generalizing before with
  | nil =>
      rw [List.append_nil]
      exact pieces_slashes opens closes before 0
  | cons c rest ih =>
      have slash := List.ne_of_not_mem_cons unescaped
      have bracket := List.ne_of_not_mem_cons free
      have head : ((c :: (rest ++ endTag name)).dropWhile (· == '\\')).head? ≠ some '[' := by
        rw [List.dropWhile_cons_of_neg (by simpa using slash.symm)]
        simpa using bracket.symm
      rw [List.cons_append, pieces, markup?_eq_none head]
      dsimp only
      rw [ih (List.not_mem_of_not_mem_cons free) (List.not_mem_of_not_mem_cons unescaped),
        List.append_assoc]
      rfl

end Tags

end Markup

open Markup

def Style.name (style : Style) : List Char :=
  match style with
  | .normal => []
  | .bold => "bold".toList
  | .dim => "dim".toList
  | .red => "red".toList

structure Style.IsTagged (style : Style) : Prop where
  free : '[' ∉ style.name ∧ ']' ∉ style.name
  starts : ∃ first rest, style.name = first :: rest ∧ startsTag first = true
  opening_eq : style.opening.toList = '[' :: (style.name ++ [']'])
  closing_eq : style.closing.toList = endTag style.name
  opened : ∀ rest, render [] (.tag style.name :: rest) = render [style.name] rest
  closed : ∀ rest, render [style.name] (.tag ('/' :: style.name) :: rest) = render [] rest

theorem Style.normal_or_tagged (style : Style) : style = normal ∨ style.IsTagged := by
  cases style with
  | normal => exact .inl rfl
  | bold | dim | red =>
      exact .inr ⟨by decide, ⟨_, _, rfl, by decide⟩, by decide, by decide, fun _ => rfl, fun _ => rfl⟩

namespace Style.IsTagged

variable {style : Style} (tagged : style.IsTagged)

include tagged

theorem pieces_opening (rest : List Char) : pieces [] 0 (style.opening.toList ++ rest) =
    .text [] :: .text [] :: .tag style.name :: pieces [] 0 rest := by
  obtain ⟨first, name, same, starts⟩ := tagged.starts
  have free := tagged.free
  rw [same] at free
  have found := markup?_opening (List.not_mem_of_not_mem_cons free.1)
    (List.not_mem_of_not_mem_cons free.2) starts rest
  have after : pieces [] (name.length + 2) (first :: (name ++ ']' :: rest)) = pieces [] 0 rest := by
    have passed := pieces_append [] (first :: (name ++ [']'])) rest
    rwa [List.length_cons, List.length_append, List.cons_append, List.append_assoc] at passed
  have line : style.opening.toList ++ rest = '[' :: first :: (name ++ ']' :: rest) := by
    rw [tagged.opening_eq, same]
    simp
  rw [line, pieces, found, same]
  exact congrArg (Piece.text [] :: .text [] :: .tag (first :: name) :: ·) after

theorem pieces_mark (line : String) : pieces [] 0 (style.mark line).toList =
    .text [] :: .text [] :: .tag style.name :: pieces [] 0 (line.toList ++ endTag style.name) := by
  rw [mark, String.toList_append, String.toList_append, List.append_assoc, tagged.pieces_opening,
    tagged.closing_eq]

end Style.IsTagged

namespace Console

def unmarked (line : String) : Option (List Char) := render [] (pieces [] 0 line.toList)

theorem unmarked_normal {line : String} (free : '[' ∉ line.toList) :
    unmarked (Style.normal.mark line) = some (unescaped line.toList) := by
  have same : (Style.normal.mark line).toList = line.toList := by
    simp [Style.mark, Style.opening, Style.closing]
  rw [unmarked, same, pieces_of_free free, List.nil_append, render_text, render, Option.map_some,
    List.append_nil]

theorem unmarked_isSome (style : Style) {line : String} (free : '[' ∉ line.toList) :
    (unmarked (style.mark line)).isSome := by
  rcases style.normal_or_tagged with rfl | tagged
  · rw [unmarked_normal free]
    rfl
  · obtain ⟨front, slashes, cut⟩ := exists_pieces tagged.free.1 tagged.free.2 free []
    rw [unmarked, tagged.pieces_mark, cut, escaped]
    simp only [render_text, tagged.opened]
    split
    · rw [tagged.closed]
      rfl
    · rfl

theorem unmarked_of_plain (style : Style) {line : String} (free : '[' ∉ line.toList)
    (plain : '\\' ∉ line.toList) : unmarked (style.mark line) = some line.toList := by
  rcases style.normal_or_tagged with rfl | tagged
  · rw [unmarked_normal free, unescaped_of_none plain]
  · rw [unmarked, tagged.pieces_mark, pieces_of_plain tagged.free.1 tagged.free.2 free plain]
    simp only [render_text, tagged.opened, tagged.closed]
    simp [render, unescaped_of_none plain, unescaped]

def terminal : Console where
  marked line := (unmarked line).map Text.displayed
  plain line := Text.displayed line.toList
  takes style line free := by
    rw [Option.isSome_map]
    exact unmarked_isSome style free
  shows style line steady := by
    have free : '[' ∉ line.toList := fun member => (steady.1 _ member).1 rfl
    have plain : '\\' ∉ line.toList := fun member => (steady.1 _ member).2.1 rfl
    rw [unmarked_of_plain style free plain, Option.map_some, Text.displayed_of_steady steady]

end Console

end ControlledEnglish
