/-! Consoles: what is shown of a line.

A line may be marked up. The name of a style in brackets is not shown, and with a slash in front of
the name the style ends. A console refuses a line that ends a style which has not begun. It may also
replace codes, which stand between two colons, and it may drop or replace controls. What exactly it
does is left open: only the lines that none of this can happen to have to be shown as they are. -/

namespace ControlledEnglish

inductive Style where
  | normal
  | bold
  | dim
  | red
  deriving DecidableEq, Repr

namespace Style

def opening : Style → String
  | normal => ""
  | bold => "[bold]"
  | dim => "[dim]"
  | red => "[red]"

def closing : Style → String
  | normal => ""
  | bold => "[/bold]"
  | dim => "[/dim]"
  | red => "[/red]"

def mark (style : Style) (line : String) : String := style.opening ++ line ++ style.closing

end Style

namespace Text

def controls : List Char := ['\x07', '\x08', '\t', '\x0b', '\x0c', '\x0d']

/-- A blank follows every colon. -/
def colonsApart : List Char → Bool
  | [] => true
  | c :: rest => (c != ':' || rest.head? == some ' ') && colonsApart rest

/-- A line without tags, codes and controls. -/
def IsSteady (line : String) : Prop :=
  (∀ c ∈ line.toList, c ≠ '[' ∧ c ≠ '\\' ∧ c ∉ controls) ∧ colonsApart line.toList = true

-- Only the characters of the line are looked at.
instance (line : String) : Decidable (IsSteady line) :=
  @instDecidableAnd _ _ (List.decidableBAll _ line.toList) inferInstance

end Text

/-- What is shown of a line with markup, unless it is refused, and of a line without. -/
structure Console where
  marked : String → Option String
  plain : String → String
  /-- Without a bracket in a line there is nothing to refuse. -/
  takes : ∀ (style : Style) (line : String), '[' ∉ line.toList → (marked (style.mark line)).isSome
  shows : ∀ (style : Style) (line : String), Text.IsSteady line → marked (style.mark line) = some line

end ControlledEnglish
