import ControlledEnglish.Text.Blank
import ControlledEnglish.Text.Digit

namespace ControlledEnglish.Text

/-- Numbers with more digits are neither read nor shown. -/
def maxDigits : Nat := 4300

/-- Irreducible, so that no unification computes the bound. -/
@[irreducible] def hasFewDigits (value : Int) : Bool :=
  decide (value.natAbs < Nat.pow 10 maxDigits)

def trimmed (text : List Char) : List Char :=
  ((text.dropWhile isBlank).reverse.dropWhile isBlank).reverse

/-- Digits read so far make up `value`. An underscore has to be followed by a digit. -/
def moreDigits (digit? : Char → Option Nat) (value : Nat) : List Char → Option Nat
  | [] => some value
  | '_' :: c :: rest => (digit? c).bind fun digit => moreDigits digit? (10 * value + digit) rest
  | c :: rest => (digit? c).bind fun digit => moreDigits digit? (10 * value + digit) rest

def natural? (digit? : Char → Option Nat) : List Char → Option Nat
  | c :: rest => (digit? c).bind fun digit => moreDigits digit? digit rest
  | [] => none

def integer? (digit? : Char → Option Nat) (text : String) : Option Int :=
  if maxDigits < text.toList.countP fun c => (digit? c).isSome then none
  else
  match trimmed text.toList with
  | '-' :: digits => (natural? digit? digits).map fun value => -value
  | '+' :: digits => (natural? digit? digits).map Int.ofNat
  | digits => (natural? digit? digits).map Int.ofNat

end ControlledEnglish.Text
