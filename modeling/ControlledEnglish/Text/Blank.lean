/-! Blank characters: the ones that separate words.

They are the separators of Unicode (categories Zs, Zl and Zp), the six ASCII controls that move to a
new place on the page or the line, the four ASCII information separators, and U+0085. -/

namespace ControlledEnglish.Text

def blanks : List (Nat × Nat) :=
  [(0x09, 0x0d), (0x1c, 0x20), (0x85, 0x85), (0xa0, 0xa0), (0x1680, 0x1680), (0x2000, 0x200a),
    (0x2028, 0x2029), (0x202f, 0x202f), (0x205f, 0x205f), (0x3000, 0x3000)]

def isBlank (c : Char) : Bool := blanks.any fun (first, last) => first ≤ c.toNat && c.toNat ≤ last

end ControlledEnglish.Text
