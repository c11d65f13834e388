import ControlledEnglish.Attribute
import ControlledEnglish.Json.Basic

/-! Values of any shape: what may stand where an attribute or a rule is expected.

They come from JSON, where an attribute may have anything for its value, or from callers that put
together what does not belong together. -/

namespace ControlledEnglish

inductive Value where
  | json (data : Json)
  | kind (kind : Kind)
  | list (items : List Value)
  | tuple (items : List Value)
  | attr (kind value children : Value)
  | rule (head body : Value)
  deriving Repr

namespace Value

mutual

def ofAttr : Attr → Value
  | ⟨k, v, children⟩ => attr (kind k) (json (.string v)) (tuple (ofAttrs children))

def ofAttrs : List Attr → List Value
  | [] => []
  | a :: rest => ofAttr a :: ofAttrs rest

end

def ofRule (given : Rule) : Value := rule (ofAttr given.head) (tuple (ofAttrs given.body))

def ofRules (rules : List Rule) : Value := list (rules.map ofRule)

def isAttr : Value → Bool
  | .attr .. => true
  | _ => false

/-- A text, or a kind, which is the text that names it. -/
def string? : Value → Option String
  | .json (.string text) => some text
  | .kind k => some k.tag
  | _ => none

def listed? : Value → Option (List Value)
  | .list items => some items
  | .tuple items => some items
  | .json (.array items) => some (items.map .json)
  | _ => none

mutual

def attr? : Value → Option Attr
  | .attr (.kind k) v children => do return ⟨k, ← v.string?, ← children? children⟩
  | _ => none

def children? : Value → Option (List Attr)
  | .list items => attrs? items
  | .tuple items => attrs? items
  | .json (.array []) => some []
  | _ => none

def attrs? : List Value → Option (List Attr)
  | [] => some []
  | value :: rest => do return (← attr? value) :: (← attrs? rest)

end

mutual

theorem attr?_of_attr (a : Attr) : attr? (ofAttr a) = some a := by
  rcases a with ⟨kind, value, children⟩
  rw [ofAttr, attr?, children?, attrs?_of_attrs children]
  rfl

theorem attrs?_of_attrs (as : List Attr) : attrs? (ofAttrs as) = some as := by
  cases as with
  | nil => rfl
  | cons a as =>
      rw [ofAttrs, attrs?, attr?_of_attr a, attrs?_of_attrs as]
      rfl

end

end Value

end ControlledEnglish
