import ControlledEnglish.Value.Draft

namespace ControlledEnglish.Value

inductive Glossed where
  | words (words : List String)
  | itself (value : Value)
  deriving Repr

def items (value : Value) : List Value := value.listed?.getD [value]

def gloss (value : Value) : Except GlossFault Glossed :=
  match allJoined (attempts value.items) with
  | .ok words => .ok (.words words)
  | .error .unglossable => .ok (.itself value)
  | .error fault => .error fault

def gloss? (value : Value) : Option (List String) :=
  match value.gloss with
  | .ok (.words words) => some words
  | _ => none

mutual

/-- What a value says, if it is a rule or an attribute through and through. -/
def clause? : Value → Option Clause
  | .attr k v children => (attr? (.attr k v children)).map .attr
  | .rule head body => do return .rule (← attr? head) (← conditions? body)
  | _ => none

def conditions? : Value → Option (List Clause)
  | .list items => clauses? items
  | .tuple items => clauses? items
  | .json (.array []) => some []
  | _ => none

def clauses? : List Value → Option (List Clause)
  | [] => some []
  | value :: rest => do return (← clause? value) :: (← clauses? rest)

end

def strings? (values : List Value) : Option (List String) := values.mapM Value.string?

/-- A value that cannot be glossed is shown, but a list of texts is taken for its own gloss. -/
def glossText (value : Value) : Except GlossFault String := do
  match ← value.gloss with
  | .words words => return spaced words
  | .itself (.list items) =>
      match strings? items with
      | some texts => return spaced texts
      | none => if value.isShowable then return value.text else throw .unshowable
  | .itself value => if value.isShowable then return value.text else throw .unshowable

def glossRules (rules : List Rule) : String :=
  match glossRules? rules with
  | some words => spaced words
  | none => (ofRules rules).shown

end ControlledEnglish.Value
