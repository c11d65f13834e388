import ControlledEnglish.Gloss
import ControlledEnglish.Value.Shown

/-! Glosses of values in the making.

A value is looked at when its words are due, one node at a time. By then it has been put among the
modifiers or the clauses of another one, for the kind that it claims to be of. -/

namespace ControlledEnglish.Value

/-- Why a gloss is given up. That a value cannot be glossed is foreseen, but the value has to be shown
then, in a message. To ask for the kind of what is no attribute, or for the number of items where
there are none, would be a mistake of the glosser. -/
inductive GlossFault where
  | unglossable
  | unshowable
  | noKind
  | noItems
  deriving DecidableEq, Repr

abbrev Attempt := Except GlossFault (List String)

def refusal (value : Value) : GlossFault :=
  if value.isShowable then .unglossable else .unshowable

/-- An attached value before its turn: the kind that it claims, if it is an attribute. -/
structure Draft where
  kind? : Option Value
  words : Attempt

namespace Draft

/-- The name of a kind passes for the kind. -/
def isOf (kinds : List Kind) : Value → Bool
  | .kind k => k ∈ kinds
  | .json (.string text) => kinds.any (·.tag == text)
  | _ => false

def split (kinds : List Kind) : List Draft → Except GlossFault (List Draft × List Draft)
  | [] => .ok ([], [])
  | draft :: rest => do
      let some claimed := draft.kind? | throw .noKind
      let (hits, misses) ← split kinds rest
      return if isOf kinds claimed then (draft :: hits, misses) else (hits, draft :: misses)

def eachWords (drafts : List Draft) : Except GlossFault (List (List String)) :=
  drafts.mapM Draft.words

def juxtaposed (drafts : List Draft) : Attempt := do return (← eachWords drafts).flatten

def joined (drafts : List Draft) : Attempt := do return Gloss.andJoined (← eachWords drafts)

def thatIs (drafts : List Draft) : Attempt := do return Gloss.thatIs (← eachWords drafts)

def around (kinds : List Kind) (front back : List Draft → Attempt) (lead middle : List String)
    (drafts : List Draft) : Attempt := do
  let (hits, misses) ← split kinds drafts
  return lead ++ (← front hits) ++ middle ++ (← back misses)

def clauses : List Draft → Attempt := around [.isA] thatIs joined [] []

def attached (kind : Kind) (value : String) (drafts : List Draft) : Attempt :=
  match kind with
  | .isA => around Gloss.modifiers juxtaposed clauses [] [value] drafts
  | .does => around [.isHow] joined joined ["that"] [value] drafts
  | .hasA => around Gloss.modifiers joined clauses ["that", "has"] [value] drafts
  | .isLike | .isHow => do return (← juxtaposed drafts) ++ [value]

def outermost (kind : Kind) (value : String) (drafts : List Draft) : Attempt :=
  match kind with
  | .does => around [.isHow] joined joined ["it"] [value] drafts
  | .hasA => around [.isLike] juxtaposed clauses ["it", "has"] [value] drafts
  | .isA => around [.isLike] juxtaposed joined ["it", "is"] [value] drafts
  | .isLike => around [.isHow] joined joined ["it", "is"] [value] drafts
  | .isHow => throw .unglossable

end Draft

def kind? : Value → Option Value
  | .attr k _ _ => some k
  | _ => none

/-- Words of a node that has a kind, a text and attributes for its children. The children themselves
are not looked at. -/
def ofNode (make : Kind → String → List Draft → Attempt) (refusal : GlossFault) (k : Value)
    (text? : Option String) (drafts? : Option (List Draft)) : Attempt :=
  match k, text?, drafts? with
  | .kind own, some text, some drafts =>
      if drafts.all (·.kind?.isSome) then make own text drafts else throw refusal
  | _, _, _ => throw refusal

mutual

def attachedWords : Value → Attempt
  | .attr k v children =>
      ofNode Draft.attached (Value.attr k v children).refusal k v.string? (drafts? children)
  | value => throw value.refusal

def drafts? : Value → Option (List Draft)
  | .list items => some (drafts items)
  | .tuple items => some (drafts items)
  | .json (.array items) => some (items.map fun item => ⟨none, throw (Value.json item).refusal⟩)
  | _ => none

def drafts : List Value → List Draft
  | [] => []
  | value :: rest => ⟨value.kind?, attachedWords value⟩ :: drafts rest

end

/-- Whether there are no items. Texts and objects have some as well, in their way. -/
def isEmpty : Value → Except GlossFault Bool
  | .list items => .ok items.isEmpty
  | .tuple items => .ok items.isEmpty
  | .json (.array items) => .ok items.isEmpty
  | .json (.object members) => .ok members.isEmpty
  | .json (.string text) => .ok text.isEmpty
  | .kind k => .ok k.tag.isEmpty
  | _ => throw .noItems

def allJoined (attempts : List Attempt) : Attempt := do
  return Gloss.andJoined (← attempts.mapM id)

mutual

def words : Value → Attempt
  | .rule head body =>
      match head.isAttr, attempts? body with
      | true, some conditions => do
          if ← body.isEmpty then words head
          else return ["if"] ++ (← allJoined conditions) ++ ["then"] ++ (← words head)
      | _, _ => throw (Value.rule head body).refusal
  | .attr k v children =>
      ofNode Draft.outermost (Value.attr k v children).refusal k v.string? (drafts? children)
  | value => throw value.refusal

def attempts? : Value → Option (List Attempt)
  | .list items => some (attempts items)
  | .tuple items => some (attempts items)
  | .json (.array items) => some (items.map fun item => throw (Value.json item).refusal)
  | _ => none

def attempts : List Value → List Attempt
  | [] => []
  | value :: rest => words value :: attempts rest

end

end ControlledEnglish.Value
