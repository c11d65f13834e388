/-! Attribute trees and rules.

An attribute says one thing of a subject: what it is, what it has, what it is like, how it acts or
what it does. Its children describe the value in turn, in the order in which they are said. A rule
claims its head wherever all of its body holds; a rule without a body is a fact. -/

namespace ControlledEnglish

inductive Kind where
  | isA
  | hasA
  | isLike
  | isHow
  | does
  deriving DecidableEq, Repr, Hashable

namespace Kind

def all : List Kind := [isA, hasA, isLike, isHow, does]

def tag : Kind → String
  | isA => "is_a"
  | hasA => "has_a"
  | isLike => "is_like"
  | isHow => "is_how"
  | does => "does"

def ofTag? (text : String) : Option Kind := all.find? fun kind => kind.tag == text

@[simp] theorem ofTag?_tag (kind : Kind) : ofTag? kind.tag = some kind := by
  cases kind <;> decide

end Kind

structure Attr where
  kind : Kind
  value : String
  children : List Attr := []
  deriving Repr

namespace Attr

mutual
def decEq : (a b : Attr) → Decidable (a = b)
  | ⟨kind, value, children⟩, ⟨kind', value', children'⟩ =>
      match decEqAll children children' with
      | isTrue same =>
          if h : kind = kind' ∧ value = value' then isTrue (by simp [h, same])
          else isFalse fun equal => h (by cases equal; exact ⟨rfl, rfl⟩)
      | isFalse differ => isFalse fun equal => differ (by cases equal; rfl)

def decEqAll : (as bs : List Attr) → Decidable (as = bs)
  | [], [] => isTrue rfl
  | [], _ :: _ => isFalse nofun
  | _ :: _, [] => isFalse nofun
  | a :: as, b :: bs =>
      match decEq a b, decEqAll as bs with
      | isTrue first, isTrue rest => isTrue (by rw [first, rest])
      | isFalse differ, _ => isFalse fun equal => differ (by cases equal; rfl)
      | _, isFalse differ => isFalse fun equal => differ (by cases equal; rfl)
end

instance : DecidableEq Attr := decEq

end Attr

structure Rule where
  head : Attr
  body : List Attr := []
  deriving DecidableEq, Repr

def Rule.isFact (rule : Rule) : Bool := rule.body.isEmpty

/-- Every base gets the attributes after the children that it has. -/
def attach (bases attrs : List Attr) : List Attr :=
  bases.map fun base => { base with children := base.children ++ attrs }

def nestAdverbs (inner : List Attr) : List Attr → List Attr
  | [] => inner
  | adverb :: adverbs => nestAdverbs [{ adverb with children := adverb.children ++ inner }] adverbs

/-- A run of adverbs as one, the last outermost: the earlier ones say how the later ones hold. -/
def foldAdverbs (adverbs : List Attr) : List Attr := nestAdverbs [] adverbs

theorem nest_adverbs_concat (inner adverbs : List Attr) (last : Attr) :
    nestAdverbs inner (adverbs ++ [last]) =
      [{ last with children := last.children ++ nestAdverbs inner adverbs }] := by
  induction adverbs generalizing inner with
  | nil => rfl
  | cons first rest ih => exact ih _

theorem fold_adverbs_concat (adverbs : List Attr) (last : Attr) :
    foldAdverbs (adverbs ++ [last]) =
      [{ last with children := last.children ++ foldAdverbs adverbs }] :=
  nest_adverbs_concat [] adverbs last

def Attr.toHasA (attr : Attr) : Attr :=
  match attr.kind with
  | .isA => { attr with kind := .hasA }
  | _ => attr

def toHasA (attrs : List Attr) : List Attr := attrs.map Attr.toHasA

/-- One rule for each head, all with the same body. -/
def buildRules (body heads : List Attr) : List Rule := heads.map fun head => ⟨head, body⟩

def splitAttrs (kinds : List Kind) (attrs : List Attr) : List Attr × List Attr :=
  attrs.partition fun attr => attr.kind ∈ kinds

theorem split_attrs_eq (kinds : List Kind) (attrs : List Attr) : splitAttrs kinds attrs =
    (attrs.filter fun attr => attr.kind ∈ kinds, attrs.filter fun attr => attr.kind ∉ kinds) := by
  rw [splitAttrs, List.partition_eq_filter_filter]
  simp only [decide_not]
  rfl

end ControlledEnglish
