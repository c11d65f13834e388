import Mathlib.Data.List.Basic
import ControlledEnglish.Grammar.Replay
import ControlledEnglish.Value.Reader

namespace ControlledEnglish

namespace Json

def known (names : List String) (members : List (String × Json)) : List (String × Json) :=
  names.filterMap fun name => (lookup? name members).map (name, ·)

theorem lookup?_cons (name other : String) (value : Json) (members : List (String × Json)) :
    lookup? name ((other, value) :: members) =
      (lookup? name members).or (if other = name then some value else none) := by
  rw [lookup?, lookup?, List.reverse_cons, List.find?_append, Option.map_or, List.find?_singleton]
  by_cases same : other = name <;> simp [same]

theorem lookup?_map (change : String → Json → Json) (name : String)
    (members : List (String × Json)) :
    lookup? name (members.map fun (other, value) => (other, change other value)) =
      (lookup? name members).map (change name) := by
  induction members with
  | nil => rfl
  | cons member rest ih =>
      obtain ⟨other, value⟩ := member
      rw [List.map_cons, lookup?_cons, lookup?_cons, ih, Option.map_or]
      by_cases same : other = name <;> simp [same]

end Json

open Json (lookup? known)

namespace Value

mutual

/-- An attribute without unknown members, and with children. -/
def tidyAttr : Json → Json
  | .object members =>
      .object (known ["kind", "value", "children"] (("children", .array []) :: tidyMembers members))
  | other => other

def tidyMembers : List (String × Json) → List (String × Json)
  | [] => []
  | (name, value) :: rest =>
      (name, if name = "children" then tidyAttrs value else value) :: tidyMembers rest

def tidyAttrs : Json → Json
  | .array items => .array (tidyItems items)
  | other => other

def tidyItems : List Json → List Json
  | [] => []
  | item :: rest => tidyAttr item :: tidyItems rest

end

def tidyPart : String × Json → String × Json
  | (name, value) =>
      (name,
        if name = "head" then tidyAttr value
        else if name = "body" then tidyAttrs value
        else value)

def tidyRule : Json → Json
  | .object members =>
      .object (known ["head", "body"] (("body", .array []) :: members.map tidyPart))
  | other => other

/-- If there are children, they are a list, here and in every child. -/
inductive ListsChildren : Json → Prop where
  | intro {given : Json}
      (lists : ∀ children, given.get? "children" = some children → ∃ items, children = .array items)
      (below : ∀ items, given.get? "children" = some (.array items) →
        ∀ item ∈ items, ListsChildren item) : ListsChildren given

/-- If there are conditions, they are a list, and all attributes of the rule list their children. -/
structure ListsAttributes (given : Json) : Prop where
  head : ∀ head, given.get? "head" = some head → ListsChildren head
  lists : ∀ body, given.get? "body" = some body → ∃ items, body = .array items
  below : ∀ items, given.get? "body" = some (.array items) → ∀ item ∈ items, ListsChildren item

section Read

variable {members : List (String × Json)} {value : Value}

theorem read_member_eq (name : String) (found : Except ReadFault (List Value))
    (members : List (String × Json)) :
    readMember name found members = (lookup? name members).elim found readAttrs := by
  induction members generalizing found with
  | nil => rfl
  | cons member rest ih =>
      obtain ⟨other, value⟩ := member
      rw [readMember, ih, Json.lookup?_cons]
      split <;> cases lookup? name rest <;> rfl

theorem read_kind_eq_ok_iff {given : Json} {k : Kind} :
    readKind given = .ok k ↔ given = .string k.tag := by
  constructor
  · intro read
    unfold readKind at read
    split at read
    · next tag =>
        split at read
        · next found =>
            cases read
            have named : k.tag = tag := by simpa using List.find?_some found
            rw [named]
        · cases read
    · cases read
  · rintro rfl
    rw [readKind, Kind.ofTag?_tag]

theorem required_eq_ok_iff {name : String} {found : Json} :
    required name members = .ok found ↔ lookup? name members = some found := by
  rw [required]
  cases lookup? name members <;> simp

/-- An attribute that is read has a kind and a value, and attributes for its children. -/
theorem read_attr_eq_ok_iff :
    readAttr (.object members) = .ok value ↔
      ∃ children k v, (lookup? "children" members).elim (.ok []) readAttrs = .ok children ∧
        lookup? "kind" members = some (.string k.tag) ∧ lookup? "value" members = some v ∧
        value = attr (kind k) (json v) (tuple children) := by
  rw [readAttr, read_member_eq]
  constructor
  · intro read
    obtain ⟨children, listed, read⟩ := Replay.bind_eq_ok read
    obtain ⟨tag, tagged, read⟩ := Replay.bind_eq_ok read
    obtain ⟨k, own, read⟩ := Replay.bind_eq_ok read
    obtain ⟨v, valued, read⟩ := Replay.bind_eq_ok read
    cases read
    rw [read_kind_eq_ok_iff.mp own] at tagged
    exact ⟨children, k, v, listed, required_eq_ok_iff.mp tagged, required_eq_ok_iff.mp valued, rfl⟩
  · rintro ⟨children, k, v, listed, tagged, valued, rfl⟩
    rw [listed, required_eq_ok_iff.mpr tagged, required_eq_ok_iff.mpr valued]
    simp only [bind, Except.bind, read_kind_eq_ok_iff.mpr rfl]
    rfl

/-- A rule that is read has a head, and attributes for its conditions. -/
theorem read_rule_eq_ok_iff :
    readRule (.object members) = .ok value ↔
      ∃ given head conditions, lookup? "head" members = some given ∧ readAttr given = .ok head ∧
        (lookup? "body" members).elim (.ok []) readAttrs = .ok conditions ∧
        value = rule head (tuple conditions) := by
  rw [readRule, read_member_eq]
  constructor
  · intro read
    obtain ⟨given, headed, read⟩ := Replay.bind_eq_ok read
    obtain ⟨head, claim, read⟩ := Replay.bind_eq_ok read
    obtain ⟨conditions, listed, read⟩ := Replay.bind_eq_ok read
    cases read
    exact ⟨given, head, conditions, required_eq_ok_iff.mp headed, claim, listed, rfl⟩
  · rintro ⟨given, head, conditions, headed, claim, listed, rfl⟩
    rw [listed, required_eq_ok_iff.mpr headed]
    simp only [bind, Except.bind, claim]
    rfl

end Read

section Written

mutual

theorem to_json_of_attr (a : Attr) : (ofAttr a).toJson = a.toJson := by
  rcases a with ⟨k, v, children⟩
  rw [ofAttr, toJson, toJson, toJson, toJson, to_json_of_attrs children]
  rfl

theorem to_json_of_attrs (as : List Attr) : toJsonAll (ofAttrs as) = Attr.toJsonAll as := by
  match as with
  | [] => rfl
  | a :: as =>
      rw [ofAttrs, toJsonAll, to_json_of_attr a, to_json_of_attrs as]
      rfl

end

theorem to_json_of_rule (r : Rule) : (ofRule r).toJson = r.toJson := by
  rw [ofRule, toJson, toJson, to_json_of_attr, to_json_of_attrs]
  rfl

mutual

theorem read_attr_to_json (a : Attr) : readAttr a.toJson = .ok (ofAttr a) := by
  rcases a with ⟨k, v, children⟩
  exact read_attr_eq_ok_iff.mpr ⟨_, k, .string v, read_items_to_json children, rfl, rfl, rfl⟩

theorem read_items_to_json (as : List Attr) :
    readItems (Attr.toJsonAll as) = .ok (ofAttrs as) := by
  match as with
  | [] => rfl
  | a :: as =>
      rw [Attr.toJsonAll, readItems, read_attr_to_json a, read_items_to_json as]
      rfl

end

theorem read_rule_to_json (r : Rule) : readRule r.toJson = .ok (ofRule r) :=
  read_rule_eq_ok_iff.mpr
    ⟨_, _, _, rfl, read_attr_to_json r.head, read_items_to_json r.body, rfl⟩

end Written

section Tidy

variable {members : List (String × Json)} {value : Value} {values : List Value}

theorem tidy_members_eq (members : List (String × Json)) :
    tidyMembers members = members.map fun (name, value) =>
      (name, if name = "children" then tidyAttrs value else value) := by
  induction members with
  | nil => rfl
  | cons member rest ih =>
      rw [tidyMembers, ih]
      rfl

theorem lookup?_tidy_members (name : String) (members : List (String × Json)) :
    lookup? name (tidyMembers members) =
      (lookup? name members).map fun value =>
        if name = "children" then tidyAttrs value else value := by
  rw [tidy_members_eq]
  exact Json.lookup?_map
    (fun name value => if name = "children" then tidyAttrs value else value) name members

theorem lookup?_tidy_parts (name : String) (members : List (String × Json)) :
    lookup? name (members.map tidyPart) =
      (lookup? name members).map fun value => (tidyPart (name, value)).2 :=
  Json.lookup?_map (fun name value => (tidyPart (name, value)).2) name members

theorem tidy_items_eq {items : List Json}
    (each : ∀ item ∈ items, ∀ value, readAttr item = .ok value → value.toJson = tidyAttr item)
    (read : readItems items = .ok values) : toJsonAll values = tidyItems items := by
  induction items generalizing values with
  | nil =>
      cases read
      rfl
  | cons item items ih =>
      obtain ⟨here, others⟩ := List.forall_mem_cons.mp each
      obtain ⟨first, head, read⟩ := Replay.bind_eq_ok read
      obtain ⟨rest, tail, read⟩ := Replay.bind_eq_ok read
      cases read
      rw [toJsonAll, tidyItems, here first head, ih others tail]

theorem tidy_listed_eq {given : Option Json}
    (lists : ∀ listed, given = some listed → ∃ items, listed = .array items)
    (each : ∀ items, given = some (.array items) → ∀ item ∈ items, ∀ value,
      readAttr item = .ok value → value.toJson = tidyAttr item)
    (read : given.elim (.ok []) readAttrs = .ok values) :
    some (.array (toJsonAll values)) = (given.map tidyAttrs).or (some (.array [])) := by
  cases given with
  | none =>
      cases read
      rfl
  | some listed =>
      obtain ⟨items, rfl⟩ := lists listed rfl
      rw [tidy_items_eq (each items rfl) read]
      rfl

theorem tidy_attr_eq {given : Json} (lists : ListsChildren given) :
    ∀ value, readAttr given = .ok value → value.toJson = tidyAttr given := by
  induction lists with
  | @intro given lists below ih =>
      intro value read
      cases given with
      | object members =>
          obtain ⟨children, k, v, listed, tagged, valued, rfl⟩ := read_attr_eq_ok_iff.mp read
          have written := tidy_listed_eq lists ih listed
          have tidy_children : lookup? "children" (("children", .array []) :: tidyMembers members) =
              some (.array (toJsonAll children)) := by
            rw [written, Json.lookup?_cons, lookup?_tidy_members]
            rfl
          have tidy_kind : lookup? "kind" (("children", .array []) :: tidyMembers members) =
              some (.string k.tag) := by
            rw [Json.lookup?_cons, lookup?_tidy_members, tagged]
            rfl
          have tidy_value : lookup? "value" (("children", .array []) :: tidyMembers members) =
              some v := by
            rw [Json.lookup?_cons, lookup?_tidy_members, valued]
            rfl
          rw [tidyAttr, known]
          simp only [List.filterMap_cons, List.filterMap_nil, tidy_children, tidy_kind, tidy_value,
            Option.map_some]
          rfl
      | _ => cases read

theorem tidy_rule_eq {given : Json} (lists : ListsAttributes given)
    (read : readRule given = .ok value) : value.toJson = tidyRule given := by
  cases given with
  | object members =>
      obtain ⟨claimed, head, conditions, headed, claim, listed, rfl⟩ := read_rule_eq_ok_iff.mp read
      have written := tidy_listed_eq lists.lists
        (fun items found item member => tidy_attr_eq (lists.below items found item member)) listed
      have tidy_body : lookup? "body" (("body", .array []) :: members.map tidyPart) =
          some (.array (toJsonAll conditions)) := by
        rw [written, Json.lookup?_cons, lookup?_tidy_parts]
        rfl
      have tidy_head : lookup? "head" (("body", .array []) :: members.map tidyPart) =
          some head.toJson := by
        rw [Json.lookup?_cons, lookup?_tidy_parts, headed,
          tidy_attr_eq (lists.head _ headed) _ claim]
        rfl
      rw [tidyRule, known]
      simp only [List.filterMap_cons, List.filterMap_nil, tidy_body, tidy_head, Option.map_some]
      rfl
  | _ => cases read

end Tidy

end Value

/-- What is written is read as it was. What is read, and lists its children and conditions, is
written as it was, but tidied. -/
theorem json_lossless :
    (∀ a : Attr, (Value.ofAttr a).toJson = a.toJson ∧
      Value.readAttr a.toJson = .ok (Value.ofAttr a)) ∧
    (∀ r : Rule, (Value.ofRule r).toJson = r.toJson ∧
      Value.readRule r.toJson = .ok (Value.ofRule r)) ∧
    (∀ given value, Value.readAttr given = .ok value → Value.ListsChildren given →
      value.toJson = Value.tidyAttr given) ∧
    ∀ given value, Value.readRule given = .ok value → Value.ListsAttributes given →
      value.toJson = Value.tidyRule given := by
  refine ⟨fun a => ⟨Value.to_json_of_attr a, Value.read_attr_to_json a⟩,
    fun r => ⟨Value.to_json_of_rule r, Value.read_rule_to_json r⟩, ?_, ?_⟩
  · intro given value read lists
    exact Value.tidy_attr_eq lists value read
  · intro given value read lists
    exact Value.tidy_rule_eq lists read

theorem json_lossless_with_remark :
    let small : Json := .object [("kind", .string "is_like"), ("value", .integer 3)]
    let bird : Json :=
      .object [("children", .array []), ("value", .string "bird"), ("kind", .string "is_a")]
    let given : Json :=
      .object [("body", .array [small]), ("remark", .array [.null]), ("head", bird)]
    ∃ value, Value.readRule given = .ok value ∧ Value.ListsAttributes given ∧
      value.toJson = jsonRule (jsonAttr (.string "is_a") (.string "bird") [])
        [jsonAttr (.string "is_like") (.integer 3) []] := by
  intro small bird given
  let value : Value := .rule (.attr (.kind .isA) (.json (.string "bird")) (.tuple []))
    (.tuple [.attr (.kind .isLike) (.json (.integer 3)) (.tuple [])])
  have read : Value.readRule given = .ok value := by rfl
  have none_small : small.get? "children" = none := rfl
  have none_bird : bird.get? "children" = some (.array []) := rfl
  have head : given.get? "head" = some bird := rfl
  have body : given.get? "body" = some (.array [small]) := rfl
  have lists_small : Value.ListsChildren small := by
    refine ⟨fun children found => ?_, fun items found => ?_⟩ <;> rw [none_small] at found <;>
      cases found
  have lists_bird : Value.ListsChildren bird := by
    refine ⟨fun children found => ?_, fun items found => ?_⟩ <;> rw [none_bird] at found <;>
      cases found
    · exact ⟨[], rfl⟩
    · exact nofun
  have lists : Value.ListsAttributes given := by
    refine ⟨fun claim found => ?_, fun listed found => ?_, fun items found => ?_⟩
    · rw [head] at found
      cases found
      exact lists_bird
    · rw [body] at found
      cases found
      exact ⟨_, rfl⟩
    · rw [body] at found
      cases found
      exact List.forall_mem_singleton.mpr lists_small
  exact ⟨value, read, lists, json_lossless.2.2.2 given value read lists⟩

end ControlledEnglish
