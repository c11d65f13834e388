import Mathlib.Data.List.Basic
import ControlledEnglish.Value.Gloss

/-! Values are checked in time.

The nodes of a value are checked one at a time, while it is glossed. This comes to the same as to
check all of it first: a node is checked before its children are divided, so these have a kind, and
every child has its turn, so what is wrong with any of them shows. Which fault it is found for depends
on the order, but all that can be at fault besides is that a node cannot be shown. -/

namespace ControlledEnglish.Value

variable {α β : Type} {showable : Prop}

/-- A fault that the glosser prepares for, or one of a value that is not showable as a whole. -/
inductive Foreseen (showable : Prop) : GlossFault → Prop where
  | unglossable : Foreseen showable .unglossable
  | unshowable (hidden : ¬showable) : Foreseen showable .unshowable

/-- What is found is made, and if nothing is found the fault is foreseen. -/
inductive Yields (showable : Prop) : Option α → Except GlossFault α → Prop where
  | found (a : α) : Yields showable (some a) (.ok a)
  | failed {fault : GlossFault} (foreseen : Foreseen showable fault) :
      Yields showable none (.error fault)

namespace Yields

variable {found : Option α} {made : Except GlossFault α}

theorem bind {next : α → Option β} {go : α → Except GlossFault β}
    (first : Yields showable found made) (rest : ∀ a, Yields showable (next a) (go a)) :
    Yields showable (found.bind next) (made >>= go) := by
  cases first with
  | found a => exact rest a
  | failed foreseen => exact .failed foreseen

theorem eq_ok {a : α} (first : Yields showable (some a) made) : made = .ok a := by
  cases first
  rfl

theorem map (f : α → β) (first : Yields showable found made) :
    Yields showable (found.map f) (do return f (← made)) := by
  cases first with
  | found a => exact .found (f a)
  | failed foreseen => exact .failed foreseen

end Yields

theorem foreseen_refusal {value : Value} (shown : showable → value.isShowable = true) :
    Foreseen showable value.refusal := by
  rw [refusal]
  split
  · exact .unglossable
  · next hidden => exact .unshowable fun whole => hidden (shown whole)

namespace Draft

def part? (draft : Draft) : Option Gloss.Part :=
  match draft.kind?, draft.words with
  | some (.kind k), .ok words => some ⟨k, words⟩
  | _, _ => none

def parts? : List Draft → Option (List Gloss.Part)
  | [] => some []
  | draft :: rest => do return (← draft.part?) :: (← parts? rest)

def ofPart (part : Gloss.Part) : Draft := ⟨some (.kind part.kind), .ok part.words⟩

inductive IsSound (showable : Prop) : Draft → Prop where
  | ready (part : Gloss.Part) : IsSound showable (ofPart part)
  | failed (claimed : Value) {fault : GlossFault} (foreseen : Foreseen showable fault) :
      IsSound showable ⟨some claimed, .error fault⟩

variable {ds : List Draft} {d : Draft} {ps : List Gloss.Part}

theorem part?_of_failed (claimed : Value) (fault : GlossFault) :
    part? ⟨some claimed, .error fault⟩ = none := by
  cases claimed <;> rfl

theorem parts?_cons_of_failed (claimed : Value) (fault : GlossFault) (ds : List Draft) :
    parts? (⟨some claimed, .error fault⟩ :: ds) = none := by
  rw [parts?, part?_of_failed]
  rfl

theorem parts?_cons_ready (part : Gloss.Part) (ds : List Draft) :
    parts? (ofPart part :: ds) = (parts? ds).map (part :: ·) := by
  rw [parts?]
  cases parts? ds <;> rfl

def hits (kinds : List Kind) (draft : Draft) : Bool := draft.kind?.any (isOf kinds)

theorem hits_ready (kinds : List Kind) (part : Gloss.Part) :
    hits kinds (ofPart part) = decide (part.kind ∈ kinds) := rfl

theorem claimed_of_sound (sound : d.IsSound showable) : d.kind?.isSome = true := by
  cases sound <;> rfl

theorem split_eq (kinds : List Kind) (claimed : ∀ d ∈ ds, d.kind?.isSome = true) :
    split kinds ds = .ok (ds.filter (hits kinds), ds.filter (!hits kinds ·)) := by
  induction ds with
  | nil => rfl
  | cons d ds ih =>
      obtain ⟨first, rest⟩ := List.forall_mem_cons.mp claimed
      obtain ⟨kind?, words⟩ := d
      obtain ⟨claim, rfl⟩ := Option.isSome_iff_exists.mp first
      have here : hits kinds ⟨some claim, words⟩ = isOf kinds claim := rfl
      rw [split, ih rest, List.filter_cons, List.filter_cons, here]
      cases side : isOf kinds claim <;> simp only [bind, Except.bind, side] <;> rfl

theorem split_of_attrs (kinds : List Kind) (attrs : List Attr) :
    split kinds (drafts (ofAttrs attrs)) =
      .ok (drafts (ofAttrs (splitAttrs kinds attrs).1), drafts (ofAttrs (splitAttrs kinds attrs).2)) := by
  induction attrs with
  | nil => rfl
  | cons attr attrs ih =>
      rw [split_attrs_eq] at ih ⊢
      have own : (ofAttr attr).kind? = some (.kind attr.kind) := by
        rcases attr with ⟨kind, value, children⟩
        rfl
      have here : isOf kinds (.kind attr.kind) = decide (attr.kind ∈ kinds) := rfl
      rw [ofAttrs, drafts, split, own]
      simp only [ih, here, bind, Except.bind, List.filter_cons]
      by_cases side : attr.kind ∈ kinds <;> simp [side, ofAttrs, drafts, own, pure, Except.pure]

theorem parts?_split (kinds : List Kind) (sound : ∀ d ∈ ds, d.IsSound showable)
    (say : List Gloss.Part → List Gloss.Part → α) :
    (parts? ds).map (fun ps => say (ps.filter fun p => p.kind ∈ kinds)
      (ps.filter fun p => p.kind ∉ kinds)) =
    (parts? (ds.filter (hits kinds))).bind fun hs =>
      (parts? (ds.filter (!hits kinds ·))).map (say hs) := by
  induction ds generalizing say with
  | nil => rfl
  | cons d ds ih =>
      obtain ⟨first, rest⟩ := List.forall_mem_cons.mp sound
      cases first with
      | @failed claimed fault foreseen =>
          have here : hits kinds ⟨some claimed, .error fault⟩ = isOf kinds claimed := rfl
          rw [parts?_cons_of_failed, List.filter_cons, List.filter_cons, here]
          cases isOf kinds claimed with
          | true =>
              rw [if_pos rfl, parts?_cons_of_failed]
              rfl
          | false =>
              rw [if_neg (by decide), if_pos (by decide), parts?_cons_of_failed]
              cases parts? (ds.filter (hits kinds)) <;> rfl
      | ready part =>
          rw [parts?_cons_ready, Option.map_map, List.filter_cons, List.filter_cons, hits_ready]
          by_cases side : part.kind ∈ kinds
          · have later := ih rest fun hs ms => say (part :: hs) ms
            simp only [side, decide_true, if_true, Bool.not_true, Bool.false_eq_true, if_false,
              parts?_cons_ready, Option.bind_map]
            refine .trans (congrArg (Option.map · (parts? ds)) (funext fun ps => ?_)) later
            simp [side]
          · have later := ih rest fun hs ms => say hs (part :: ms)
            simp only [side, decide_false, Bool.not_false, if_true, Bool.false_eq_true, if_false,
              parts?_cons_ready, Option.map_map]
            refine .trans (congrArg (Option.map · (parts? ds)) (funext fun ps => ?_)) later
            simp [side]

def Speaks (showable : Prop) (make : List Draft → Attempt) (say : List Gloss.Part → List String) :
    Prop :=
  ∀ ds : List Draft, (∀ d ∈ ds, d.IsSound showable) →
    Yields showable ((parts? ds).map say) (make ds)

theorem each_words (sound : ∀ d ∈ ds, d.IsSound showable) :
    Yields showable ((parts? ds).map (·.map Gloss.Part.words)) (eachWords ds) := by
  induction ds with
  | nil => exact .found []
  | cons d ds ih =>
      obtain ⟨first, rest⟩ := List.forall_mem_cons.mp sound
      rw [eachWords, List.mapM_cons, ← eachWords]
      cases first with
      | failed claimed foreseen =>
          rw [parts?_cons_of_failed]
          exact .failed foreseen
      | ready part =>
          have later := (ih rest).map (part.words :: ·)
          rw [parts?_cons_ready, Option.map_map]
          rw [Option.map_map] at later
          exact later

theorem speaks_each (join : List (List String) → List String) :
    Speaks showable (fun ds => do return join (← eachWords ds))
      fun ps => join (ps.map Gloss.Part.words) := by
  intro ds sound
  have joined := (each_words sound).map join
  rw [Option.map_map] at joined
  exact joined

/-- What is made of drafts of either side does not depend on which of them fails first. -/
theorem Speaks.around {front back : List Draft → Attempt}
    {say tell : List Gloss.Part → List String}
    (speaks : Speaks showable front say) (tells : Speaks showable back tell) (kinds : List Kind)
    (lead middle : List String) :
    Speaks showable (Draft.around kinds front back lead middle) fun ps =>
      lead ++ say (ps.filter fun p => p.kind ∈ kinds) ++ middle ++
        tell (ps.filter fun p => p.kind ∉ kinds) := by
  intro ds sound
  have claimed : ∀ d ∈ ds, d.kind?.isSome = true := fun d member =>
    claimed_of_sound (sound d member)
  have kept (keep : Draft → Bool) : ∀ d ∈ ds.filter keep, d.IsSound showable := fun d member =>
    sound d (List.mem_of_mem_filter member)
  rw [Draft.around, split_eq kinds claimed,
    parts?_split kinds sound fun hs ms => lead ++ say hs ++ middle ++ tell ms]
  have both := (speaks _ (kept (hits kinds))).bind fun front =>
    (tells _ (kept (!hits kinds ·))).map (lead ++ front ++ middle ++ ·)
  simp only [Option.bind_map, Option.map_map] at both
  exact both

theorem speaks_clauses : Speaks showable clauses Gloss.clauses := by
  intro ds sound
  have speaks :=
    (speaks_each Gloss.thatIs).around (speaks_each Gloss.andJoined) [.isA] [] [] ds sound
  simp only [List.nil_append, List.append_nil] at speaks
  exact speaks

theorem speaks_attached (kind : Kind) (value : String) :
    Speaks showable (attached kind value) (Gloss.phraseOf kind value) := by
  have joined : Speaks showable _ _ := speaks_each Gloss.andJoined
  have juxtaposed : Speaks showable _ _ := speaks_each List.flatten
  cases kind with
  | isA => exact juxtaposed.around speaks_clauses Gloss.modifiers [] [value]
  | does => exact joined.around joined [.isHow] ["that"] [value]
  | hasA => exact joined.around speaks_clauses Gloss.modifiers ["that", "has"] [value]
  | isLike | isHow =>
      intro ds sound
      have first := (juxtaposed ds sound).map (· ++ [value])
      rw [Option.map_map] at first
      exact first

theorem speaks_outermost {kind : Kind} (sayable : kind ≠ .isHow) (value : String) :
    ∃ say, Speaks showable (outermost kind value) say ∧
      ∀ children, Gloss.sentence? ⟨kind, value, children⟩ = some (say (Gloss.parts children)) := by
  have joined : Speaks showable _ _ := speaks_each Gloss.andJoined
  have juxtaposed : Speaks showable _ _ := speaks_each List.flatten
  cases kind with
  | does => exact ⟨_, joined.around joined [.isHow] ["it"] [value], fun _ => rfl⟩
  | hasA => exact ⟨_, juxtaposed.around speaks_clauses [.isLike] ["it", "has"] [value], fun _ => rfl⟩
  | isA => exact ⟨_, juxtaposed.around joined [.isLike] ["it", "is"] [value], fun _ => rfl⟩
  | isLike => exact ⟨_, joined.around joined [.isHow] ["it", "is"] [value], fun _ => rfl⟩
  | isHow => exact absurd rfl sayable

theorem outermost_yields (kind : Kind) (value : String) (ds : List Draft)
    (children? : Option (List Attr)) (sound : ∀ d ∈ ds, d.IsSound showable)
    (parts : parts? ds = children?.map Gloss.parts) :
    Yields showable (children?.bind fun children => Gloss.sentence? ⟨kind, value, children⟩)
      (outermost kind value ds) := by
  by_cases sayable : kind = .isHow
  · subst sayable
    cases children? <;> exact .failed .unglossable
  · obtain ⟨say, speaks, sentence⟩ := speaks_outermost sayable value
    have said := speaks ds sound
    rw [parts] at said
    simp only [sentence]
    cases children? <;> exact said

theorem attached_yields (kind : Kind) (text : String) (ds : List Draft)
    (children? : Option (List Attr)) (sound : ∀ d ∈ ds, d.IsSound showable)
    (parts : parts? ds = children?.map Gloss.parts) :
    Yields showable (children?.bind fun children => some (Gloss.phrase ⟨kind, text, children⟩))
      (attached kind text ds) := by
  have said := speaks_attached kind text ds sound
  rw [parts] at said
  cases children? <;> exact said

end Draft

open Draft

theorem kind_of_attr {value : Value} {attr : Attr} (found : attr? value = some attr) :
    value.kind? = some (.kind attr.kind) := by
  match value, found with
  | .attr (.kind k) v children, found =>
      obtain ⟨text, -, found⟩ := Option.bind_eq_some_iff.mp found
      obtain ⟨attrs, -, found⟩ := Option.bind_eq_some_iff.mp found
      cases found
      rfl

def Agree (showable : Prop) (ds? : Option (List Draft)) (children? : Option (List Attr)) : Prop :=
  (∃ ds, ds? = some ds ∧ (∀ d ∈ ds, d.IsSound showable) ∧ parts? ds = children?.map Gloss.parts) ∨
    children? = none ∧ ∀ ds ∈ ds?, ds.all (·.kind?.isSome) = false

theorem of_node_yields {make : Kind → String → List Draft → Attempt}
    (say : Attr → Option (List String))
    (makes : ∀ (kind : Kind) (text : String) (ds : List Draft) (children? : Option (List Attr)),
      (∀ d ∈ ds, d.IsSound showable) → parts? ds = children?.map Gloss.parts →
        Yields showable (children?.bind fun children => say ⟨kind, text, children⟩)
          (make kind text ds))
    {refusal : GlossFault} (foreseen : Foreseen showable refusal) (k v : Value) {children : Value}
    (agree : Agree showable (drafts? children) (children? children)) :
    Yields showable ((attr? (.attr k v children)).bind say)
      (ofNode make refusal k v.string? (drafts? children)) := by
  cases k with
  | kind kind =>
      rw [attr?]
      cases v.string? with
      | none => exact .failed foreseen
      | some text =>
          rcases agree with ⟨ds, found, sound, parts⟩ | ⟨missing, unclaimed⟩
          · have claimed : ds.all (·.kind?.isSome) = true :=
              List.all_eq_true.mpr fun d member => claimed_of_sound (sound d member)
            have made := makes kind text ds _ sound parts
            rw [found, ofNode, if_pos claimed]
            cases read : children? children <;> rw [read] at made <;> exact made
          · rw [missing]
            cases found : drafts? children with
            | none => exact .failed foreseen
            | some ds =>
                rw [ofNode, unclaimed ds found]
                exact .failed foreseen
  | json | list | tuple | attr | rule => exact .failed foreseen

section Showable

variable {head body k v children item : Value} {items : List Value}

theorem children_showable (shown : (attr k v children).isShowable = true) :
    children.isShowable = true := by
  rw [isShowable, Bool.and_eq_true] at shown
  exact shown.2

theorem rule_showable (shown : (rule head body).isShowable = true) :
    head.isShowable = true ∧ body.isShowable = true := by
  rwa [isShowable, Bool.and_eq_true] at shown

theorem cons_showable (shown : allShowable (item :: items) = true) :
    item.isShowable = true ∧ allShowable items = true := by
  rwa [allShowable, Bool.and_eq_true] at shown

theorem array_showable {item : Json} {items : List Json}
    (shown : (Value.json (.array (item :: items))).isShowable = true) :
    (Value.json item).isShowable = true := by
  rw [isShowable, Json.isShowable, Json.allShowable, Bool.and_eq_true] at shown
  rw [isShowable]
  exact shown.1

theorem json_items_showable (items : List Json) :
    allShowable (items.map .json) = Json.allShowable items := by
  induction items with
  | nil => rfl
  | cons item items ih => rw [List.map_cons, allShowable, ih, isShowable, Json.allShowable]

theorem items_showable {value : Value} (shown : value.isShowable = true) :
    allShowable value.items = true := by
  have alone : allShowable [value] = true := by
    rw [allShowable, shown]
    rfl
  match value with
  | .list items | .tuple items => rwa [isShowable] at shown
  | .json (.array items) =>
      rw [isShowable, Json.isShowable, ← json_items_showable] at shown
      exact shown
  | .json .null | .json (.bool _) | .json (.integer _) | .json (.decimal ..) | .json (.string _)
  | .json (.object _) | .kind _ | .attr .. | .rule .. => exact alone

end Showable

mutual

theorem attached_words_yields (value : Value) (shown : showable → value.isShowable = true) :
    Yields showable ((attr? value).map Gloss.phrase) (attachedWords value) := by
  cases value with
  | attr k v children =>
      have agree := drafts_agree children fun whole => children_showable (shown whole)
      have made := of_node_yields (some <| Gloss.phrase ·) attached_yields (foreseen_refusal shown)
        k v agree
      rw [attachedWords]
      cases read : attr? (.attr k v children) <;> rw [read] at made <;> exact made
  | json | kind | list | tuple | rule => exact .failed (foreseen_refusal shown)

theorem drafts_agree (children : Value) (shown : showable → children.isShowable = true) :
    Agree showable (drafts? children) (children? children) := by
  match children with
  | .list items | .tuple items => exact items_agree items shown
  | .json (.array []) => exact .inl ⟨[], rfl, nofun, rfl⟩
  | .json (.array (item :: items)) =>
      refine .inr ⟨rfl, fun ds found => ?_⟩
      cases found
      rfl
  | .json .null | .json (.bool _) | .json (.integer _) | .json (.decimal ..) | .json (.string _)
  | .json (.object _) | .kind _ | .attr .. | .rule .. => exact .inr ⟨rfl, nofun⟩

theorem items_agree (items : List Value) (shown : showable → allShowable items = true) :
    Agree showable (some (drafts items)) (attrs? items) := by
  match items with
  | [] => exact .inl ⟨[], rfl, nofun, rfl⟩
  | item :: items =>
      have words := attached_words_yields item fun whole => (cons_showable (shown whole)).1
      rw [drafts, attrs?]
      rcases items_agree items fun whole => (cons_showable (shown whole)).2 with
        ⟨ds, found, sound, parts⟩ | ⟨missing, unclaimed⟩
      · cases found
        cases read : attr? item with
        | some attr =>
            have ready : (⟨item.kind?, attachedWords item⟩ : Draft) =
                ofPart ⟨attr.kind, Gloss.phrase attr⟩ := by
              rw [read] at words
              rw [kind_of_attr read, words.eq_ok]
              rfl
            refine .inl ⟨_, rfl, ?_, ?_⟩
            · rw [ready]
              exact List.forall_mem_cons.mpr ⟨.ready _, sound⟩
            · rw [ready, parts?_cons_ready, parts]
              cases attrs? items <;> rfl
        | none =>
            rw [read] at words
            generalize attachedWords item = made at words
            cases words with
            | @failed fault foreseen =>
                cases claimed : item.kind? with
                | some claim =>
                    exact .inl ⟨_, rfl, List.forall_mem_cons.mpr ⟨.failed claim foreseen, sound⟩,
                      parts?_cons_of_failed claim fault _⟩
                | none =>
                    refine .inr ⟨rfl, fun ds found => ?_⟩
                    cases found
                    rfl
      · rw [missing]
        refine .inr ⟨by cases attr? item <;> rfl, fun ds found => ?_⟩
        cases found
        rw [List.all_cons, unclaimed _ rfl, Bool.and_false]

end

theorem clause_of_attr {value : Value} (attr : value.isAttr = true) :
    clause? value = (attr? value).map .attr := by
  cases value with
  | attr k v children => rfl
  | json | kind | list | tuple | rule => cases attr

theorem attr_of_other {value : Value} (other : value.isAttr = false) : attr? value = none := by
  cases value with
  | attr k v children => cases other
  | json | kind | list | tuple | rule => rfl

/-! What a rule and a list of clauses say, in the order in which it is put together. -/

theorem conditional_gloss (head first : Value) (rest : List Value) :
    (do return .rule (← attr? head) (← clauses? (first :: rest)) : Option Clause).bind Clause.gloss? =
      ((clauses? (first :: rest)).bind Clause.glosses?).bind fun conditions =>
        ((attr? head).bind Gloss.sentence?).map
          (["if"] ++ Gloss.andJoined conditions ++ ["then"] ++ ·) := by
  rw [clauses?]
  cases clause? first with
  | none => cases attr? head <;> rfl
  | some clause =>
      cases clauses? rest with
      | none => cases attr? head <;> rfl
      | some clauses =>
          simp only [Option.bind_eq_bind, Option.bind_some, Option.pure_def]
          cases attr? head with
          | none => cases Clause.glosses? (clause :: clauses) <;> rfl
          | some attr =>
              rw [Option.bind_some, Option.bind_some, Option.bind_some, Clause.gloss?]
              cases Clause.glosses? (clause :: clauses) <;> cases Gloss.sentence? attr <;> rfl

theorem clauses_gloss (item : Value) (items : List Value) :
    (clauses? (item :: items)).bind Clause.glosses? =
      ((clause? item).bind Clause.gloss?).bind fun words =>
        ((clauses? items).bind Clause.glosses?).map (words :: ·) := by
  rw [clauses?]
  cases clause? item with
  | none => rfl
  | some clause =>
      rw [Option.bind_some]
      cases clauses? items with
      | none => cases Clause.gloss? clause <;> rfl
      | some clauses =>
          simp only [Option.bind_eq_bind, Option.bind_some, Option.pure_def, Clause.glosses?]
          cases Clause.gloss? clause <;> cases Clause.glosses? clauses <;> rfl

theorem conditional_yields {conditions : List Attempt} {conclusion : Attempt} {head first : Value}
    {rest : List Value}
    (made : Yields showable ((clauses? (first :: rest)).bind Clause.glosses?) (conditions.mapM id))
    (concluded : Yields showable ((attr? head).bind Gloss.sentence?) conclusion) :
    Yields showable ((do return .rule (← attr? head) (← clauses? (first :: rest)) :
        Option Clause).bind Clause.gloss?)
      (do return ["if"] ++ (← allJoined conditions) ++ ["then"] ++ (← conclusion)) := by
  rw [conditional_gloss]
  simp only [allJoined, bind_assoc, pure_bind]
  exact made.bind fun conditions => concluded.map _

mutual

theorem words_yields (value : Value) (shown : showable → value.isShowable = true) :
    Yields showable ((clause? value).bind Clause.gloss?) (words value) := by
  match value with
  | .attr k v children =>
      have agree := drafts_agree children fun whole => children_showable (shown whole)
      rw [words, clause?, Option.bind_map]
      exact of_node_yields Gloss.sentence? outermost_yields (foreseen_refusal shown) k v agree
  | .rule head body =>
      have refused := foreseen_refusal shown
      rw [clause?]
      cases side : head.isAttr with
      | false =>
          rw [words, side, attr_of_other side]
          exact .failed refused
      | true =>
          have conclusion := words_yields head fun whole => (rule_showable (shown whole)).1
          rw [clause_of_attr side, Option.bind_map] at conclusion
          rw [words, side]
          match body with
          | .list (first :: rest) | .tuple (first :: rest) =>
              have conditions := attempts_yield (first :: rest) fun whole =>
                (rule_showable (shown whole)).2
              exact conditional_yields conditions conclusion
          | .list [] | .tuple [] | .json (.array []) =>
              cases claim : attr? head <;> rw [claim] at conclusion <;> exact conclusion
          | .json (.array (item :: items)) =>
              have refused : Foreseen showable (Value.json item).refusal :=
                foreseen_refusal fun whole => array_showable (rule_showable (shown whole)).2
              cases attr? head <;> exact .failed refused
          | .json .null | .json (.bool _) | .json (.integer _) | .json (.decimal ..)
          | .json (.string _) | .json (.object _) | .kind _ | .attr .. | .rule .. =>
              cases attr? head <;> exact .failed refused
  | .json _ | .kind _ | .list _ | .tuple _ => exact .failed (foreseen_refusal shown)

theorem attempts_yield (items : List Value) (shown : showable → allShowable items = true) :
    Yields showable ((clauses? items).bind Clause.glosses?) ((attempts items).mapM id) := by
  match items with
  | [] => exact .found []
  | item :: items =>
      have first := words_yields item fun whole => (cons_showable (shown whole)).1
      have later := attempts_yield items fun whole => (cons_showable (shown whole)).2
      rw [attempts, List.mapM_cons, clauses_gloss]
      exact first.bind fun words => later.map (words :: ·)

end

theorem all_joined_yields (items : List Value) (shown : showable → allShowable items = true) :
    Yields showable ((clauses? items).bind Clause.glossAll?) (allJoined (attempts items)) := by
  have made := (attempts_yield items shown).map Gloss.andJoined
  cases read : clauses? items <;> rw [read] at made <;> exact made

/-- What can be glossed is, and what cannot is its own gloss, unless it cannot be shown. -/
theorem gloss_cases (value : Value) :
    (∃ words, (clauses? value.items).bind Clause.glossAll? = some words ∧
      value.gloss = .ok (.words words)) ∨
    (clauses? value.items).bind Clause.glossAll? = none ∧
      (value.gloss = .ok (.itself value) ∨
        value.gloss = .error .unshowable ∧ value.isShowable = false) := by
  have made : Yields (value.isShowable = true) _ _ := all_joined_yields value.items items_showable
  rw [gloss]
  generalize allJoined (attempts value.items) = joined at made
  generalize (clauses? value.items).bind Clause.glossAll? = found at made
  cases made with
  | found words => exact .inl ⟨words, rfl, rfl⟩
  | failed foreseen =>
      cases foreseen with
      | unglossable => exact .inr ⟨rfl, .inl rfl⟩
      | unshowable hidden => exact .inr ⟨rfl, .inr ⟨rfl, Bool.eq_false_iff.mpr hidden⟩⟩

theorem gloss?_eq (value : Value) : value.gloss? = (clauses? value.items).bind Clause.glossAll? := by
  rw [gloss?]
  rcases value.gloss_cases with ⟨words, found, glossed⟩ | ⟨none, itself | ⟨hidden, -⟩⟩
  · rw [found, glossed]
  · rw [none, itself]
  · rw [none, hidden]

theorem clauses?_of_attrs (as : List Attr) : clauses? (ofAttrs as) = some (as.map .attr) := by
  induction as with
  | nil => rfl
  | cons a as ih =>
      have first : clause? (ofAttr a) = some (.attr a) := by
        rcases a with ⟨kind, value, children⟩
        rw [ofAttr, clause?, ← ofAttr, attr?_of_attr, Option.map_some]
      rw [ofAttrs, clauses?, first, ih]
      rfl

theorem clause?_of_rule (rule : Rule) : clause? (ofRule rule) = some rule.clause := by
  rw [ofRule, clause?, attr?_of_attr, conditions?, clauses?_of_attrs]
  rfl

theorem clauses?_of_rules (rules : List Rule) :
    clauses? (rules.map ofRule) = some (rules.map Rule.clause) := by
  induction rules with
  | nil => rfl
  | cons rule rules ih =>
      rw [List.map_cons, clauses?, clause?_of_rule, ih]
      rfl

theorem gloss?_of_rules (rules : List Rule) : (ofRules rules).gloss? = glossRules? rules := by
  have listed : (ofRules rules).items = rules.map ofRule := rfl
  rw [gloss?_eq, listed, clauses?_of_rules]
  rfl

theorem gloss?_of_rule (rule : Rule) : (ofRule rule).gloss? = glossRules? [rule] := by
  have alone : (ofRule rule).items = [rule].map ofRule := rfl
  rw [gloss?_eq, alone, clauses?_of_rules]
  rfl

theorem gloss_text_of_rule {rule : Rule} {words : List String}
    (glossed : glossRules? [rule] = some words) :
    glossText (ofRule rule) = .ok (spaced words) := by
  rw [← gloss?_of_rule, gloss?_eq] at glossed
  rcases (ofRule rule).gloss_cases with ⟨words', found, said⟩ | ⟨none, -⟩
  · rw [glossed] at found
    cases found
    simp only [glossText, said]
    rfl
  · rw [none] at glossed
    cases glossed

end ControlledEnglish.Value
