import ControlledEnglish.Gloss
import ControlledEnglish.Declaration
import ControlledEnglish.Proofs.Spacing

/-! How words are cut into declarations.

Any word may be declared, so an "and" between two declarations may connect them or be declared by
the second. At most one declaration starts at a place, and so this is all that two cuts of the same
words can differ in. The cut that is found connects wherever it can. Declarations that are written
in full, with "and" between them, are therefore read back. -/

namespace ControlledEnglish

namespace Declaration

inductive Article where
  | a
  | an
  deriving DecidableEq, Repr

def Article.text : Article → String
  | a => "a"
  | an => "an"

/-- A way to put a declaration: with "is" or not, and with an article or none. -/
structure Wording where
  declaration : Declaration
  copula : Bool
  article : Option Article
  deriving DecidableEq, Repr

namespace Wording

def between (copula : Bool) (article : Option Article) : List String :=
  (if copula then ["is"] else []) ++ (article.map Article.text).toList

def texts (w : Wording) : List String :=
  w.declaration.word :: (between w.copula w.article ++ [w.declaration.category.keyword])

def words (w : Wording) : List Word := plain w.texts

end Wording

/-- A way to cut words: a declaration, and then others, each connected with "and" or not. -/
inductive Cut where
  | last (wording : Wording)
  | more (wording : Wording) (connected : Bool) (rest : Cut)

namespace Cut

def connective (connected : Bool) : List Word := if connected then [.plain "and"] else []

def words : Cut → List Word
  | last w => w.words
  | more w connected rest => w.words ++ (connective connected ++ rest.words)

def first : Cut → Wording
  | last w => w
  | more w _ _ => w

def declarations : Cut → List Declaration
  | last w => [w.declaration]
  | more w _ rest => w.declaration :: rest.declarations

/-- Where two cuts differ first, one connects with the "and" that the other declares. -/
inductive Prefers : Cut → Cut → Prop where
  | here (w : Wording) {rest other : Cut} (declared : other.first.declaration.word = "and") :
      Prefers (.more w true rest) (.more w false other)
  | later (w : Wording) (connected : Bool) {rest other : Cut} (behind : Prefers rest other) :
      Prefers (.more w connected rest) (.more w connected other)

structure IsPreferred (cut : Cut) (words : List Word) : Prop where
  cuts : cut.words = words
  others : ∀ other : Cut, other.words = words → other = cut ∨ cut.Prefers other

end Cut

variable {words rest rest' : List Word} {w w' : Wording}

section Starts

theorem of_mem_optional {options : List String} (member : rest ∈ optional options words) :
    rest = words ∨ ∃ text ∈ options, words = .plain text :: rest := by
  unfold optional at member
  split at member
  · exact .inl (List.mem_singleton.mp member)
  · next word behind =>
      split at member
      · next option =>
          rcases List.mem_pair.mp member with rfl | rfl
          · cases word with
            | plain text => exact .inr ⟨text, List.contains_iff_mem.mp option, rfl⟩
            | literal word => cases option
          · exact .inl rfl
      · exact .inl (List.mem_singleton.mp member)

theorem exists_keyword_of_mem_named {word : String} {found : Declaration × List Word}
    (member : found ∈ named word words) :
    ∃ category : Category, words = .plain category.keyword :: found.2 := by
  unfold named at member
  split at member
  · next name behind =>
      split at member
      · next category known =>
          obtain rfl := List.mem_singleton.mp member
          have keyword : category.keyword = name := by simpa using List.find?_some known
          exact ⟨category, by rw [keyword]⟩
      · cases member
  · cases member

theorem exists_wording_of_mem_starts {found : Declaration × List Word}
    (member : found ∈ starts words) : ∃ w : Wording, words = w.words ++ found.2 := by
  unfold starts at member
  split at member
  · next word rest =>
      obtain ⟨behindIs, isOptional, member⟩ := List.mem_flatMap.mp member
      obtain ⟨behindArticle, articleOptional, member⟩ := List.mem_flatMap.mp member
      obtain ⟨category, rfl⟩ := exists_keyword_of_mem_named member
      have copula : ∃ copula, rest = plain (Wording.between copula none) ++ behindIs := by
        rcases of_mem_optional isOptional with rfl | ⟨text, listed, rfl⟩
        · exact ⟨false, rfl⟩
        · obtain rfl := List.mem_singleton.mp listed
          exact ⟨true, rfl⟩
      have article : ∃ article, behindIs = plain (Wording.between false article) ++
          .plain category.keyword :: found.2 := by
        rcases of_mem_optional articleOptional with rfl | ⟨text, listed, rfl⟩
        · exact ⟨none, rfl⟩
        · rcases List.mem_pair.mp listed with rfl | rfl
          · exact ⟨some .a, rfl⟩
          · exact ⟨some .an, rfl⟩
      obtain ⟨copula, rfl⟩ := copula
      obtain ⟨article, rfl⟩ := article
      refine ⟨⟨⟨word, category⟩, copula, article⟩, ?_⟩
      simp [Wording.words, Wording.texts, Wording.between]
  · cases member

theorem starts_words (w : Wording) (rest : List Word) :
    starts (w.words ++ rest) = [(w.declaration, rest)] := by
  obtain ⟨⟨word, category⟩, copula, article⟩ := w
  rcases article with _ | _ | _ <;> cases copula <;> cases category <;> rfl

theorem starts_cases (words : List Word) :
    (∃ (w : Wording) (rest : List Word), words = w.words ++ rest) ∨
      starts words = [] ∧ ∀ (w : Wording) (rest : List Word), words ≠ w.words ++ rest := by
  cases found : starts words with
  | nil =>
      refine .inr ⟨rfl, ?_⟩
      rintro w rest rfl
      rw [starts_words] at found
      cases found
  | cons first others =>
      have member : first ∈ starts words := by simp [found]
      obtain ⟨w, same⟩ := exists_wording_of_mem_starts member
      exact .inl ⟨w, first.2, same⟩

theorem between_inj {copula copula' : Bool} {article article' : Option Article}
    (same : Wording.between copula article = Wording.between copula' article') :
    copula = copula' ∧ article = article' := by
  rcases article with _ | _ | _ <;> rcases article' with _ | _ | _ <;> cases copula <;>
    cases copula' <;> simp_all [Wording.between, Article.text]

theorem wording_unique (same : w.words ++ rest = w'.words ++ rest') : w = w' ∧ rest = rest' := by
  have found := congrArg starts same
  rw [starts_words, starts_words, List.singleton_inj, Prod.mk.injEq] at found
  obtain ⟨declaration, rfl⟩ := found
  have texts : w.texts = w'.texts := plain_inj (List.append_cancel_right same)
  rw [Wording.texts, Wording.texts, declaration, List.cons.injEq] at texts
  obtain ⟨copula, article⟩ := between_inj (List.append_cancel_right texts.2)
  obtain ⟨_, _, _⟩ := w
  obtain ⟨_, _, _⟩ := w'
  cases declaration
  cases copula
  cases article
  exact ⟨rfl, rfl⟩

end Starts

namespace Cut

variable {cut other : Cut}

theorem words_ne_nil (cut : Cut) : cut.words ≠ [] := by
  cases cut with
  | last w => exact List.cons_ne_nil _ _
  | more w connected rest => exact List.cons_ne_nil _ _

theorem declared_of_words {word : String} (same : cut.words = .plain word :: rest) :
    cut.first.declaration.word = word := by
  cases cut with
  | last w | more w connected behind => exact Word.plain.inj (List.cons.inj same).1

theorem words_eq_append_iff :
    cut.words = w.words ++ rest ↔
      cut = last w ∧ rest = [] ∨
        ∃ connected behind, cut = more w connected behind ∧
          rest = connective connected ++ behind.words := by
  constructor
  · intro same
    cases cut with
    | last w' =>
        have same : w'.words ++ [] = w.words ++ rest := by rw [List.append_nil]; exact same
        obtain ⟨rfl, rfl⟩ := wording_unique same
        exact .inl ⟨rfl, rfl⟩
    | more w' connected behind =>
        obtain ⟨rfl, rfl⟩ := wording_unique same
        exact .inr ⟨connected, behind, rfl, rfl⟩
  · rintro (⟨rfl, rfl⟩ | ⟨connected, behind, rfl, rfl⟩)
    · rw [List.append_nil]
      rfl
    · rfl

theorem exists_words (cut : Cut) : ∃ behind, cut.words = cut.first.words ++ behind := by
  cases cut with
  | last w => exact ⟨[], (List.append_nil _).symm⟩
  | more w connected rest => exact ⟨_, rfl⟩

theorem Prefers.asymm (prefers : cut.Prefers other) : ¬other.Prefers cut := by
  induction prefers with
  | here w declared => exact nofun
  | later w connected behind ih =>
      intro back
      cases back with
      | later _ _ back => exact ih back

theorem IsPreferred.unique (preferred : cut.IsPreferred words)
    (preferred' : other.IsPreferred words) : other = cut := by
  rcases preferred.others other preferred'.cuts with same | prefers
  · exact same
  · rcases preferred'.others cut preferred.cuts with same | back
    · exact same.symm
    · exact absurd back prefers.asymm

section Step

theorem last_preferred (w : Wording) : (last w).IsPreferred w.words := by
  refine ⟨rfl, fun other same => ?_⟩
  rw [← List.append_nil w.words, words_eq_append_iff] at same
  rcases same with ⟨rfl, -⟩ | ⟨connected, behind, -, nothing⟩
  · exact .inl rfl
  · exact absurd (List.append_eq_nil_iff.mp nothing.symm).2 behind.words_ne_nil

theorem IsPreferred.behind_and (preferred : cut.IsPreferred rest) (w : Wording) :
    (more w true cut).IsPreferred (w.words ++ .plain "and" :: rest) := by
  refine ⟨by rw [words, preferred.cuts]; rfl, fun other same => ?_⟩
  rcases words_eq_append_iff.mp same with ⟨-, nothing⟩ | ⟨connected, behind, rfl, left⟩
  · cases nothing
  · cases connected with
    | true =>
        rcases preferred.others behind (List.cons.inj left).2.symm with rfl | prefers
        · exact .inl rfl
        · exact .inr (.later w true prefers)
    | false => exact .inr (.here w (declared_of_words left.symm))

theorem IsPreferred.unconnected (preferred : cut.IsPreferred rest) (w : Wording)
    (apart : ∀ (other : Cut), rest ≠ .plain "and" :: other.words) :
    (more w false cut).IsPreferred (w.words ++ rest) := by
  refine ⟨by rw [words, preferred.cuts]; rfl, fun other same => ?_⟩
  rcases words_eq_append_iff.mp same with ⟨-, rfl⟩ | ⟨connected, behind, rfl, left⟩
  · exact absurd preferred.cuts cut.words_ne_nil
  · cases connected with
    | true => exact absurd left (apart behind)
    | false =>
        rcases preferred.others behind left.symm with rfl | prefers
        · exact .inl rfl
        · exact .inr (.later w false prefers)

theorem no_cut_behind (some : rest ≠ []) (apart : ∀ other : Cut, other.words ≠ rest)
    (unconnected : ∀ other : Cut, rest ≠ .plain "and" :: other.words) (other : Cut) :
    other.words ≠ w.words ++ rest := by
  intro same
  rcases words_eq_append_iff.mp same with ⟨-, nothing⟩ | ⟨connected, behind, -, same⟩
  · exact some nothing
  · cases connected with
    | true => exact unconnected behind same
    | false => exact apart behind same.symm

end Step

end Cut

section Search

theorem cut?_eq (words : List Word) :
    cut? words = (starts words).findSome? fun (first, rest) =>
      if rest = [] then some [first]
      else ((optional ["and"] rest).findSome? cut?).map (first :: ·) := by
  rw [cut?]
  conv_rhs => rw [← List.attach_map_subtype_val (starts words), List.findSome?_map]
  congr 1
  funext ⟨(first, rest), member⟩
  simp [List.map_findSome?, Function.comp_def]

theorem cut?_of_no_start (none : starts words = []) : cut? words = .none := by
  rw [cut?_eq, none, List.findSome?_nil]

theorem cut?_last (w : Wording) : cut? w.words = some [w.declaration] := by
  rw [cut?_eq, ← List.append_nil w.words, starts_words]
  rfl

theorem cut?_more (w : Wording) (some : rest ≠ []) :
    cut? (w.words ++ rest) = ((optional ["and"] rest).findSome? cut?).map (w.declaration :: ·) := by
  rw [cut?_eq, starts_words, List.findSome?_cons, List.findSome?_nil]
  simp only [if_neg some]
  cases (optional ["and"] rest).findSome? cut? <;> rfl

theorem cut?_more_and (w : Wording) (rest : List Word) :
    cut? (w.words ++ .plain "and" :: rest) =
      ((cut? rest).or (cut? (.plain "and" :: rest))).map (w.declaration :: ·) := by
  have both : optional ["and"] (.plain "and" :: rest) = [rest, .plain "and" :: rest] := rfl
  rw [cut?_more w (List.cons_ne_nil _ _), both, List.findSome?_cons, List.findSome?_singleton]
  cases cut? rest <;> rfl

theorem cut?_more_other (w : Wording) {word : Word} (other : word ≠ .plain "and")
    (rest : List Word) :
    cut? (w.words ++ word :: rest) = (cut? (word :: rest)).map (w.declaration :: ·) := by
  have one : optional ["and"] (word :: rest) = [word :: rest] := by
    cases word with
    | literal word => rfl
    | plain text =>
        have apart : text ≠ "and" := fun same => other (congrArg _ same)
        simp [optional, Word.isPlain, apart]
  rw [cut?_more w (List.cons_ne_nil _ _), one, List.findSome?_singleton]

def Decides (found : Option (List Declaration)) (words : List Word) : Prop :=
  (∃ cut : Cut, cut.IsPreferred words ∧ found = some cut.declarations) ∨
    (∀ cut : Cut, cut.words ≠ words) ∧ found = none

theorem Decides.behind {found : Option (List Declaration)} (decides : Decides found rest)
    (w : Wording) (some : rest ≠ [])
    (unconnected : ∀ other : Cut, rest ≠ .plain "and" :: other.words) :
    Decides (found.map (w.declaration :: ·)) (w.words ++ rest) := by
  rcases decides with ⟨cut, preferred, rfl⟩ | ⟨apart, rfl⟩
  · exact .inl ⟨_, preferred.unconnected w unconnected, rfl⟩
  · exact .inr ⟨Cut.no_cut_behind some apart unconnected, rfl⟩

/-- Behind a declaration it is tried first to connect, and then not to. -/
theorem decides_behind (w : Wording)
    (ih : ∀ tail : List Word, tail.length ≤ rest.length → Decides (cut? tail) tail) :
    Decides (cut? (w.words ++ rest)) (w.words ++ rest) := by
  cases rest with
  | nil =>
      rw [List.append_nil]
      exact .inl ⟨.last w, Cut.last_preferred w, cut?_last w⟩
  | cons word rest =>
      have whole := ih (word :: rest) (Nat.le_refl _)
      by_cases connects : word = .plain "and"
      · subst connects
        rw [cut?_more_and]
        rcases ih rest (Nat.le_succ _) with ⟨cut, preferred, found⟩ | ⟨none, missing⟩
        · exact .inl ⟨_, preferred.behind_and w, by rw [found]; rfl⟩
        · -- Nothing can be cut behind the "and", so it is declared or there is no cut.
          have unconnected (other : Cut) : Word.plain "and" :: rest ≠ .plain "and" :: other.words :=
            fun same => none other (List.cons.inj same).2.symm
          rw [missing, Option.none_or]
          exact whole.behind w (List.cons_ne_nil _ _) unconnected
      · have unconnected (other : Cut) : word :: rest ≠ .plain "and" :: other.words :=
          fun same => connects (List.cons.inj same).1
        rw [cut?_more_other w connects]
        exact whole.behind w (List.cons_ne_nil _ _) unconnected

/-- The search finds the preferred cut, if there is any. -/
theorem cut_decides (words : List Word) : Decides (cut? words) words := by
  induction length : words.length using Nat.strong_induction_on generalizing words with
  | _ n ih =>
      subst length
      rcases starts_cases words with ⟨w, rest, rfl⟩ | ⟨none, apart⟩
      · refine decides_behind w fun tail noLonger => ih _ ?_ tail rfl
        have some : 0 < w.words.length := Nat.succ_pos _
        rw [List.length_append]
        omega
      · refine .inr ⟨fun cut same => ?_, cut?_of_no_start none⟩
        obtain ⟨behind, whole⟩ := cut.exists_words
        exact apart _ _ (same.symm.trans whole)

theorem exists_preferred {cut : Cut} (cuts : cut.words = words) :
    ∃ preferred : Cut, preferred.IsPreferred words := by
  rcases cut_decides words with ⟨preferred, found, -⟩ | ⟨none, -⟩
  · exact ⟨preferred, found⟩
  · exact absurd cuts (none cut)

theorem of_words_eq_ok_iff {declarations : List Declaration} :
    ofWords words = .ok declarations ↔
      ∃ cut : Cut, cut.IsPreferred words ∧ cut.declarations = declarations := by
  rw [ofWords]
  rcases cut_decides words with ⟨cut, preferred, found⟩ | ⟨none, missing⟩
  · rw [found]
    constructor
    · intro read
      exact ⟨cut, preferred, Except.ok.inj read⟩
    · rintro ⟨other, preferred', rfl⟩
      rw [preferred'.unique preferred]
  · rw [missing]
    exact iff_of_false nofun fun ⟨cut, preferred, _⟩ => none cut preferred.cuts

theorem of_words_eq_error_iff {fault : DeclarationError} :
    ofWords words = .error fault ↔
      (∀ cut : Cut, cut.words ≠ words) ∧ fault = .notDeclaration words := by
  rw [ofWords]
  rcases cut_decides words with ⟨cut, preferred, found⟩ | ⟨none, missing⟩
  · rw [found]
    exact iff_of_false nofun fun ⟨apart, _⟩ => apart cut preferred.cuts
  · rw [missing, and_iff_right none, Except.error.injEq]
    exact eq_comm

end Search

section Source

variable {source : Source}

theorem of_source_eq (given : source.words = .ok words) : ofSource source = ofWords words := by
  rw [ofSource, given]

theorem words_of_items (words : List Word) :
    Source.words (.items (words.map .word)) = .ok words := by
  rw [Source.words, List.mapM_map]
  exact (List.mapM_pure (f := id)).trans (by rw [List.map_id]; rfl)

end Source

section InFull

def Cut.IsConnected : Cut → Prop
  | .last _ => True
  | .more _ connected rest => connected = true ∧ rest.IsConnected

theorem Cut.IsConnected.not_preferred {cut other : Cut} (all : cut.IsConnected) :
    ¬other.Prefers cut := by
  intro prefers
  induction prefers with
  | here w declared => exact absurd all.1 Bool.false_ne_true
  | later w connected behind ih => exact ih all.2

theorem of_words_of_connected {cut : Cut} (all : cut.IsConnected) :
    ofWords cut.words = .ok cut.declarations := by
  obtain ⟨found, preferred⟩ := exists_preferred (rfl : cut.words = cut.words)
  rcases preferred.others cut rfl with rfl | prefers
  · exact of_words_eq_ok_iff.mpr ⟨cut, preferred, rfl⟩
  · exact absurd prefers all.not_preferred

def connected (first : Wording) : List Wording → Cut
  | [] => .last first
  | next :: rest => .more first true (connected next rest)

theorem is_connected (first : Wording) (others : List Wording) :
    (connected first others).IsConnected := by
  induction others generalizing first with
  | nil => trivial
  | cons next rest ih => exact ⟨rfl, ih next⟩

theorem declarations_connected (first : Wording) (others : List Wording) :
    (connected first others).declarations = (first :: others).map Wording.declaration := by
  induction others generalizing first with
  | nil => rfl
  | cons next rest ih =>
      rw [connected, Cut.declarations, ih]
      rfl

theorem words_connected (first : Wording) (others : List Wording) :
    (connected first others).words =
      plain (Gloss.andJoined ((first :: others).map Wording.texts)) := by
  induction others generalizing first with
  | nil =>
      rw [List.map_singleton, and_joined_singleton]
      rfl
  | cons next rest ih =>
      rw [connected, Cut.words, ih, List.map_cons, List.map_cons, List.map_cons,
        and_joined_cons_cons, plain_append, plain_cons]
      rfl

def Wording.full (pair : Declaration × Article) : Wording := ⟨pair.1, true, some pair.2⟩

def inFull (pairs : List (Declaration × Article)) : List String :=
  Gloss.andJoined (pairs.map fun (declaration, article) =>
    [declaration.word, "is", article.text, declaration.category.keyword])

theorem words_connected_full (first : Declaration × Article)
    (others : List (Declaration × Article)) :
    (connected (.full first) (others.map .full)).words = plain (inFull (first :: others)) := by
  rw [words_connected, ← List.map_cons, List.map_map]
  rfl

end InFull

end Declaration

/-- Words are read as declarations exactly if they can be cut into some, and then by the cut that is
preferred to all others. -/
theorem declarations_exact {source : Source} {words : List Word}
    (given : source.words = .ok words) :
    ((∃ declarations, Declaration.ofSource source = .ok declarations) ↔
      ∃ cut : Declaration.Cut, cut.words = words) ∧
    (∀ (place : Nat) (w w' : Declaration.Wording),
      w.words <+: words.drop place → w'.words <+: words.drop place → w = w') ∧
    (∀ declarations, Declaration.ofSource source = .ok declarations ↔
      ∃ cut : Declaration.Cut, cut.IsPreferred words ∧ cut.declarations = declarations) ∧
    ∀ fault, Declaration.ofSource source = .error fault ↔
      (∀ cut : Declaration.Cut, cut.words ≠ words) ∧ fault = .notDeclaration words := by
  rw [Declaration.of_source_eq given]
  refine ⟨⟨?_, ?_⟩, ?_, fun _ => Declaration.of_words_eq_ok_iff,
    fun _ => Declaration.of_words_eq_error_iff⟩
  · rintro ⟨declarations, read⟩
    obtain ⟨cut, preferred, -⟩ := Declaration.of_words_eq_ok_iff.mp read
    exact ⟨cut, preferred.cuts⟩
  · rintro ⟨cut, cuts⟩
    obtain ⟨found, preferred⟩ := Declaration.exists_preferred cuts
    exact ⟨_, Declaration.of_words_eq_ok_iff.mpr ⟨found, preferred, rfl⟩⟩
  · rintro place w w' ⟨rest, here⟩ ⟨rest', here'⟩
    exact (Declaration.wording_unique (here.trans here'.symm)).1

theorem declarations_exact_connecting_and :
    let words := plain ["heron", "noun", "and", "is", "a", "noun"]
    let heron : Declaration.Wording := ⟨⟨"heron", .noun⟩, false, none⟩
    let other : Declaration.Cut := .more heron false (.last ⟨⟨"and", .noun⟩, true, some .a⟩)
    other.words = words ∧ ∃ cut : Declaration.Cut, cut.IsPreferred words ∧ cut.Prefers other ∧
      cut.declarations = [⟨"heron", .noun⟩, ⟨"is", .noun⟩] := by
  intro words heron other
  have given : Source.words (.text "heron noun and is a noun") = .ok words := by cbv
  have read : Declaration.ofSource (.text "heron noun and is a noun") =
      .ok [⟨"heron", .noun⟩, ⟨"is", .noun⟩] := by
    cbv
  obtain ⟨-, -, exactly, -⟩ := declarations_exact given
  obtain ⟨cut, preferred, declarations⟩ := (exactly _).mp read
  refine ⟨rfl, cut, preferred, ?_, declarations⟩
  rcases preferred.others other rfl with rfl | prefers
  · exact absurd declarations (by decide)
  · exact prefers

/-- Declarations in full are read back, whatever words they declare. -/
theorem declarations_in_full {pairs : List (Declaration × Declaration.Article)}
    (some : pairs ≠ []) :
    Declaration.ofSource (.items ((Declaration.inFull pairs).map fun text => .word (.plain text))) =
      .ok (pairs.map Prod.fst) := by
  obtain ⟨first, others, rfl⟩ := List.exists_cons_of_ne_nil some
  have items : (Declaration.inFull (first :: others)).map (fun text => Item.word (.plain text)) =
      (plain (Declaration.inFull (first :: others))).map .word := by
    rw [plain, List.map_map]
    rfl
  have read := Declaration.of_words_of_connected
    (Declaration.is_connected (.full first) (others.map .full))
  rw [Declaration.words_connected_full, Declaration.declarations_connected, ← List.map_cons,
    List.map_map] at read
  rw [items, Declaration.of_source_eq (Declaration.words_of_items _), read]
  rfl

theorem declarations_in_full_keywords :
    let pairs : List (Declaration × Declaration.Article) :=
      [(⟨"and", .noun⟩, .a), (⟨"is", .verb⟩, .an), (⟨"noun", .adverb⟩, .an), (⟨"and", .verb⟩, .a)]
    pairs ≠ [] ∧ Declaration.inFull pairs =
        ["and", "is", "a", "noun", "and", "is", "is", "an", "verb", "and", "noun", "is", "an",
          "adverb", "and", "and", "is", "a", "verb"] ∧
      Declaration.ofSource
          (.items ((Declaration.inFull pairs).map fun text => .word (.plain text))) =
        .ok [⟨"and", .noun⟩, ⟨"is", .verb⟩, ⟨"noun", .adverb⟩, ⟨"and", .verb⟩] := by
  intro pairs
  exact ⟨List.cons_ne_nil _ _, rfl, declarations_in_full (List.cons_ne_nil _ _)⟩

end ControlledEnglish
