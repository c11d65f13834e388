import ControlledEnglish.Source
import ControlledEnglish.Text.Quoted

/-! Declarations: sentences that teach words, as in "zorbs is a verb and zorby is an adjective".

A declaration is a word, "is" or not, "a" or "an" or neither, and the name of a category. Several
may follow each other, with "and" between them or not. Any word may be declared, also "and". -/

namespace ControlledEnglish

structure Declaration where
  word : String
  category : Category
  deriving DecidableEq, Repr

inductive DeclarationError where
  | source (fault : SourceError)
  | notDeclaration (words : List Word)
  deriving DecidableEq, Repr

def Literal.shown (literal : Literal) : String :=
  "Literal(category=<Category." ++ literal.category.keyword.toUpper ++ ": " ++
    Text.quoted literal.category.tag ++ ">, text=" ++ Text.quoted literal.text ++ ")"

def Word.shown : Word → String
  | .plain text => text
  | .literal word => word.shown

def DeclarationError.message : DeclarationError → String
  | source fault => fault.message
  | notDeclaration words => "Not a vocabulary declaration: " ++ spaced (words.map Word.shown)

namespace Declaration

/-- Without one of the options, if the words start with one, and as they are. -/
def optional (options : List String) : List Word → List (List Word)
  | [] => [[]]
  | word :: rest => if word.isPlain options then [rest, word :: rest] else [word :: rest]

theorem length_optional_le {options : List String} {words rest : List Word}
    (h : rest ∈ optional options words) : rest.length ≤ words.length := by
  cases words with
  | nil => simp_all [optional]
  | cons word words =>
      rw [optional] at h
      split at h <;> simp at h
      · rcases h with rfl | rfl <;> simp
      · simp [h]

def named (word : String) : List Word → List (Declaration × List Word)
  | .plain name :: rest =>
      match Category.ofKeyword? name with
      | some category => [(⟨word, category⟩, rest)]
      | none => []
  | _ => []

/-- The declarations that the words can start with, and the words behind each. -/
def starts : List Word → List (Declaration × List Word)
  | .plain word :: rest =>
      (optional ["is"] rest).flatMap fun rest =>
        (optional ["a", "an"] rest).flatMap (named word)
  | _ => []

theorem length_of_mem_named {word : String} {words : List Word} {found : Declaration × List Word}
    (h : found ∈ named word words) : found.2.length < words.length := by
  unfold named at h
  split at h
  · split at h <;> simp_all
  · simp at h

theorem length_of_mem_starts {words : List Word} {found : Declaration × List Word}
    (h : found ∈ starts words) : found.2.length < words.length := by
  unfold starts at h
  split at h
  · simp only [List.mem_flatMap] at h
    obtain ⟨afterIs, isOptional, afterArticle, articleOptional, member⟩ := h
    have first := length_optional_le isOptional
    have second := length_optional_le articleOptional
    have third := length_of_mem_named member
    simp only [List.length_cons]
    omega
  · simp at h

/-- The first way to cut all words into declarations. A connecting "and" is tried before a declared
one. -/
def cut? (words : List Word) : Option (List Declaration) :=
  (starts words).attach.findSome? fun ⟨(first, rest), _⟩ =>
    if rest = [] then some [first]
    else (optional ["and"] rest).attach.findSome? fun ⟨others, _⟩ => (cut? others).map (first :: ·)
termination_by words.length
decreasing_by
  next member _ connected =>
    have shorter := length_of_mem_starts member
    have noLonger := length_optional_le connected
    simp only at shorter noLonger
    omega

def ofWords (words : List Word) : Except DeclarationError (List Declaration) :=
  match cut? words with
  | some declarations => .ok declarations
  | none => .error (.notDeclaration words)

def ofSource (source : Source) : Except DeclarationError (List Declaration) :=
  match source.words with
  | .ok words => ofWords words
  | .error fault => .error (.source fault)

end Declaration

end ControlledEnglish
