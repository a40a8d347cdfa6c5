import Pictograph.Analysis.Expression
import Pictograph.Proofs.Analysis.Query
import Pictograph.Proofs.Catalogue.CommonTypes

/-!
# The element types of collection literals

A collection literal keeps only what the types of its parts have in common and forgets the types
themselves. To speak about them, the loop over the parts is run once more with a list in place of
the common type: the loop of the literal is that loop, followed by joining the list.

## Main definitions

* `Analysis.partTypes`: the types of the parts of a literal.
* `Analysis.listTypes`, `Analysis.dictionaryTypes`: the types of the elements of a list and of the
  values of a dictionary.

## Main results

* `Analysis.parts_eq_joined`: a literal joins the types of its parts.
* `Analysis.element_types_fit`: all elements of a literal fit its element type.
-/

namespace Pictograph

namespace Analysis

/-! ## The types of the parts -/

/-- The types of the parts of a literal up to its end, in their order. -/
def partTypes (part : Token → Analysis Ty) : Analysis (List Ty) :=
  repeatUntil (fun types ↦ do
    let token ← next
    if token.asksFor .collectionEnd then
      return .inr types
    return .inl (types ++ [← part token])) []

/-- The types of the parts of a literal, from its opcode on. -/
def elementTypes (opcode : Opcode) (part : Token → Analysis Ty) : Analysis (List Ty) := do
  emit opcode
  let _ ← reserveCount
  partTypes part

/-- The types of the elements of a list. -/
def listTypes (Γ : Setting) (rec : Recursion) : Analysis (List Ty) :=
  elementTypes .list (rec Γ · none)

/-- The types of the values of a dictionary. -/
def dictionaryTypes (Γ : Setting) (rec : Recursion) : Analysis (List Ty) :=
  elementTypes .dictionary fun key ↦ do
    let _ ← fitting Γ rec key .string
    operand Γ rec

variable {Γ : Setting} {s s' : State} {t : Ty}

/-- **A literal joins the types of its parts.** -/
theorem parts_eq_joined (Γ : Setting) (part : Token → Analysis Ty) :
    parts Γ part = Γ.catalogue.joined <$> partTypes part := by
  refine repeatUntil_map (f := Γ.catalogue.joined) (fun types ↦ ?_) []
  rw [map_bind]
  congr 1
  funext token
  split
  · rfl
  · rw [map_bind]
    congr 1
    funext t
    rw [map_pure, Sum.map_inl, Catalogue.joined_append_singleton]

/-- An accepted literal has the class it is a literal of, and types of values among its elements all
fit its generic argument. -/
theorem collection_ok {opcode : Opcode} {id : TypeId} {part : Token → Analysis Ty}
    {hint : Option Ty} {span : Span} (hcat : Γ.catalogue.Reachable)
    (h : collection Γ opcode id part hint span s = .ok t s') :
    ∃ types s₁, elementTypes opcode part s = .ok types s₁
      ∧ (types ≠ [] → (∀ e ∈ types, Γ.catalogue.Complete e) →
        ∃ u, t = .objectOf id [u] ∧ ∀ e ∈ types, Γ.catalogue.fits e u) := by
  obtain ⟨_, s₁, hemit, h⟩ := bind_ok h
  obtain ⟨count, s₂, hreserve, h⟩ := bind_ok h
  obtain ⟨common?, s₃, hparts, h⟩ := bind_ok h
  obtain ⟨_, s₄, -, h⟩ := bind_ok h
  rw [parts_eq_joined] at hparts
  obtain ⟨types, htypes, rfl⟩ := map_ok hparts
  refine ⟨types, s₃, ?_, fun hne hcomplete ↦ ?_⟩
  · rw [elementTypes, bind_of_ok hemit, bind_of_ok hreserve]
    exact htypes
  · obtain ⟨u, hu, hfits⟩ := hcat.exists_joined hne hcomplete
    simp only [hu, pure_bind] at h
    exact ⟨u, (pure_ok h).1.symm, hfits⟩

/-- **Collection literals infer an upper bound.** Whatever the number and the order of the elements
of a list or of the values of a dictionary, if there are any and their types have registered classes
and callables with return types, then the literal is a list or a dictionary of one type that each
of their types fits. -/
theorem element_types_fit (hcat : Γ.catalogue.Reachable) (rec : Recursion) (hint : Option Ty)
    (span : Span) (s : State) :
    (∀ t s', list Γ rec hint span s = .ok t s' →
      ∃ types s₁, listTypes Γ rec s = .ok types s₁
        ∧ (types ≠ [] → (∀ e ∈ types, Γ.catalogue.Complete e) →
          ∃ u, t = .objectOf TypeId.list [u] ∧ ∀ e ∈ types, Γ.catalogue.fits e u))
    ∧ ∀ t s', dictionary Γ rec hint span s = .ok t s' →
      ∃ types s₁, dictionaryTypes Γ rec s = .ok types s₁
        ∧ (types ≠ [] → (∀ e ∈ types, Γ.catalogue.Complete e) →
          ∃ u, t = .objectOf TypeId.dictionary [u] ∧ ∀ e ∈ types, Γ.catalogue.fits e u) :=
  ⟨fun _ _ ↦ collection_ok hcat, fun _ _ ↦ collection_ok hcat⟩

end Analysis

namespace Sample

/-- The setting of a class method with the standard types. -/
def standardSetting : Setting where
  catalogue := .standard
  options := {}
  selfType := .nothingness
  space := Vocabulary.defaultNamespace
  isStatic := true

/-- The state in front of tokens, with nothing done so far. -/
def inFrontOf (tokens : List Token) : State where
  cursor := .start tokens
  assembler := .start
  session := .start
  environment := .start none
  frame := {}

/-- The elements of a list, `1 ⚡ 2 🍆`. -/
def numbers : List Token :=
  [.mk (.integer 1) .nowhere, .mk (.identifier Construct.nothingness.spelling) .nowhere,
    .mk (.integer 2) .nowhere, .mk (.identifier Construct.collectionEnd.spelling) .nowhere]

/-- The keys and values of a dictionary, `"a" 1 "b" "c" 🍆`. -/
def pairs : List Token :=
  [.mk (.string "a") .nowhere, .mk (.integer 1) .nowhere, .mk (.string "b") .nowhere,
    .mk (.string "c") .nowhere, .mk (.identifier Construct.collectionEnd.spelling) .nowhere]

end Sample

/-- Integers and nothingness fit the type of a list of optional integers, and an integer and a
string have only in common that they are something. -/
theorem element_types_fit_sample :
    Catalogue.standard.Reachable
    ∧ (∃ u s', Analysis.list Sample.standardSetting (Analysis.expression 1) none .nowhere
        (Sample.inFrontOf Sample.numbers) = .ok (.objectOf TypeId.list [u]) s'
      ∧ Catalogue.standard.fits .integer u ∧ Catalogue.standard.fits .nothingness u)
    ∧ ∃ u s', Analysis.dictionary Sample.standardSetting (Analysis.expression 1) none .nowhere
        (Sample.inFrontOf Sample.pairs) = .ok (.objectOf TypeId.dictionary [u]) s'
      ∧ Catalogue.standard.fits .integer u ∧ Catalogue.standard.fits .string u := by
  have hstring : (Sample.standardSetting.catalogue.class? TypeId.string).isSome := by
    decide +kernel
  refine ⟨.standard, ?_, ?_⟩
  · obtain ⟨hlist, -⟩ := Analysis.element_types_fit (Γ := Sample.standardSetting) .standard
      (Analysis.expression 1) none .nowhere (Sample.inFrontOf Sample.numbers)
    have hrun := Analysis.eq_ok_of_value? (a := Ty.objectOf TypeId.list [Ty.integer.optional])
      (r := Analysis.list Sample.standardSetting (Analysis.expression 1) none .nowhere
        (Sample.inFrontOf Sample.numbers)) (by decide +kernel)
    obtain ⟨types, s₁, htypes, hfits⟩ := hlist _ _ hrun
    have hvalue : Analysis.value? (Analysis.listTypes Sample.standardSetting
        (Analysis.expression 1) (Sample.inFrontOf Sample.numbers))
        = some [.integer, .nothingness, .integer] := by decide +kernel
    rw [htypes] at hvalue
    cases hvalue
    obtain ⟨u, hu, hall⟩ := hfits (List.cons_ne_nil _ _)
      (by simp [Ty.integer, Ty.nothingness, Ty.plain, Catalogue.Complete])
    exact ⟨u, _, hu ▸ hrun, hall _ (by simp), hall _ (by simp)⟩
  · obtain ⟨-, hdictionary⟩ := Analysis.element_types_fit (Γ := Sample.standardSetting) .standard
      (Analysis.expression 1) none .nowhere (Sample.inFrontOf Sample.pairs)
    have hrun := Analysis.eq_ok_of_value? (a := Ty.objectOf TypeId.dictionary [Ty.anything])
      (r := Analysis.dictionary Sample.standardSetting (Analysis.expression 1) none .nowhere
        (Sample.inFrontOf Sample.pairs)) (by decide +kernel)
    obtain ⟨types, s₁, htypes, hfits⟩ := hdictionary _ _ hrun
    have hvalue : Analysis.value? (Analysis.dictionaryTypes Sample.standardSetting
        (Analysis.expression 1) (Sample.inFrontOf Sample.pairs))
        = some [.integer, .string] := by decide +kernel
    rw [htypes] at hvalue
    cases hvalue
    obtain ⟨u, hu, hall⟩ := hfits (List.cons_ne_nil _ _)
      (by simp [Ty.integer, Ty.string, Ty.object, Ty.plain, Catalogue.Complete, hstring])
    exact ⟨u, _, hu ▸ hrun, hall _ (by simp), hall _ (by simp)⟩

end Pictograph
