import Mathlib.Data.List.Basic
import Pictograph.Ty.Substitution

/-!
# Generic parameters and their substitution

A generic parameter is a number, and reading a type on a receiver puts the generic argument of that
number in its place. Two things are to be known about this. One is where the parameters of the
result come from: from the arguments of the receiver, unless the receiver has too few of them. The
other is what happens when the receiver itself mentions parameters of a further receiver, as with a
field whose type is a list of the elements of the surrounding class. Then a type can be read in two
stages, or at once on the receiver as it reads on the further one.

The two ways agree where the first stage leaves no parameter as it is, because a parameter without
an argument would be taken for one of the further receiver in the second stage. A receiver that is a
parameter itself is left out as well: reading it on the further receiver gives an argument with
generic arguments of its own.

All that happens at a parameter is that two optional marks are joined, the mark of the mention and
the mark of the argument. Reading an argument commutes with this
(`resolve_withOptional_or`), and everything else is one induction on the type.

## Main definitions

* `Ty.Mentions`: a generic parameter occurs in a type.

## Main results

* `Ty.of_mentions_resolve`: where the parameters of a type on a receiver come from.
* `Ty.resolve_resolve`: reading in stages is reading at once.
-/

namespace Pictograph.Ty

/-! ## Occurrences -/

mutual

/-- The generic parameter `i` occurs in a type. -/
def Mentions (i : Nat) : Ty → Prop
  | ⟨kind, _, ts⟩ => kind = .parameter i ∨ MentionsAny i ts

/-- The generic parameter `i` occurs in one of some types. -/
def MentionsAny (i : Nat) : List Ty → Prop
  | [] => False
  | t :: ts => Mentions i t ∨ MentionsAny i ts

end

variable {i : Nat} {t u v : Ty} {ts : List Ty}

theorem mentionsAny_iff : MentionsAny i ts ↔ ∃ t ∈ ts, t.Mentions i := by
  induction ts with
  | nil => simp [MentionsAny]
  | cons t ts ih => rw [MentionsAny, ih, List.exists_mem_cons_iff]

theorem mentions_withOptional {isOptional : Bool} :
    (t.withOptional isOptional).Mentions i ↔ t.Mentions i := by
  obtain ⟨kind, o, ts⟩ := t
  rw [withOptional, Mentions, Mentions]

/-! ## Where parameters come from -/

/-- Types other than parameters are read part by part. -/
theorem resolve_of_ne_parameter {on : Ty} {kind : Kind} {isOptional : Bool}
    (h : ∀ index, kind ≠ .parameter index) :
    resolve on ⟨kind, isOptional, ts⟩ = ⟨kind, isOptional, resolveAll on ts⟩ := by
  cases kind with
  | parameter index => exact absurd rfl (h index)
  | _ => rw [resolve]; rintro _ ⟨⟩

mutual

/-- **Where parameters come from.** A parameter that occurs in a type as it reads on a receiver
occurs in an argument of the receiver, or the type mentions it, and with it a parameter that the
receiver has no argument for. -/
theorem of_mentions_resolve (on : Ty) (i : Nat) : (t : Ty) → (resolve on t).Mentions i →
    (∃ a ∈ on.arguments, a.Mentions i)
      ∨ t.Mentions i ∧ ∃ j, t.Mentions j ∧ on.arguments.length ≤ j
  | ⟨kind, o, ts⟩, h => by
    by_cases hkind : ∃ index, kind = .parameter index
    · obtain ⟨index, rfl⟩ := hkind
      rw [resolve] at h
      cases hargument : on.arguments[index]? with
      | some argument =>
        rw [hargument] at h
        exact .inl ⟨argument, List.mem_of_getElem? hargument, mentions_withOptional.mp h⟩
      | none =>
        rw [hargument] at h
        refine .inr ⟨h, index, ?_, List.getElem?_eq_none_iff.mp hargument⟩
        rw [Mentions]
        exact .inl rfl
    · rw [resolve_of_ne_parameter fun index hindex ↦ hkind ⟨index, hindex⟩, Mentions] at h
      obtain rfl | h := h
      · exact absurd ⟨i, rfl⟩ hkind
      · simp only [Mentions]
        obtain hargument | ⟨hi, j, hj, hlength⟩ := of_mentionsAny_resolveAll on i ts h
        · exact .inl hargument
        · exact .inr ⟨.inr hi, j, .inr hj, hlength⟩

theorem of_mentionsAny_resolveAll (on : Ty) (i : Nat) : (ts : List Ty) →
    MentionsAny i (resolveAll on ts) →
    (∃ a ∈ on.arguments, a.Mentions i)
      ∨ MentionsAny i ts ∧ ∃ j, MentionsAny j ts ∧ on.arguments.length ≤ j
  | [], h => by
    rw [resolveAll, MentionsAny] at h
    exact absurd h id
  | t :: ts, h => by
    rw [resolveAll, MentionsAny] at h
    simp only [MentionsAny]
    obtain h | h := h
    · obtain hargument | ⟨hi, j, hj, hlength⟩ := of_mentions_resolve on i t h
      · exact .inl hargument
      · exact .inr ⟨.inl hi, j, .inl hj, hlength⟩
    · obtain hargument | ⟨hi, j, hj, hlength⟩ := of_mentionsAny_resolveAll on i ts h
      · exact .inl hargument
      · exact .inr ⟨.inr hi, j, .inr hj, hlength⟩

end

/-! ## Reading in stages -/

/-- A parameter with an argument reads as the argument, optional if one of them is. -/
theorem resolve_parameter {on a : Ty} {isOptional : Bool} (h : on.arguments[i]? = some a) :
    resolve on ⟨.parameter i, isOptional, ts⟩ = a.withOptional (isOptional || a.isOptional) := by
  rw [resolve, h]

/-- A parameter without an argument stays as it is. -/
theorem resolve_parameter_of_none {on : Ty} {isOptional : Bool} (h : on.arguments[i]? = none) :
    resolve on ⟨.parameter i, isOptional, ts⟩ = ⟨.parameter i, isOptional, ts⟩ := by
  rw [resolve, h]

/-- The arguments of a receiver are read one by one, unless the receiver is a parameter. -/
theorem arguments_resolve (hu : ∀ i, u.kind ≠ .parameter i) :
    (resolve v u).arguments = u.arguments.map (resolve v) := by
  obtain ⟨kind, o, us⟩ := u
  rw [resolve_of_ne_parameter hu, resolveAll_eq_map]

/-- Joining a mark to the mark of a type commutes with reading the type: the mark of the argument
that takes the place of a parameter comes third, whatever the order of the other two steps. -/
theorem resolve_withOptional_or (on t : Ty) (mark : Bool) :
    resolve on (t.withOptional (mark || t.isOptional)) =
      (resolve on t).withOptional (mark || (resolve on t).isOptional) := by
  obtain ⟨kind, o, ts⟩ := t
  simp only [withOptional]
  by_cases hkind : ∃ index, kind = .parameter index
  · obtain ⟨index, rfl⟩ := hkind
    cases hargument : on.arguments[index]? with
    | some a => simp only [resolve_parameter hargument, withOptional, Bool.or_assoc]
    | none => simp only [resolve_parameter_of_none hargument]
  · simp only [resolve_of_ne_parameter fun index hindex ↦ hkind ⟨index, hindex⟩]

/-- **Reading in stages.** Where a receiver `u` is no parameter itself and has an argument for each
parameter that a type mentions, reading the type on `u` and the result on `v` gives the same as
reading it at once on `u` as that reads on `v`. All optional marks agree, at every depth. -/
theorem resolve_resolve {u v : Ty} (hu : ∀ i, u.kind ≠ .parameter i) : {t : Ty} →
    (∀ i, t.Mentions i → i < u.arguments.length) →
    resolve v (resolve u t) = resolve (resolve v u) t
  | ⟨kind, o, ts⟩, ht => by
    by_cases hkind : ∃ index, kind = .parameter index
    · obtain ⟨index, rfl⟩ := hkind
      have hlength : index < u.arguments.length := ht index (by rw [Mentions]; exact .inl rfl)
      have hargument := List.getElem?_eq_getElem hlength
      have hread : (resolve v u).arguments[index]? = some (resolve v u.arguments[index]) := by
        rw [arguments_resolve hu, List.getElem?_map, hargument, Option.map_some]
      rw [resolve_parameter hargument, resolve_parameter hread, resolve_withOptional_or]
    · have hkind index (hindex : kind = .parameter index) : False := hkind ⟨index, hindex⟩
      have hts : (ts.map (resolve u)).map (resolve v) = ts.map (resolve (resolve v u)) := by
        rw [List.map_map]
        refine List.map_congr_left fun t hmem ↦ resolve_resolve hu fun i hi ↦ ht i ?_
        rw [Mentions, mentionsAny_iff]
        exact .inr ⟨t, hmem, hi⟩
      simp only [resolve_of_ne_parameter hkind, resolveAll_eq_map, hts]
termination_by t => t

/-- A callable that takes the second parameter and returns a list of the first, on a receiver with
an optional parameter and a callable for its arguments. -/
theorem resolve_resolve_callable :
    let t : Ty := .callable (.objectOf .list [.parameter 0]) [(Ty.parameter 1).optional]
    let u : Ty := .objectOf .dictionary
      [(Ty.parameter 1).optional, .callable (.parameter 2) [.parameter 0]]
    let v : Ty := .objectOf .dictionary [.integer, .symbol]
    resolve v (resolve u t) = resolve (resolve v u) t
      ∧ resolve v (resolve u t) = .callable (.objectOf .list [Ty.symbol.optional])
        [(Ty.callable (.parameter 2) [.integer]).optional] := by
  intro t u v
  refine ⟨resolve_resolve (by rintro i ⟨⟩) fun i hi ↦ ?_, by decide⟩
  have hi : 0 = i ∨ 1 = i := by
    simpa [t, callable, objectOf, parameter, plain, optional, withOptional, Mentions, MentionsAny]
      using hi
  change i < 2
  omega

/-- A parameter that the first receiver leaves as it is would be taken for one of the second. -/
example : resolve (.objectOf .list [.integer]) (resolve .boolean (.parameter 0)) = .integer
    ∧ resolve (resolve (.objectOf .list [.integer]) .boolean) (.parameter 0) = .parameter 0 := by
  decide

end Pictograph.Ty
