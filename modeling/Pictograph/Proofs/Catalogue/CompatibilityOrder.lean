import Pictograph.Catalogue.Compatibility
import Pictograph.Proofs.Catalogue.Reachable

/-!
# Compatibility is an order

Compatibility is reflexive on the types of values, transitive on all types, and types that fit each
other are alike: they differ in nothing that compatibility looks at. It does not look at the
optional mark of `anything` and of `nothingness`, and not at generic arguments on kinds that have no
use for them.

The relation is computed along one of two types with a flag for the side that this type stands on,
so that the recursion is structural although the arguments of callables swap the sides. The flag is
removed first: turning it is swapping the types. What is left is the relation by its rules, and all
proofs are by cases on the rules. For transitivity the induction is on the type in the middle, which
stays in the middle when the arguments of callables swap the sides.

## Main definitions

* `Catalogue.Follows`: the rules by which one type fits another.
* `Catalogue.Complete`: when the classes of a type are registered and its callables return
  something.
* `Ty.Alike`: when two types differ in nothing that counts.

## Main results

* `Catalogue.fits_iff`: one type fits another just if it does so by the rules.
* `Catalogue.Reachable.compatibility_order`: compatibility is an order up to what does not count.
-/

namespace Pictograph

namespace Catalogue

/-! ## The flag -/

mutual

/-- The flag says on which side a type stands. -/
theorem fitsTurned_swap (cat : Catalogue) (turned : Bool) :
    (t u : Ty) → fitsTurned cat turned t u = fitsTurned cat (!turned) u t
  | ⟨_, _, ts⟩, ⟨_, _, us⟩ => by
    rw [fitsTurned, fitsTurned, signatureFits_swap cat turned ts us]
    cases turned <;> rfl

theorem signatureFits_swap (cat : Catalogue) (turned : Bool) :
    (ts us : List Ty) → signatureFits cat turned ts us = signatureFits cat (!turned) us ts
  | [], [] | [], _ :: _ | _ :: _, [] => by simp only [signatureFits]
  | t :: ts, u :: us => by
    rw [signatureFits, signatureFits, fitsTurned_swap cat turned t u,
      allFit_swap cat (!turned) ts us]

theorem allFit_swap (cat : Catalogue) (turned : Bool) :
    (ts us : List Ty) → allFit cat turned ts us = allFit cat (!turned) us ts
  | [], [] | [], _ :: _ | _ :: _, [] => by simp only [allFit]
  | t :: ts, u :: us => by
    rw [allFit, allFit, fitsTurned_swap cat turned t u, allFit_swap cat turned ts us]

end

/-! ## The rules -/

/-- How the signatures of two callables fit: the return types the same way round, the argument types
the other way round. -/
inductive SignatureFits (cat : Catalogue) : List Ty → List Ty → Prop
  | intro {result result' : Ty} {arguments arguments' : List Ty} (hresult : cat.fits result result')
      (harguments : List.Forall₂ (fun t u ↦ cat.fits u t) arguments arguments') :
      SignatureFits cat (result :: arguments) (result' :: arguments')

/-- How the kinds of two types fit. -/
inductive FitsByKind (cat : Catalogue) (t u : Ty) : Prop
  /-- A class fits its ancestors. -/
  | inherits {a b : TypeId} (ht : t.kind = .object a) (hu : u.kind = .object b)
      (hdescends : cat.descends a b) (harguments : u.arguments = [] ∨ t.arguments = u.arguments)
  /-- Every class fits `anyObject`. -/
  | isInstance {a : TypeId} (ht : t.kind = .object a) (hu : u.kind = .anyObject)
  /-- A class fits the protocols it conforms to. -/
  | conforms {a p : TypeId} (ht : t.kind = .object a) (hu : u.kind = .protocol p)
      (hconforms : cat.conforms a p)
  /-- A callable fits by its signature. -/
  | callable (ht : t.kind = .callable) (hu : u.kind = .callable)
      (hsignature : cat.SignatureFits t.arguments u.arguments)
  /-- Any other type fits the types of its kind. -/
  | same (hkind : t.kind = u.kind) (hobject : ∀ a, t.kind ≠ .object a)
      (hcallable : t.kind ≠ .callable)

/-- The rules by which one type fits another. -/
inductive Follows (cat : Catalogue) (t u : Ty) : Prop
  /-- Everything fits `anything`. -/
  | anything (hu : u.kind = .anything)
  /-- Nothingness fits nothingness and every optional type. -/
  | nothingness (ht : t.kind = .nothingness) (hu : u.kind = .nothingness ∨ u.isOptional)
  /-- Other types fit by their kinds, and an optional type no type that is not optional. -/
  | byKind (ht : t.kind ≠ .nothingness) (hoptional : t.isOptional → u.isOptional)
      (hkind : cat.FitsByKind t u)

section

variable {cat : Catalogue} {t u : Ty}

theorem allFit_true_iff {ts us : List Ty} :
    allFit cat true ts us ↔ List.Forall₂ (fun t u ↦ cat.fits u t) ts us := by
  induction ts generalizing us with
  | nil => cases us <;> simp [allFit]
  | cons t ts ih =>
    cases us with
    | nil => simp [allFit]
    | cons u us =>
      rw [allFit, Bool.and_eq_true, ih, List.forall₂_cons, fitsTurned_swap, Bool.not_true, fits]

theorem signatureFits_iff {ts us : List Ty} :
    signatureFits cat false ts us ↔ cat.SignatureFits ts us := by
  constructor
  · intro h
    match ts, us with
    | t :: ts, u :: us =>
      rw [signatureFits, Bool.and_eq_true, Bool.not_false, allFit_true_iff] at h
      exact .intro h.1 h.2
  · rintro ⟨hresult, harguments⟩
    rw [signatureFits, Bool.and_eq_true, Bool.not_false, allFit_true_iff]
    exact ⟨hresult, harguments⟩

theorem fitsKind_iff {callables : Bool}
    (h : callables = true ↔ cat.SignatureFits t.arguments u.arguments) :
    cat.fitsKind t u callables ↔ cat.FitsByKind t u := by
  constructor
  · intro hfits
    rw [fitsKind] at hfits
    split at hfits
    · next ht hu =>
      rw [Bool.and_eq_true, Bool.or_eq_true, List.isEmpty_iff, beq_iff_eq] at hfits
      exact .inherits ht hu hfits.1 hfits.2
    · next ht hu => exact .isInstance ht hu
    · next ht hu => exact .conforms ht hu hfits
    · next ht hu => exact .callable ht hu (h.mp hfits)
    · next hobject _ _ hcallable =>
      have hkind : t.kind = u.kind := beq_iff_eq.mp hfits
      exact .same hkind (fun a ht ↦ hobject a a ht (hkind ▸ ht))
        (fun ht ↦ hcallable ht (hkind ▸ ht))
  · rintro (⟨ht, hu, hdescends, harguments⟩ | ⟨ht, hu⟩ | ⟨ht, hu, hconforms⟩ | ⟨ht, hu, hsig⟩ |
      ⟨hkind, hobject, hcallable⟩)
    · have hsame : (u.arguments.isEmpty || t.arguments == u.arguments) = true := by
        rwa [Bool.or_eq_true, List.isEmpty_iff, beq_iff_eq]
      simp only [fitsKind, ht, hu, hdescends, hsame, Bool.and_self]
    · simp only [fitsKind, ht, hu]
    · simp only [fitsKind, ht, hu, hconforms]
    · simp only [fitsKind, ht, hu, h.mpr hsig]
    · rw [fitsKind]
      split
      · next ht _ => exact absurd ht (hobject _)
      · rfl
      · next ht _ => exact absurd ht (hobject _)
      · next ht _ => exact absurd ht hcallable
      · exact beq_iff_eq.mpr hkind

/-- **The rules.** One type fits another just if it does so by the rules. -/
theorem fits_iff : cat.fits t u ↔ cat.Follows t u := by
  have hgiven : cat.fits t u
      = cat.fitsGiven t u (signatureFits cat false t.arguments u.arguments) := by
    obtain ⟨kind, isOptional, arguments⟩ := t
    rw [fits, fitsTurned, if_neg Bool.false_ne_true]
  have hkind : cat.fitsKind t u (signatureFits cat false t.arguments u.arguments)
      ↔ cat.FitsByKind t u := fitsKind_iff signatureFits_iff
  rw [hgiven, fitsGiven]
  split
  · next hu => exact ⟨fun _ ↦ .anything hu, fun _ ↦ rfl⟩
  · next hu =>
    split
    · next ht =>
      rw [Ty.isNothingness, beq_iff_eq] at ht
      rw [Bool.or_eq_true, Ty.isNothingness, beq_iff_eq]
      constructor
      · exact .nothingness ht
      · rintro (h | ⟨-, h⟩ | ⟨h, -, -⟩)
        · exact absurd h hu
        · exact h
        · exact absurd ht h
    · next ht =>
      rw [Ty.isNothingness, beq_iff_eq] at ht
      split
      · next hmark =>
        rw [Bool.and_eq_true, Bool.not_eq_true'] at hmark
        constructor
        · exact fun h ↦ absurd h Bool.false_ne_true
        · rintro (h | ⟨h, -⟩ | ⟨-, h, -⟩)
          · exact absurd h hu
          · exact absurd h ht
          · exact absurd (h hmark.1) (by rw [hmark.2]; exact Bool.false_ne_true)
      · next hmark =>
        rw [hkind]
        constructor
        · intro h
          refine .byKind ht (fun hopt ↦ ?_) h
          rw [Bool.and_eq_true, Bool.not_eq_true', not_and, Bool.not_eq_false] at hmark
          exact hmark hopt
        · rintro (h | ⟨h, -⟩ | ⟨-, -, h⟩)
          · exact absurd h hu
          · exact absurd h ht
          · exact h

end

/-! ## Transitivity -/

section

variable {cat : Catalogue} {t u v : Ty}

theorem FitsByKind.kind_eq (huv : cat.FitsByKind u v) (hobject : ∀ a, u.kind ≠ .object a)
    (hcallable : u.kind ≠ .callable) : u.kind = v.kind := by
  obtain ⟨hu, _⟩ | ⟨hu, _⟩ | ⟨hu, _⟩ | ⟨hu, _⟩ | ⟨hkind, _, _⟩ := huv
  · exact absurd hu (hobject _)
  · exact absurd hu (hobject _)
  · exact absurd hu (hobject _)
  · exact absurd hu hcallable
  · exact hkind

theorem FitsByKind.signature (huv : cat.FitsByKind u v) (hu : u.kind = .callable) :
    v.kind = .callable ∧ cat.SignatureFits u.arguments v.arguments := by
  obtain ⟨hu', _⟩ | ⟨hu', _⟩ | ⟨hu', _⟩ | ⟨_, hv, hsignature⟩ | ⟨_, _, hcallable⟩ := huv
  · exact nomatch hu.symm.trans hu'
  · exact nomatch hu.symm.trans hu'
  · exact nomatch hu.symm.trans hu'
  · exact ⟨hv, hsignature⟩
  · exact absurd hu hcallable

theorem FitsByKind.ne_nothingness (htu : cat.FitsByKind t u) (ht : t.kind ≠ .nothingness) :
    u.kind ≠ .nothingness := by
  intro hu
  obtain ⟨_, hu', _⟩ | ⟨_, hu'⟩ | ⟨_, hu', _⟩ | ⟨_, hu', _⟩ | ⟨hkind, _, _⟩ := htu
  · exact nomatch hu.symm.trans hu'
  · exact nomatch hu.symm.trans hu'
  · exact nomatch hu.symm.trans hu'
  · exact nomatch hu.symm.trans hu'
  · exact ht (hkind.trans hu)

/-- What fits a class fits all that the class fits. -/
theorem FitsByKind.of_object {a b : TypeId} (h : cat.Reachable) (ht : t.kind = .object a)
    (hu : u.kind = .object b) (hdescends : cat.descends a b)
    (harguments : u.arguments = [] ∨ t.arguments = u.arguments) (huv : cat.FitsByKind u v) :
    cat.FitsByKind t v := by
  obtain ⟨hu', hv, hdescends', harguments'⟩ | ⟨_, hv⟩ | ⟨hu', hv, hconforms⟩ | ⟨hu', _, _⟩ |
    ⟨_, hobject, _⟩ := huv
  · cases hu.symm.trans hu'
    refine .inherits ht hv (h.descends_trans hdescends hdescends') ?_
    obtain hv | heq := harguments'
    · exact .inl hv
    · rw [← heq]
      exact harguments
  · exact .isInstance ht hv
  · cases hu.symm.trans hu'
    exact .conforms ht hv (h.conforms_of_descends hdescends hconforms)
  · cases hu.symm.trans hu'
  · exact absurd hu (hobject b)

/-- Kinds fit transitively if the signatures of callables do. -/
theorem FitsByKind.trans (h : cat.Reachable) (htu : cat.FitsByKind t u) (huv : cat.FitsByKind u v)
    (hsignatures : cat.SignatureFits t.arguments u.arguments →
      cat.SignatureFits u.arguments v.arguments → cat.SignatureFits t.arguments v.arguments) :
    cat.FitsByKind t v := by
  obtain ⟨ht, hu, hdescends, harguments⟩ | ⟨ht, hu⟩ | ⟨ht, hu, hconforms⟩ | ⟨ht, hu, hsignature⟩ |
    ⟨hkind, hobject, hcallable⟩ := htu
  · exact .of_object h ht hu hdescends harguments huv
  · have hv := huv.kind_eq (by simp [hu]) (by simp [hu])
    exact .isInstance ht (hv ▸ hu)
  · have hv := huv.kind_eq (by simp [hu]) (by simp [hu])
    exact .conforms ht (hv ▸ hu) hconforms
  · obtain ⟨hv, hsignature'⟩ := huv.signature hu
    exact .callable ht hv (hsignatures hsignature hsignature')
  · have hv := huv.kind_eq (hkind ▸ hobject) (hkind ▸ hcallable)
    exact .same (hkind.trans hv) hobject hcallable

theorem Follows.trans (h : cat.Reachable) (htu : cat.Follows t u) (huv : cat.Follows u v)
    (hsignatures : cat.SignatureFits t.arguments u.arguments →
      cat.SignatureFits u.arguments v.arguments → cat.SignatureFits t.arguments v.arguments) :
    cat.Follows t v := by
  obtain hv | ⟨hu, hv⟩ | ⟨hu, hoptional', hkind'⟩ := huv
  · exact .anything hv
  · obtain hu' | ⟨ht, _⟩ | ⟨ht, _, hkind⟩ := htu
    · cases hu.symm.trans hu'
    · exact .nothingness ht hv
    · exact absurd hu (hkind.ne_nothingness ht)
  · obtain hu' | ⟨ht, hu'⟩ | ⟨ht, hoptional, hkind⟩ := htu
    · have hv := hkind'.kind_eq (by simp [hu']) (by simp [hu'])
      exact .anything (hv ▸ hu')
    · exact .nothingness ht (.inr (hoptional' (hu'.resolve_left hu)))
    · exact .byKind ht (fun hmark ↦ hoptional' (hoptional hmark)) (hkind.trans h hkind' hsignatures)

end

mutual

theorem fits_trans {cat : Catalogue} (h : cat.Reachable) :
    (u : Ty) → {t v : Ty} → cat.fits t u → cat.fits u v → cat.fits t v
  | ⟨_, _, arguments⟩, _, _, htu, huv => by
    rw [fits_iff] at htu huv ⊢
    exact htu.trans h huv (signatureFits_trans h arguments)

theorem signatureFits_trans {cat : Catalogue} (h : cat.Reachable) :
    (us : List Ty) → {ts vs : List Ty} → cat.SignatureFits ts us → cat.SignatureFits us vs →
      cat.SignatureFits ts vs
  | u :: us, _, _, .intro htu hts, .intro huv hvs =>
    .intro (fits_trans h u htu huv) (forall₂_fits_trans h us hts hvs)

theorem forall₂_fits_trans {cat : Catalogue} (h : cat.Reachable) :
    (us : List Ty) → {ts vs : List Ty} → List.Forall₂ (fun t u ↦ cat.fits u t) ts us →
      List.Forall₂ (fun t u ↦ cat.fits u t) us vs → List.Forall₂ (fun t u ↦ cat.fits u t) ts vs
  | [], _, _, .nil, .nil => .nil
  | u :: us, _, _, .cons hut hts, .cons hvu hvs =>
    .cons (fits_trans h u hvu hut) (forall₂_fits_trans h us hts hvs)

end

/-! ## Types that fit each other -/

end Catalogue

namespace Ty

mutual

/-- Two types that differ in nothing that counts: not in the kind, not in the optional mark unless
on `anything` and on nothingness, and not in the generic arguments of classes and callables. -/
def Alike : (t u : Ty) → Prop
  | ⟨kind, isOptional, ts⟩, ⟨kind', isOptional', us⟩ =>
    kind = kind'
    ∧ (kind = .anything ∨ kind = .nothingness ∨ isOptional = isOptional')
    ∧ (∀ a, kind = .object a → ts = us)
    ∧ (kind = .callable → AllAlike ts us)

/-- Lists of types that are alike, member by member. -/
def AllAlike : (ts us : List Ty) → Prop
  | [], [] => True
  | t :: ts, u :: us => Alike t u ∧ AllAlike ts us
  | _, _ => False

end

mutual

theorem Alike.refl : (t : Ty) → Alike t t
  | ⟨_, _, ts⟩ => ⟨rfl, .inr (.inr rfl), fun _ _ ↦ rfl, fun _ ↦ AllAlike.refl ts⟩

theorem AllAlike.refl : (ts : List Ty) → AllAlike ts ts
  | [] => trivial
  | t :: ts => ⟨Alike.refl t, AllAlike.refl ts⟩

end

variable {t u : Ty}

theorem alike_iff : t.Alike u ↔ t.kind = u.kind
    ∧ (t.kind = .anything ∨ t.kind = .nothingness ∨ t.isOptional = u.isOptional)
    ∧ (∀ a, t.kind = .object a → t.arguments = u.arguments)
    ∧ (t.kind = .callable → AllAlike t.arguments u.arguments) := by
  obtain ⟨kind, isOptional, ts⟩ := t
  obtain ⟨kind', isOptional', us⟩ := u
  rw [Alike]

/-- The kinds whose optional mark does not count have no arguments that count either. -/
theorem alike_of_kind (hkind : t.kind = u.kind)
    (ht : t.kind = .anything ∨ t.kind = .nothingness) : t.Alike u := by
  refine alike_iff.mpr ⟨hkind, ht.elim .inl (.inr ∘ .inl), fun a ha ↦ ?_, fun hc ↦ ?_⟩
  · obtain ht | ht := ht <;> exact nomatch ht.symm.trans ha
  · obtain ht | ht := ht <;> exact nomatch ht.symm.trans hc

end Ty

namespace Catalogue

mutual

/-- Types whose classes are registered and whose callables have a return type. -/
def Complete (cat : Catalogue) : Ty → Prop
  | ⟨kind, _, ts⟩ =>
    (∀ a, kind = .object a → (cat.class? a).isSome)
    ∧ (kind = .callable → ts ≠ [] ∧ AllComplete cat ts)

/-- Lists of such types. -/
def AllComplete (cat : Catalogue) : List Ty → Prop
  | [] => True
  | t :: ts => Complete cat t ∧ AllComplete cat ts

end

section

variable {cat : Catalogue} {t u v : Ty}

/-- Types that fit each other by their kinds are of one kind, classes with the same arguments. -/
theorem FitsByKind.antisymm (h : cat.Reachable) (htu : cat.FitsByKind t u)
    (hut : cat.FitsByKind u t) :
    t.kind = u.kind ∧ ∀ a, t.kind = .object a → t.arguments = u.arguments := by
  obtain ⟨ht, hu, hdescends, harguments⟩ | ⟨ht, hu⟩ | ⟨ht, hu, _⟩ | ⟨ht, hu, _⟩ |
    ⟨hkind, hobject, _⟩ := htu
  · obtain ⟨hu', ht', hdescends', harguments'⟩ | ⟨_, ht'⟩ | ⟨_, ht', _⟩ | ⟨hu', _, _⟩ |
      ⟨_, hobject, _⟩ := hut
    · cases ht.symm.trans ht'
      cases hu.symm.trans hu'
      refine ⟨by rw [ht, hu, h.descends_antisymm hdescends hdescends'], fun _ _ ↦ ?_⟩
      obtain hnone | heq := harguments
      · obtain hnone' | heq' := harguments'
        · rw [hnone, hnone']
        · exact heq'.symm
      · exact heq
    · exact nomatch ht.symm.trans ht'
    · exact nomatch ht.symm.trans ht'
    · exact nomatch hu.symm.trans hu'
    · exact absurd hu (hobject _)
  -- neither `anyObject` nor a protocol fits a class
  · exact nomatch hu.symm.trans ((hut.kind_eq (by simp [hu]) (by simp [hu])).trans ht)
  · exact nomatch hu.symm.trans ((hut.kind_eq (by simp [hu]) (by simp [hu])).trans ht)
  · exact ⟨ht.trans hu.symm, fun a ha ↦ nomatch ht.symm.trans ha⟩
  · exact ⟨hkind, fun a ha ↦ absurd ha (hobject a)⟩

/-- Types that fit each other are alike if that holds for the signatures of callables. -/
theorem Follows.alike (h : cat.Reachable) (htu : cat.Follows t u) (hut : cat.Follows u t)
    (hsignatures : cat.SignatureFits t.arguments u.arguments →
      cat.SignatureFits u.arguments t.arguments → Ty.AllAlike t.arguments u.arguments) :
    t.Alike u := by
  obtain hu | ⟨ht, hu⟩ | ⟨ht, hoptional, hkind⟩ := htu
  · obtain ht | ⟨hu', _⟩ | ⟨_, _, hkind⟩ := hut
    · exact Ty.alike_of_kind (ht.trans hu.symm) (.inl ht)
    · exact nomatch hu.symm.trans hu'
    · have heq := hkind.kind_eq (by simp [hu]) (by simp [hu])
      exact Ty.alike_of_kind heq.symm (.inl (heq.symm.trans hu))
  · obtain ht' | ⟨hu', _⟩ | ⟨hu', _, hkind⟩ := hut
    · exact nomatch ht.symm.trans ht'
    · exact Ty.alike_of_kind (ht.trans hu'.symm) (.inr ht)
    · exact absurd ht (hkind.ne_nothingness hu')
  · obtain ht' | ⟨hu', _⟩ | ⟨_, hoptional', hkind'⟩ := hut
    · have heq := hkind.kind_eq (by simp [ht']) (by simp [ht'])
      exact Ty.alike_of_kind heq (.inl ht')
    · exact absurd hu' (hkind.ne_nothingness ht)
    · obtain ⟨heq, harguments⟩ := hkind.antisymm h hkind'
      have hmark : t.isOptional = u.isOptional := Bool.eq_iff_iff.mpr ⟨hoptional, hoptional'⟩
      refine Ty.alike_iff.mpr ⟨heq, .inr (.inr hmark), harguments, fun hc ↦ ?_⟩
      exact hsignatures (hkind.signature hc).2 (hkind'.signature (heq.symm.trans hc)).2

/-- Types that are alike fit each other if that holds for the signatures of callables. -/
theorem fits_of_kind_eq (hkind : t.kind = u.kind)
    (hmark : t.kind = .anything ∨ t.kind = .nothingness ∨ t.isOptional = u.isOptional)
    (hobject : ∀ a, t.kind = .object a → (cat.class? a).isSome ∧ t.arguments = u.arguments)
    (hcallable : t.kind = .callable → cat.SignatureFits t.arguments u.arguments) :
    cat.fits t u := by
  rw [fits_iff]
  by_cases hany : t.kind = .anything
  · exact .anything (hkind.symm.trans hany)
  by_cases hnothing : t.kind = .nothingness
  · exact .nothingness hnothing (.inl (hkind.symm.trans hnothing))
  have hmark := (hmark.resolve_left hany).resolve_left hnothing
  refine .byKind hnothing (fun h ↦ hmark ▸ h) ?_
  by_cases hclass : ∃ a, t.kind = .object a
  · obtain ⟨a, ha⟩ := hclass
    obtain ⟨hregistered, harguments⟩ := hobject a ha
    exact .inherits ha (hkind.symm.trans ha) (descends_refl hregistered) (.inr harguments)
  by_cases hc : t.kind = .callable
  · exact .callable hc (hkind.symm.trans hc) (hcallable hc)
  · exact .same hkind (fun a ha ↦ hclass ⟨a, ha⟩) hc

end

mutual

theorem alike_of_fits {cat : Catalogue} (h : cat.Reachable) :
    (t : Ty) → {u : Ty} → cat.fits t u → cat.fits u t → t.Alike u
  | ⟨_, _, arguments⟩, _, htu, hut => by
    rw [fits_iff] at htu hut
    exact htu.alike h hut (allAlike_of_signatureFits h arguments)

theorem allAlike_of_signatureFits {cat : Catalogue} (h : cat.Reachable) :
    (ts : List Ty) → {us : List Ty} → cat.SignatureFits ts us → cat.SignatureFits us ts →
      Ty.AllAlike ts us
  | t :: ts, _, .intro htu hts, .intro hut hus =>
    ⟨alike_of_fits h t htu hut, allAlike_of_forall₂ h ts hts hus⟩

theorem allAlike_of_forall₂ {cat : Catalogue} (h : cat.Reachable) :
    (ts : List Ty) → {us : List Ty} → List.Forall₂ (fun t u ↦ cat.fits u t) ts us →
      List.Forall₂ (fun t u ↦ cat.fits u t) us ts → Ty.AllAlike ts us
  | [], _, .nil, .nil => trivial
  | t :: ts, _, .cons hut hts, .cons htu hus =>
    ⟨alike_of_fits h t htu hut, allAlike_of_forall₂ h ts hts hus⟩

end

mutual

theorem fits_of_alike {cat : Catalogue} :
    (t u : Ty) → Complete cat t → t.Alike u → cat.fits t u ∧ cat.fits u t
  | ⟨kind, isOptional, ts⟩, ⟨kind', isOptional', us⟩, ⟨hregistered, hresult⟩,
      ⟨hkind, hmark, hobject, hcallable⟩ => by
    subst hkind
    have hsignature (hc : kind = .callable) := signatureFits_of_allAlike ts us (hresult hc).1
      (hresult hc).2 (hcallable hc)
    constructor
    · exact fits_of_kind_eq rfl hmark (fun a ha ↦ ⟨hregistered a ha, hobject a ha⟩)
        fun hc ↦ (hsignature hc).1
    · exact fits_of_kind_eq rfl (hmark.imp_right (.imp_right Eq.symm))
        (fun a ha ↦ ⟨hregistered a ha, (hobject a ha).symm⟩) fun hc ↦ (hsignature hc).2

theorem signatureFits_of_allAlike {cat : Catalogue} :
    (ts us : List Ty) → ts ≠ [] → AllComplete cat ts → Ty.AllAlike ts us →
      cat.SignatureFits ts us ∧ cat.SignatureFits us ts
  | t :: ts, u :: us, _, ⟨ht, hts⟩, ⟨htu, hall⟩ =>
    ⟨.intro (fits_of_alike t u ht htu).1 (forall₂_of_allAlike ts us hts hall).1,
      .intro (fits_of_alike t u ht htu).2 (forall₂_of_allAlike ts us hts hall).2⟩

theorem forall₂_of_allAlike {cat : Catalogue} :
    (ts us : List Ty) → AllComplete cat ts → Ty.AllAlike ts us →
      List.Forall₂ (fun t u ↦ cat.fits u t) ts us ∧ List.Forall₂ (fun t u ↦ cat.fits u t) us ts
  | [], [], _, _ => ⟨.nil, .nil⟩
  | t :: ts, u :: us, ⟨ht, hts⟩, ⟨htu, hall⟩ =>
    ⟨.cons (fits_of_alike t u ht htu).2 (forall₂_of_allAlike ts us hts hall).1,
      .cons (fits_of_alike t u ht htu).1 (forall₂_of_allAlike ts us hts hall).2⟩

end

/-! ## The order -/

/-- **Compatibility is an order up to what does not count.** It is reflexive on the types of values
and transitive on all types, and types that fit each other are alike. Types of values that are alike
do fit each other. -/
theorem Reachable.compatibility_order {cat : Catalogue} (h : cat.Reachable) :
    (∀ t, cat.Complete t → cat.fits t t)
    ∧ (∀ t u v, cat.fits t u → cat.fits u v → cat.fits t v)
    ∧ (∀ t u, cat.fits t u → cat.fits u t → t.Alike u)
    ∧ ∀ t u, cat.Complete t → t.Alike u → cat.fits t u ∧ cat.fits u t :=
  ⟨fun t ht ↦ (fits_of_alike t t ht (Ty.Alike.refl t)).1,
    fun _ u _ ↦ fits_trans h u,
    fun t _ ↦ alike_of_fits h t,
    fits_of_alike⟩

/-- A list of integers fits the enumerable protocol because lists do, and the type of functions from
lists to strings fits itself. -/
theorem Reachable.compatibility_order_standard :
    Catalogue.standard.Reachable
    ∧ Catalogue.standard.fits (.objectOf TypeId.list [.integer]) (.protocol TypeId.enumerable)
    ∧ Catalogue.standard.fits (.callable .string [.object TypeId.list])
        (.callable .string [.object TypeId.list]) := by
  obtain ⟨hrefl, htrans, -, -⟩ := Reachable.standard.compatibility_order
  have hcomplete : Catalogue.standard.Complete (.callable .string [.object TypeId.list]) := by
    have hstring : (Catalogue.standard.class? TypeId.string).isSome := by decide +kernel
    have hlist : (Catalogue.standard.class? TypeId.list).isSome := by decide +kernel
    simp [Ty.callable, Ty.string, Ty.object, Ty.plain, Complete, AllComplete, hstring, hlist]
  refine ⟨.standard, htrans _ (.object TypeId.list) _ ?_ ?_, hrefl _ hcomplete⟩
  · decide +kernel
  · decide +kernel

/-- Kinds that have no use for generic arguments do not compare them. Integers with an argument and
without fit each other, and are not equal. -/
theorem fits_both_ways_apart :
    Catalogue.empty.Reachable
    ∧ Catalogue.empty.fits (Ty.integer.withArguments [.integer]) .integer
    ∧ Catalogue.empty.fits .integer (Ty.integer.withArguments [.integer])
    ∧ (Ty.integer.withArguments [.integer]).kind = .integer
    ∧ (Ty.integer.withArguments [.integer]).isOptional = Ty.integer.isOptional
    ∧ Ty.integer.withArguments [.integer] ≠ .integer :=
  ⟨.empty, by decide, by decide, rfl, rfl, by decide⟩

end Catalogue

end Pictograph
