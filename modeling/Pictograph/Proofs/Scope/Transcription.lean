import Pictograph.Proofs.Scope.Evolution
import Pictograph.Proofs.Source.Transcription

/-!
# Variables of a transcribed body

The variables of a body and those of its transcription are declared in the same order, under names
and at places that correspond, and are equal otherwise. Looking a variable up, giving it a value and
entering and leaving blocks goes the same way on both sides.

The fields of the object are declared elsewhere. Nothing is known of their places, and no diagnosis
uses them.

## Main definitions

* `Variable.Alike`, `Scope.Alike`, `Environment.Alike`: variables that correspond.

## Main results

* `Environment.Alike.resolve?`: names that correspond refer to variables that do.
* `Environment.Alike.update`, `Environment.Alike.declare` and their companions: what happens to
  variables on one side happens to those on the other.
-/

namespace Pictograph

/-! ## Lists that correspond -/

section

variable {α β γ : Type} {R : α → β → Prop} {l : List α} {l' : List β}

theorem any_eq_of_forall₂ {p : α → Bool} {q : β → Bool} (h : List.Forall₂ R l l')
    (hpq : ∀ a b, R a b → q b = p a) : l'.any q = l.any p := by
  induction h with
  | nil => rfl
  | cons hab _ ih => rw [List.any_cons, List.any_cons, hpq _ _ hab, ih]

theorem all_eq_of_forall₂ {p : α → Bool} {q : β → Bool} (h : List.Forall₂ R l l')
    (hpq : ∀ a b, R a b → q b = p a) : l'.all q = l.all p := by
  induction h with
  | nil => rfl
  | cons hab _ ih => rw [List.all_cons, List.all_cons, hpq _ _ hab, ih]

theorem map_eq_of_forall₂ {f : α → γ} {g : β → γ} (h : List.Forall₂ R l l')
    (hfg : ∀ a b, R a b → g b = f a) : l'.map g = l.map f := by
  induction h with
  | nil => rfl
  | cons hab _ ih => rw [List.map_cons, List.map_cons, hfg _ _ hab, ih]

theorem flatMap_eq_of_forall₂ {f : α → List γ} {g : β → List γ} (h : List.Forall₂ R l l')
    (hfg : ∀ a b, R a b → g b = f a) : l'.flatMap g = l.flatMap f := by
  induction h with
  | nil => rfl
  | cons hab _ ih => rw [List.flatMap_cons, List.flatMap_cons, hfg _ _ hab, ih]

theorem forall₂_filter {p : α → Bool} {q : β → Bool} (h : List.Forall₂ R l l')
    (hpq : ∀ a b, R a b → q b = p a) : List.Forall₂ R (l.filter p) (l'.filter q) :=
  List.rel_filter (fun a b hab ↦ (Bool.eq_iff_iff.mp (hpq a b hab)).symm) h

theorem rel_find? {p : α → Bool} {q : β → Bool} (h : List.Forall₂ R l l')
    (hpq : ∀ a b, R a b → q b = p a) : Option.Rel R (l.find? p) (l'.find? q) := by
  induction h with
  | nil => exact .none
  | @cons a b _ _ hab _ ih =>
    rw [List.find?_cons, List.find?_cons, hpq a b hab]
    cases p a with
    | true => exact .some hab
    | false => exact ih

theorem rel_findSome? {δ : Type} {S : γ → δ → Prop} {f : α → Option γ} {g : β → Option δ}
    (h : List.Forall₂ R l l') (hfg : ∀ a b, R a b → Option.Rel S (f a) (g b)) :
    Option.Rel S (l.findSome? f) (l'.findSome? g) := by
  induction h with
  | nil => exact .none
  | @cons a b _ _ hab _ ih =>
    rw [List.findSome?_cons, List.findSome?_cons]
    have hrel := hfg a b hab
    generalize f a = c?, g b = d? at hrel ⊢
    cases hrel with
    | none => exact ih
    | some hcd => exact .some hcd

theorem forall₂_updateFirst_both {p : α → Bool} {q : β → Bool} {f : α → α} {g : β → β}
    (h : List.Forall₂ R l l') (hpq : ∀ a b, R a b → q b = p a)
    (hfg : ∀ a b, R a b → R (f a) (g b)) :
    List.Forall₂ R (updateFirst p f l) (updateFirst q g l') := by
  induction h with
  | nil => exact .nil
  | @cons a b _ _ hab hl ih =>
    rw [updateFirst, updateFirst, hpq a b hab]
    cases p a with
    | true => exact .cons (hfg a b hab) hl
    | false => exact .cons hab ih

theorem rel_map_both {γ δ : Type} {S : γ → δ → Prop} {f : α → γ} {g : β → δ} {a? : Option α}
    {b? : Option β} (h : Option.Rel R a? b?) (hfg : ∀ a b, R a b → S (f a) (g b)) :
    Option.Rel S (a?.map f) (b?.map g) := by
  cases h with
  | none => exact .none
  | some hab => exact .some (hfg _ _ hab)

end

/-! ## Outcomes -/

/-- Two computations without a state come to values or to faults that correspond. -/
inductive Transcription.Outcomes (τ : Transcription) {α β : Type} (V : α → β → Prop) :
    Except Fault α → Except Fault β → Prop
  | ok {a : α} {b : β} (h : V a b) : Outcomes τ V (.ok a) (.ok b)
  | error {e e' : Fault} (h : e.Alike τ e') : Outcomes τ V (.error e) (.error e')

/-! ## Variables -/

variable {τ : Transcription}

/-- A variable and the one that it corresponds to, given when their places do. -/
structure Variable.Alike (τ : Transcription) (P : Span → Span → Prop) (v v' : Variable) :
    Prop where
  name : v'.name = τ.name v.name
  type : v'.type = v.type
  slot : v'.slot = v.slot
  readiness : v'.readiness = v.readiness
  isFrozen : v'.isFrozen = v.isFrozen
  isMutated : v'.isMutated = v.isMutated
  span : P v.span v'.span

namespace Variable.Alike

variable {P : Span → Span → Prop} {v v' : Variable}

theorem isReady_eq (h : v.Alike τ P v') : v'.isReady = v.isReady := by
  rw [isReady, isReady, h.readiness]

theorem named_eq (h : v.Alike τ P v') (x : String) : (v'.name == τ.name x) = (v.name == x) := by
  rw [h.name, Bool.eq_iff_iff, beq_iff_eq, beq_iff_eq, τ.name_injective.eq_iff]

theorem ready (h : v.Alike τ P v') : v.ready.Alike τ P v'.ready :=
  { h with readiness := rfl }

theorem frozen (h : v.Alike τ P v') : v.frozen.Alike τ P v'.frozen :=
  { h with isFrozen := rfl }

theorem mutated (h : v.Alike τ P v') :
    Variable.Alike τ P { v with isMutated := true } { v' with isMutated := true } :=
  { h with isMutated := rfl }

theorem settle (h : v.Alike τ P v') : v.settle.Alike τ P v'.settle := by
  rw [Variable.settle, Variable.settle, h.readiness]
  split
  · exact h.ready
  · exact h

theorem shift (h : v.Alike τ P v') (delta : Int) :
    (v.shift delta).Alike τ P (v'.shift delta) := by
  rw [Variable.shift, Variable.shift, h.readiness]
  split
  · exact { h with readiness := rfl }
  · exact h

theorem canShift_eq (h : v.Alike τ P v') (delta : Int) : v'.canShift delta = v.canShift delta := by
  rw [canShift, canShift, (h.shift delta).readiness]

theorem requireReady {p p' : Span} (h : v.Alike τ P v') (hp : τ.place p p') :
    τ.Outcomes Eq (v.requireReady p) (v'.requireReady p') := by
  rw [Variable.requireReady, Variable.requireReady, h.isReady_eq, h.name]
  split
  · exact .ok rfl
  · exact .error (.renamed (.uninitializedVariable v.name) hp)

theorem mutate {p p' : Span} (h : v.Alike τ P v') (hp : τ.place p p') :
    τ.Outcomes (Variable.Alike τ P) (v.mutate p) (v'.mutate p') := by
  rw [Variable.mutate, Variable.mutate]
  by_cases hfrozen : v.isFrozen
  · have hfrozen' : v'.isFrozen := h.isFrozen.trans hfrozen
    rw [if_pos hfrozen, if_pos hfrozen', h.name]
    exact .error (.renamed (.frozenMutation v.name) hp)
  · have hfree' : ¬ v'.isFrozen := by rwa [h.isFrozen]
    rw [if_neg hfrozen, if_neg hfree']
    exact .ok h.mutated

end Variable.Alike

/-! ## Scopes -/

/-- A scope and the one that it corresponds to. -/
def Scope.Alike (τ : Transcription) (P : Span → Span → Prop) (s s' : Scope) : Prop :=
  List.Forall₂ (Variable.Alike τ P) s.declared s'.declared

namespace Scope.Alike

variable {P : Span → Span → Prop} {s s' : Scope}

theorem empty : Scope.empty.Alike τ P .empty := .nil

theorem find? (h : s.Alike τ P s') (x : String) :
    Option.Rel (Variable.Alike τ P) (s.find? x) (s'.find? (τ.name x)) :=
  rel_find? h fun _ _ hv ↦ hv.named_eq x

theorem contains_eq (h : s.Alike τ P s') (x : String) :
    s'.contains (τ.name x) = s.contains x :=
  any_eq_of_forall₂ h fun _ _ hv ↦ hv.named_eq x

theorem hasSlot_eq (h : s.Alike τ P s') (id : Nat) : s'.hasSlot id = s.hasSlot id :=
  any_eq_of_forall₂ h fun _ _ hv ↦ by rw [hv.slot]

theorem canShift_eq (h : s.Alike τ P s') (delta : Int) : s'.canShift delta = s.canShift delta :=
  all_eq_of_forall₂ h fun _ _ hv ↦ hv.canShift_eq delta

theorem settledHere_eq (h : s.Alike τ P s') : s'.settledHere = s.settledHere := by
  refine map_eq_of_forall₂ (forall₂_filter h ?_) fun _ _ hv ↦ hv.slot
  intro _ _ hv
  rw [hv.readiness]

theorem firstUnready? (h : s.Alike τ P s') :
    Option.Rel (Variable.Alike τ P) s.firstUnready? s'.firstUnready? :=
  rel_find? h fun _ _ hv ↦ by rw [hv.isReady_eq]

theorem freezable (h : s.Alike τ P s') :
    List.Forall₂ (Variable.Alike τ P) s.freezable s'.freezable :=
  forall₂_filter h fun _ _ hv ↦ by rw [hv.isFrozen, hv.isMutated]

theorem update {f f' : Variable → Variable} (h : s.Alike τ P s') (x : String)
    (hf : ∀ v v', v.Alike τ P v' → (f v).Alike τ P (f' v')) :
    (s.update x f).Alike τ P (s'.update (τ.name x) f') :=
  forall₂_updateFirst_both h (fun _ _ hv ↦ hv.named_eq x) hf

theorem updateSlot {f f' : Variable → Variable} (h : s.Alike τ P s') (id : Nat)
    (hf : ∀ v v', v.Alike τ P v' → (f v).Alike τ P (f' v')) :
    (s.updateSlot id f).Alike τ P (s'.updateSlot id f') :=
  forall₂_updateFirst_both h (fun _ _ hv ↦ by rw [hv.slot]) hf

theorem shift (h : s.Alike τ P s') (delta : Int) :
    (s.shift delta).Alike τ P (s'.shift delta) :=
  List.rel_map (fun _ _ hv ↦ hv.shift delta) h

/-- A declaration succeeds in both scopes or in neither. -/
theorem declare {v v' : Variable} (h : s.Alike τ τ.place s') (hv : v.Alike τ τ.place v') :
    τ.Outcomes (Scope.Alike τ τ.place) (s.declare v) (s'.declare v') := by
  rw [Scope.declare, Scope.declare, hv.name, h.contains_eq]
  split
  · exact .error (.renamed (.redeclaration v.name) hv.span)
  · exact .ok (List.rel_append h (.cons hv .nil))

end Scope.Alike

/-! ## Environments -/

/-- Any two places. -/
def Span.Anywhere (_ _ : Span) : Prop := True

/-- The variables in reach of a body and those in reach of its transcription. -/
structure Environment.Alike (τ : Transcription) (e e' : Environment) : Prop where
  current : e.current.Alike τ τ.place e'.current
  outer : List.Forall₂ (Scope.Alike τ τ.place) e.outer e'.outer
  fields : Option.Rel (Scope.Alike τ Span.Anywhere) e.fields e'.fields

namespace Environment.Alike

variable {e e' : Environment}

theorem start {fields fields' : Option Scope}
    (h : Option.Rel (Scope.Alike τ Span.Anywhere) fields fields') :
    (Environment.start fields).Alike τ (.start fields') :=
  ⟨.empty, .nil, h⟩

theorem locals (h : e.Alike τ e') : List.Forall₂ (Scope.Alike τ τ.place) e.locals e'.locals :=
  .cons h.current h.outer

theorem withLocals {l l' : List Scope} (h : e.Alike τ e')
    (hl : List.Forall₂ (Scope.Alike τ τ.place) l l') :
    (e.withLocals l).Alike τ (e'.withLocals l') := by
  cases hl with
  | nil => exact h
  | cons hs hl => exact ⟨hs, hl, h.fields⟩

theorem push {s s' : Scope} (h : e.Alike τ e') (hs : s.Alike τ τ.place s') :
    (e.push s).Alike τ (e'.push s') :=
  ⟨hs, h.locals, h.fields⟩

/-- A block is left in both environments or in neither. -/
theorem pop? (h : e.Alike τ e') :
    Option.Rel (fun x x' ↦ x.1.Alike τ τ.place x'.1 ∧ x.2.Alike τ x'.2) e.pop? e'.pop? := by
  have houter := h.outer
  rw [Environment.pop?, Environment.pop?]
  generalize e.outer = l, e'.outer = l' at houter ⊢
  cases houter with
  | nil => exact .none
  | cons hs hl => exact .some ⟨h.current, hs, hl, h.fields⟩

theorem declare {v v' : Variable} (h : e.Alike τ e') (hv : v.Alike τ τ.place v') :
    τ.Outcomes (Environment.Alike τ) (e.declare v) (e'.declare v') := by
  have hdeclare := h.current.declare hv
  change τ.Outcomes _ ((fun s ↦ { e with current := s }) <$> e.current.declare v)
    ((fun s ↦ { e' with current := s }) <$> e'.current.declare v')
  generalize e.current.declare v = x, e'.current.declare v' = x' at hdeclare ⊢
  cases hdeclare with
  | ok hs => exact .ok ⟨hs, h.outer, h.fields⟩
  | error he => exact .error he

/-! ### Names -/

theorem containsLocal_eq (h : e.Alike τ e') (x : String) :
    e'.locals.any (·.contains (τ.name x)) = e.locals.any (·.contains x) :=
  any_eq_of_forall₂ h.locals fun _ _ hs ↦ hs.contains_eq x

/-- The place of a variable is known if it is a local one. -/
def placeOf (τ : Transcription) : Storage → Span → Span → Prop
  | .frame => τ.place
  | .object => Span.Anywhere

/-- Names that correspond refer to variables that do, in the same storage. -/
theorem resolve? (h : e.Alike τ e') (x : String) :
    Option.Rel (fun y y' ↦ y.1 = y'.1 ∧ y.2.Alike τ (placeOf τ y.1) y'.2) (e.resolve? x)
      (e'.resolve? (τ.name x)) := by
  have hlocal := rel_findSome? h.locals fun _ _ hs ↦ hs.find? x
  have hfield : Option.Rel (Variable.Alike τ Span.Anywhere) (e.fields.bind (·.find? x))
      (e'.fields.bind (·.find? (τ.name x))) := by
    have hfields := h.fields
    generalize e.fields = fields, e'.fields = fields' at hfields ⊢
    cases hfields with
    | none => exact .none
    | some hs => exact hs.find? x
  rw [Environment.resolve?, Environment.resolve?]
  generalize e.locals.findSome? _ = v?, e'.locals.findSome? _ = v?' at hlocal ⊢
  cases hlocal with
  | some hv => exact .some ⟨rfl, hv⟩
  | none => exact rel_map_both hfield fun _ _ hv ↦ ⟨rfl, hv⟩

/-- The variables that a name refers to are changed. If that is a field, it is no local variable. -/
theorem update {f f' : Variable → Variable} {x : String} (h : e.Alike τ e')
    (hlocal : e.locals.any (·.contains x) → ∀ v v', v.Alike τ τ.place v' →
      (f v).Alike τ τ.place (f' v'))
    (hfield : e.locals.any (·.contains x) = false → ∀ v v', v.Alike τ Span.Anywhere v' →
      (f v).Alike τ Span.Anywhere (f' v')) :
    (e.update x f).Alike τ (e'.update (τ.name x) f') := by
  rw [Environment.update, Environment.update, h.containsLocal_eq]
  cases hany : e.locals.any (·.contains x) with
  | true =>
    refine h.withLocals (forall₂_updateFirst_both h.locals ?_ ?_)
    · exact fun _ _ hs ↦ hs.contains_eq x
    · exact fun _ _ hs ↦ hs.update x (hlocal hany)
  | false =>
    exact ⟨h.current, h.outer, rel_map_both h.fields fun _ _ hs ↦ hs.update x (hfield hany)⟩

theorem settleNamed (h : e.Alike τ e') (x : String) :
    (e.update x Variable.settle).Alike τ (e'.update (τ.name x) Variable.settle) :=
  h.update (fun _ _ _ hv ↦ hv.settle) fun _ _ _ hv ↦ hv.settle

/-- The variable that a name refers to is replaced, where it is stored. -/
theorem replace {x : String} {storage : Storage} {v w w' : Variable} (h : e.Alike τ e')
    (hx : e.resolve? x = some (storage, v)) (hw : w.Alike τ (placeOf τ storage) w') :
    (e.update x fun _ ↦ w).Alike τ (e'.update (τ.name x) fun _ ↦ w') := by
  refine h.update (fun hlocal _ _ _ ↦ ?_) fun _ _ _ _ ↦ { hw with span := trivial }
  cases storage with
  | frame => exact hw
  | object => exact absurd hlocal (Environment.fields_of_resolve? hx).1

theorem withoutHidden {l l' : List Variable} {P : Span → Span → Prop}
    (h : List.Forall₂ (Variable.Alike τ P) l l') (seen : List String) :
    List.Forall₂ (Variable.Alike τ P) (Environment.withoutHidden seen l)
      (Environment.withoutHidden (seen.map τ.name) l') := by
  induction h generalizing seen with
  | nil => exact .nil
  | @cons v v' l l' hv hl ih =>
    have hseen : v'.name ∈ seen.map τ.name ↔ v.name ∈ seen := by
      rw [hv.name, List.mem_map_of_injective τ.name_injective]
    rw [Environment.withoutHidden, Environment.withoutHidden]
    by_cases hmem : v.name ∈ seen
    · rw [if_pos hmem, if_pos (hseen.mpr hmem)]
      exact ih seen
    · rw [if_neg hmem, if_neg (hmem ∘ hseen.mp), hv.name, ← List.map_cons]
      exact .cons hv (ih (v.name :: seen))

theorem visible (h : e.Alike τ e') :
    List.Forall₂ (Variable.Alike τ τ.place) e.visible e'.visible :=
  withoutHidden (List.rel_flatMap h.locals fun _ _ hs ↦ hs) []

/-! ### Blocks that may be skipped -/

theorem shift (h : e.Alike τ e') (delta : Int) (withFields : Bool) :
    (e.shift delta withFields).Alike τ (e'.shift delta withFields) where
  current := h.current.shift delta
  outer := List.rel_map (fun _ _ hs ↦ hs.shift delta) h.outer
  fields := by
    rw [Environment.shift, Environment.shift]
    cases withFields with
    | false => exact h.fields
    | true => exact rel_map_both h.fields fun _ _ hs ↦ hs.shift delta

theorem canShift_eq (h : e.Alike τ e') (delta : Int) (withFields : Bool) :
    e'.canShift delta withFields = e.canShift delta withFields := by
  have hlocals := all_eq_of_forall₂ h.locals fun _ _ hs ↦ hs.canShift_eq delta
  have hfields : e'.fields.all (·.canShift delta) = e.fields.all (·.canShift delta) := by
    have hfields := h.fields
    generalize e.fields = fields, e'.fields = fields' at hfields ⊢
    cases hfields with
    | none => rfl
    | some hs => exact hs.canShift_eq delta
  rw [canShift, canShift, hlocals, hfields]

theorem settledHere_eq (h : e.Alike τ e') (withFields : Bool) :
    e'.settledHere withFields = e.settledHere withFields := by
  have hlocals := flatMap_eq_of_forall₂ (List.rel_reverse h.locals) fun _ _ hs ↦ hs.settledHere_eq
  have hfields : e'.fields.elim [] (·.settledHere) = e.fields.elim [] (·.settledHere) := by
    have hfields := h.fields
    generalize e.fields = fields, e'.fields = fields' at hfields ⊢
    cases hfields with
    | none => rfl
    | some hs => exact hs.settledHere_eq
  rw [settledHere, settledHere, hlocals, hfields]

theorem settle (h : e.Alike τ e') (slot : Slot) : (e.settle slot).Alike τ (e'.settle slot) := by
  obtain ⟨storage, id⟩ := slot
  cases storage with
  | frame =>
    refine h.withLocals (forall₂_updateFirst_both h.locals ?_ ?_)
    · exact fun _ _ hs ↦ hs.hasSlot_eq id
    · exact fun _ _ hs ↦ hs.updateSlot id fun _ _ hv ↦ hv.settle
  | object =>
    refine ⟨h.current, h.outer, rel_map_both h.fields fun _ _ hs ↦ ?_⟩
    exact hs.updateSlot id fun _ _ hv ↦ hv.settle

theorem settleEach (h : e.Alike τ e') (slots : List Slot) :
    (slots.foldl Environment.settle e).Alike τ (slots.foldl Environment.settle e') := by
  induction slots generalizing e e' with
  | nil => exact h
  | cons slot slots ih => exact ih (h.settle slot)

/-- The first field without a value is the same one. -/
theorem requireComplete {p p' : Span} (h : e.Alike τ e') (hp : τ.place p p') :
    τ.Outcomes Eq (e.requireComplete p) (e'.requireComplete p') := by
  have hfirst : Option.Rel (Variable.Alike τ Span.Anywhere) (e.fields.bind (·.firstUnready?))
      (e'.fields.bind (·.firstUnready?)) := by
    have hfields := h.fields
    generalize e.fields = fields, e'.fields = fields' at hfields ⊢
    cases hfields with
    | none => exact .none
    | some hs => exact hs.firstUnready?
  rw [Environment.requireComplete, Environment.requireComplete]
  generalize e.fields.bind _ = v?, e'.fields.bind _ = v?' at hfirst ⊢
  cases hfirst with
  | none => exact .ok rfl
  | some hv =>
    dsimp only
    rw [hv.name]
    exact .error (.renamed (.uninitializedField _) hp)

end Environment.Alike

end Pictograph
