import Pictograph.Proofs.Scope.NamesAndSlots
import Pictograph.Proofs.Scope.Transcription
import Pictograph.Source.Token

/-!
# Variables of which one is frozen on one side

Two bodies may differ in whether a variable that they introduce is frozen. Their scopes are the same
apart from that. Names, slots and counters do not depend on it, and neither does what becomes of
them. It shows only where the variable is written again: one side goes on, and the other refuses.

A variable is known by its name and the place of its declaration. A closure works on copies of the
variables around it, which come from where these come from.

## Main definitions

* `Origin`: the name and the place of the declaration of a variable.
* `Variable.Freezes`, `Environment.Freezes`: the second side is the first one, but variables of an
  origin may be frozen.

## Main results

* `Variable.Freezes.mutate`: a variable is written on both sides, or the second side refuses.
* `Environment.Freezes.resolve?`, `Environment.Freezes.update` and their companions: what happens to
  variables on one side happens to those on the other.
-/

namespace Pictograph

/-- The name and the place of the declaration of a variable. -/
structure Origin where
  /-- The name. -/
  name : String
  /-- The place of the declaration. -/
  place : Span
deriving DecidableEq

/-- A token is the name of a variable at the place of its declaration. -/
def Origin.isNamedBy (o : Origin) (t : Token) : Bool :=
  t.reference? == some o.name && t.span == o.place

theorem Origin.isNamedBy_iff {o : Origin} {t : Token} :
    o.isNamedBy t ↔ t.reference? = some o.name ∧ t.span = o.place := by
  rw [isNamedBy, Bool.and_eq_true, beq_iff_eq, beq_iff_eq]

/-- Whether a variable has an origin. -/
def Variable.comesFrom (o : Origin) (v : Variable) : Bool := v.name == o.name && v.span == o.place

theorem Variable.comesFrom_iff {o : Origin} {v : Variable} :
    v.comesFrom o ↔ v.name = o.name ∧ v.span = o.place := by
  rw [comesFrom, Bool.and_eq_true, beq_iff_eq, beq_iff_eq]

/-! ## Variables -/

/-- A variable is the same on both sides, but if it has the origin, it may be frozen on the second
side alone. -/
def Variable.Freezes (o : Origin) (v v' : Variable) : Prop :=
  ∃ isFrozen, v' = { v with isFrozen }
    ∧ (isFrozen = v.isFrozen ∨ isFrozen = true ∧ v.comesFrom o)

namespace Variable.Freezes

variable {o : Origin} {v v' : Variable}

theorem refl (v : Variable) : v.Freezes o v := ⟨v.isFrozen, rfl, .inl rfl⟩

theorem frozen (h : v.comesFrom o) : v.Freezes o v.frozen := ⟨true, rfl, .inr ⟨rfl, h⟩⟩

/-- What neither depends on whether a variable is frozen nor changes it, keeps both sides alike. -/
theorem map {f : Variable → Variable} (h : v.Freezes o v')
    (hf : ∀ (v : Variable) (isFrozen : Bool), f { v with isFrozen } = { f v with isFrozen })
    (hkeep : ∀ v, (f v).isFrozen = v.isFrozen ∧ (f v).name = v.name ∧ (f v).span = v.span) :
    (f v).Freezes o (f v') := by
  obtain ⟨isFrozen, rfl, h⟩ := h
  obtain ⟨hfrozen, hname, hspan⟩ := hkeep v
  refine ⟨isFrozen, hf v isFrozen, ?_⟩
  rwa [hfrozen, comesFrom, hname, hspan, ← comesFrom]

theorem settle (h : v.Freezes o v') : v.settle.Freezes o v'.settle := by
  refine h.map (fun v isFrozen ↦ ?_) fun v ↦ ?_
  · by_cases hr : v.readiness ≤ 0
    · rw [Variable.settle, if_pos hr, Variable.settle, if_pos hr, ready, ready]
    · rw [Variable.settle, if_neg hr, Variable.settle, if_neg hr]
  · rw [Variable.settle]
    split <;> exact ⟨rfl, rfl, rfl⟩

theorem shift (h : v.Freezes o v') (delta : Int) : (v.shift delta).Freezes o (v'.shift delta) := by
  refine h.map (fun v isFrozen ↦ ?_) fun v ↦ ?_
  · by_cases hr : 0 < v.readiness
    · rw [Variable.shift, if_pos hr, Variable.shift, if_pos hr]
    · rw [Variable.shift, if_neg hr, Variable.shift, if_neg hr]
  · rw [Variable.shift]
    split <;> exact ⟨rfl, rfl, rfl⟩

theorem withSlot (h : v.Freezes o v') (slot : Nat) :
    Variable.Freezes o { v with slot } { v' with slot } :=
  h.map (f := fun v ↦ { v with slot }) (fun _ _ ↦ rfl) fun _ ↦ ⟨rfl, rfl, rfl⟩

theorem name_eq (h : v.Freezes o v') : v'.name = v.name := by
  obtain ⟨_, rfl, -⟩ := h
  rfl

theorem slot_eq (h : v.Freezes o v') : v'.slot = v.slot := by
  obtain ⟨_, rfl, -⟩ := h
  rfl

theorem type_eq (h : v.Freezes o v') : v'.type = v.type := by
  obtain ⟨_, rfl, -⟩ := h
  rfl

theorem readiness_eq (h : v.Freezes o v') : v'.readiness = v.readiness := by
  obtain ⟨_, rfl, -⟩ := h
  rfl

theorem requireReady_eq (h : v.Freezes o v') (p : Span) : v'.requireReady p = v.requireReady p := by
  obtain ⟨_, rfl, -⟩ := h
  rfl

theorem canShift_eq (h : v.Freezes o v') (delta : Int) : v'.canShift delta = v.canShift delta := by
  rw [canShift, canShift, (h.shift delta).readiness_eq]

/-- **A variable that is written on the first side** is written on the second one, too, or it has
the origin and is refused there. -/
theorem mutate {p : Span} {w : Variable} (h : v.Freezes o v') (hw : v.mutate p = .ok w) :
    (∃ w', v'.mutate p = .ok w' ∧ w.Freezes o w')
      ∨ v.comesFrom o ∧ v'.mutate p = .error ((Cause.frozenMutation o.name).at p) := by
  obtain ⟨isFrozen, rfl, h⟩ := h
  unfold Variable.mutate at hw
  split at hw
  · cases hw
  · next hfree =>
    cases hw
    rcases h with rfl | ⟨rfl, horigin⟩
    · refine .inl ⟨{ v with isMutated := true }, ?_, .refl _⟩
      rw [Variable.mutate, if_neg hfree]
    · refine .inr ⟨horigin, ?_⟩
      rw [Variable.mutate, if_pos rfl, (comesFrom_iff.mp horigin).1]

end Variable.Freezes

/-! ## Scopes -/

/-- The variables of two scopes are the same, but for those of the origin. -/
def Scope.Freezes (o : Origin) (s s' : Scope) : Prop :=
  List.Forall₂ (Variable.Freezes o) s.declared s'.declared

namespace Scope.Freezes

variable {o : Origin} {s s' : Scope}

theorem refl (s : Scope) : s.Freezes o s := List.forall₂_same.mpr fun v _ ↦ .refl v

theorem find? (h : s.Freezes o s') (x : String) :
    Option.Rel (Variable.Freezes o) (s.find? x) (s'.find? x) :=
  rel_find? h fun _ _ hv ↦ by rw [hv.name_eq]

theorem contains_eq (h : s.Freezes o s') (x : String) : s'.contains x = s.contains x :=
  any_eq_of_forall₂ h fun _ _ hv ↦ by rw [hv.name_eq]

theorem hasSlot_eq (h : s.Freezes o s') (id : Nat) : s'.hasSlot id = s.hasSlot id :=
  any_eq_of_forall₂ h fun _ _ hv ↦ by rw [hv.slot_eq]

theorem canShift_eq (h : s.Freezes o s') (delta : Int) : s'.canShift delta = s.canShift delta :=
  all_eq_of_forall₂ h fun _ _ hv ↦ hv.canShift_eq delta

theorem settledHere_eq (h : s.Freezes o s') : s'.settledHere = s.settledHere := by
  refine map_eq_of_forall₂ (forall₂_filter h ?_) fun _ _ hv ↦ hv.slot_eq
  intro _ _ hv
  rw [hv.readiness_eq]

theorem update {f f' : Variable → Variable} (h : s.Freezes o s') (x : String)
    (hf : ∀ v v', v.Freezes o v' → (f v).Freezes o (f' v')) :
    (s.update x f).Freezes o (s'.update x f') :=
  forall₂_updateFirst_both h (fun _ _ hv ↦ by rw [hv.name_eq]) hf

theorem settleSlot (h : s.Freezes o s') (id : Nat) :
    (s.updateSlot id Variable.settle).Freezes o (s'.updateSlot id Variable.settle) :=
  forall₂_updateFirst_both h (fun _ _ hv ↦ by rw [hv.slot_eq]) fun _ _ hv ↦ hv.settle

theorem shift (h : s.Freezes o s') (delta : Int) : (s.shift delta).Freezes o (s'.shift delta) :=
  List.rel_map (fun _ _ hv ↦ hv.shift delta) h

/-- What can be declared on the first side can be declared on the second one. -/
theorem declare {v v' : Variable} {t : Scope} (h : s.Freezes o s') (hv : v.Freezes o v')
    (ht : s.declare v = .ok t) : ∃ t', s'.declare v' = .ok t' ∧ t.Freezes o t' := by
  unfold Scope.declare at ht
  split at ht
  · cases ht
  · next hfree =>
    cases ht
    refine ⟨⟨s'.declared ++ [v']⟩, ?_, List.rel_append h (.cons hv .nil)⟩
    rw [Scope.declare, hv.name_eq, h.contains_eq, if_neg hfree]

end Scope.Freezes

/-! ## Environments -/

/-- The variables in reach are the same on both sides, but for local ones of the origin. -/
structure Environment.Freezes (o : Origin) (e e' : Environment) : Prop where
  current : e.current.Freezes o e'.current
  outer : List.Forall₂ (Scope.Freezes o) e.outer e'.outer
  fields : e'.fields = e.fields

namespace Environment.Freezes

variable {o : Origin} {e e' : Environment}

theorem refl (e : Environment) : e.Freezes o e :=
  ⟨.refl _, List.forall₂_same.mpr fun s _ ↦ .refl s, rfl⟩

theorem locals (h : e.Freezes o e') : List.Forall₂ (Scope.Freezes o) e.locals e'.locals :=
  .cons h.current h.outer

theorem withLocals {l l' : List Scope} (h : e.Freezes o e')
    (hl : List.Forall₂ (Scope.Freezes o) l l') :
    (e.withLocals l).Freezes o (e'.withLocals l') := by
  cases hl with
  | nil => exact h
  | cons hs hl => exact ⟨hs, hl, h.fields⟩

theorem withFields (h : e.Freezes o e') (f : Option Scope → Option Scope) :
    Environment.Freezes o { e with fields := f e.fields } { e' with fields := f e'.fields } :=
  ⟨h.current, h.outer, congrArg f h.fields⟩

theorem push (h : e.Freezes o e') (s : Scope) : (e.push s).Freezes o (e'.push s) :=
  ⟨.refl s, h.locals, h.fields⟩

/-- A block is left on both sides or on neither. -/
theorem pop? (h : e.Freezes o e') :
    Option.Rel (fun x x' ↦ x.2.Freezes o x'.2) e.pop? e'.pop? := by
  have houter := h.outer
  rw [Environment.pop?, Environment.pop?]
  generalize e.outer = l, e'.outer = l' at houter ⊢
  cases houter with
  | nil => exact .none
  | cons hs hl => exact .some ⟨hs, hl, h.fields⟩

theorem declare {v v' : Variable} {d : Environment} (h : e.Freezes o e') (hv : v.Freezes o v')
    (hd : e.declare v = .ok d) : ∃ d', e'.declare v' = .ok d' ∧ d.Freezes o d' := by
  change (fun s ↦ { e with current := s }) <$> e.current.declare v = _ at hd
  cases hs : e.current.declare v with
  | error fault =>
    rw [hs] at hd
    cases hd
  | ok t =>
    rw [hs] at hd
    cases hd
    obtain ⟨t', ht', ht⟩ := h.current.declare hv hs
    refine ⟨{ e' with current := t' }, ?_, ht, h.outer, h.fields⟩
    change (fun s ↦ { e' with current := s }) <$> e'.current.declare v' = _
    rw [ht']
    rfl

/-! ### Names -/

theorem containsLocal_eq (h : e.Freezes o e') (x : String) :
    e'.locals.any (·.contains x) = e.locals.any (·.contains x) :=
  any_eq_of_forall₂ h.locals fun _ _ hs ↦ hs.contains_eq x

/-- What a name refers to is the same variable on both sides, in the same storage, and a field is
the same altogether. -/
def Found (o : Origin) (y y' : Storage × Variable) : Prop :=
  y.1 = y'.1 ∧ y.2.Freezes o y'.2 ∧ (y.1 = .object → y.2 = y'.2)

theorem Found.refl (y : Storage × Variable) : Found o y y := ⟨rfl, .refl _, fun _ ↦ rfl⟩

theorem resolve? (h : e.Freezes o e') (x : String) :
    Option.Rel (Found o) (e.resolve? x) (e'.resolve? x) := by
  have hlocal := rel_findSome? h.locals fun _ _ hs ↦ hs.find? x
  rw [Environment.resolve?, Environment.resolve?, h.fields]
  generalize e.locals.findSome? _ = v?, e'.locals.findSome? _ = v?' at hlocal ⊢
  cases hlocal with
  | some hv => exact .some ⟨rfl, hv, fun h ↦ by cases h⟩
  | none =>
    cases e.fields.bind (·.find? x) with
    | none => exact .none
    | some v => exact .some ⟨rfl, .refl v, fun _ ↦ rfl⟩

theorem settleNamed (h : e.Freezes o e') (x : String) :
    (e.update x Variable.settle).Freezes o (e'.update x Variable.settle) := by
  rw [Environment.update, Environment.update, h.containsLocal_eq]
  split
  · exact h.withLocals (forall₂_updateFirst_both h.locals (fun _ _ hs ↦ hs.contains_eq x)
      fun _ _ hs ↦ hs.update x fun _ _ hv ↦ hv.settle)
  · exact h.withFields _

/-- The variable that a name refers to is replaced. -/
theorem replace {x : String} {w w' : Variable} (h : e.Freezes o e') (hw : w.Freezes o w')
    (hfield : e.locals.any (·.contains x) = false → w = w') :
    (e.update x fun _ ↦ w).Freezes o (e'.update x fun _ ↦ w') := by
  rw [Environment.update, Environment.update, h.containsLocal_eq]
  cases hany : e.locals.any (·.contains x) with
  | true =>
    exact h.withLocals (forall₂_updateFirst_both h.locals (fun _ _ hs ↦ hs.contains_eq x)
      fun _ _ hs ↦ hs.update x fun _ _ _ ↦ hw)
  | false =>
    rw [hfield hany]
    exact h.withFields _

/-- **A variable that is written on the first side** is written on the second one, too, or it is the
variable of the origin and is refused there. -/
theorem write {x : String} {p : Span} {st : Storage} {v w : Variable} (h : e.Freezes o e')
    (hx : e.resolve? x = some (st, v)) (hw : v.mutate p = .ok w) :
    ∃ v', e'.resolve? x = some (st, v') ∧ v.Freezes o v'
      ∧ ((∃ w', v'.mutate p = .ok w' ∧ (e.update x fun _ ↦ w).Freezes o (e'.update x fun _ ↦ w'))
        ∨ x = o.name ∧ st = .frame ∧ v.span = o.place
          ∧ v'.mutate p = .error ((Cause.frozenMutation o.name).at p)) := by
  obtain ⟨v', hx', hv, hfield⟩ : ∃ v', e'.resolve? x = some (st, v') ∧ v.Freezes o v'
      ∧ (st = .object → v = v') := by
    have hfound := h.resolve? x
    rw [hx] at hfound
    generalize e'.resolve? x = y? at hfound ⊢
    cases hfound with
    | @some _ y hfound =>
      obtain ⟨hst, hv, hfield⟩ := hfound
      exact ⟨y.2, congrArg some (Prod.ext hst.symm rfl), hv, hfield⟩
  refine ⟨v', hx', hv, ?_⟩
  rcases hv.mutate hw with ⟨w', hw', hww'⟩ | ⟨horigin, hrefused⟩
  · refine .inl ⟨w', hw', h.replace hww' fun hlocal ↦ ?_⟩
    cases st with
    | object =>
      rw [hfield rfl, hw'] at hw
      exact (Except.ok.inj hw).symm
    | frame =>
      have hfind := (resolve?_eq_some.mp hx).1
      have hany : e.locals.any (·.contains x) = (e.stored .frame).any (·.name == x) :=
        List.any_flatMap.symm
      rw [hany, List.any_eq_false] at hlocal
      exact absurd (List.find?_some hfind) (hlocal v (List.mem_of_find?_eq_some hfind))
  · obtain ⟨hname, hspan⟩ := Variable.comesFrom_iff.mp horigin
    have hfind := List.find?_some (resolve?_eq_some.mp hx).1
    have hnamed : v.name = x := beq_iff_eq.mp hfind
    refine .inr ⟨hnamed.symm.trans hname, ?_, hspan, hrefused⟩
    cases st with
    | frame => rfl
    | object =>
      rw [hfield rfl, hrefused] at hw
      cases hw

theorem withoutHidden {l l' : List Variable} (h : List.Forall₂ (Variable.Freezes o) l l')
    (seen : List String) : List.Forall₂ (Variable.Freezes o) (Environment.withoutHidden seen l)
      (Environment.withoutHidden seen l') := by
  induction h generalizing seen with
  | nil => exact .nil
  | @cons v v' l l' hv hl ih =>
    rw [Environment.withoutHidden, Environment.withoutHidden, hv.name_eq]
    split
    · exact ih seen
    · exact .cons hv (ih (v.name :: seen))

theorem visible (h : e.Freezes o e') :
    List.Forall₂ (Variable.Freezes o) e.visible e'.visible :=
  withoutHidden (List.rel_flatMap h.locals fun _ _ hs ↦ hs) []

/-! ### Blocks that may be skipped -/

theorem shift (h : e.Freezes o e') (delta : Int) (withFields : Bool) :
    (e.shift delta withFields).Freezes o (e'.shift delta withFields) where
  current := h.current.shift delta
  outer := List.rel_map (fun _ _ hs ↦ hs.shift delta) h.outer
  fields := by rw [Environment.shift, Environment.shift, h.fields]

theorem canShift_eq (h : e.Freezes o e') (delta : Int) (withFields : Bool) :
    e'.canShift delta withFields = e.canShift delta withFields := by
  have hlocals := all_eq_of_forall₂ h.locals fun _ _ hs ↦ hs.canShift_eq delta
  rw [canShift, canShift, hlocals, h.fields]

theorem settledHere_eq (h : e.Freezes o e') (withFields : Bool) :
    e'.settledHere withFields = e.settledHere withFields := by
  have hlocals := flatMap_eq_of_forall₂ (List.rel_reverse h.locals) fun _ _ hs ↦ hs.settledHere_eq
  rw [settledHere, settledHere, hlocals, h.fields]

theorem settle (h : e.Freezes o e') (slot : Slot) : (e.settle slot).Freezes o (e'.settle slot) := by
  obtain ⟨storage, id⟩ := slot
  cases storage with
  | frame =>
    exact h.withLocals (forall₂_updateFirst_both h.locals (fun _ _ hs ↦ hs.hasSlot_eq id)
      fun _ _ hs ↦ hs.settleSlot id)
  | object => exact h.withFields _

theorem settleEach (h : e.Freezes o e') (slots : List Slot) :
    (slots.foldl Environment.settle e).Freezes o (slots.foldl Environment.settle e') := by
  induction slots generalizing e e' with
  | nil => exact h
  | cons slot slots ih => exact ih (h.settle slot)

theorem requireComplete_eq (h : e.Freezes o e') (p : Span) :
    e'.requireComplete p = e.requireComplete p := by
  rw [requireComplete, requireComplete, h.fields]

end Environment.Freezes

end Pictograph
