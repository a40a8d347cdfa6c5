import Pictograph.Proofs.Scope.Freezing

/-!
# Variables that may be recommended to be frozen

A variable that is neither frozen nor written to is a candidate: when its scope is left, the body is
recommended to declare it frozen. Once it is written to it is a candidate no more, so it also
matters how many variables there are that could be candidates, if they had not been written to.

In the scope of a closure there are copies of the variables around it, too. They are not
recommended, so only the own variables of a frame count there. In the scopes of blocks all variables
count.

## Main definitions

* `Tally`: which variables count.
* `Variable.Sheds`, `Environment.Sheds`: what becomes of a variable makes it no candidate.

## Main results

* `Environment.Sheds.tally_le`: what becomes of variables adds no candidates.
* `Environment.tally_write`: a variable that is written to was a candidate, or could have been one.
-/

namespace Pictograph

/-- What is counted: variables of an origin, if they are frames' own. -/
structure Tally (o : Origin) where
  /-- Whether a variable counts that was written to. -/
  written : Bool
  /-- Which slots of the frame are those of its own variables. -/
  isOwn : Nat → Bool

namespace Tally

variable {o : Origin}

/-- All variables of an origin count, or all that were not written to. -/
def all (o : Origin) (written : Bool) : Tally o := ⟨written, fun _ ↦ true⟩

variable (T : Tally o)

/-- Whether a variable counts, if it is a frame's own. -/
def counts (v : Variable) : Bool :=
  v.comesFrom o && !v.isFrozen && (T.written || !v.isMutated)

/-- How many variables of a scope count. -/
def ofScope (s : Scope) : Nat := s.declared.countP T.counts

/-- How many variables of the scope of a body count. -/
def ofBody (s : Scope) : Nat := s.declared.countP fun v ↦ T.counts v && T.isOwn v.slot

/-- How many variables of nested scopes count. The last one is the scope of the body. -/
def ofScopes : Scope → List Scope → Nat
  | s, [] => T.ofBody s
  | s, t :: outer => T.ofScope s + ofScopes t outer

end Tally

/-- How many variables in reach count. -/
def Environment.tally {o : Origin} (T : Tally o) (e : Environment) : Nat :=
  T.ofScopes e.current e.outer

variable {o : Origin} {T : Tally o}

/-! ## Variables -/

/-- A variable became another one, in the same slot, that is a candidate only if it was one. -/
structure Variable.Sheds (v v' : Variable) : Prop where
  slot : v'.slot = v.slot
  counts : ∀ {o : Origin} (T : Tally o), T.counts v' → T.counts v

namespace Variable

variable {v w : Variable}

theorem counts_of_isFrozen (h : v.isFrozen) : T.counts v = false := by
  rw [Tally.counts, h, Bool.not_true, Bool.and_false, Bool.false_and]

theorem comesFrom_of_counts (h : T.counts v) : v.comesFrom o :=
  (Bool.and_eq_true_iff.mp (Bool.and_eq_true_iff.mp h).1).1

/-- A variable counts that was not written to, if it counts once it was. -/
theorem counts_written (written : Bool) (h : (Tally.all o false).counts v) :
    (Tally.all o written).counts v := by
  obtain ⟨hfree, hwritten⟩ := Bool.and_eq_true_iff.mp h
  exact Bool.and_eq_true_iff.mpr ⟨hfree, Bool.or_eq_true_iff.mpr (.inr hwritten)⟩

namespace Sheds

theorem refl (v : Variable) : v.Sheds v := ⟨rfl, fun _ h ↦ h⟩

theorem settle (v : Variable) : v.Sheds v.settle := by
  unfold Variable.settle
  split <;> exact ⟨rfl, fun _ h ↦ h⟩

theorem shift (delta : Int) (v : Variable) : v.Sheds (v.shift delta) := by
  unfold Variable.shift
  split <;> exact ⟨rfl, fun _ h ↦ h⟩

end Sheds

/-- A variable that is written to counts only where this makes no difference. -/
theorem counts_mutate {p : Span} (h : v.mutate p = .ok w) :
    v.isFrozen = false ∧ w = { v with isMutated := true } := by
  unfold mutate at h
  split at h
  · cases h
  · next hfree =>
    cases h
    exact ⟨eq_false_of_ne_true hfree, rfl⟩

theorem sheds_mutate {p : Span} (h : v.mutate p = .ok w) : v.Sheds w := by
  obtain ⟨-, rfl⟩ := counts_mutate h
  refine ⟨rfl, fun _ hw ↦ ?_⟩
  obtain ⟨hfree, hwritten⟩ := Bool.and_eq_true_iff.mp hw
  refine Bool.and_eq_true_iff.mpr ⟨hfree, Bool.or_eq_true_iff.mpr (.inl ?_)⟩
  exact (Bool.or_eq_true_iff.mp hwritten).resolve_right nofun

end Variable

/-! ## Scopes -/

/-- What became of the variables of a scope. -/
def Scope.Sheds (s s' : Scope) : Prop := List.Forall₂ Variable.Sheds s.declared s'.declared

theorem countP_le_of_forall₂ {α : Type} {R : α → α → Prop} {p : α → Bool} {l l' : List α}
    (h : List.Forall₂ R l l') (hp : ∀ a b, R a b → p b → p a) : l'.countP p ≤ l.countP p := by
  induction h with
  | nil => exact Nat.le_refl _
  | @cons a b l l' hab _ ih =>
    rw [List.countP_cons, List.countP_cons]
    refine Nat.add_le_add ih ?_
    split
    · next hb => exact Nat.le_of_eq (if_pos (hp a b hab hb)).symm
    · exact Nat.zero_le _

namespace Scope.Sheds

variable {s s' : Scope}

theorem refl (s : Scope) : s.Sheds s := List.forall₂_same.mpr fun v _ ↦ .refl v

theorem ofScope_le (h : s.Sheds s') : T.ofScope s' ≤ T.ofScope s :=
  countP_le_of_forall₂ h fun _ _ hv ↦ hv.counts T

theorem ofBody_le (h : s.Sheds s') : T.ofBody s' ≤ T.ofBody s := by
  refine countP_le_of_forall₂ h fun v v' hv hcounts ↦ ?_
  obtain ⟨hcounts, hown⟩ := Bool.and_eq_true_iff.mp hcounts
  rw [hv.slot] at hown
  exact Bool.and_eq_true_iff.mpr ⟨hv.counts T hcounts, hown⟩

end Scope.Sheds

/-! ## Environments -/

/-- What became of the local variables in reach. -/
def Environment.Sheds (e e' : Environment) : Prop := List.Forall₂ Scope.Sheds e.locals e'.locals

namespace Environment

variable {e e' : Environment} {v w : Variable}

namespace Sheds

theorem refl (e : Environment) : e.Sheds e := List.forall₂_same.mpr fun s _ ↦ .refl s

theorem withLocals {l : List Scope} (h : List.Forall₂ Scope.Sheds e.locals l) :
    e.Sheds (e.withLocals l) := by
  rw [Environment.Sheds, locals_withLocals (by rintro rfl; cases h)]
  exact h

theorem ofScopes_le {s s' : Scope} {outer outer' : List Scope} (hs : s.Sheds s')
    (h : List.Forall₂ Scope.Sheds outer outer') : T.ofScopes s' outer' ≤ T.ofScopes s outer := by
  induction h generalizing s s' with
  | nil => exact hs.ofBody_le
  | cons ht _ ih => exact Nat.add_le_add hs.ofScope_le (ih ht)

/-- **What becomes of variables adds no candidates.** -/
theorem tally_le (h : e.Sheds e') : e'.tally T ≤ e.tally T := by
  cases h with
  | cons hs h => exact ofScopes_le hs h

theorem shift (e : Environment) (delta : Int) (withFields : Bool) :
    e.Sheds (e.shift delta withFields) := by
  have hlocals : (e.shift delta withFields).locals = e.locals.map (·.shift delta) := rfl
  rw [Environment.Sheds, hlocals, List.forall₂_map_right_iff]
  refine List.forall₂_same.mpr fun s _ ↦ List.forall₂_map_right_iff.mpr ?_
  exact List.forall₂_same.mpr fun v _ ↦ .shift delta v

theorem settle (e : Environment) (slot : Slot) : e.Sheds (e.settle slot) := by
  unfold Environment.settle
  split
  · exact withLocals (forall₂_updateFirst .refl fun s _ ↦
      forall₂_updateFirst .refl fun v _ ↦ .settle v)
  · exact refl e

theorem update {x : String} {f : Variable → Variable}
    (h : ∀ v, e.resolve? x = some (.frame, v) → v.Sheds (f v)) : e.Sheds (e.update x f) := by
  unfold Environment.update
  split
  · exact withLocals (forall₂_updateFirst .refl fun s hs ↦
      forall₂_updateFirst .refl fun v hv ↦ h v (resolve?_of_find?_locals hs hv))
  · exact refl e

end Sheds

theorem tally_foldl_settle (slots : List Slot) (e : Environment) :
    (slots.foldl Environment.settle e).tally T ≤ e.tally T := by
  induction slots generalizing e with
  | nil => exact Nat.le_refl _
  | cons slot slots ih => exact Nat.le_trans (ih _) (Sheds.settle e slot).tally_le

theorem tally_push (e : Environment) : (e.push .empty).tally T = e.tally T :=
  Nat.zero_add _

/-- What is left with a block counted in it. -/
theorem tally_pop? {left : Scope} (h : e.pop? = some (left, e')) :
    e.tally T = T.ofScope left + e'.tally T := by
  obtain ⟨current, outer, fields⟩ := e
  cases outer with
  | nil => cases h
  | cons s outer =>
    cases h
    rfl

theorem tally_start (fields : Option Scope) : (start fields).tally T = 0 := rfl

/-! ### Declarations -/

theorem ofScopes_append (s : Scope) (outer : List Scope) (v : Variable) :
    T.ofScopes ⟨s.declared ++ [v]⟩ outer ≤ T.ofScopes s outer + if T.counts v then 1 else 0 := by
  have hscope : T.ofScope ⟨s.declared ++ [v]⟩ = T.ofScope s + if T.counts v then 1 else 0 := by
    rw [Tally.ofScope, List.countP_append, List.countP_singleton, Tally.ofScope]
  have hbody : T.ofBody ⟨s.declared ++ [v]⟩
      = T.ofBody s + if T.counts v && T.isOwn v.slot then 1 else 0 := by
    rw [Tally.ofBody, List.countP_append, List.countP_singleton, Tally.ofBody]
  cases outer with
  | nil =>
    rw [Tally.ofScopes, Tally.ofScopes, hbody]
    cases T.counts v <;> cases T.isOwn v.slot <;> simp
  | cons t outer =>
    rw [Tally.ofScopes, Tally.ofScopes, hscope]
    omega

/-- One candidate more at most is declared. -/
theorem tally_declare (h : e.declare v = .ok e') :
    e'.tally T ≤ e.tally T + if T.counts v then 1 else 0 := by
  rw [eq_of_declare h]
  exact ofScopes_append _ _ _

/-! ### Writing -/

theorem tally_all (o : Origin) (written : Bool) (e : Environment) :
    e.tally (.all o written) = (e.stored .frame).countP (Tally.all o written).counts := by
  have hscopes (s : Scope) (outer : List Scope) : (Tally.all o written).ofScopes s outer
      = ((s :: outer).flatMap (·.declared)).countP (Tally.all o written).counts := by
    induction outer generalizing s with
    | nil =>
      rw [Tally.ofScopes, Tally.ofBody, List.flatMap_cons, List.flatMap_nil, List.append_nil]
      exact List.countP_congr fun v _ ↦ by rw [Tally.all, Bool.and_true]
    | cons t outer ih =>
      have hcons : (s :: t :: outer).flatMap (·.declared)
          = s.declared ++ (t :: outer).flatMap (·.declared) := List.flatMap_cons
      rw [Tally.ofScopes, ih, hcons, List.countP_append, Tally.ofScope]
  exact hscopes e.current e.outer

theorem tally_all_le (o : Origin) (e : Environment) :
    e.tally (.all o false) ≤ e.tally (.all o true) := by
  rw [tally_all, tally_all]
  exact List.countP_mono_left fun _ _ ↦ Variable.counts_written true

theorem countP_updateFirst_lt {α : Type} {p p' test : α → Bool} {f : α → α} {l : List α} {a : α}
    (hp : ∀ b, p b → p' b) (hfind : l.find? test = some a) (ha : p' a) (hf : p (f a) = false) :
    (updateFirst test f l).countP p < l.countP p' := by
  induction l with
  | nil => cases hfind
  | cons b l ih =>
    rw [updateFirst]
    by_cases hb : test b
    · rw [List.find?_cons_of_pos hb] at hfind
      cases hfind
      rw [if_pos hb, List.countP_cons, List.countP_cons, hf, ha, if_neg Bool.false_ne_true,
        if_pos rfl]
      exact Nat.lt_succ_of_le (List.countP_mono_left fun b _ ↦ hp b)
    · rw [List.find?_cons_of_neg hb] at hfind
      rw [if_neg hb, List.countP_cons, List.countP_cons]
      have hle : (if p b then 1 else 0) ≤ if p' b then 1 else 0 := by
        split
        · next h => exact Nat.le_of_eq (if_pos (hp b h)).symm
        · exact Nat.zero_le _
      exact Nat.add_lt_add_of_lt_of_le (ih hfind) hle

/-- **A variable that is written to is no candidate any more**, and could have been one. -/
theorem tally_write {x : String} {p : Span}
    (hx : e.resolve? x = some (.frame, v)) (hw : v.mutate p = .ok w) (ho : v.comesFrom o) :
    (e.update x fun _ ↦ w).tally (.all o false) < e.tally (.all o true) := by
  obtain ⟨hfree, rfl⟩ := Variable.counts_mutate hw
  rw [tally_all, tally_all, stored_update hx, if_pos rfl]
  refine countP_updateFirst_lt (fun _ ↦ Variable.counts_written true) (resolve?_eq_some.mp hx).1
    ?_ ?_
  · rw [Tally.counts, hfree]
    exact (Bool.and_true _).trans ((Bool.and_true _).trans ho)
  · exact Bool.and_false _

end Environment

end Pictograph
