import Pictograph.Scope.Environment
import Mathlib.Data.List.Forall2
import Mathlib.Data.List.Nodup

/-!
# How variables evolve

While code is analysed, a variable keeps its name, its type and its slot, and its counter changes in
one way only: a variable without a value may get one. Scopes keep their variables, and only the
innermost one gets new ones. Blocks that may be skipped do not disturb this, because leaving a block
undoes what entering it did.

## Main definitions

* `Variable.Evolves`, `Scope.Evolves`: what may happen to a variable and to a scope further out.
* `Scope.Grows`, `Environment.Grows`: what may happen to the innermost scope and to an environment.
* `Environment.Holds`: a variable is within reach.

## Main results

* `Environment.Grows.trans`, `Environment.Grows.leave` and `Environment.Grows.shift`: an environment
  evolves step by step, through a scope and through a block that may be skipped.
* `Environment.Grows.ready_of_shift`: what has a value behind such a block had one in front of it.
* `Environment.Distinct.grows`: variables stay in slots of their own.
-/

namespace Pictograph

/-! ## Changing the first match -/

theorem mem_updateFirst {α : Type} {test : α → Bool} {f : α → α} {l : List α} {b : α}
    (h : b ∈ updateFirst test f l) : b ∈ l ∨ ∃ a, l.find? test = some a ∧ b = f a := by
  induction l with
  | nil => exact .inl h
  | cons a l ih =>
    rw [updateFirst] at h
    by_cases ha : test a
    · rw [if_pos ha] at h
      rcases List.mem_cons.mp h with rfl | h
      · exact .inr ⟨a, List.find?_cons_of_pos ha, rfl⟩
      · exact .inl (List.mem_cons_of_mem _ h)
    · rw [if_neg ha] at h
      rw [List.find?_cons_of_neg ha]
      rcases List.mem_cons.mp h with rfl | h
      · exact .inl List.mem_cons_self
      · exact (ih h).imp_left (List.mem_cons_of_mem _)

theorem find?_updateFirst {α : Type} {test : α → Bool} {f : α → α} (hf : ∀ a, test a → test (f a))
    (l : List α) : (updateFirst test f l).find? test = (l.find? test).map f := by
  induction l with
  | nil => rfl
  | cons a l ih =>
    rw [updateFirst]
    by_cases ha : test a
    · rw [if_pos ha, List.find?_cons_of_pos (hf a ha), List.find?_cons_of_pos ha, Option.map_some]
    · rw [if_neg ha, List.find?_cons_of_neg ha, List.find?_cons_of_neg ha, ih]

theorem forall₂_updateFirst {α : Type} {R : α → α → Prop} (refl : ∀ a, R a a)
    {test : α → Bool} {f : α → α} {l : List α} (h : ∀ a, l.find? test = some a → R a (f a)) :
    List.Forall₂ R l (updateFirst test f l) := by
  induction l with
  | nil => exact .nil
  | cons a l ih =>
    rw [updateFirst]
    by_cases ha : test a
    · rw [if_pos ha]
      exact .cons (h a (List.find?_cons_of_pos ha)) (List.forall₂_same.mpr fun b _ ↦ refl b)
    · rw [if_neg ha]
      refine .cons (refl a) (ih fun b hb ↦ h b ?_)
      rwa [List.find?_cons_of_neg ha]

/-- An element of a list is related to one of the other list. -/
theorem exists_mem_of_forall₂_left {α β : Type} {R : α → β → Prop} {l : List α} {l' : List β}
    (h : List.Forall₂ R l l') {a : α} (ha : a ∈ l) : ∃ b ∈ l', R a b := by
  induction h with
  | nil => exact absurd ha List.not_mem_nil
  | cons hab _ ih =>
    rcases List.mem_cons.mp ha with rfl | ha
    · exact ⟨_, List.mem_cons_self, hab⟩
    · obtain ⟨b, hb, hr⟩ := ih ha
      exact ⟨b, List.mem_cons_of_mem _ hb, hr⟩

/-- An element of the other list is related to one of a list. -/
theorem exists_mem_of_forall₂ {α : Type} {R : α → α → Prop} {l l' : List α}
    (h : List.Forall₂ R l l') {b : α} (hb : b ∈ l') : ∃ a ∈ l, R a b := by
  induction h with
  | nil => exact absurd hb List.not_mem_nil
  | cons hab _ ih =>
    rcases List.mem_cons.mp hb with rfl | hb
    · exact ⟨_, List.mem_cons_self, hab⟩
    · obtain ⟨a, ha, hr⟩ := ih hb
      exact ⟨a, List.mem_cons_of_mem _ ha, hr⟩

/-! ## Variables -/

/-- What may happen to a variable: it may be written, and if it has no value it may get one. -/
structure Variable.Evolves (v v' : Variable) : Prop where
  name : v'.name = v.name
  type : v'.type = v.type
  slot : v'.slot = v.slot
  isFrozen : v'.isFrozen = v.isFrozen
  readiness : v'.readiness = v.readiness
    ∨ v.readiness ≤ 0 ∧ 0 ≤ v'.readiness ∧ v'.readiness ≤ 1

namespace Variable

variable {v v' v'' : Variable}

theorem isReady_iff : v.isReady ↔ 0 < v.readiness := decide_eq_true_iff

@[simp] theorem settle_slot (v : Variable) : v.settle.slot = v.slot := by
  unfold settle; split <;> rfl

@[simp] theorem settle_name (v : Variable) : v.settle.name = v.name := by
  unfold settle; split <;> rfl

@[simp] theorem shift_slot (delta : Int) (v : Variable) : (v.shift delta).slot = v.slot := by
  unfold shift; split <;> rfl

@[simp] theorem shift_type (delta : Int) (v : Variable) : (v.shift delta).type = v.type := by
  unfold shift; split <;> rfl

@[simp] theorem shift_name (delta : Int) (v : Variable) : (v.shift delta).name = v.name := by
  unfold shift; split <;> rfl

@[simp] theorem shift_isFrozen (delta : Int) (v : Variable) :
    (v.shift delta).isFrozen = v.isFrozen := by
  unfold shift; split <;> rfl

theorem shift_readiness (delta : Int) (v : Variable) :
    (v.shift delta).readiness
      = if 0 < v.readiness then v.readiness + delta else v.readiness := by
  unfold shift; split <;> rfl

namespace Evolves

theorem refl (v : Variable) : v.Evolves v := ⟨rfl, rfl, rfl, rfl, .inl rfl⟩

theorem trans (h : v.Evolves v') (h' : v'.Evolves v'') : v.Evolves v'' where
  name := h'.name.trans h.name
  type := h'.type.trans h.type
  slot := h'.slot.trans h.slot
  isFrozen := h'.isFrozen.trans h.isFrozen
  readiness := by
    have hr := h.readiness
    have hr' := h'.readiness
    omega

theorem settle (v : Variable) : v.Evolves v.settle := by
  unfold Variable.settle
  split
  · next h => exact ⟨rfl, rfl, rfl, rfl, .inr ⟨h, Int.zero_le_ofNat 1, Int.le_refl 1⟩⟩
  · exact refl v

/-- Leaving a conditional block undoes entering it. -/
theorem shift (h : (v.shift 1).Evolves v') : v.Evolves (v'.shift (-1)) where
  name := by rw [shift_name, h.name, shift_name]
  type := by rw [shift_type, h.type, shift_type]
  slot := by rw [shift_slot, h.slot, shift_slot]
  isFrozen := by rw [shift_isFrozen, h.isFrozen, shift_isFrozen]
  readiness := by
    have hr := h.readiness
    rw [shift_readiness] at hr
    rw [shift_readiness]
    split at hr <;> split <;> omega

/-- A variable that has a value behind a conditional block had one in front of it. -/
theorem isReady_of_shift (h : (v.shift 1).Evolves v') (hr : (v'.shift (-1)).isReady) :
    v.isReady := by
  have he := h.readiness
  rw [isReady_iff, shift_readiness] at hr
  rw [shift_readiness] at he
  rw [isReady_iff]
  split at hr <;> split at he <;> omega

end Evolves

theorem mutate_evolves {span : Span} (h : v.mutate span = .ok v') : v.Evolves v' := by
  unfold mutate at h
  split at h
  · cases h
  · cases h
    exact ⟨rfl, rfl, rfl, rfl, .inl rfl⟩

theorem mutate_isReady {span : Span} (h : v.mutate span = .ok v') : v'.isReady = v.isReady := by
  unfold mutate at h
  split at h
  · cases h
  · cases h
    rfl

end Variable

/-! ## Scopes -/

/-- What may happen to a scope that gets no new variables. -/
def Scope.Evolves (s s' : Scope) : Prop :=
  List.Forall₂ Variable.Evolves s.declared s'.declared

/-- What may happen to a scope: its variables evolve, and it gets new ones with slots of their own
between two bounds. -/
def Scope.Grows (lo hi : Nat) (s s' : Scope) : Prop :=
  ∃ old new, s'.declared = old ++ new ∧ List.Forall₂ Variable.Evolves s.declared old
    ∧ (∀ v ∈ new, lo ≤ v.slot ∧ v.slot < hi ∧ 0 ≤ v.readiness ∧ v.readiness ≤ 1)
    ∧ (new.map (·.slot)).Nodup

theorem forall₂_evolves_trans {l l' l'' : List Variable}
    (h : List.Forall₂ Variable.Evolves l l') (h' : List.Forall₂ Variable.Evolves l' l'') :
    List.Forall₂ Variable.Evolves l l'' := by
  induction h generalizing l'' with
  | nil => exact h'
  | cons hv _ ih =>
    cases h' with
    | cons hv' h' => exact .cons (hv.trans hv') (ih h')

theorem map_slot_of_evolves {l l' : List Variable} (h : List.Forall₂ Variable.Evolves l l') :
    l'.map (·.slot) = l.map (·.slot) := by
  induction h with
  | nil => rfl
  | cons hv _ ih => rw [List.map_cons, List.map_cons, ih, hv.slot]

/-- The two parts of a list evolve one by one. -/
theorem evolves_append_split {l₁ l₂ l' : List Variable}
    (h : List.Forall₂ Variable.Evolves (l₁ ++ l₂) l') :
    ∃ l₁' l₂', l' = l₁' ++ l₂' ∧ List.Forall₂ Variable.Evolves l₁ l₁'
      ∧ List.Forall₂ Variable.Evolves l₂ l₂' := by
  induction l₁ generalizing l' with
  | nil => exact ⟨[], l', rfl, .nil, h⟩
  | cons v l₁ ih =>
    cases h with
    | cons hv h =>
      obtain ⟨l₁', l₂', rfl, h₁, h₂⟩ := ih h
      exact ⟨_ :: l₁', l₂', rfl, .cons hv h₁, h₂⟩

namespace Scope

variable {s s' s'' : Scope} {lo mid hi : Nat}

theorem Evolves.refl (s : Scope) : s.Evolves s :=
  List.forall₂_same.mpr fun v _ ↦ .refl v

theorem Evolves.trans (h : s.Evolves s') (h' : s'.Evolves s'') : s.Evolves s'' :=
  forall₂_evolves_trans h h'

theorem Evolves.grows (h : s.Evolves s') : s.Grows lo hi s' :=
  ⟨s'.declared, [], (List.append_nil _).symm, h, fun _ hv ↦ absurd hv List.not_mem_nil,
    List.nodup_nil⟩

theorem Grows.refl (lo hi : Nat) (s : Scope) : s.Grows lo hi s := (Evolves.refl s).grows

theorem Grows.trans (h : s.Grows lo mid s') (h' : s'.Grows mid hi s'') (hl : lo ≤ mid)
    (hh : mid ≤ hi) : s.Grows lo hi s'' := by
  obtain ⟨old, new, e, ho, hn, hd⟩ := h
  obtain ⟨old', new', e', ho', hn', hd'⟩ := h'
  rw [e] at ho'
  -- what is old for the second step is old or new for the first
  obtain ⟨old₁, new₁, rfl, hold, hnew⟩ := evolves_append_split ho'
  refine ⟨old₁, new₁ ++ new', by rw [e', List.append_assoc], forall₂_evolves_trans ho hold, ?_, ?_⟩
  · intro v hv
    rcases List.mem_append.mp hv with hv | hv
    · obtain ⟨w, hw, he⟩ := exists_mem_of_forall₂ hnew hv
      have hb := hn w hw
      have hs := he.slot
      have hr := he.readiness
      omega
    · have hb := hn' v hv
      omega
  · rw [List.map_append, map_slot_of_evolves hnew]
    refine List.nodup_append.mpr ⟨hd, hd', fun slot h₁ slot' h₂ e ↦ ?_⟩
    obtain ⟨v, hv, rfl⟩ := List.mem_map.mp h₁
    obtain ⟨w, hw, rfl⟩ := List.mem_map.mp h₂
    have hb := hn v hv
    have hb' := hn' w hw
    omega

/-- A declaration adds a variable behind the others. Its slot was handed out before theirs. -/
theorem Grows.declare {v : Variable} (h : s.Grows mid hi s') (hd : s'.declare v = .ok s'')
    (hl : lo ≤ v.slot) (hm : v.slot < mid) (hh : mid ≤ hi)
    (hr : 0 ≤ v.readiness ∧ v.readiness ≤ 1) : s.Grows lo hi s'' := by
  obtain ⟨old, new, e, ho, hn, hnd⟩ := h
  unfold Scope.declare at hd
  split at hd
  · cases hd
  · cases hd
    refine ⟨old, new ++ [v], by rw [e, List.append_assoc], ho, fun w hw ↦ ?_, ?_⟩
    · rcases List.mem_append.mp hw with hw | hw
      · have hb := hn w hw
        omega
      · rw [List.mem_singleton] at hw
        subst hw
        omega
    · rw [List.map_append]
      refine List.nodup_append.mpr ⟨hnd, List.nodup_singleton _, fun slot h₁ slot' h₂ heq ↦ ?_⟩
      obtain ⟨w, hw, rfl⟩ := List.mem_map.mp h₁
      rw [List.map_singleton, List.mem_singleton] at h₂
      have hb := hn w hw
      omega

theorem evolves_update {x : String} {f : Variable → Variable}
    (h : ∀ v, s.find? x = some v → v.Evolves (f v)) : s.Evolves (s.update x f) :=
  forall₂_updateFirst .refl h

theorem evolves_updateSlot (id : Nat) {f : Variable → Variable}
    (h : ∀ v : Variable, v.Evolves (f v)) :
    s.Evolves (s.updateSlot id f) :=
  forall₂_updateFirst .refl fun v _ ↦ h v

/-- Settling a slot changes at most one variable, which has that slot. -/
theorem mem_of_updateSlot {id : Nat} {v' : Variable}
    (h : v' ∈ (s.updateSlot id Variable.settle).declared) :
    v' ∈ s.declared ∨ v'.slot = id ∧ ∃ v ∈ s.declared, v.Evolves v' := by
  rcases mem_updateFirst h with h | ⟨v, hv, rfl⟩
  · exact .inl h
  · have hslot := List.find?_some hv
    refine .inr ⟨?_, v, List.mem_of_find?_eq_some hv, .settle v⟩
    rw [Variable.settle_slot]
    exact eq_of_beq hslot

/-- A variable of a scope that grew is an old one or a new one. -/
theorem Grows.mem {v' : Variable} (h : s.Grows lo hi s') (hv : v' ∈ s'.declared) :
    (∃ v ∈ s.declared, v.Evolves v') ∨ lo ≤ v'.slot ∧ v'.slot < hi ∧ v'.readiness ≤ 1 := by
  obtain ⟨old, new, e, ho, hn, -⟩ := h
  rw [e] at hv
  rcases List.mem_append.mp hv with hv | hv
  · exact .inl (exists_mem_of_forall₂ ho hv)
  · obtain ⟨hl, hh, -, hr⟩ := hn v' hv
    exact .inr ⟨hl, hh, hr⟩

theorem forall₂_shift {l l' : List Variable}
    (h : List.Forall₂ Variable.Evolves (l.map (·.shift 1)) l') :
    List.Forall₂ Variable.Evolves l (l'.map (·.shift (-1))) := by
  rw [List.forall₂_map_right_iff]
  rw [List.forall₂_map_left_iff] at h
  exact h.imp fun _ _ hv ↦ hv.shift

/-- Leaving a conditional block undoes entering it. -/
theorem Evolves.shift (h : (s.shift 1).Evolves s') : s.Evolves (s'.shift (-1)) := forall₂_shift h

/-- Leaving a conditional block undoes entering it, also where variables were declared in it. -/
theorem Grows.shift (h : (s.shift 1).Grows lo hi s') : s.Grows lo hi (s'.shift (-1)) := by
  obtain ⟨old, new, e, ho, hn, hd⟩ := h
  refine ⟨old.map (·.shift (-1)), new.map (·.shift (-1)), ?_, forall₂_shift ho, ?_, ?_⟩
  · rw [Scope.shift, e, List.map_append]
  · intro v hv
    obtain ⟨w, hw, rfl⟩ := List.mem_map.mp hv
    have hb := hn w hw
    rw [Variable.shift_slot, Variable.shift_readiness]
    split <;> omega
  · have hslot : (new.map (·.shift (-1))).map (·.slot) = new.map (·.slot) := by
      rw [List.map_map]
      exact List.map_congr_left fun v _ ↦ Variable.shift_slot (-1) v
    rwa [hslot]

end Scope

/-! ## Environments -/

/-- A variable is within reach, hidden or not. -/
def Environment.Holds (e : Environment) : Storage → Variable → Prop
  | .frame, v => ∃ s ∈ e.locals, v ∈ s.declared
  | .object, v => ∃ s, e.fields = some s ∧ v ∈ s.declared

/-- What may happen to an environment: all variables evolve, and the innermost scope gets new ones
with slots of their own between two bounds. -/
structure Environment.Grows (lo hi : Nat) (e e' : Environment) : Prop where
  current : e.current.Grows lo hi e'.current
  outer : List.Forall₂ Scope.Evolves e.outer e'.outer
  fields : Option.Rel Scope.Evolves e.fields e'.fields

theorem forall₂_scopes_refl (l : List Scope) : List.Forall₂ Scope.Evolves l l :=
  List.forall₂_same.mpr fun s _ ↦ .refl s

theorem forall₂_scopes_trans {l l' l'' : List Scope} (h : List.Forall₂ Scope.Evolves l l')
    (h' : List.Forall₂ Scope.Evolves l' l'') : List.Forall₂ Scope.Evolves l l'' := by
  induction h generalizing l'' with
  | nil => exact h'
  | cons hs _ ih =>
    cases h' with
    | cons hs' h' => exact .cons (hs.trans hs') (ih h')

/-- The slots of the variables in scopes stay the same. -/
theorem map_slot_of_scopes {l l' : List Scope} (h : List.Forall₂ Scope.Evolves l l') :
    (l'.flatMap (·.declared)).map (·.slot) = (l.flatMap (·.declared)).map (·.slot) := by
  induction h with
  | nil => rfl
  | cons hs _ ih =>
    rw [List.flatMap_cons, List.flatMap_cons, List.map_append, List.map_append, ih,
      map_slot_of_evolves hs]

theorem exists_of_rel_left {α β : Type} {R : α → β → Prop} {a : α} {b? : Option β}
    (h : Option.Rel R (some a) b?) : ∃ b, b? = some b ∧ R a b := by
  cases h with
  | some h => exact ⟨_, rfl, h⟩

theorem exists_of_rel_right {α β : Type} {R : α → β → Prop} {a? : Option α} {b : β}
    (h : Option.Rel R a? (some b)) : ∃ a, a? = some a ∧ R a b := by
  cases h with
  | some h => exact ⟨_, rfl, h⟩

theorem fields_refl (fields : Option Scope) : Option.Rel Scope.Evolves fields fields := by
  cases fields with
  | none => exact .none
  | some s => exact .some (.refl s)

theorem fields_trans {f f' f'' : Option Scope} (h : Option.Rel Scope.Evolves f f')
    (h' : Option.Rel Scope.Evolves f' f'') : Option.Rel Scope.Evolves f f'' := by
  cases h with
  | none => exact h'
  | some h =>
    cases h' with
    | some h' => exact .some (h.trans h')

theorem fields_shift {f f' : Option Scope}
    (h : Option.Rel Scope.Evolves (f.map (·.shift 1)) f') :
    Option.Rel Scope.Evolves f (f'.map (·.shift (-1))) := by
  cases f with
  | none =>
    cases h
    exact .none
  | some s =>
    obtain ⟨s', rfl, hs⟩ := exists_of_rel_left h
    exact .some hs.shift

namespace Environment

variable {e e' e'' : Environment} {lo mid hi : Nat} {st : Storage} {v v' : Variable}

/-! ### Growth -/

namespace Grows

theorem refl (lo hi : Nat) (e : Environment) : e.Grows lo hi e :=
  ⟨.refl lo hi e.current, forall₂_scopes_refl e.outer, fields_refl e.fields⟩

theorem trans (h : e.Grows lo mid e') (h' : e'.Grows mid hi e'') (hl : lo ≤ mid)
    (hh : mid ≤ hi) : e.Grows lo hi e'' :=
  ⟨h.current.trans h'.current hl hh, forall₂_scopes_trans h.outer h'.outer,
    fields_trans h.fields h'.fields⟩

theorem exists_fields (h : e.Grows lo hi e') {s' : Scope} (hs : e'.fields = some s') :
    ∃ s, e.fields = some s ∧ s.Evolves s' := by
  have hf := h.fields
  rw [hs] at hf
  exact exists_of_rel_right hf

/-- A variable behind a change is one of those before it or a new one. -/
theorem holds (h : e.Grows lo hi e') (hv : e'.Holds st v') :
    (∃ v, e.Holds st v ∧ v.Evolves v')
      ∨ st = .frame ∧ lo ≤ v'.slot ∧ v'.slot < hi ∧ v'.readiness ≤ 1 := by
  cases st with
  | frame =>
    obtain ⟨s', hs, hv⟩ := hv
    rcases List.mem_cons.mp hs with rfl | hs
    · rcases h.current.mem hv with ⟨v, hm, he⟩ | hb
      · exact .inl ⟨v, ⟨e.current, List.mem_cons_self, hm⟩, he⟩
      · exact .inr ⟨rfl, hb⟩
    · obtain ⟨s, hm, hs⟩ := exists_mem_of_forall₂ h.outer hs
      obtain ⟨v, hv, he⟩ := exists_mem_of_forall₂ hs hv
      exact .inl ⟨v, ⟨s, List.mem_cons_of_mem _ hm, hv⟩, he⟩
  | object =>
    obtain ⟨s', hs, hv⟩ := hv
    obtain ⟨s, hf, he⟩ := h.exists_fields hs
    obtain ⟨v, hv, he⟩ := exists_mem_of_forall₂ he hv
    exact .inl ⟨v, ⟨s, hf, hv⟩, he⟩

end Grows

/-! ### Names -/

theorem holds_of_find? {x : String} {s : Scope} (h : s.find? x = some v) : v ∈ s.declared :=
  List.mem_of_find?_eq_some h

theorem contains_iff_find? {x : String} {s : Scope} : s.contains x ↔ ∃ v, s.find? x = some v := by
  rw [Scope.contains, Scope.find?, List.any_eq_true, ← Option.isSome_iff_exists, List.find?_isSome]

/-- The scope that a name is found in is the first one that declares it. -/
theorem findSome?_locals {x : String} {l : List Scope} (h : l.findSome? (·.find? x) = some v) :
    ∃ s, l.find? (·.contains x) = some s ∧ s.find? x = some v := by
  induction l with
  | nil => cases h
  | cons s l ih =>
    rw [List.findSome?_cons] at h
    cases hs : s.find? x with
    | some w =>
      rw [hs] at h
      cases h
      exact ⟨s, List.find?_cons_of_pos (contains_iff_find?.mpr ⟨_, hs⟩), hs⟩
    | none =>
      rw [hs] at h
      obtain ⟨s', hf, hv⟩ := ih h
      refine ⟨s', ?_, hv⟩
      rw [List.find?_cons_of_neg, hf]
      rintro hc
      obtain ⟨w, hw⟩ := contains_iff_find?.mp hc
      rw [hs] at hw
      cases hw

/-- What a name refers to is within reach. -/
theorem holds_of_resolve? {x : String} (h : e.resolve? x = some (st, v)) : e.Holds st v := by
  unfold resolve? at h
  split at h
  · next w hw =>
    cases h
    obtain ⟨s, hs, hv⟩ := List.exists_of_findSome?_eq_some hw
    exact ⟨s, hs, holds_of_find? hv⟩
  · obtain ⟨w, hw, hv⟩ := Option.map_eq_some_iff.mp h
    cases hv
    obtain ⟨s, hs, hv⟩ := Option.bind_eq_some_iff.mp hw
    exact ⟨s, hs, holds_of_find? hv⟩

/-! ### Changing a variable -/

theorem locals_ne_nil (e : Environment) : e.locals ≠ [] := List.cons_ne_nil _ _

@[simp] theorem locals_withLocals {l : List Scope} (h : l ≠ []) : (e.withLocals l).locals = l := by
  cases l with
  | nil => exact absurd rfl h
  | cons s l => rfl

@[simp] theorem fields_withLocals (e : Environment) (l : List Scope) :
    (e.withLocals l).fields = e.fields := by
  cases l <;> rfl

theorem grows_withLocals {l : List Scope} (h : List.Forall₂ Scope.Evolves e.locals l) :
    e.Grows lo hi (e.withLocals l) := by
  cases h with
  | cons hs h => exact ⟨hs.grows, h, fields_refl e.fields⟩

theorem updateFirst_ne_nil {α : Type} {test : α → Bool} {f : α → α} {l : List α} (h : l ≠ []) :
    updateFirst test f l ≠ [] := by
  cases l with
  | nil => exact absurd rfl h
  | cons a l => rw [updateFirst]; split <;> exact List.cons_ne_nil _ _

theorem resolve?_of_find?_locals {x : String} {s : Scope}
    (hs : e.locals.find? (·.contains x) = some s) (hv : s.find? x = some v) :
    e.resolve? x = some (.frame, v) := by
  have h : e.locals.findSome? (·.find? x) = some v := by
    rw [List.findSome?_eq_some_iff]
    obtain ⟨-, l₁, l₂, e, hl⟩ := List.find?_eq_some_iff_append.mp hs
    refine ⟨l₁, s, l₂, e, hv, fun t ht ↦ ?_⟩
    rw [← Option.not_isSome_iff_eq_none, Option.isSome_iff_exists, ← contains_iff_find?]
    simpa using hl t ht
  rw [resolve?, h]

theorem resolve?_of_fields {x : String} {s : Scope} (hl : ¬ e.locals.any (·.contains x))
    (hs : e.fields = some s) (hv : s.find? x = some v) : e.resolve? x = some (.object, v) := by
  have h : e.locals.findSome? (·.find? x) = none := by
    rw [List.findSome?_eq_none_iff]
    intro s hs
    rw [← Option.not_isSome_iff_eq_none, Option.isSome_iff_exists, ← contains_iff_find?]
    exact fun hc ↦ hl (List.any_eq_true.mpr ⟨s, hs, hc⟩)
  rw [resolve?, h, hs, Option.bind_some, hv, Option.map_some]

theorem fields_of_resolve? {x : String} (h : e.resolve? x = some (.object, v)) :
    ¬ e.locals.any (·.contains x) ∧ ∃ s, e.fields = some s ∧ s.find? x = some v := by
  unfold resolve? at h
  split at h
  · cases h
  · next hn =>
    obtain ⟨w, hw, e⟩ := Option.map_eq_some_iff.mp h
    cases e
    refine ⟨fun hc ↦ ?_, Option.bind_eq_some_iff.mp hw⟩
    obtain ⟨s, hs, hc⟩ := List.any_eq_true.mp hc
    obtain ⟨w, hw⟩ := contains_iff_find?.mp hc
    rw [List.findSome?_eq_none_iff.mp hn s hs] at hw
    cases hw

theorem findSome?_updateFirst {x : String} {f : Variable → Variable}
    (hf : ∀ v, (f v).name = v.name) (l : List Scope) :
    (updateFirst (·.contains x) (·.update x f) l).findSome? (·.find? x)
      = (l.findSome? (·.find? x)).map f := by
  have hs (s : Scope) : (s.update x f).find? x = (s.find? x).map f :=
    find?_updateFirst (fun v hv ↦ by rwa [hf v]) s.declared
  induction l with
  | nil => rfl
  | cons s l ih =>
    rw [updateFirst]
    by_cases hc : s.contains x
    · obtain ⟨v, hv⟩ := contains_iff_find?.mp hc
      rw [if_pos hc, List.findSome?_cons, hs, List.findSome?_cons, hv]
      rfl
    · have hn : s.find? x = none := by
        rw [← Option.not_isSome_iff_eq_none, Option.isSome_iff_exists, ← contains_iff_find?]
        exact hc
      rw [if_neg hc, List.findSome?_cons, List.findSome?_cons, hn]
      exact ih

/-- A name refers to the changed variable behind the change. -/
theorem resolve?_update {x : String} {f : Variable → Variable} (hf : ∀ v, (f v).name = v.name)
    (h : e.resolve? x = some (st, v)) : (e.update x f).resolve? x = some (st, f v) := by
  unfold update
  cases st with
  | frame =>
    have hv : e.locals.findSome? (·.find? x) = some v := by
      unfold resolve? at h
      split at h
      · next w hw =>
        cases h
        exact hw
      · obtain ⟨w, -, hw⟩ := Option.map_eq_some_iff.mp h
        cases hw
    obtain ⟨s, hs, hfind⟩ := findSome?_locals hv
    have hany : e.locals.any (·.contains x) := List.any_eq_true.mpr
      ⟨s, List.mem_of_find?_eq_some hs, contains_iff_find?.mpr ⟨v, hfind⟩⟩
    rw [if_pos hany, resolve?, locals_withLocals (updateFirst_ne_nil e.locals_ne_nil),
      findSome?_updateFirst hf, hv]
    rfl
  | object =>
    obtain ⟨hl, s, hs, hv⟩ := fields_of_resolve? h
    rw [if_neg hl]
    have hfind : (s.update x f).find? x = some (f v) := by
      have hu : (s.update x f).find? x = (s.find? x).map f :=
        find?_updateFirst (fun v hv ↦ by rwa [hf v]) s.declared
      rw [hu, hv]
      rfl
    exact resolve?_of_fields hl (congrArg (Option.map (·.update x f)) hs) hfind

/-- A change of the variable that a name refers to lets the environment evolve if it lets the
variable evolve. -/
theorem grows_update {x : String} {f : Variable → Variable}
    (h : ∀ st v, e.resolve? x = some (st, v) → v.Evolves (f v)) :
    e.Grows lo hi (e.update x f) := by
  unfold update
  split
  · refine grows_withLocals (forall₂_updateFirst .refl fun s hs ↦ Scope.evolves_update ?_)
    exact fun v hv ↦ h .frame v (resolve?_of_find?_locals hs hv)
  · next hl =>
    refine ⟨.refl lo hi _, forall₂_scopes_refl _, ?_⟩
    cases hf : e.fields with
    | none => exact .none
    | some s =>
      refine .some (Scope.evolves_update fun v hv ↦ h .object v ?_)
      exact resolve?_of_fields hl hf hv

/-- Behind a change of a variable, the variables are the same except for that one. -/
theorem holds_of_update {x : String} {f : Variable → Variable}
    (h : (e.update x f).Holds st v') :
    e.Holds st v' ∨ ∃ v, e.resolve? x = some (st, v) ∧ v' = f v := by
  unfold update at h
  split at h
  · cases st with
    | frame =>
      obtain ⟨s', hs, hv⟩ := h
      rw [locals_withLocals (updateFirst_ne_nil e.locals_ne_nil)] at hs
      rcases mem_updateFirst hs with hs | ⟨s, hf, rfl⟩
      · exact .inl ⟨s', hs, hv⟩
      · rcases mem_updateFirst hv with hv | ⟨v, hw, rfl⟩
        · exact .inl ⟨s, List.mem_of_find?_eq_some hf, hv⟩
        · exact .inr ⟨v, resolve?_of_find?_locals hf hw, rfl⟩
    | object =>
      obtain ⟨s, hs, hv⟩ := h
      rw [fields_withLocals] at hs
      exact .inl ⟨s, hs, hv⟩
  · next hl =>
    cases st with
    | frame => exact .inl h
    | object =>
      obtain ⟨s', hs, hv⟩ := h
      obtain ⟨s, hf, rfl⟩ := Option.map_eq_some_iff.mp hs
      rcases mem_updateFirst hv with hv | ⟨v, hw, rfl⟩
      · exact .inl ⟨s, hf, hv⟩
      · exact .inr ⟨v, resolve?_of_fields hl hf hw, rfl⟩

theorem grows_settle (slot : Slot) : e.Grows lo hi (e.settle slot) := by
  unfold settle
  split
  · exact grows_withLocals
      (forall₂_updateFirst .refl fun s _ ↦ Scope.evolves_updateSlot slot.id .settle)
  · refine ⟨.refl lo hi _, forall₂_scopes_refl _, ?_⟩
    cases e.fields with
    | none => exact .none
    | some s => exact .some (Scope.evolves_updateSlot slot.id .settle)

theorem Grows.foldl_settle (slots : List Slot) (e : Environment) :
    e.Grows lo lo (slots.foldl Environment.settle e) := by
  induction slots generalizing e with
  | nil => exact .refl _ _ e
  | cons slot slots ih =>
    exact (grows_settle slot).trans (ih (e.settle slot)) (Nat.le_refl _) (Nat.le_refl _)

/-- Behind the settling of a slot, the variables are the same except for one with that slot. -/
theorem holds_of_settle {slot : Slot} (h : (e.settle slot).Holds st v') :
    e.Holds st v' ∨ slot.storage = st ∧ v'.slot = slot.id ∧ ∃ v, e.Holds st v ∧ v.Evolves v' := by
  unfold settle at h
  split at h
  · next hstorage =>
    cases st with
    | frame =>
      obtain ⟨s', hs, hv⟩ := h
      rw [locals_withLocals (updateFirst_ne_nil e.locals_ne_nil)] at hs
      rcases mem_updateFirst hs with hs | ⟨s, hf, rfl⟩
      · exact .inl ⟨s', hs, hv⟩
      · have hm := List.mem_of_find?_eq_some hf
        rcases Scope.mem_of_updateSlot hv with hv | ⟨hslot, v, hw, he⟩
        · exact .inl ⟨s, hm, hv⟩
        · exact .inr ⟨hstorage, hslot, v, ⟨s, hm, hw⟩, he⟩
    | object =>
      obtain ⟨s, hs, hv⟩ := h
      rw [fields_withLocals] at hs
      exact .inl ⟨s, hs, hv⟩
  · next hstorage =>
    cases st with
    | frame => exact .inl h
    | object =>
      obtain ⟨s', hs, hv⟩ := h
      obtain ⟨s, hf, rfl⟩ := Option.map_eq_some_iff.mp hs
      rcases Scope.mem_of_updateSlot hv with hv | ⟨hslot, v, hw, he⟩
      · exact .inl ⟨s, hf, hv⟩
      · exact .inr ⟨hstorage, hslot, v, ⟨s, hf, hw⟩, he⟩

/-! ### Declarations -/

theorem Grows.declare (h : e.Grows mid hi e') (hd : e'.declare v = .ok e'')
    (hl : lo ≤ v.slot) (hm : v.slot < mid) (hh : mid ≤ hi)
    (hr : 0 ≤ v.readiness ∧ v.readiness ≤ 1) : e.Grows lo hi e'' := by
  unfold Environment.declare at hd
  cases hs : e'.current.declare v with
  | error fault => rw [hs] at hd; cases hd
  | ok s =>
    rw [hs] at hd
    cases hd
    exact ⟨h.current.declare hs hl hm hh hr, h.outer, h.fields⟩

/-- A declaration puts a variable behind those of the innermost block. -/
theorem eq_of_declare (h : e.declare v = .ok e') :
    e' = { e with current := ⟨e.current.declared ++ [v]⟩ } := by
  unfold declare at h
  cases hs : e.current.declare v with
  | error fault => rw [hs] at h; cases h
  | ok s =>
    rw [hs] at h
    cases h
    unfold Scope.declare at hs
    split at hs
    · cases hs
    · cases hs
      rfl

/-- Behind a declaration there is one variable more. -/
theorem holds_of_declare (h : e.declare v = .ok e') (hv : e'.Holds st v') :
    e.Holds st v' ∨ st = .frame ∧ v' = v := by
  rw [eq_of_declare h] at hv
  cases st with
  | object => exact .inl hv
  | frame =>
    obtain ⟨s, hs, hv⟩ := hv
    rcases List.mem_cons.mp hs with rfl | hs
    · rcases List.mem_append.mp hv with hv | hv
      · exact .inl ⟨e.current, List.mem_cons_self, hv⟩
      · exact .inr ⟨rfl, List.mem_singleton.mp hv⟩
    · exact .inl ⟨s, List.mem_cons_of_mem _ hs, hv⟩

/-! ### Blocks -/

/-- The environment around the innermost block. -/
def leave (e : Environment) : Environment :=
  match e.pop? with
  | some (_, e') => e'
  | none => e

theorem leave_of_some {s : Scope} (h : e.pop? = some (s, e')) : e.leave = e' := by
  rw [leave, h]

theorem leave_of_none (h : e.pop? = none) : e.leave = e := by
  rw [leave, h]

theorem holds_push : (e.push .empty).Holds st v ↔ e.Holds st v := by
  cases st with
  | object => rfl
  | frame =>
    constructor
    · rintro ⟨s, hs, hv⟩
      rcases List.mem_cons.mp hs with rfl | hs
      · exact absurd hv List.not_mem_nil
      · exact ⟨s, hs, hv⟩
    · rintro ⟨s, hs, hv⟩
      exact ⟨s, List.mem_cons_of_mem _ hs, hv⟩

theorem holds_of_leave (h : e.leave.Holds st v) : e.Holds st v := by
  unfold leave pop? at h
  cases ho : e.outer with
  | nil => rwa [ho] at h
  | cons s outer =>
    rw [ho] at h
    cases st with
    | object => exact h
    | frame =>
      obtain ⟨s', hs, hv⟩ := h
      exact ⟨s', List.mem_cons_of_mem _ (ho ▸ hs), hv⟩

/-- Leaving a block undoes entering it, and nothing that was declared in the block is left. -/
theorem Grows.leave {lo' hi' : Nat} (h : (e.push .empty).Grows lo hi e') :
    e.Grows lo' hi' e'.leave := by
  obtain ⟨-, ho, hf⟩ := h
  unfold Environment.leave pop?
  cases hl : e'.outer with
  | nil => rw [hl] at ho; cases ho
  | cons s outer =>
    rw [hl] at ho
    cases ho with
    | cons hs ho => exact ⟨hs.grows, ho, hf⟩

/-- What is within reach behind a block was so in front of it. -/
theorem Grows.holds_of_leave (h : (e.push .empty).Grows lo hi e') (hv : e'.leave.Holds st v') :
    ∃ v, e.Holds st v ∧ v.Evolves v' := by
  have hg : e.Grows 0 0 e'.leave := h.leave
  rcases hg.holds hv with h | ⟨-, -, hlt, -⟩
  · exact h
  · exact absurd hlt (Nat.not_lt_zero _)

/-- Leaving a conditional block undoes entering it. -/
theorem Grows.shift {withFields : Bool} (h : (e.shift 1 withFields).Grows lo hi e') :
    e.Grows lo hi (e'.shift (-1) withFields) := by
  refine ⟨h.current.shift, ?_, ?_⟩
  · have ho := h.outer
    rw [Environment.shift, List.forall₂_map_left_iff] at ho
    rw [Environment.shift, List.forall₂_map_right_iff]
    exact ho.imp fun _ _ hs ↦ hs.shift
  · have hf := h.fields
    cases withFields with
    | false => exact hf
    | true => exact fields_shift hf

/-- A shift changes every variable, with the possible exception of the fields. -/
theorem holds_of_shift {delta : Int} {withFields : Bool}
    (h : (e.shift delta withFields).Holds st v') (hw : st = .frame ∨ withFields) :
    ∃ v, e.Holds st v ∧ v' = v.shift delta := by
  cases st with
  | frame =>
    obtain ⟨s', hs, hv⟩ := h
    obtain ⟨s, hm, rfl⟩ : ∃ s ∈ e.locals, s' = s.shift delta := by
      rcases List.mem_cons.mp hs with rfl | hs
      · exact ⟨e.current, List.mem_cons_self, rfl⟩
      · obtain ⟨s, hm, rfl⟩ := List.mem_map.mp hs
        exact ⟨s, List.mem_cons_of_mem _ hm, rfl⟩
    obtain ⟨v, hd, rfl⟩ := List.mem_map.mp hv
    exact ⟨v, ⟨s, hm, hd⟩, rfl⟩
  | object =>
    obtain ⟨s', hs, hv⟩ := h
    rw [shift, if_pos (hw.resolve_left Storage.noConfusion)] at hs
    obtain ⟨s, hf, rfl⟩ := Option.map_eq_some_iff.mp hs
    obtain ⟨v, hd, rfl⟩ := List.mem_map.mp hv
    exact ⟨v, ⟨s, hf, hd⟩, rfl⟩

/-- What has a value behind a conditional block had one in front of it. -/
theorem Grows.ready_of_shift {withFields : Bool} (h : (e.shift 1 withFields).Grows lo hi e')
    (hv : (e'.shift (-1) withFields).Holds st v') (hr : v'.isReady)
    (hw : st = .frame ∨ withFields) : ∃ v, e.Holds st v ∧ v.isReady ∧ v.Evolves v' := by
  obtain ⟨w', hv', rfl⟩ := holds_of_shift hv hw
  rcases h.holds hv' with ⟨w, hm, he⟩ | ⟨-, -, -, hb⟩
  · obtain ⟨v, hv, rfl⟩ := holds_of_shift hm hw
    exact ⟨v, hv, he.isReady_of_shift hr, he.shift⟩
  · rw [Variable.isReady_iff, Variable.shift_readiness] at hr
    split at hr <;> omega

/-- A slot that a conditional block reports is that of a variable with a value. -/
theorem holds_of_mem_settledHere {withFields : Bool} {slot : Slot}
    (h : slot ∈ e.settledHere withFields) :
    ∃ v, e.Holds slot.storage v ∧ v.isReady ∧ v.slot = slot.id
      ∧ (slot.storage = .frame ∨ withFields) := by
  have key {s : Scope} {id : Nat} (h : id ∈ s.settledHere) :
      ∃ v ∈ s.declared, v.isReady ∧ v.slot = id := by
    obtain ⟨v, hv, rfl⟩ := List.mem_map.mp h
    obtain ⟨hm, hr⟩ := List.mem_filter.mp hv
    refine ⟨v, hm, ?_, rfl⟩
    rw [Variable.isReady_iff, eq_of_beq hr]
    exact Int.zero_lt_one
  rcases List.mem_append.mp h with h | h
  · obtain ⟨id, hid, rfl⟩ := List.mem_map.mp h
    obtain ⟨s, hs, hid⟩ := List.mem_flatMap.mp hid
    obtain ⟨v, hv, hr, e⟩ := key hid
    exact ⟨v, ⟨s, List.mem_reverse.mp hs, hv⟩, hr, e, .inl rfl⟩
  · obtain ⟨id, hid, rfl⟩ := List.mem_map.mp h
    cases withFields with
    | false => exact absurd hid List.not_mem_nil
    | true =>
      rw [if_pos rfl] at hid
      cases hf : e.fields with
      | none =>
        rw [hf] at hid
        exact absurd hid List.not_mem_nil
      | some s =>
        rw [hf] at hid
        obtain ⟨v, hv, hr, e⟩ := key hid
        exact ⟨v, ⟨s, hf, hv⟩, hr, e, .inr rfl⟩

/-! ### Names that stay -/

theorem find?_evolves {l l' : List Variable} (h : List.Forall₂ Variable.Evolves l l') (x : String) :
    Option.Rel Variable.Evolves (l.find? (·.name == x)) (l'.find? (·.name == x)) := by
  induction h with
  | nil => exact .none
  | @cons v v' l l' hv _ ih =>
    by_cases hx : v.name == x
    · have hx' : v'.name == x := by rwa [hv.name]
      rw [List.find?_cons_of_pos (by exact hx), List.find?_cons_of_pos (by exact hx')]
      exact .some hv
    · have hx' : ¬ (v'.name == x) := by rwa [hv.name]
      rw [List.find?_cons_of_neg (by exact hx), List.find?_cons_of_neg (by exact hx')]
      exact ih

theorem any_contains_iff {x : String} :
    e.locals.any (·.contains x) ↔ ∃ v, e.Holds .frame v ∧ v.name = x := by
  rw [List.any_eq_true]
  constructor
  · rintro ⟨s, hs, hc⟩
    obtain ⟨v, hv, hx⟩ := List.any_eq_true.mp hc
    exact ⟨v, ⟨s, hs, hv⟩, eq_of_beq hx⟩
  · rintro ⟨v, ⟨s, hs, hv⟩, rfl⟩
    exact ⟨s, hs, List.any_eq_true.mpr ⟨v, hv, beq_self_eq_true _⟩⟩

/-- A variable stays within reach. -/
theorem Grows.holds_left (h : e.Grows lo hi e') (hv : e.Holds st v) :
    ∃ v', e'.Holds st v' ∧ v.Evolves v' := by
  cases st with
  | frame =>
    obtain ⟨s, hs, hv⟩ := hv
    rcases List.mem_cons.mp hs with rfl | hs
    · obtain ⟨old, new, he, ho, -⟩ := h.current
      obtain ⟨v', hv', hev⟩ := exists_mem_of_forall₂_left ho hv
      refine ⟨v', ⟨e'.current, List.mem_cons_self, ?_⟩, hev⟩
      rw [he]
      exact List.mem_append_left _ hv'
    · obtain ⟨s', hs', he⟩ := exists_mem_of_forall₂_left h.outer hs
      obtain ⟨v', hv', hev⟩ := exists_mem_of_forall₂_left he hv
      exact ⟨v', ⟨s', List.mem_cons_of_mem _ hs', hv'⟩, hev⟩
  | object =>
    obtain ⟨s, hs, hv⟩ := hv
    have hf := h.fields
    rw [hs] at hf
    obtain ⟨s', hs', he⟩ := exists_of_rel_left hf
    obtain ⟨v', hv', hev⟩ := exists_mem_of_forall₂_left he hv
    exact ⟨v', ⟨s', hs', hv'⟩, hev⟩

/-- A name that refers to a field referred to that field before. -/
theorem Grows.resolve?_object {x : String} (h : e.Grows lo hi e')
    (hx : e'.resolve? x = some (.object, v')) :
    ∃ v, e.resolve? x = some (.object, v) ∧ v.Evolves v' := by
  obtain ⟨hl', s', hs', hv'⟩ := fields_of_resolve? hx
  -- a local variable of this name would still be in reach, and hide the field
  have hl : ¬ e.locals.any (·.contains x) := by
    intro hc
    obtain ⟨v, hv, rfl⟩ := any_contains_iff.mp hc
    obtain ⟨w, hw, he⟩ := h.holds_left hv
    exact hl' (any_contains_iff.mpr ⟨w, hw, he.name⟩)
  obtain ⟨s, hs, he⟩ := h.exists_fields hs'
  have hf := find?_evolves he x
  have hv : s'.declared.find? (·.name == x) = some v' := hv'
  rw [hv] at hf
  obtain ⟨v, hfind, he⟩ := exists_of_rel_right hf
  exact ⟨v, resolve?_of_fields hl hs hfind, he⟩

/-! ### Slots -/

/-- The slots of the variables within reach are their own, below a bound in the frame. -/
structure Distinct (n : Nat) (e : Environment) : Prop where
  frame : ((e.locals.flatMap (·.declared)).map (·.slot)).Nodup
  object : ∀ s, e.fields = some s → (s.declared.map (·.slot)).Nodup
  lt : ∀ v, e.Holds .frame v → v.slot < n

namespace Distinct

variable {n : Nat}

/-- Slots stay distinct when new ones start where the old ones end. -/
theorem grows (h : e.Distinct lo) (hg : e.Grows lo hi e') (hle : lo ≤ hi) : e'.Distinct hi := by
  refine ⟨?_, fun s' hs' ↦ ?_, fun v hv ↦ ?_⟩
  · obtain ⟨old, new, he, ho, hn, hd⟩ := hg.current
    have hf : (e.current.declared.map (·.slot)
        ++ (e.outer.flatMap (·.declared)).map (·.slot)).Nodup := by
      rw [← List.map_append]
      exact h.frame
    have hlocals : (e'.locals.flatMap (·.declared)).map (·.slot)
        = e.current.declared.map (·.slot)
          ++ (new.map (·.slot) ++ (e.outer.flatMap (·.declared)).map (·.slot)) := by
      rw [locals, List.flatMap_cons, he, List.map_append, List.map_append,
        map_slot_of_evolves ho, map_slot_of_scopes hg.outer, List.append_assoc]
    rw [hlocals]
    -- the new slots are between the two bounds, all others are below the lower one
    obtain ⟨hc, ho, hdis⟩ := List.nodup_append.mp hf
    have hlow : ∀ w ∈ e.locals.flatMap (·.declared), w.slot < lo := by
      intro w hw
      obtain ⟨s, hs, hw⟩ := List.mem_flatMap.mp hw
      exact h.lt w ⟨s, hs, hw⟩
    refine List.nodup_append.mpr ⟨hc, List.nodup_append.mpr ⟨hd, ho, ?_⟩, ?_⟩
    · intro slot h₁ slot' h₂ heq
      obtain ⟨v, hv, rfl⟩ := List.mem_map.mp h₁
      obtain ⟨w, hw, rfl⟩ := List.mem_map.mp h₂
      have hnew := hn v hv
      have hold := hlow w (List.mem_append_right _ hw)
      omega
    · intro slot h₁ slot' h₂
      rcases List.mem_append.mp h₂ with h₂ | h₂
      · intro heq
        obtain ⟨w, hw, rfl⟩ := List.mem_map.mp h₁
        obtain ⟨v, hv, rfl⟩ := List.mem_map.mp h₂
        have hnew := hn v hv
        have hold := hlow w (List.mem_append_left _ hw)
        omega
      · exact hdis slot h₁ slot' h₂
  · obtain ⟨s, hs, he⟩ := hg.exists_fields hs'
    rw [map_slot_of_evolves he]
    exact h.object s hs
  · rcases hg.holds hv with ⟨w, hw, he⟩ | ⟨-, -, hh, -⟩
    · have hlt := h.lt w hw
      have hslot := he.slot
      omega
    · exact hh

/-- In one place there is one variable. -/
theorem eq_of_slot_eq (h : e.Distinct n) (hv : e.Holds st v) (hv' : e.Holds st v')
    (hs : v.slot = v'.slot) : v = v' := by
  cases st with
  | frame =>
    obtain ⟨s, hm, hv⟩ := hv
    obtain ⟨s', hm', hv'⟩ := hv'
    exact List.inj_on_of_nodup_map h.frame (List.mem_flatMap.mpr ⟨s, hm, hv⟩)
      (List.mem_flatMap.mpr ⟨s', hm', hv'⟩) hs
  | object =>
    obtain ⟨s, hf, hv⟩ := hv
    obtain ⟨s', hf', hv'⟩ := hv'
    rw [hf] at hf'
    cases hf'
    exact List.inj_on_of_nodup_map (h.object s hf) hv hv' hs

theorem shift (h : e.Distinct n) (delta : Int) (withFields : Bool) :
    (e.shift delta withFields).Distinct n := by
  have key (l : List Variable) :
      (l.map (·.shift delta)).map (·.slot) = l.map (·.slot) := by
    rw [List.map_map]
    exact List.map_congr_left fun v _ ↦ Variable.shift_slot delta v
  refine ⟨?_, fun s' hs' ↦ ?_, fun v hv ↦ ?_⟩
  · have hl : (e.shift delta withFields).locals.flatMap (·.declared)
        = (e.locals.flatMap (·.declared)).map (·.shift delta) := by
      have hm : (e.shift delta withFields).locals = e.locals.map (·.shift delta) := rfl
      rw [hm, List.map_flatMap, List.flatMap_map]
      rfl
    rw [hl, key]
    exact h.frame
  · cases withFields with
    | false => exact h.object s' hs'
    | true =>
      obtain ⟨s, hs, rfl⟩ := Option.map_eq_some_iff.mp hs'
      rw [Scope.shift, key]
      exact h.object s hs
  · obtain ⟨w, hw, rfl⟩ := holds_of_shift hv (.inl rfl)
    rw [Variable.shift_slot]
    exact h.lt w hw

end Distinct

end Environment

end Pictograph
