import Pictograph.Proofs.Scope.NamesAndSlots
import Pictograph.Proofs.Scope.Transcription
import Pictograph.Scope.Tracker

/-!
# What is visible and what names refer to

A closure is filled with the variables that are visible around it, and reads them by their names.
The two go through the scopes in different ways. A name is looked up in the index of one scope after
the other, from the innermost one outwards, and the first scope that has it decides. The visible
variables are collected from all scopes, and a variable is left out if its name was met before. Both
come to the first variable of each name in one and the same list, that of all local variables with
those of the innermost block in front.

For the first way this takes an index that says of every name where it is declared first, or that it
is not declared at all. Declarations extend the index by one name, and nothing else that is done to
a scope renames a variable or moves it (`IndexedScope.Represents.perform`).

## Main definitions

* `Scope.Operation`, `Environment.Operation`: what can be done with scopes.
* `IndexedScope.Represents`: the variables are those of a scope, and the index is theirs.
* `Tracker.Represents`: a tracker is an environment with indexes.

## Main results

* `Environment.filter_visible`: the visible variable of a name.
* `Tracker.Represents.perform`, `Tracker.represents_after`: trackers and environments make the same
  steps.
* `Tracker.visible_exact`: what is visible is what names refer to, after any operations.
-/

namespace Pictograph

/-! ## First matches -/

section

variable {α β : Type} {test : α → Bool} {f : α → α} {l : List α}

theorem find?_eq_bind_findIdx? : l.find? test = (l.findIdx? test).bind (l[·]?) := by
  induction l with
  | nil => rfl
  | cons a l ih =>
    rw [List.find?_cons, List.findIdx?_cons]
    cases test a with
    | true => rfl
    | false =>
      rw [if_neg Bool.false_ne_true, Option.bind_map]
      exact ih

theorem updateFirst_eq_modify {i : Nat} (h : l.findIdx? test = some i) :
    updateFirst test f l = l.modify i f := by
  induction l generalizing i with
  | nil => cases h
  | cons a l ih =>
    rw [List.findIdx?_cons] at h
    rw [updateFirst]
    cases ha : test a with
    | true =>
      rw [ha] at h
      cases h
      rfl
    | false =>
      rw [ha] at h
      obtain ⟨j, hj, rfl⟩ := Option.map_eq_some_iff.mp h
      rw [ih hj]
      rfl

theorem updateFirst_eq_self (h : l.findIdx? test = none) : updateFirst test f l = l := by
  induction l with
  | nil => rfl
  | cons a l ih =>
    obtain ⟨ha, hl⟩ := List.forall_mem_cons.mp (List.findIdx?_eq_none_iff.mp h)
    rw [updateFirst, ha, ih (List.findIdx?_eq_none_iff.mpr hl)]
    rfl

/-- What a change keeps of an element stays the same throughout. -/
theorem map_updateFirst_of_keeps {φ : α → β} (h : ∀ a, φ (f a) = φ a) :
    (updateFirst test f l).map φ = l.map φ := by
  induction l with
  | nil => rfl
  | cons a l ih =>
    rw [updateFirst]
    split
    · rw [List.map_cons, List.map_cons, h]
    · rw [List.map_cons, List.map_cons, ih]

end

/-! ## The visible variables -/

namespace Environment

variable {e : Environment} {v : Variable} {x : String}

/-- Of the variables of a name the first one is left, unless it is hidden as well. -/
theorem filter_withoutHidden (seen : List String) (l : List Variable) (x : String) :
    (withoutHidden seen l).filter (·.name == x)
      = if x ∈ seen then [] else (l.find? (·.name == x)).toList := by
  induction l generalizing seen with
  | nil => simp [withoutHidden]
  | cons v l ih =>
    rw [withoutHidden]
    by_cases hvx : v.name = x
    · subst hvx
      by_cases hseen : v.name ∈ seen
      · rw [if_pos hseen, ih, if_pos hseen, if_pos hseen]
      · rw [if_neg hseen, if_neg hseen, List.filter_cons_of_pos (by simp), ih,
          if_pos List.mem_cons_self, List.find?_cons_of_pos (by simp), Option.toList_some]
    · have hne : ¬ (v.name == x) = true := by rwa [beq_iff_eq]
      rw [List.find?_cons_of_neg (by exact hne)]
      by_cases hseen : v.name ∈ seen
      · rw [if_pos hseen, ih]
      · have hmem : x ∈ v.name :: seen ↔ x ∈ seen := by
          rw [List.mem_cons, or_iff_right (Ne.symm hvx)]
        rw [if_neg hseen, List.filter_cons_of_neg (by exact hne), ih, if_congr hmem rfl rfl]

/-- A variable is visible if a name refers to it, and then it is the only visible one of its
name. -/
theorem filter_visible (e : Environment) (x : String) :
    e.visible.filter (·.name == x) = ((e.stored .frame).find? (·.name == x)).toList := by
  rw [visible, filter_withoutHidden, if_neg List.not_mem_nil]
  rfl

theorem mem_visible_iff : v ∈ e.visible ↔ e.resolve? v.name = some (.frame, v) := by
  have hfilter : v ∈ e.visible ↔ v ∈ e.visible.filter (·.name == v.name) := by
    rw [List.mem_filter, and_iff_left (beq_self_eq_true _)]
  rw [hfilter, filter_visible, Option.mem_toList, resolve?_eq_some]
  exact (and_iff_left nofun).symm

end Environment

/-! ## Operations -/

/-- What is done to a variable that was looked up. -/
inductive Variable.Change where
  /-- The variable is written, unless it is frozen. -/
  | mutate (span : Span)
  /-- The variable is given a value. -/
  | settle

/-- The variable after a change of it. -/
def Variable.change (how : Change) (v : Variable) : Variable :=
  match how with
  | .mutate span =>
    match v.mutate span with
    | .ok v' => v'
    | .error _ => v
  | .settle => v.settle

theorem Variable.name_change (how : Change) (v : Variable) : (v.change how).name = v.name := by
  cases how with
  | mutate span =>
    rw [change, mutate]
    split
    case h_1 v' h =>
      split at h
      · cases h
      · cases h
        rfl
    case h_2 => rfl
  | settle => exact settle_name v

/-- What can be done with a scope. -/
inductive Scope.Operation where
  /-- Declares a variable, unless its name is declared already. -/
  | declare (v : Variable)
  /-- Changes the variable of a name. -/
  | change (name : String) (how : Variable.Change)
  /-- Shifts the counters. -/
  | shift (delta : Int)
  /-- Gives a value to the variable in a slot. -/
  | settle (id : Nat)

/-- What can be done with the scopes in reach of a body. -/
inductive Environment.Operation where
  /-- Enters a block. -/
  | push (contents : List Scope.Operation)
  /-- Leaves the innermost block, unless that is the body. -/
  | pop
  /-- Declares a variable in the innermost block, unless its name is declared there already. -/
  | declare (v : Variable)
  /-- Changes the variable that a name refers to. -/
  | change (name : String) (how : Variable.Change)
  /-- Shifts the counters, as conditional blocks do when they are entered and left. -/
  | shift (delta : Int) (withFields : Bool)
  /-- Gives a value to the variable in a slot. -/
  | settle (slot : Slot)
  /-- Lends the fields to a closure, which changes them. -/
  | lend (changes : List Scope.Operation)

namespace Scope

/-- The scope after an operation. -/
def perform (s : Scope) : Operation → Scope
  | .declare v => match s.declare v with
    | .ok s' => s'
    | .error _ => s
  | .change name how => s.update name (Variable.change how)
  | .shift delta => s.shift delta
  | .settle id => s.updateSlot id Variable.settle

/-- The scope after some operations. -/
def after (operations : List Operation) : Scope := operations.foldl perform empty

end Scope

namespace Environment

/-- The environment after an operation. -/
def perform (e : Environment) : Operation → Environment
  | .push contents => e.push (.after contents)
  | .pop => match e.pop? with
    | some (_, e') => e'
    | none => e
  | .declare v => match e.declare v with
    | .ok e' => e'
    | .error _ => e
  | .change name how => e.update name (Variable.change how)
  | .shift delta withFields => e.shift delta withFields
  | .settle slot => e.settle slot
  | .lend changes => { e with fields := e.fields.map fun s ↦ changes.foldl Scope.perform s }

/-- The environment of a body after some operations. The fields, if there are any, were declared
before. -/
def after (fields : Option (List Scope.Operation)) (operations : List Operation) : Environment :=
  operations.foldl perform (start (fields.map Scope.after))

end Environment

namespace IndexedScope

/-- The indexed scope after an operation. -/
def perform (s : IndexedScope) : Scope.Operation → IndexedScope
  | .declare v => match s.declare v with
    | .ok s' => s'
    | .error _ => s
  | .change name how => s.update name (Variable.change how)
  | .shift delta => s.shift delta
  | .settle id => s.updateSlot id Variable.settle

/-- The indexed scope after some operations. -/
def after (operations : List Scope.Operation) : IndexedScope := operations.foldl perform empty

end IndexedScope

namespace Tracker

/-- The tracker after an operation. -/
def perform (t : Tracker) : Environment.Operation → Tracker
  | .push contents => t.push (.after contents)
  | .pop => match t.pop? with
    | some (_, t') => t'
    | none => t
  | .declare v => match t.declare v with
    | .ok t' => t'
    | .error _ => t
  | .change name how => t.update name (Variable.change how)
  | .shift delta withFields => t.shift delta withFields
  | .settle slot => t.settle slot
  | .lend changes => { t with fields := t.fields.map fun s ↦ changes.foldl IndexedScope.perform s }

/-- The tracker of a body after some operations. -/
def after (fields : Option (List Scope.Operation)) (operations : List Environment.Operation) :
    Tracker :=
  operations.foldl perform (start (fields.map IndexedScope.after))

end Tracker

/-! ## Indexed scopes -/

namespace IndexedScope

variable {i : IndexedScope} {s : Scope} {f : Variable → Variable}

/-- An indexed scope has the variables of a scope, and the index has the position of the first
variable of each name, and no other names. -/
structure Represents (i : IndexedScope) (s : Scope) : Prop where
  declared : i.declared.toList = s.declared
  index : ∀ x, i.index[x]? = (s.declared.map (·.name)).findIdx? (· == x)

theorem represents_empty : empty.Represents .empty :=
  ⟨rfl, fun _ ↦ Std.HashMap.getElem?_empty⟩

namespace Represents

variable (h : i.Represents s)

include h

theorem index_eq (x : String) : i.index[x]? = s.declared.findIdx? (·.name == x) := by
  rw [h.index, List.findIdx?_map]
  rfl

theorem contains_eq (x : String) : i.contains x = s.contains x := by
  rw [contains, Std.HashMap.contains_eq_isSome_getElem?, h.index_eq, List.findIdx?_isSome,
    Scope.contains]

theorem find?_eq (x : String) : i.find? x = s.find? x := by
  rw [find?, h.index_eq, Scope.find?, find?_eq_bind_findIdx?, ← h.declared]
  simp only [Array.getElem?_toList]

theorem isSome_find? (x : String) : (i.find? x).isSome = i.contains x := by
  rw [h.find?_eq, h.contains_eq, Scope.find?, Scope.contains]
  exact Bool.eq_iff_iff.mpr (List.find?_isSome.trans List.any_eq_true.symm)

/-- Variables that keep their names and places keep the index. -/
theorem of_names {i' : IndexedScope} {s' : Scope} (hdeclared : i'.declared.toList = s'.declared)
    (hindex : i'.index = i.index) (hnames : s'.declared.map (·.name) = s.declared.map (·.name)) :
    i'.Represents s' :=
  ⟨hdeclared, fun x ↦ by rw [hindex, hnames, h.index]⟩

/-- A name that is declared is indexed behind the others. -/
theorem push {v : Variable} (hnew : s.contains v.name = false) :
    Represents ⟨i.declared.push v, i.index.insert v.name i.declared.size⟩ ⟨s.declared ++ [v]⟩ := by
  have hnone : (s.declared.map (·.name)).findIdx? (· == v.name) = none := by
    rw [List.findIdx?_map, List.findIdx?_eq_none_iff]
    exact fun w hw ↦ eq_false_of_ne_true (List.any_eq_false.mp hnew w hw)
  refine ⟨by rw [Array.toList_push, h.declared], fun x ↦ ?_⟩
  rw [Std.HashMap.getElem?_insert, h.index, List.map_append, List.findIdx?_append]
  by_cases hx : v.name = x
  · subst hx
    have hsize : i.declared.size = s.declared.length := by
      rw [← h.declared, Array.length_toList]
    rw [if_pos (beq_self_eq_true _), hnone, hsize]
    simp
  · have hne : (v.name == x) = false := beq_false_of_ne hx
    simp [hne]

theorem update (x : String) (hf : ∀ v, (f v).name = v.name) :
    (i.update x f).Represents (s.update x f) := by
  have hnames : (s.update x f).declared.map (·.name) = s.declared.map (·.name) :=
    map_updateFirst_of_keeps hf
  rw [IndexedScope.update, h.index_eq]
  cases hfind : s.declared.findIdx? (·.name == x) with
  | some position =>
    refine h.of_names ?_ rfl hnames
    rw [Array.toList_modify, h.declared, Scope.update, updateFirst_eq_modify hfind]
  | none =>
    refine h.of_names ?_ rfl hnames
    rw [h.declared, Scope.update, updateFirst_eq_self hfind]

theorem hasSlot_eq (id : Nat) : s.hasSlot id = i.hasSlot id := by
  rw [Scope.hasSlot, hasSlot, ← h.declared, Array.any_toList]

theorem updateSlot (id : Nat) (hf : ∀ v, (f v).name = v.name) :
    (i.updateSlot id f).Represents (s.updateSlot id f) := by
  have hnames : (s.updateSlot id f).declared.map (·.name) = s.declared.map (·.name) :=
    map_updateFirst_of_keeps hf
  have hfirst : i.declared.findIdx? (·.slot == id) = s.declared.findIdx? (·.slot == id) := by
    rw [← h.declared]
    exact List.findIdx?_toArray _ i.declared.toList
  rw [IndexedScope.updateSlot, hfirst]
  cases hfind : s.declared.findIdx? (·.slot == id) with
  | some position =>
    refine h.of_names ?_ rfl hnames
    rw [Array.toList_modify, h.declared, Scope.updateSlot, updateFirst_eq_modify hfind]
  | none =>
    exact h.of_names (by rw [h.declared, Scope.updateSlot, updateFirst_eq_self hfind]) rfl hnames

theorem shift (delta : Int) : (i.shift delta).Represents (s.shift delta) := by
  refine h.of_names ?_ rfl ?_
  · rw [IndexedScope.shift, Array.toList_map, h.declared, Scope.shift]
  · rw [Scope.shift, List.map_map]
    exact List.map_congr_left fun v _ ↦ v.shift_name delta

/-- **One operation keeps the index.** -/
theorem perform (operation : Scope.Operation) :
    (i.perform operation).Represents (s.perform operation) := by
  cases operation with
  | declare v =>
    rw [IndexedScope.perform, Scope.perform, declare, Scope.declare, h.contains_eq]
    cases hnew : s.contains v.name with
    | true => exact h
    | false => exact h.push hnew
  | change x how => exact h.update x (Variable.name_change how)
  | shift delta => exact h.shift delta
  | settle id => exact h.updateSlot id Variable.settle_name

theorem foldl (operations : List Scope.Operation) :
    (operations.foldl IndexedScope.perform i).Represents (operations.foldl Scope.perform s) := by
  induction operations generalizing i s with
  | nil => exact h
  | cons operation operations ih => exact ih (h.perform operation)

end Represents

theorem represents_after (operations : List Scope.Operation) :
    (after operations).Represents (.after operations) :=
  represents_empty.foldl operations

end IndexedScope

/-! ## Trackers -/

namespace Tracker

variable {t : Tracker} {e : Environment} {f : Variable → Variable}

/-- The scopes of a tracker are those of an environment, with indexes. -/
structure Represents (t : Tracker) (e : Environment) : Prop where
  current : t.current.Represents e.current
  outer : List.Forall₂ IndexedScope.Represents t.outer e.outer
  fields : Option.Rel IndexedScope.Represents t.fields e.fields

theorem represents_start {fields : Option IndexedScope} {fields' : Option Scope}
    (h : Option.Rel IndexedScope.Represents fields fields') :
    (start fields).Represents (.start fields') :=
  ⟨IndexedScope.represents_empty, .nil, h⟩

namespace Represents

variable (h : t.Represents e)

include h

theorem locals : List.Forall₂ IndexedScope.Represents t.locals e.locals := .cons h.current h.outer

theorem withLocals {l : List IndexedScope} {l' : List Scope}
    (hl : List.Forall₂ IndexedScope.Represents l l') :
    (t.withLocals l).Represents (e.withLocals l') := by
  cases hl with
  | nil => exact h
  | cons hs hl => exact ⟨hs, hl, h.fields⟩

theorem mapFields {g : IndexedScope → IndexedScope} {g' : Scope → Scope}
    (hg : ∀ i s, i.Represents s → (g i).Represents (g' s)) :
    Represents { t with fields := t.fields.map g } { e with fields := e.fields.map g' } :=
  ⟨h.current, h.outer, rel_map_both h.fields hg⟩

theorem push {i : IndexedScope} {s : Scope} (hs : i.Represents s) :
    (t.push i).Represents (e.push s) :=
  ⟨hs, h.locals, h.fields⟩

theorem update (x : String) (hf : ∀ v, (f v).name = v.name) :
    (t.update x f).Represents (e.update x f) := by
  have hany : e.locals.any (·.contains x) = t.locals.any (·.contains x) :=
    any_eq_of_forall₂ h.locals fun _ _ hs ↦ (hs.contains_eq x).symm
  rw [Tracker.update, Environment.update, hany]
  split
  · exact h.withLocals (forall₂_updateFirst_both h.locals
      (fun _ _ hs ↦ (hs.contains_eq x).symm) fun _ _ hs ↦ hs.update x hf)
  · exact h.mapFields fun _ _ hs ↦ hs.update x hf

theorem shift (delta : Int) (withFields : Bool) :
    (t.shift delta withFields).Represents (e.shift delta withFields) := by
  refine ⟨h.current.shift delta, List.rel_map (fun _ _ hs ↦ hs.shift delta) h.outer, ?_⟩
  rw [Tracker.shift, Environment.shift]
  cases withFields with
  | true => exact rel_map_both h.fields fun _ _ hs ↦ hs.shift delta
  | false => exact h.fields

theorem settle (slot : Slot) : (t.settle slot).Represents (e.settle slot) := by
  rw [Tracker.settle, Environment.settle]
  cases slot.storage with
  | frame =>
    exact h.withLocals (forall₂_updateFirst_both h.locals (fun _ _ hs ↦ hs.hasSlot_eq slot.id)
      fun _ _ hs ↦ hs.updateSlot slot.id Variable.settle_name)
  | object => exact h.mapFields fun _ _ hs ↦ hs.updateSlot slot.id Variable.settle_name

/-- **Trackers and environments make the same steps.** -/
theorem perform (operation : Environment.Operation) :
    (t.perform operation).Represents (e.perform operation) := by
  cases operation with
  | push contents => exact h.push (IndexedScope.represents_after contents)
  | pop =>
    have houter := h.outer
    rw [Tracker.perform, Environment.perform, pop?, Environment.pop?]
    generalize t.outer = l, e.outer = l' at houter ⊢
    cases houter with
    | nil => exact h
    | cons hs hl => exact ⟨hs, hl, h.fields⟩
  | declare v =>
    rw [Tracker.perform, Environment.perform, declare, Environment.declare, IndexedScope.declare,
      Scope.declare, h.current.contains_eq]
    cases hnew : e.current.contains v.name with
    | true => exact h
    | false => exact ⟨h.current.push hnew, h.outer, h.fields⟩
  | change x how => exact h.update x (Variable.name_change how)
  | shift delta withFields => exact h.shift delta withFields
  | settle slot => exact h.settle slot
  | lend changes => exact h.mapFields fun _ _ hs ↦ hs.foldl changes

theorem foldl (operations : List Environment.Operation) :
    (operations.foldl Tracker.perform t).Represents
      (operations.foldl Environment.perform e) := by
  induction operations generalizing t e with
  | nil => exact h
  | cons operation operations ih => exact ih (h.perform operation)

/-! ### Names -/

/-- A name refers to the same variable with and without the indexes. -/
theorem resolve?_eq (x : String) : t.resolve? x = e.resolve? x := by
  have hfields : t.fields.bind (·.find? x) = e.fields.bind (·.find? x) := by
    have hfields := h.fields
    generalize t.fields = fields, e.fields = fields' at hfields ⊢
    cases hfields with
    | none => rfl
    | some hs => exact hs.find?_eq x
  rw [resolve?, Environment.resolve?, ← hfields]
  have hlocals := h.locals
  generalize t.locals = l, e.locals = l' at hlocals ⊢
  induction hlocals with
  | nil => rfl
  | @cons i s _ _ hs _ ih =>
    rw [List.find?_cons, List.findSome?_cons, ← hs.find?_eq, ← hs.isSome_find?]
    cases hfind : i.find? x with
    | some v => exact congrArg (Option.map _) hfind
    | none => exact ih

end Represents

/-- The set has the names met so far, so the same variables are taken with it and without it. -/
theorem foldl_collect {met : Std.HashSet String} {seen : List String}
    (hmet : ∀ x, met.contains x = true ↔ x ∈ seen) (taken : Array Variable) (l : List Variable) :
    (l.foldl collect (met, taken)).2.toList
      = taken.toList ++ Environment.withoutHidden seen l := by
  induction l generalizing met seen taken with
  | nil => exact (List.append_nil _).symm
  | cons v l ih =>
    rw [List.foldl_cons, collect, Environment.withoutHidden]
    by_cases hseen : v.name ∈ seen
    · rw [if_pos hseen, if_pos ((hmet v.name).mpr hseen), ih hmet]
    · have hmet' : ∀ x, (met.insert v.name).contains x = true ↔ x ∈ v.name :: seen := by
        intro x
        rw [Std.HashSet.contains_insert, Bool.or_eq_true, beq_iff_eq, hmet, List.mem_cons, eq_comm]
      rw [if_neg hseen, if_neg (hmet v.name |>.not.mpr hseen), ih hmet', Array.toList_push,
        List.append_assoc, List.singleton_append]

/-- Going through one scope after the other is going through all variables in a row. -/
theorem Represents.visible_eq (h : t.Represents e) : t.visible = e.visible := by
  have hlists : t.locals.map (·.declared.toList) = e.locals.map (·.declared) := by
    have hlocals := h.locals
    generalize t.locals = l, e.locals = l' at hlocals ⊢
    induction hlocals with
    | nil => rfl
    | cons hs _ ih => rw [List.map_cons, List.map_cons, hs.declared, ih]
  have hrow : t.locals.foldl (fun met i ↦ i.declared.foldl collect met) (∅, #[])
      = (t.locals.flatMap (·.declared.toList)).foldl collect (∅, #[]) := by
    simp only [List.foldl_flatMap, Array.foldl_toList]
  rw [visible, hrow, @foldl_collect ∅ [] (by simp), Environment.visible, List.flatMap,
    List.flatMap, hlists]
  exact List.nil_append _

/-! ## Runs -/

theorem represents_after (fields : Option (List Scope.Operation))
    (operations : List Environment.Operation) :
    (after fields operations).Represents (.after fields operations) := by
  refine (represents_start ?_).foldl operations
  cases fields with
  | none => exact .none
  | some declarations => exact .some (IndexedScope.represents_after declarations)

/-- **What is visible is what names refer to.** After any operations on the scopes in reach of a
body,

* a name that is declared in some local scope refers to a local variable, and of this name exactly
  that variable is visible;
* nothing else is visible;
* and the same is visible, and names refer to the same, if variables are found without indexes. -/
theorem visible_exact (fields : Option (List Scope.Operation))
    (operations : List Environment.Operation) :
    (∀ s ∈ (after fields operations).locals, ∀ w ∈ s.declared,
      ∃ v, (after fields operations).resolve? w.name = some (.frame, v)
        ∧ (after fields operations).visible.filter (·.name == w.name) = [v])
    ∧ (∀ v ∈ (after fields operations).visible,
      (after fields operations).resolve? v.name = some (.frame, v))
    ∧ (after fields operations).visible = (Environment.after fields operations).visible
      ∧ ∀ x, (after fields operations).resolve? x
        = (Environment.after fields operations).resolve? x := by
  have h := represents_after fields operations
  generalize after fields operations = t, Environment.after fields operations = e at h ⊢
  refine ⟨fun s hs w hw ↦ ?_, fun v hv ↦ ?_, h.visible_eq, h.resolve?_eq⟩
  · obtain ⟨s', hs', hrepresents⟩ := exists_mem_of_forall₂_left h.locals hs
    have hw' : w ∈ e.stored .frame := by
      rw [Array.mem_def, hrepresents.declared] at hw
      exact List.mem_flatMap.mpr ⟨s', hs', hw⟩
    have hsome : ((e.stored .frame).find? (·.name == w.name)).isSome :=
      List.find?_isSome.mpr ⟨w, hw', beq_self_eq_true _⟩
    obtain ⟨v, hv⟩ := Option.isSome_iff_exists.mp hsome
    refine ⟨v, ?_, ?_⟩
    · rw [h.resolve?_eq, Environment.resolve?_eq_some]
      exact ⟨hv, nofun⟩
    · rw [h.visible_eq, Environment.filter_visible, hv, Option.toList_some]
  · rw [h.visible_eq] at hv
    rw [h.resolve?_eq]
    exact Environment.mem_visible_iff.mp hv

end Tracker

end Pictograph
