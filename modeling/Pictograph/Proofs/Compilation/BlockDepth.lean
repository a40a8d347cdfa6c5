import Pictograph.Proofs.Analysis.Nesting
import Pictograph.Proofs.Compilation.References

/-!
# Counters and the depth of blocks

Inside a block that may be skipped a counter of one is to say that the variable got its value in
this very block. For that no counter may be negative, and every block has to raise those that are
positive by exactly as much as it lowers them in the end. So wherever an expression is analysed, a
counter is at most one more than there are blocks open around the expression.

The blocks around an expression are not all counted in its own frame. A closure takes over counters
from a frame in which blocks may be open, and it shares the fields with that frame, so the levels
of all frames around it have to be added.

## Main definitions

* `ReachesUnder`: an analysis gets to a query, under so many blocks of the frames around.
* `ReachedUnder`: the compilation of a procedure gets to a query in this way.

## Main results

* `ReachesUnder.counters`: how bounds go from a query to those inside it.
* `counters_within_depth`: counters are between zero and one plus the number of open blocks.
-/

namespace Pictograph

/-- An analysis of expressions with at most `fuel` levels of nesting gets to a query with so many
levels left, and in the frames around the one that it is asked in so many blocks are open that may
be skipped. What a closure asks, it asks in a frame inside the one that it stands in. -/
inductive ReachesUnder {α : Type} (m : Recursion → Analysis α) (fuel : Nat) (s : State) :
    Nat → Query → Nat → Prop
  | asked {q} (hq : Asks (Analysis.expression fuel) m s q) : ReachesUnder m fuel s fuel q 0
  | inside {n q q' around} (h : ReachesUnder m fuel s (n + 1) q around)
      (hblock : q.token.asksFor .blockOpen = false)
      (hq : Asks (Analysis.expression n)
        (fun r ↦ Analysis.expressionStep r q.setting q.token q.hint) q.state q') :
      ReachesUnder m fuel s n q' around
  | closure {n q q' around} (h : ReachesUnder m fuel s (n + 1) q around)
      (hblock : q.token.asksFor .blockOpen)
      (hq : Asks (Analysis.expression n)
        (fun r ↦ Analysis.expressionStep r q.setting q.token q.hint) q.state q') :
      ReachesUnder m fuel s n q' (around + q.state.frame.flowDepth)

variable {α : Type} {m : Recursion → Analysis α} {fuel n around : Nat} {s : State} {q : Query}

/-- Wherever an analysis gets to, it gets there under some number of blocks. -/
theorem Reaches.exists_under (h : Reaches m fuel s n q) :
    ∃ around, ReachesUnder m fuel s n q around := by
  induction h with
  | asked hq => exact ⟨0, .asked hq⟩
  | @nested n q q' _ hq ih =>
    obtain ⟨around, ih⟩ := ih
    cases hblock : q.token.asksFor .blockOpen with
    | false => exact ⟨around, .inside ih hblock hq⟩
    | true => exact ⟨_, .closure ih hblock hq⟩

theorem ReachesUnder.reaches (h : ReachesUnder m fuel s n q around) : Reaches m fuel s n q := by
  induction h with
  | asked hq => exact .asked hq
  | inside _ _ hq ih | closure _ _ hq ih => exact .nested ih hq

/-- **Bounds go from a query to those inside it**: they go up by the blocks that are entered on the
way, and in a closure the level of the frame around it is left behind. -/
theorem ReachesUnder.counters (h : ReachesUnder m fuel s n q around)
    (hm : ∀ q, Asks (Analysis.expression fuel) m s q →
      q.state.environment.CountersWithin fun _ ↦ 1 + q.state.frame.flowDepth) :
    q.state.environment.CountersWithin fun _ ↦ 1 + (around + q.state.frame.flowDepth) := by
  induction h with
  | asked hq =>
    rw [Nat.zero_add]
    exact hm _ hq
  | inside _ hblock hq ih =>
    obtain ⟨k, hk⟩ := Query.deepens_of_asks hblock hq
    rw [hk.flowDepth, ← Nat.add_assoc, ← Nat.add_assoc]
    exact hk.counters (fun _ ↦ by omega) (by rwa [Nat.add_assoc])
  | closure _ hblock hq ih =>
    rw [← Nat.add_assoc]
    exact Query.counters_of_asks_closure hblock hq (fun _ ↦ Nat.le_add_right _ _) ih

/-! ## Compilations -/

variable {cat : Catalogue} {options : Options} {session : Session} {c : Class} {p : Member}
  {tokens : List Token}

/-- The compilation of a procedure gets to a query with `n` levels of nesting left, and in the
frames around the one that it is asked in so many blocks are open that may be skipped. -/
def ReachedUnder (cat : Catalogue) (options : Options) (session : Session) (c : Class) (p : Member)
    (tokens : List Token) (n : Nat) (q : Query) (around : Nat) : Prop :=
  p.isNative = false ∧ ∃ fields, cat.fieldsFor c p = .ok fields
    ∧ ReachesUnder (fun rec ↦ Analysis.body (.ofMember cat options c p) rec p.arguments [] 0)
      tokens.length (.start fields session tokens) n q around

theorem ReachedIn.exists_under (h : ReachedIn cat options session c p tokens n q) :
    ∃ around, ReachedUnder cat options session c p tokens n q around := by
  obtain ⟨hnative, fields, hfields, hq⟩ := h
  obtain ⟨around, hunder⟩ := hq.exists_under
  exact ⟨around, hnative, fields, hfields, hunder⟩

theorem ReachedUnder.reachedIn (h : ReachedUnder cat options session c p tokens n q around) :
    ReachedIn cat options session c p tokens n q := by
  obtain ⟨hnative, fields, hfields, hq⟩ := h
  exact ⟨hnative, fields, hfields, hq.reaches⟩

/-- A field has no value in the beginning, or it has one from the start. -/
theorem Field.variable_readiness (isInitializer : Bool) (f : Field) (slot : Nat) :
    0 ≤ (f.variable isInitializer slot).readiness
      ∧ (f.variable isInitializer slot).readiness ≤ 1 := by
  unfold Field.variable
  dsimp only
  split
  · exact ⟨Int.one_nonneg, Int.le_refl 1⟩
  · exact ⟨Int.le_refl 0, Int.one_nonneg⟩

/-- The counters of fields start with zero or one. -/
theorem Catalogue.counters_fieldsFor {fields : Option Scope} (h : cat.fieldsFor c p = .ok fields) :
    (Environment.start fields).CountersWithin fun _ ↦ 1 := by
  have hdeclared (isInitializer : Bool) :
      (Environment.start (some ⟨cat.fieldVariables c isInitializer⟩)).CountersWithin
        fun _ ↦ 1 := by
    refine .of_parts (fun _ hv ↦ absurd hv List.not_mem_nil) fun v hv ↦ ?_
    obtain ⟨⟨f, slot⟩, -, rfl⟩ := List.mem_map.mp hv
    exact f.variable_readiness isInitializer slot
  have hfields := fieldsFor_ok h
  cases hkind : p.kind with
  | classMethod =>
    rw [hkind] at hfields
    rw [hfields]
    exact .of_parts (fun _ hv ↦ absurd hv List.not_mem_nil) fun _ hv ↦ absurd hv List.not_mem_nil
  | method =>
    rw [hkind] at hfields
    rw [hfields]
    exact hdeclared false
  | initializer =>
    rw [hkind] at hfields
    rw [hfields]
    exact hdeclared true

/-- The bounds in front of an expression that the compilation of a procedure gets to. -/
theorem ReachedUnder.counters (h : ReachedUnder cat options session c p tokens n q around) :
    q.state.environment.CountersWithin fun _ ↦ 1 + (around + q.state.frame.flowDepth) := by
  obtain ⟨-, fields, hfields, hq⟩ := h
  refine hq.counters fun q hq ↦ ?_
  exact Analysis.counters_of_asks_body (Analysis.goesOnward_expression _)
    (Analysis.level_expression _) rfl (fun _ ↦ Nat.le_refl 1) (Catalogue.counters_fieldsFor hfields)
    (fun _ hv ↦ absurd hv List.not_mem_nil) hq

/-- **Counters stay within the depth of blocks.** Whatever expression the compilation of a procedure
gets to, it gets there under some number of blocks of the frames around. Where its analysis starts
and where it has succeeded, the counter of every local variable and of every field in reach is
between zero and one plus the number of blocks that are open in its frame and in those around. -/
theorem counters_within_depth (h : ReachedIn cat options session c p tokens n q) :
    (∃ around, ReachedUnder cat options session c p tokens n q around)
    ∧ ∀ around, ReachedUnder cat options session c p tokens n q around →
      ∀ s, (s = q.state ∨ ∃ t, (Analysis.expression n).answer q = .ok t s) →
        ∀ st, ∀ v ∈ s.environment.stored st,
          0 ≤ v.readiness ∧ v.readiness ≤ 1 + (around + s.frame.flowDepth) := by
  refine ⟨h.exists_under, fun around hunder s hs st v hv ↦ ?_⟩
  have hfront := hunder.counters
  obtain rfl | ⟨t, hanswer⟩ := hs
  · exact_mod_cast hfront st v hv
  · obtain ⟨hdepth, hcounters⟩ := Analysis.level_expression n _ _ _ _ _ _ hanswer
    have hend := hcounters (fun _ ↦ Nat.le_add_right _ _) hfront st v hv
    rw [hdepth]
    exact_mod_cast hend

namespace Sample

/-- A body with a closure in a branch, `🍊 👍 🍇 🍇 👍 🍉 🍉 🍉`. -/
def closureInBranch : List Token :=
  [ask .ifBranch, word (.boolean true), ask .blockOpen, ask .blockOpen, word (.boolean true),
    ask .blockClose, ask .blockClose, ask .blockClose]

/-- The closure asks for its statement under one block. A field that has a value has the counter two
there. -/
theorem reachedUnder_closureInBranch :
    ∃ q around, ReachedUnder catalogue {} .start parentClass method closureInBranch 6 q around
      ∧ around = 1 ∧ q.state.frame.flowDepth = 0
      ∧ (q.state.environment.stored .object).map (·.readiness) = [2]
      ∧ (Analysis.value? ((Analysis.expression 6).answer q)).isSome := by
  refine ⟨?inner, _, ⟨by decide +kernel, _, fieldsFor_method, .closure (q := ?closure)
    (.inside (q := ?chain) (.asked ?asksChain) ?isChain ?asksClosure) ?isClosure ?asksInner⟩,
    ?around, ?level, ?counter, ?answered⟩
  case asksChain =>
    have htoken : (ask .ifBranch).asksFor .blockClose = false := by decide +kernel
    exact asks_first htoken
  case asksClosure =>
    refine .behind_value () (by decide +kernel) (.behind_value () (by decide +kernel) ?_)
    refine .behind rfl (.behind rfl (.first (.behind rfl (.first ?_))))
    refine Traverses.asks_behind (.condition (Analysis.goesOnward_expression 7)) (a := ())
      (Analysis.eq_ok_of_value? (by decide +kernel)) ?_
    refine .behind_value () (by decide +kernel) (.behind rfl ?_)
    refine .behind_value (ask .blockOpen) (by decide +kernel) (.behind rfl (.first ?_))
    refine .behind rfl (.first (.behind_value (ask .blockOpen) (by decide +kernel) (.first ?_)))
    refine .behind_value () (by decide +kernel) (.first ?_)
    exact .call
  case asksInner =>
    refine .behind_value () (by decide +kernel) (.behind_value () (by decide +kernel) ?_)
    refine .behind_value [] (by decide +kernel) (.behind_value .nothingness (by decide +kernel) ?_)
    refine .behind rfl (.behind rfl (.behind rfl (.behind rfl (.behind rfl (.first ?_)))))
    refine .behind rfl (.behind rfl (.first ?_))
    refine asks_body (.behind rfl (.first ?_))
    refine .behind_value (word (.boolean true)) (by decide +kernel) (.first ?_)
    refine .behind_value () (by decide +kernel) (.first ?_)
    exact .call
  all_goals decide +kernel

end Sample

/-- In the closure the bound is two, and the field reaches it. -/
theorem counters_within_depth_closureInBranch :
    ∃ q t s', ReachedIn Sample.catalogue {} .start Sample.parentClass Sample.method
        Sample.closureInBranch 6 q
      ∧ ReachedUnder Sample.catalogue {} .start Sample.parentClass Sample.method
        Sample.closureInBranch 6 q 1
      ∧ (Analysis.expression 6).answer q = .ok t s'
      ∧ (q.state.environment.stored .object).map (·.readiness) = [2]
      ∧ (∀ st, ∀ v ∈ q.state.environment.stored st, 0 ≤ v.readiness ∧ v.readiness ≤ 2)
      ∧ ∀ st, ∀ v ∈ s'.environment.stored st,
        0 ≤ v.readiness ∧ v.readiness ≤ 2 + s'.frame.flowDepth := by
  obtain ⟨q, around, hunder, rfl, hlevel, hcounters, hvalue⟩ := Sample.reachedUnder_closureInBranch
  obtain ⟨t, ht⟩ := Option.isSome_iff_exists.mp hvalue
  have hanswer := Analysis.eq_ok_of_value? ht
  obtain ⟨-, hbounds⟩ := counters_within_depth hunder.reachedIn
  have hfront := hbounds 1 hunder q.state (.inl rfl)
  have hend := hbounds 1 hunder _ (.inr ⟨t, hanswer⟩)
  rw [hlevel] at hfront
  refine ⟨q, t, _, hunder.reachedIn, hunder, hanswer, hcounters, hfront, fun st v hv ↦ ?_⟩
  obtain ⟨hpos, hle⟩ := hend st v hv
  exact ⟨hpos, by omega⟩

end Pictograph
