import Mathlib.Data.List.Forall2
import Pictograph.Diagnostic

/-!
# Two runs side by side

A computation is run twice, from two states that correspond to one another. The runs correspond if
they come to the same end: both succeed with values that correspond, or both stop with faults that
do, and the states correspond again. What corresponds to what is left open here. It is chosen once,
and the rules below then carry it through a computation step by step.

The rules also keep an account of the tokens, because a computation that goes on as long as there
are tokens has to be shown to end. A *read* is a computation that takes a token at least. Behind it
there is less to read, so a bound for what is left may be lowered by one.

## Main definitions

* `Comparison`: what two runs are compared by.
* `Comparison.Ends`: the ends of two runs correspond.
* `Comparison.Agrees`, `Comparison.Reads`: two computations correspond, and take a token at least.

## Main results

* `Comparison.Agrees.bind`, `Comparison.Reads.bind`: one step after another.
-/

namespace Pictograph

theorem isSome_iff_of_rel {α β : Type} {R : α → β → Prop} {a? : Option α} {b? : Option β}
    (h : Option.Rel R a? b?) : a?.isSome ↔ b?.isSome := by
  cases h <;> simp

/-- What two runs are compared by. -/
structure Comparison (σ : Type) where
  /-- When faults correspond. -/
  fault : Fault → Fault → Prop
  /-- When states correspond. -/
  state : σ → σ → Prop
  /-- How many tokens are left to read in the first run. -/
  size : σ → Nat

namespace Comparison

variable {σ α β γ δ : Type}

/-- The ends of two runs that had so many tokens to read correspond. The relation of the values may
depend on whether a token was taken. -/
inductive Ends (C : Comparison σ) (V : Prop → α → β → Prop) (start : Nat) :
    EStateM.Result Fault σ α → EStateM.Result Fault σ β → Prop
  | ok {a : α} {b : β} {t t' : σ} (ht : C.state t t') (hle : C.size t ≤ start)
      (hv : V (C.size t < start) a b) : Ends C V start (.ok a t) (.ok b t')
  | error {e e' : Fault} {t t' : σ} (he : C.fault e e') (ht : C.state t t') :
      Ends C V start (.error e t) (.error e' t')

/-- Two computations correspond wherever fewer than `n` tokens are left. -/
def Matches (C : Comparison σ) (n : Nat) (V : Prop → α → β → Prop) (m : EStateM Fault σ α)
    (m' : EStateM Fault σ β) : Prop :=
  ∀ s s', C.state s s' → C.size s < n → C.Ends V (C.size s) (m s) (m' s')

/-- Two computations correspond, whether they take a token or not. -/
abbrev Agrees (C : Comparison σ) (n : Nat) (V : α → β → Prop) (m : EStateM Fault σ α)
    (m' : EStateM Fault σ β) : Prop :=
  C.Matches n (fun _ ↦ V) m m'

/-- Two computations correspond, and take a token at least if they succeed. -/
abbrev Reads (C : Comparison σ) (n : Nat) (V : α → β → Prop) (m : EStateM Fault σ α)
    (m' : EStateM Fault σ β) : Prop :=
  C.Matches n (fun read a b ↦ read ∧ V a b) m m'

section

variable {C : Comparison σ} {n k start : Nat} {U V : Prop → α → β → Prop}

/-! ## Ends -/

theorem Ends.mono {r : EStateM.Result Fault σ α} {r' : EStateM.Result Fault σ β}
    (h : C.Ends U k r r') (hk : k ≤ start)
    (hv : ∀ l a b, l ≤ k → U (l < k) a b → V (l < start) a b) : C.Ends V start r r' := by
  cases h with
  | ok ht hle hu => exact .ok ht (Nat.le_trans hle hk) (hv _ _ _ hle hu)
  | error he ht => exact .error he ht

/-- One step after another, from where the first one ends. -/
theorem Ends.bind {W : Prop → γ → δ → Prop} {m : EStateM Fault σ α} {m' : EStateM Fault σ β}
    {f : α → EStateM Fault σ γ} {f' : β → EStateM Fault σ δ} {s s' : σ}
    (h : C.Ends U start (m s) (m' s'))
    (hf : ∀ t t' a b, C.state t t' → C.size t ≤ start → U (C.size t < start) a b →
      C.Ends (fun more c d ↦ W (C.size t < start ∨ more) c d) (C.size t) (f a t) (f' b t')) :
    C.Ends W start ((m >>= f) s) ((m' >>= f') s') := by
  change C.Ends W start (EStateM.bind m f s) (EStateM.bind m' f' s')
  unfold EStateM.bind
  generalize m s = r, m' s' = r' at h ⊢
  cases h with
  | error he ht => exact .error he ht
  | @ok a b t t' ht hle hu =>
    refine (hf t t' a b ht hle hu).mono hle fun l c d hl hw ↦ ?_
    -- a token was taken in all if one was taken by the first step or by the second
    have hread : (C.size t < start ∨ l < C.size t) = (l < start) := by
      apply propext
      omega
    rwa [hread] at hw

/-! ## Steps -/

theorem Matches.pure {a : α} {b : β} (h : V False a b) : C.Matches n V (pure a) (pure b) := by
  intro s s' hs _
  refine .ok hs (Nat.le_refl _) ?_
  rwa [eq_false (Nat.lt_irrefl _)]

theorem Matches.throw {e e' : Fault} (h : C.fault e e') :
    C.Matches n V (throw e) (throw e') :=
  fun _ _ hs _ ↦ .error h hs

theorem Matches.mono {m : EStateM Fault σ α} {m' : EStateM Fault σ β} (h : C.Matches n U m m')
    (hk : k ≤ n) (hv : ∀ read a b, U read a b → V read a b) : C.Matches k V m m' := by
  intro s s' hs hlt
  exact (h s s' hs (Nat.lt_of_lt_of_le hlt hk)).mono (Nat.le_refl _) fun _ a b _ ↦ hv _ a b

/-- One step after another. -/
theorem Matches.bind {W : Prop → γ → δ → Prop} {m : EStateM Fault σ α} {m' : EStateM Fault σ β}
    {f : α → EStateM Fault σ γ} {f' : β → EStateM Fault σ δ} (hm : C.Matches n U m m')
    (hf : ∀ read a b, U read a b → C.Matches n (fun more c d ↦ W (read ∨ more) c d) (f a) (f' b)) :
    C.Matches n W (m >>= f) (m' >>= f') := by
  intro s s' hs hlt
  refine (hm s s' hs hlt).bind fun t t' a b ht hle hu ↦ ?_
  exact hf _ a b hu t t' ht (Nat.lt_of_le_of_lt hle hlt)

theorem Matches.ite {c c' : Prop} [Decidable c] [Decidable c'] {m l : EStateM Fault σ α}
    {m' l' : EStateM Fault σ β} (hc : c ↔ c') (hm : C.Matches n V m m')
    (hl : C.Matches n V l l') :
    C.Matches n V (if c then m else l) (if c' then m' else l') := by
  by_cases h : c
  · rwa [if_pos h, if_pos (hc.mp h)]
  · rwa [if_neg h, if_neg (h ∘ hc.mpr)]

/-- Where nothing can be left, nothing is claimed. -/
theorem Matches.zero {m : EStateM Fault σ α} {m' : EStateM Fault σ β} : C.Matches 0 V m m' :=
  fun _ _ _ hlt ↦ absurd hlt (Nat.not_lt_zero _)

/-- A computation may look at the state. -/
theorem Matches.look {f : σ → EStateM Fault σ α} {f' : σ → EStateM Fault σ β}
    (h : ∀ s s', C.state s s' → C.Matches n V (f s) (f' s')) :
    C.Matches n V (get >>= f) (get >>= f') :=
  fun s s' hs hlt ↦ h s s' hs s s' hs hlt

end

section

variable {C : Comparison σ} {n k : Nat} {U : α → β → Prop} {V : γ → δ → Prop}
  {m : EStateM Fault σ α} {m' : EStateM Fault σ β} {f : α → EStateM Fault σ γ}
  {f' : β → EStateM Fault σ δ}

namespace Agrees

theorem bind (hm : C.Agrees n U m m') (hf : ∀ a b, U a b → C.Agrees n V (f a) (f' b)) :
    C.Agrees n V (m >>= f) (m' >>= f') :=
  Matches.bind hm fun _ ↦ hf

/-- The first step comes to the same in both runs. -/
theorem bind_same {m m' : EStateM Fault σ α} {f : α → EStateM Fault σ γ}
    {f' : α → EStateM Fault σ δ} (hm : C.Agrees n Eq m m')
    (hf : ∀ a, C.Agrees n V (f a) (f' a)) : C.Agrees n V (m >>= f) (m' >>= f') :=
  bind hm fun a _ h ↦ h ▸ hf a

/-- A read that comes later is a read. -/
theorem bind_reads (hm : C.Agrees n U m m') (hf : ∀ a b, U a b → C.Reads n V (f a) (f' b)) :
    C.Reads n V (m >>= f) (m' >>= f') :=
  Matches.bind hm fun _ a b hu ↦ (hf a b hu).mono (Nat.le_refl _)
    fun _ _ _ ⟨hread, hv⟩ ↦ ⟨.inr hread, hv⟩

/-- A step that may be left out. -/
theorem optional {c c' : Prop} [Decidable c] [Decidable c'] {x x' : EStateM Fault σ Unit}
    {g : Unit → EStateM Fault σ γ} {g' : Unit → EStateM Fault σ δ} (hc : c ↔ c')
    (hx : C.Agrees n Eq x x') (hg : C.Agrees n V (g ()) (g' ())) :
    C.Agrees n V (if c then x >>= g else g ()) (if c' then x' >>= g' else g' ()) :=
  .ite hc (hx.bind fun _ _ _ ↦ hg) hg

/-- A step for every element of a list. -/
theorem forM {l : List γ} {l' : List δ} {g : γ → EStateM Fault σ Unit}
    {g' : δ → EStateM Fault σ Unit} (hl : List.Forall₂ V l l')
    (hg : ∀ c d, V c d → C.Agrees n Eq (g c) (g' d)) : C.Agrees n Eq (l.forM g) (l'.forM g') := by
  induction hl with
  | nil => exact .pure rfl
  | cons hv _ ih => exact Agrees.bind (hg _ _ hv) fun _ _ _ ↦ ih

end Agrees

namespace Reads

theorem agrees (hm : C.Reads n U m m') : C.Agrees n U m m' :=
  hm.mono (Nat.le_refl _) fun _ _ _ ⟨_, hu⟩ ↦ hu

/-- Behind a read there is less to read. -/
theorem bind_of_le (hn : n ≤ k + 1) (hm : C.Reads n U m m')
    (hf : ∀ a b, U a b → C.Agrees k V (f a) (f' b)) : C.Reads n V (m >>= f) (m' >>= f') := by
  intro s s' hs hlt
  refine (hm s s' hs hlt).bind fun t t' a b ht hle ⟨hread, hu⟩ ↦ ?_
  have hend := hf a b hu t t' ht (by omega)
  exact hend.mono (Nat.le_refl _) fun _ _ _ _ hv ↦ ⟨.inl hread, hv⟩

theorem bind (hm : C.Reads (n + 1) U m m') (hf : ∀ a b, U a b → C.Agrees n V (f a) (f' b)) :
    C.Reads (n + 1) V (m >>= f) (m' >>= f') :=
  bind_of_le (Nat.le_refl _) hm hf

end Reads

end

end Comparison

end Pictograph
