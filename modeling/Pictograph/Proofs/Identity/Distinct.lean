import Mathlib.Algebra.Group.Nat.Defs
import Mathlib.Logic.Function.Basic
import Pictograph.Identity.TypeId

/-!
# Identities do not collide

A catalogue keys its types by their identities and never compares names again, so two names with one
identity would be one type. There are no such names: namespace and name are put side by side in one
word, and each step of the digest of a word can be undone.

* Multiplication by an odd constant has an inverse, which is multiplication by another constant.
* A rotation lets the two parts of a word change places.
* Two words that fold alike differ by a word that folds to zero. Such a word is its own shift to the
  right, so it is zero itself.

## Main results

* `Digest.ofWord_injective`: distinct words have distinct digests.
* `TypeId.of_eq_of_iff`: equal identities come from equal names.
-/

namespace Pictograph

/-! ## Steps of the digest -/

namespace Digest

/-! ### Multiplication -/

/-- Multiplication by a word that has an inverse. -/
theorem mul_right_injective {p q : UInt64} (h : p * q = 1) : Function.Injective (· * p) := by
  intro x y hxy
  have hq : x * p * q = y * p * q := congrArg (· * q) hxy
  rwa [UInt64.mul_assoc, UInt64.mul_assoc, h, UInt64.mul_one, UInt64.mul_one] at hq

theorem mul_prime₁_injective : Function.Injective (· * prime₁) :=
  mul_right_injective (q := 0x0887493432BADB37) (by decide)

theorem mul_prime₂_injective : Function.Injective (· * prime₂) :=
  mul_right_injective (q := 0x0BA79078168D4BAF) (by decide)

theorem mul_prime₃_injective : Function.Injective (· * prime₃) :=
  mul_right_injective (q := 0xE9E9F4C41D6DF849) (by decide)

/-! ### Rotation -/

/-- A rotation by `n` moves this part of a word down. The rest of the word goes up. -/
theorem high_lt (x : UInt64) {n : Nat} (h : n < 64) : x.toNat / 2 ^ (64 - n) < 2 ^ n := by
  rw [Nat.div_lt_iff_lt_mul (Nat.two_pow_pos _), ← Nat.pow_add,
    Nat.add_sub_cancel' (Nat.le_of_lt h)]
  exact x.toNat_lt

theorem toNat_rotate (x : UInt64) {n : UInt64} (h₀ : 0 < n.toNat) (h : n.toNat < 64) :
    (rotate x n).toNat
      = x.toNat % 2 ^ (64 - n.toNat) * 2 ^ n.toNat + x.toNat / 2 ^ (64 - n.toNat) := by
  have hsub : (64 - n).toNat = 64 - n.toNat :=
    UInt64.toNat_sub_of_le _ _ (UInt64.le_iff_toNat_le.mpr (Nat.le_of_lt h))
  have hlow : x.toNat <<< n.toNat % 2 ^ 64 = (x.toNat % 2 ^ (64 - n.toNat)) <<< n.toNat := by
    have hpow : 2 ^ 64 = 2 ^ (64 - n.toNat) * 2 ^ n.toNat := by
      rw [← Nat.pow_add, Nat.sub_add_cancel (Nat.le_of_lt h)]
    rw [Nat.shiftLeft_eq, Nat.shiftLeft_eq, hpow, Nat.mul_mod_mul_right]
  rw [rotate, UInt64.toNat_or, UInt64.toNat_shiftLeft, UInt64.toNat_shiftRight, hsub,
    Nat.mod_eq_of_lt h, Nat.mod_eq_of_lt (Nat.sub_lt (by decide) h₀), hlow,
    Nat.shiftRight_eq_div_pow, ← Nat.shiftLeft_add_eq_or_of_lt (high_lt x h), Nat.shiftLeft_eq]

theorem rotate_injective {n : UInt64} (h₀ : 0 < n.toNat) (h : n.toNat < 64) :
    Function.Injective (rotate · n) := by
  intro x y hxy
  have hsum : (rotate x n).toNat = (rotate y n).toNat := congrArg UInt64.toNat hxy
  rw [toNat_rotate x h₀ h, toNat_rotate y h₀ h] at hsum
  -- the part that came down is the remainder, and the part that went up is the rest
  have hhigh : x.toNat / 2 ^ (64 - n.toNat) = y.toNat / 2 ^ (64 - n.toNat) := by
    have hmod := congrArg (· % 2 ^ n.toNat) hsum
    simpa only [Nat.mul_add_mod_self_right, Nat.mod_eq_of_lt (high_lt _ h)] using hmod
  have hlow : x.toNat % 2 ^ (64 - n.toNat) = y.toNat % 2 ^ (64 - n.toNat) := by
    rw [hhigh] at hsum
    exact Nat.eq_of_mul_eq_mul_right (Nat.two_pow_pos _) (Nat.add_right_cancel hsum)
  apply UInt64.toNat_inj.mp
  rw [← Nat.div_add_mod x.toNat, hhigh, hlow, Nat.div_add_mod]

/-! ### Folding -/

theorem fold_xor (n x y : UInt64) : fold n (x ^^^ y) = fold n x ^^^ fold n y := by
  simp only [fold, UInt64.shiftRight_xor]
  ac_rfl

/-- A word that folds to zero is zero. -/
theorem eq_zero_of_fold {n x : UInt64} (hn : 0 < n.toNat % 64) (h : fold n x = 0) : x = 0 := by
  have hx : x = x >>> n := UInt64.xor_eq_zero_iff.mp h
  have hdiv : x.toNat = x.toNat / 2 ^ (n.toNat % 64) := by
    rw [← Nat.shiftRight_eq_div_pow, ← UInt64.toNat_shiftRight, ← hx]
  by_contra hne
  have hpos : 0 < x.toNat := Nat.pos_of_ne_zero fun h₀ ↦ hne (UInt64.toNat_inj.mp h₀)
  exact Nat.ne_of_lt (Nat.div_lt_self hpos (Nat.one_lt_two_pow (Nat.ne_of_gt hn))) hdiv.symm

theorem fold_injective {n : UInt64} (hn : 0 < n.toNat % 64) : Function.Injective (fold n) := by
  intro x y hxy
  have hzero : fold n (x ^^^ y) = 0 := by rw [fold_xor, hxy, UInt64.xor_self]
  exact UInt64.xor_eq_zero_iff.mp (eq_zero_of_fold hn hzero)

/-! ## The digest -/

theorem round_injective : Function.Injective round :=
  mul_prime₁_injective.comp
    ((rotate_injective (n := 31) (by decide) (by decide)).comp mul_prime₂_injective)

theorem absorb_injective : Function.Injective absorb := by
  intro x y hxy
  apply round_injective
  have hmul := (UInt64.add_left_inj prime₄).mp hxy
  have hrotate := mul_prime₁_injective hmul
  have hxor := rotate_injective (n := 27) (by decide) (by decide) hrotate
  exact (UInt64.xor_right_inj _).mp hxor

theorem avalanche_injective : Function.Injective avalanche :=
  (fold_injective (n := 32) (by decide)).comp <| mul_prime₃_injective.comp <|
    (fold_injective (n := 29) (by decide)).comp <| mul_prime₂_injective.comp <|
      fold_injective (n := 33) (by decide)

/-- **Distinct words have distinct digests.** -/
theorem ofWord_injective : Function.Injective ofWord :=
  avalanche_injective.comp absorb_injective

end Digest

/-! ## Identities -/

namespace TypeId

/-- Namespace and name fill the two halves of the word that is digested. -/
theorem toNat_block (space name : Symbol) :
    (block space name).toNat = name.code.toNat * 2 ^ 32 + space.code.toNat := by
  have hlt : name.code.toNat <<< 32 < 2 ^ 64 := by
    rw [Nat.shiftLeft_eq]
    exact Nat.mul_lt_mul_of_pos_right name.code.toNat_lt (by decide)
  rw [block, UInt64.or_comm, UInt64.toNat_or, UInt64.toNat_shiftLeft, UInt32.toNat_toUInt64,
    UInt32.toNat_toUInt64]
  change name.code.toNat <<< 32 % 2 ^ 64 ||| space.code.toNat = _
  rw [Nat.mod_eq_of_lt hlt, ← Nat.shiftLeft_add_eq_or_of_lt space.code.toNat_lt, Nat.shiftLeft_eq]

theorem block_injective {space space' name name' : Symbol}
    (h : block space name = block space' name') : space = space' ∧ name = name' := by
  have hsum : (block space name).toNat = (block space' name').toNat := congrArg UInt64.toNat h
  rw [toNat_block, toNat_block] at hsum
  have hspace := space.code.toNat_lt
  have hspace' := space'.code.toNat_lt
  have hcodes : space.code.toNat = space'.code.toNat ∧ name.code.toNat = name'.code.toNat := by
    omega
  exact ⟨congrArg Symbol.mk (UInt32.toNat_inj.mp hcodes.1),
    congrArg Symbol.mk (UInt32.toNat_inj.mp hcodes.2)⟩

theorem names_eq_of_of_eq {space space' name name' : Symbol}
    (h : of space name = of space' name') : space = space' ∧ name = name' :=
  block_injective (Digest.ofWord_injective ((UInt64.xor_right_inj domain).mp (congrArg bits h)))

/-- **Identities do not collide.** Two types have one identity just if both their namespaces and
their names are equal. -/
theorem of_eq_of_iff (space name space' name' : Symbol) :
    of space name = of space' name' ↔ space = space' ∧ name = name' := by
  constructor
  · intro h
    have hdigest := (UInt64.xor_right_inj domain).mp (congrArg bits h)
    exact block_injective (Digest.ofWord_injective hdigest)
  · rintro ⟨rfl, rfl⟩
    rfl

end TypeId

end Pictograph
