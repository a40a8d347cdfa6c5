import Pictograph.Proofs.Analysis.Tolerance
import Pictograph.Proofs.Compilation.Reservations

/-!
# Switches that do not change the code

Two of the options only say what is reported and what is refused: whether variables are recommended
to be frozen, and how many slots the frame of a body may have. A body that is compiled with other
recommendations or with a larger limit is compiled into the same. The larger limit also accepts
bodies that were refused for want of slots.

## Main results

* `compile_tolerant`: what a body is compiled into with options that differ in these.
* `compile_withRecommendations`, `compile_withLargerLimit`: the two switches one by one.
* `compile_same_code`: recommendations change nothing but the warnings, and a larger limit changes
  nothing at all for a body that is accepted.
-/

namespace Pictograph

/-- Whether a remark recommends to freeze a variable. -/
def Remark.recommendsFrozen : Remark → Bool
  | couldBeFrozen _ => true
  | _ => false

/-- The warnings of a session that do not recommend to freeze a variable. -/
def Session.withoutRecommendations (s : Session) : List Warning :=
  s.warnings.toList.filter (!·.remark.recommendsFrozen)

variable (cat : Catalogue) (options : Options) (session : Session) (c : Class) (m : Member)
  (tokens : List Token)

/-- **What a body is compiled into with other options.** If the settings differ in no more than what
is tolerated, then the record or the fault is the same and the sessions agree, unless the fault is
excused. -/
theorem compile_tolerant {τ : Tolerance} {options options' : Options}
    (h : τ.Admits (.ofMember cat options c m) (.ofMember cat options' c m)) :
    ((compile cat options' session c m tokens).1 = (compile cat options session c m tokens).1
      ∧ τ.Agrees (compile cat options session c m tokens).2
          (compile cat options' session c m tokens).2)
    ∨ ∃ fault, τ.excuses fault ∧ (compile cat options session c m tokens).1 = .error fault := by
  unfold compile
  split
  · exact .inl ⟨rfl, .refl _⟩
  cases cat.fieldsFor c m with
  | error fault => exact .inl ⟨rfl, .refl _⟩
  | ok fields =>
    have hend := Tolerance.ends_analyse h m.arguments fields (.refl session) tokens
    dsimp only
    generalize analyse (.ofMember cat options c m) _ _ _ _ = r,
      analyse (.ofMember cat options' c m) _ _ _ _ = r' at hend ⊢
    cases hend with
    | ok ht => exact .inl ⟨rfl, ht⟩
    | error ht => exact .inl ⟨rfl, ht⟩
    | excused he => exact .inr ⟨_, he, rfl⟩

/-- Recommendations make no difference apart from themselves. -/
theorem compile_withRecommendations (on off : Bool) :
    (compile cat (options.withRecommendations off) session c m tokens).1
      = (compile cat (options.withRecommendations on) session c m tokens).1
    ∧ (compile cat (options.withRecommendations off) session c m tokens).2.strings
      = (compile cat (options.withRecommendations on) session c m tokens).2.strings
    ∧ (compile cat (options.withRecommendations off) session c m tokens).2.withoutRecommendations
      = (compile cat (options.withRecommendations on)
          session c m tokens).2.withoutRecommendations := by
  let τ : Tolerance := { ignores := (·.remark.recommendsFrozen), excuses := fun _ ↦ False }
  have hadmits : τ.Admits (.ofMember cat (options.withRecommendations on) c m)
      (.ofMember cat (options.withRecommendations off) c m) :=
    { catalogue := rfl, selfType := rfl, space := rfl, isStatic := rfl, result := rfl,
      initializer? := rfl, compilesDeadCode := rfl,
      recommendsFrozen := .inr fun _ _ ↦ rfl, slotLimit := .inl rfl }
  obtain ⟨hresult, hstrings, hwarnings⟩ | ⟨_, hfalse, _⟩ :=
    compile_tolerant cat session c m tokens hadmits
  · exact ⟨hresult, hstrings, hwarnings⟩
  · exact hfalse.elim

/-- **A larger slot limit** makes no difference, except to bodies that were refused for want of
slots. -/
theorem compile_withLargerLimit {limit limit' : Nat} (hle : limit ≤ limit') :
    compile cat { options with slotLimit := limit' } session c m tokens
      = compile cat { options with slotLimit := limit } session c m tokens
    ∨ ∃ p, (compile cat { options with slotLimit := limit } session c m tokens).1
        = .error ((Cause.tooManyVariables limit).at p) := by
  let τ : Tolerance :=
    { ignores := fun _ ↦ false
      excuses := fun fault ↦ ∃ p, fault = (Cause.tooManyVariables limit).at p }
  have hadmits : τ.Admits (.ofMember cat { options with slotLimit := limit } c m)
      (.ofMember cat { options with slotLimit := limit' } c m) :=
    { catalogue := rfl, selfType := rfl, space := rfl, isStatic := rfl, result := rfl,
      initializer? := rfl, compilesDeadCode := rfl,
      recommendsFrozen := .inl rfl, slotLimit := .inr ⟨hle, fun p ↦ ⟨p, rfl⟩⟩ }
  obtain ⟨hresult, hsession⟩ | ⟨_, ⟨p, rfl⟩, hfault⟩ :=
    compile_tolerant cat session c m tokens hadmits
  · exact .inl (Prod.ext hresult (hsession.eq fun _ ↦ rfl))
  · exact .inr ⟨p, hfault⟩

/-- **Reports and capacity do not change the code.** With and without recommendations to freeze
variables, a body is compiled into the same record or rejected with the same fault, the strings are
the same, and so are the warnings apart from the recommendations. If a body is accepted with some
slot limit, then with every larger one it is compiled into the same record with the same strings and
warnings. -/
theorem compile_same_code :
    (let on := compile cat (options.withRecommendations true) session c m tokens
     let off := compile cat (options.withRecommendations false) session c m tokens
     off.1 = on.1 ∧ off.2.strings = on.2.strings
      ∧ off.2.withoutRecommendations = on.2.withoutRecommendations)
    ∧ ∀ (limit limit' : Nat) (record : Record) (session' : Session), limit ≤ limit' →
      compile cat { options with slotLimit := limit } session c m tokens = (.ok record, session') →
      compile cat { options with slotLimit := limit' } session c m tokens
        = (.ok record, session') := by
  refine ⟨compile_withRecommendations .., fun limit limit' record session' hle h ↦ ?_⟩
  obtain hsame | ⟨p, hfault⟩ := compile_withLargerLimit cat options session c m tokens hle
  · exact hsame.trans h
  · rw [h] at hfault
    cases hfault

/-- A body with a closure that captures a variable is accepted with a limit of one slot, and so it
is compiled into the same with every larger one. -/
theorem compile_same_code_sample :
    ∃ record session',
      compile Sample.catalogue { ({} : Options) with slotLimit := 1 } .start Sample.parentClass
        Sample.method Sample.capture = (.ok record, session')
      ∧ ∀ limit, 1 ≤ limit →
        compile Sample.catalogue { ({} : Options) with slotLimit := limit } .start
          Sample.parentClass Sample.method Sample.capture = (.ok record, session') := by
  have hcode : (listing? Sample.catalogue { ({} : Options) with slotLimit := 1 } .start
      Sample.parentClass Sample.method Sample.capture).isSome := by
    decide +kernel
  obtain ⟨listing, hlisting⟩ := Option.isSome_iff_exists.mp hcode
  obtain ⟨record, session', h, -⟩ := exists_record hlisting
  exact ⟨record, session', h, fun limit hle ↦
    (compile_same_code Sample.catalogue {} .start Sample.parentClass Sample.method
      Sample.capture).2 1 limit record session' hle h⟩

end Pictograph
