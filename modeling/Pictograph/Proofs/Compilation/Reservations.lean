import Pictograph.Proofs.Analysis.OrderlyConstructs
import Pictograph.Proofs.Compilation.Emitted

/-!
# Reserved words are filled in order

Whatever the tokens of a body are, the analysis never fills a reserved word other than the one that
was reserved last and is still open, and it never ends successfully with one that is open. So the
checks of the assembler on the order of its reservations never fail, and in the code of an accepted
body each reserved word was filled exactly once.

## Main definitions

* `DoneIn`: what the analysis of a body does to reserved words when a procedure is compiled.
* `Touch.Once`: each word that is reserved is filled exactly once.

## Main results

* `reservations_filled_in_order`: reserved words are filled in order, and all of them in the end.
-/

namespace Pictograph

/-- Each word that is reserved is filled exactly once, and no other word is. -/
structure Touch.Once (touches : List Touch) : Prop where
  nodup : (Touch.reserved touches).Nodup
  perm : (Touch.filled touches).Perm (Touch.reserved touches)

/-- When a procedure is compiled, the analysis of its body does this to reserved words. -/
def DoneIn (cat : Catalogue) (options : Options) (session : Session) (c : Class) (m : Member)
    (tokens : List Token) (touches : List Touch) : Prop :=
  ∃ fields, cat.fieldsFor c m = .ok fields
    ∧ Does (Analysis.body (.ofMember cat options c m) (Analysis.expression tokens.length)
      m.arguments [] 0) (.start fields session tokens) touches

theorem Catalogue.fieldsFor_ne_misfilled {cat : Catalogue} {c : Class} {m : Member} :
    cat.fieldsFor c m ≠ .error .misfilled := by
  intro h
  obtain ⟨cause, hfault⟩ := fieldsFor_error h
  exact Cause.at_ne_misfilled cause .nowhere hfault.symm

/-- A body keeps its books in order from the start. -/
theorem analyse_orderly (Γ : Setting) (arguments : List Argument) (fields : Option Scope)
    (session : Session) (tokens : List Token) :
    ∃ touches, Does (Analysis.body Γ (Analysis.expression tokens.length) arguments [] 0)
        (.start fields session tokens) touches
      ∧ match analyse Γ arguments fields session tokens with
        | .ok _ s => Standing [] [] s
        | .error fault _ => fault ≠ .misfilled := by
  have h : Orderly [] [] (Analysis.body Γ (Analysis.expression tokens.length) arguments [] 0)
      (.start fields session tokens) :=
    Analysis.orderly_body (Analysis.orderly_expression _) .nil fun _ hv ↦ nomatch hv
  obtain ⟨touches, hd, ho⟩ :=
    h [] [] ⟨rfl, fun _ hk ↦ (nomatch hk), .nil, fun _ hk ↦ nomatch hk⟩
  refine ⟨touches, hd, ?_⟩
  have he : analyse Γ arguments fields session tokens
      = Analysis.body Γ (Analysis.expression tokens.length) arguments [] 0
        (.start fields session tokens) := rfl
  rw [he]
  cases hr : Analysis.body Γ (Analysis.expression tokens.length) arguments [] 0
    (.start fields session tokens) with
  | ok summary s =>
    rw [hr] at ho
    exact ho
  | error fault s =>
    rw [hr] at ho
    exact ho

theorem analyse_ne_misfilled (Γ : Setting) (arguments : List Argument) (fields : Option Scope)
    (session : Session) (tokens : List Token) (s : State) :
    analyse Γ arguments fields session tokens ≠ .error .misfilled s := by
  obtain ⟨touches, -, ho⟩ := analyse_orderly Γ arguments fields session tokens
  intro h
  rw [h] at ho
  exact ho rfl

/-- **No word is misfilled.** For any tokens, the checks of the assembler never fail. -/
theorem compile_ne_misfilled (cat : Catalogue) (options : Options) (session : Session) (c : Class)
    (m : Member) (tokens : List Token) :
    (compile cat options session c m tokens).1 ≠ .error .misfilled := by
  unfold compile
  split
  · exact fun h ↦ nomatch h
  · split
    · next fault hfields =>
      rintro ⟨⟩
      exact Catalogue.fieldsFor_ne_misfilled hfields
    · next fields hfields =>
      obtain ⟨touches, -, ho⟩ :=
        analyse_orderly (.ofMember cat options c m) m.arguments fields session tokens
      split
      · next fault s hbody =>
        rw [hbody] at ho
        rintro ⟨⟩
        exact ho rfl
      · next summary s hbody =>
        rw [hbody] at ho
        intro h
        -- nothing is open in the end, so the code can be taken
        have hholes : s.assembler.holes = [] := ho.holes
        change finishRecord m summary s = .error .misfilled at h
        unfold finishRecord Assembler.finish? at h
        rw [hholes] at h
        split at h <;> cases h

/-- **Reserved words are filled in order.** For any tokens, no reserved word other than the
innermost open one is filled, and a successful analysis leaves none open; when a procedure is
compiled, each word that was reserved in its code was filled exactly once. -/
theorem reservations_filled_in_order (cat : Catalogue) (options : Options) (session : Session)
    (c : Class) (m : Member) (tokens : List Token) :
    (compile cat options session c m tokens).1 ≠ .error .misfilled
      ∧ (∀ fields, cat.fieldsFor c m = .ok fields →
        ∃ touches, DoneIn cat options session c m tokens touches)
      ∧ ∀ touches, DoneIn cat options session c m tokens touches →
        (Touch.replay? [] touches).isSome
        ∧ (∀ fields, cat.fieldsFor c m = .ok fields →
          ∀ summary s, analyse (.ofMember cat options c m) m.arguments fields session tokens
              = .ok summary s →
            s.assembler.holes = [] ∧ Touch.replay? [] touches = some [])
        ∧ ∀ record session', m.isNative = false →
          compile cat options session c m tokens = (.ok record, session') →
            Touch.Once touches
            ∧ ∀ k ∈ Touch.reserved touches, k < record.code.size := by
  refine ⟨compile_ne_misfilled _ _ _ _ _ _, fun fields hfields ↦ ?_, fun touches hdone ↦ ?_⟩
  · obtain ⟨touches, hd, -⟩ :=
      analyse_orderly (.ofMember cat options c m) m.arguments fields session tokens
    exact ⟨touches, fields, hfields, hd⟩
  obtain ⟨fields, hfields, hd⟩ := hdone
  have htouches := hd.touches (analyse_ne_misfilled _ _ _ _ _)
  -- a successful analysis ends with nothing open
  have hend : ∀ summary s, analyse (.ofMember cat options c m) m.arguments fields session tokens
      = .ok summary s →
      s.assembler.holes = [] ∧ Touch.replay? [] touches = some [] := by
    intro summary s hbody
    obtain ⟨touches', -, ho⟩ :=
      analyse_orderly (.ofMember cat options c m) m.arguments fields session tokens
    rw [hbody] at ho
    have hholes : s.assembler.holes = [] := ho.holes
    have hreplay := htouches.replay
    change Touch.replay? [] _ = some (Analysis.final (analyse _ _ _ _ _)).assembler.holes at hreplay
    rw [hbody] at hreplay
    exact ⟨hholes, hreplay.trans (congrArg some hholes)⟩
  refine ⟨Option.isSome_of_eq_some htouches.replay, fun fields' hfields' summary s hbody ↦ ?_,
    fun record session' hm hcompile ↦ ?_⟩
  · rw [hfields] at hfields'
    cases hfields'
    exact hend summary s hbody
  · obtain ⟨fields', summary, s, hfields', hbody, hcode, -⟩ := analyse_of_compile hm hcompile
    rw [hfields] at hfields'
    cases hfields'
    have hperm := Touch.perm_of_replay? (hend summary s hbody).2
    rw [List.append_nil, List.append_nil] at hperm
    refine ⟨⟨htouches.sorted.imp Nat.ne_of_lt, hperm⟩, fun k hk ↦ ?_⟩
    have hlt := (htouches.bounds k hk).2
    change k < (Analysis.final (analyse _ _ _ _ _)).assembler.chunk.size at hlt
    rw [hbody] at hlt
    rw [hcode]
    exact hlt

namespace Sample

/-- A body with a closure that reads a variable of the frame around it, `🍦 x 1 🍇 ☁ x 🍉 🍉`. -/
def capture : List Token :=
  [ask .declareFrozen, word (.reference "x"), word (.integer 1), ask .blockOpen,
    ask .isNothingness, word (.reference "x"), ask .blockClose, ask .blockClose]

theorem listing_capture : listing? catalogue {} .start parentClass method capture
    = some (Outline.entries [.plain (.access .frame .store) [0] [.plain .integer [1] []],
      .closure 1 [.plain .isNothingness [] [.plain (.access .frame .load) [0] []]] 0 false 1]) := by
  decide +kernel

end Sample

/-- A body with a closure is accepted, and the two words that were reserved in it were filled. -/
theorem reservations_filled_in_order_sample :
    ∃ record session' touches, compile Sample.catalogue {} .start Sample.parentClass Sample.method
        Sample.capture = (.ok record, session')
      ∧ DoneIn Sample.catalogue {} .start Sample.parentClass Sample.method Sample.capture touches
      ∧ Touch.Once touches
      ∧ ∀ k ∈ Touch.reserved touches, k < record.code.size := by
  obtain ⟨record, session', h, -⟩ := exists_record Sample.listing_capture
  obtain ⟨-, hdone, hfilled⟩ := reservations_filled_in_order Sample.catalogue {} .start
    Sample.parentClass Sample.method Sample.capture
  obtain ⟨touches, htouches⟩ := hdone _ Sample.fieldsFor_method
  exact ⟨record, session', touches, h, htouches, (hfilled touches htouches).2.2 record session'
    (by decide +kernel) h⟩

end Pictograph
