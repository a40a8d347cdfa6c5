import Pictograph.Proofs.Catalogue.CompatibilityOrder
import Pictograph.Proofs.Compilation.ReachedStates
import Pictograph.Proofs.Compilation.References

/-!
# Casts of values that may be nothingness

Casts to classes and to protocols have a safe variant, for values that may be nothingness when the
program runs. Whether a value may be is a matter of its static type: nothingness has to fit it. A
cast does not ask the catalogue about that, it looks for an optional mark and for `anything`. The
two agree on all types but one. To plain nothingness, the type of the literal and of a call that
returns nothing, nothingness fits by its kind and not by a mark. So a cast of a value that is
nothingness for certain comes without the test for it.

## Main definitions

* `Analysis.Cast`: a cast whose value and target are known.
* `Analysis.enterCast`, `Analysis.Cast.run`: the parts of a cast.
* `Chunk.CastsTo`: the opcode of a cast to a class or a protocol.

## Main results

* `Analysis.cast_eq`: a cast is made of its parts.
* `Query.castsTo`: the variant of a cast, in the code of the body.
* `casts_nothingness_unsafely`: a body that casts nothingness by the unsafe variant.
-/

namespace Pictograph

/-! ## Types that nothingness fits -/

/-- Nothingness by its kind, and not by a mark. -/
def Ty.IsPlainNothingness (t : Ty) : Prop := t.kind = .nothingness ∧ t.isOptional = false

instance (t : Ty) : Decidable t.IsPlainNothingness := inferInstanceAs (Decidable (_ ∧ _))

/-- Nothingness fits `anything`, nothingness and the optional types. -/
theorem Catalogue.fits_nothingness_iff {cat : Catalogue} {t : Ty} :
    cat.fits .nothingness t ↔ t.kind = .anything ∨ t.kind = .nothingness ∨ t.isOptional := by
  rw [fits_iff]
  constructor
  · intro hfits
    cases hfits with
    | anything hu => exact .inl hu
    | nothingness _ hu => exact .inr hu
    | byKind ht => exact absurd rfl ht
  · rintro (hanything | hnothingness)
    · exact .anything hanything
    · exact .nothingness rfl hnothingness

/-- A cast expects nothingness in a value just if nothingness fits the type of the value, unless
that is plain nothingness. -/
theorem Analysis.needsSafeCast_iff (cat : Catalogue) {t : Ty} :
    needsSafeCast t ↔ cat.fits .nothingness t ∧ ¬ t.IsPlainNothingness := by
  rw [Catalogue.fits_nothingness_iff, needsSafeCast, Bool.or_eq_true, beq_iff_eq,
    Ty.IsPlainNothingness]
  constructor
  · rintro (hanything | hoptional)
    · exact ⟨.inl hanything, fun hplain ↦ nomatch hanything.symm.trans hplain.1⟩
    · exact ⟨.inr (.inr hoptional), fun hplain ↦ nomatch hoptional.symm.trans hplain.2⟩
  · rintro ⟨hanything | hnothingness | hoptional, hplain⟩
    · exact .inl hanything
    · exact .inr (Bool.of_not_eq_false fun hrequired ↦ hplain ⟨hnothingness, hrequired⟩)
    · exact .inr hoptional

/-! ## Opcodes of casts -/

/-- If the target is a class or a protocol, then the code has the opcode of the cast to it at an
offset, in the safe variant or in the other. -/
structure Chunk.CastsTo (code : Chunk) (offset : Nat) (target : Ty) (safe : Bool) : Prop where
  object : ∀ id, target.kind = .object id →
    code.opcodeAt? offset = some (.cast (.object safe))
  protocol : ∀ id, target.kind = .protocol id →
    code.opcodeAt? offset = some (.cast (.protocol safe))

/-- The opcode of a cast is still there later. -/
theorem Chunk.CastsTo.staysIn {code later : Chunk} {offset : Nat} {target : Ty} {safe : Bool}
    (h : code.CastsTo offset target safe) (hstays : code.StaysIn later offset) :
    later.CastsTo offset target safe := by
  have hlater {op : Opcode} (hop : code.opcodeAt? offset = some op) :
      later.opcodeAt? offset = some op := by
    rw [opcodeAt?, hstays _ (Nat.le_refl _) (lt_size_of_opcodeAt? hop)]
    exact hop
  exact ⟨fun id hid ↦ hlater (h.object id hid), fun id hid ↦ hlater (h.protocol id hid)⟩

namespace Analysis

variable {Γ : Setting} {rec : Recursion} {s s' : State} {t : Ty} {span : Span}

/-! ## The parts of a cast -/

/-- A cast whose value and target are known. -/
structure Cast where
  /-- The word for its opcode. -/
  opcode : Hole
  /-- The static type of the value. -/
  found : Ty
  /-- The type that the value is cast to. -/
  target : Ty
deriving DecidableEq

/-- The part of a cast that reads its value and its target. -/
def enterCast (Γ : Setting) (rec : Recursion) (span : Span) : Analysis Cast := do
  let opcode ← reserve
  let found ← operandFitting Γ rec .anything
  let (target, _) ← annotation Γ .forbidden
  if Γ.catalogue.fits found target then
    warn .redundantCast span
  return { opcode, found, target }

/-- The part of a cast that writes its opcode. -/
def Cast.run (Γ : Setting) (k : Cast) (span : Span) : Analysis Ty := do
  let safe := needsSafeCast k.found
  let invalid := Cause.invalidCastTarget (Γ.typeName k.target)
  match k.target.kind with
  | .object id =>
    let c ← demand (Γ.catalogue.class? id) invalid span
    require (hasWidestArguments Γ k.target c) (.typeMismatch
      "dynamic casts involving generic type arguments are not possible yet") span
    fillOpcode k.opcode (.cast (.object safe))
    emitNumber c.index
  | .protocol id =>
    let p ← demand (Γ.catalogue.protocol? id) invalid span
    fillOpcode k.opcode (.cast (.protocol safe))
    emitNumber p.index
  | .boolean => fillOpcode k.opcode (.cast .boolean)
  | .integer => fillOpcode k.opcode (.cast .integer)
  | .symbol => fillOpcode k.opcode (.cast .symbol)
  | .double => fillOpcode k.opcode (.cast .double)
  | _ => fail invalid span
  return k.target.optional

/-- **A cast is made of its parts**: its value and its target are read, and its opcode is
written. -/
theorem cast_eq (Γ : Setting) (rec : Recursion) (span : Span) :
    cast Γ rec span = (do
      let k ← enterCast Γ rec span
      k.run Γ span) := by
  simp only [cast, enterCast, bind_assoc]
  apply bind_congr
  intro opcode
  apply bind_congr
  intro found
  apply bind_congr
  rintro ⟨target, -⟩
  dsimp only
  split
  · rw [bind_assoc]
    rfl
  · rw [pure_bind]
    rfl

/-- The opcode of a cast stands in front of its value. -/
theorem enterCast_ok {k : Cast} (h : enterCast Γ rec span s = .ok k s') :
    k.opcode.offset = s.offset := by
  obtain ⟨opcode, s₁, hreserve, h⟩ := bind_ok h
  cases hreserve
  obtain ⟨found, s₂, -, h⟩ := bind_ok h
  obtain ⟨⟨target, _⟩, s₃, -, h⟩ := bind_ok h
  dsimp only at h
  split at h
  · obtain ⟨_, s₄, -, h⟩ := bind_ok h
    obtain ⟨rfl, -⟩ := pure_ok h
    rfl
  · obtain ⟨rfl, -⟩ := pure_ok h
    rfl

/-- An opcode that is filled in stands where its word was reserved, whatever word comes next. -/
theorem opcodeAt?_of_fillOpcode {hole : Hole} {op : Opcode} {number : Nat} {u : Unit}
    (h : (do fillOpcode hole op; emitNumber number) s = .ok u s') :
    s'.assembler.chunk.opcodeAt? hole.offset = some op := by
  obtain ⟨_, s₁, hfill, h⟩ := bind_ok h
  obtain ⟨a, ha, rfl⟩ := filling_ok hfill
  obtain ⟨chunk, holes, hchunk, -, rfl⟩ := Assembler.exists_of_close ha
  cases h
  exact (Chunk.opcodeAt?_pushWord ..).trans
    ((Chunk.opcodeAt?_patchOpcode? hchunk _).trans (if_pos rfl))

/-- A cast to a class or a protocol is safe if its value needs it. -/
theorem Cast.run_ok {k : Cast} (h : k.run Γ span s = .ok t s') :
    s'.assembler.chunk.CastsTo k.opcode.offset k.target (needsSafeCast k.found) := by
  constructor
  · intro id hid
    rw [run, hid] at h
    dsimp only at h
    obtain ⟨d, s₁, hdemand, h⟩ := bind_ok h
    obtain ⟨_, s₂, hrequire, h⟩ := bind_ok h
    rw [← bind_assoc] at h
    obtain ⟨_, s₃, hfilled, h⟩ := bind_ok h
    obtain ⟨-, rfl⟩ := pure_ok h
    exact opcodeAt?_of_fillOpcode hfilled
  · intro id hid
    rw [run, hid] at h
    dsimp only at h
    obtain ⟨p, s₁, hdemand, h⟩ := bind_ok h
    rw [← bind_assoc] at h
    obtain ⟨_, s₂, hfilled, h⟩ := bind_ok h
    obtain ⟨-, rfl⟩ := pure_ok h
    exact opcodeAt?_of_fillOpcode hfilled

end Analysis

/-- **The variant of a cast.** An accepted cast has its opcode in front of its value. If the target
is a class or a protocol, the opcode is the one of the safe variant just if nothingness fits the
static type of the value, except that it is not if that type is plain nothingness. If the cast is in
an accepted body, then the code of the body has the opcode there in the end. -/
theorem Query.castsTo {q : Query} {n : Nat} {t : Ty} {s' : State} (hasks : q.token.asksFor .cast)
    (hanswer : (Analysis.expression (n + 1)).answer q = .ok t s') :
    ∃ k s safe, Analysis.enterCast q.setting (Analysis.expression n) q.token.span q.begun = .ok k s
      ∧ (safe = true ↔ q.setting.catalogue.fits .nothingness k.found
        ∧ ¬ k.found.IsPlainNothingness)
      ∧ s'.assembler.chunk.CastsTo q.state.offset k.target safe
      ∧ ∀ cat options session c m tokens record session',
        ReachedIn cat options session c m tokens (n + 1) q →
        compile cat options session c m tokens = (.ok record, session') →
        record.code.CastsTo q.state.offset k.target safe := by
  have hcast : Analysis.cast q.setting (Analysis.expression n) q.token.span q.begun = .ok t s' :=
    (answer_of_asksFor hasks nofun).symm.trans hanswer
  rw [Analysis.cast_eq] at hcast
  obtain ⟨k, s, henter, hrun⟩ := Analysis.bind_ok hcast
  have hemitted := Analysis.Cast.run_ok hrun
  rw [Analysis.enterCast_ok henter] at hemitted
  refine ⟨k, s, _, henter, Analysis.needsSafeCast_iff _, hemitted, ?_⟩
  intro cat options session c m tokens record session' hreached hcompile
  exact hemitted.staysIn (hreached.staysIn hcompile hanswer)

namespace Sample

/-- A body that casts a value to 🐱, `🔲 value 🐱 🍉`. -/
def casting (value : List Token) : List Token :=
  ask .cast :: (value ++ [word (.identifier ⟨0x1F431⟩), ask .blockClose])

/-- The query for the cast. -/
def castingQuery (value : List Token) : Query :=
  .first (.ofMember catalogue {} parentClass method)
    (some ⟨catalogue.fieldVariables parentClass false⟩) .start (ask .cast) (casting value).tail

theorem reachedIn_casting (value : List Token) :
    ReachedIn catalogue {} .start parentClass method (casting value) (value.length + 3)
      (castingQuery value) := by
  have hlength : (casting value).tail.length + 1 = value.length + 3 := by
    rw [casting, List.tail_cons, List.length_append]
    rfl
  exact hlength ▸ reachedIn_first (by decide +kernel) rfl (by decide +kernel) (by decide +kernel)

/-- A value that may be nothingness, the instance cast to 🦁. -/
def castInstance : List Token :=
  [ask .cast, ask .selfReference, word (.identifier ⟨0x1F981⟩)]

/-- What the cast of a value has read in front of its opcode, unless it is rejected. -/
def entered? (value : List Token) : Option Analysis.Cast :=
  Analysis.value? (Analysis.enterCast (castingQuery value).setting
    (Analysis.expression (value.length + 2)) (castingQuery value).token.span
    (castingQuery value).begun)

end Sample

/-- The cast of a cast is safe. -/
theorem castsTo_castInstance :
    ∃ t s' record session',
      ReachedIn Sample.catalogue {} .start Sample.parentClass Sample.method
        (Sample.casting Sample.castInstance) 6 (Sample.castingQuery Sample.castInstance)
      ∧ (Sample.castingQuery Sample.castInstance).token.asksFor .cast
      ∧ (Analysis.expression 6).answer (Sample.castingQuery Sample.castInstance) = .ok t s'
      ∧ compile Sample.catalogue {} .start Sample.parentClass Sample.method
        (Sample.casting Sample.castInstance) = (.ok record, session')
      ∧ record.code.opcodeAt? 0 = some (.cast (.object true)) := by
  have hreached := Sample.reachedIn_casting Sample.castInstance
  have hasks : (Sample.castingQuery Sample.castInstance).token.asksFor .cast := by decide +kernel
  have hanswer := Analysis.eq_ok_of_value? (a := (Ty.object Sample.parent.typeId).optional)
    (r := (Analysis.expression 6).answer (Sample.castingQuery Sample.castInstance))
    (by decide +kernel)
  have hcode : (listing? Sample.catalogue {} .start Sample.parentClass Sample.method
      (Sample.casting Sample.castInstance)).isSome := by
    decide +kernel
  obtain ⟨listing, hlisting⟩ := Option.isSome_iff_exists.mp hcode
  obtain ⟨record, session', hcompile, -⟩ := exists_record hlisting
  have hentered : Sample.entered? Sample.castInstance
      = some ⟨⟨0⟩, (Ty.object Sample.child.typeId).optional, .object Sample.parent.typeId⟩ := by
    decide +kernel
  obtain ⟨k, s, safe, henter, hsafe, -, hcasts⟩ := Query.castsTo hasks hanswer
  obtain rfl := Option.some.inj ((congrArg Analysis.value? henter).symm.trans hentered)
  obtain rfl : safe = true := hsafe.mpr ⟨by decide +kernel, by decide +kernel⟩
  exact ⟨_, _, record, session', hreached, hasks, hanswer, hcompile,
    (hcasts _ _ _ _ _ _ record session' hreached hcompile).object _ rfl⟩

/-- **Nothingness is cast by the unsafe variant.** The literal is of a type that nothingness fits,
and the cast of it to a class is not the safe one. -/
theorem casts_nothingness_unsafely :
    ∃ record session',
      compile Sample.catalogue {} .start Sample.parentClass Sample.method
        (Sample.casting [Sample.ask .nothingness]) = (.ok record, session')
      ∧ ReachedIn Sample.catalogue {} .start Sample.parentClass Sample.method
        (Sample.casting [Sample.ask .nothingness]) 4
        (Sample.castingQuery [Sample.ask .nothingness])
      ∧ (Sample.castingQuery [Sample.ask .nothingness]).token.asksFor .cast
      ∧ Sample.entered? [Sample.ask .nothingness]
        = some ⟨⟨0⟩, .nothingness, .object Sample.parent.typeId⟩
      ∧ Sample.catalogue.fits .nothingness .nothingness
      ∧ record.code.opcodeAt? 0 = some (.cast (.object false)) := by
  have hcasts : ((compile Sample.catalogue {} .start Sample.parentClass Sample.method
      (Sample.casting [Sample.ask .nothingness])).1.toOption.bind fun record ↦
        record.code.opcodeAt? 0) = some (.cast (.object false)) := by
    decide +kernel
  obtain ⟨record, session', hcompile, hcode⟩ := exists_record_of_bind hcasts
  exact ⟨record, session', hcompile, Sample.reachedIn_casting _, by decide +kernel,
    by decide +kernel, by decide +kernel, hcode⟩

end Pictograph
