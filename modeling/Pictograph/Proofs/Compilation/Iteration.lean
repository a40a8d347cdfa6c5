import Pictograph.Proofs.Catalogue.CompatibilityOrder
import Pictograph.Proofs.Compilation.ReachedStates
import Pictograph.Proofs.Compilation.References

/-!
# What a loop may run over

A loop over the elements of a value looks at the static type of the value twice. The type has to fit
`anyObject` first, and then it has to be that of lists or conform to the enumerable protocol. The
two agree on classes: a value of a class that conforms, by itself or through an ancestor, gets
through to the body of the loop. They do not agree on the enumerable protocol itself. It conforms to
itself, but unlike a class it does not fit `anyObject`. So a value that is known to be enumerable
and nothing else cannot be iterated.

## Main definitions

* `Analysis.Loop`: a loop whose value has been analysed.
* `Analysis.enterLoop`, `Analysis.Loop.elementType`, `Analysis.Loop.run`: the parts of a loop.

## Main results

* `Analysis.forIn_eq`: a loop is made of its parts.
* `Query.answer_forIn`: loops over values of enumerable types.
* `protocol_is_not_iterated`: a body that is rejected because of the static type of its value.
-/

namespace Pictograph

/-! ## Enumerable types -/

namespace Catalogue

variable {cat : Catalogue} {t : Ty}

/-- Enumerable types are classes that conform to the enumerable protocol, and the protocol. -/
theorem isEnumerable_iff : cat.isEnumerable t
    ↔ (∃ id, t.kind = .object id ∧ cat.conforms id TypeId.enumerable)
      ∨ t.kind = .protocol TypeId.enumerable := by
  rw [isEnumerable]
  cases t.kind <;> simp

/-- An enumerable type fits `anyObject` just if it is that of a class. -/
theorem fits_anyObject_iff (henumerable : cat.isEnumerable t) (hrequired : t.isOptional = false) :
    cat.fits t .anyObject ↔ ∃ id, t.kind = .object id := by
  rw [fits_iff]
  constructor
  · intro hfits
    rcases isEnumerable_iff.mp henumerable with ⟨id, hid, -⟩ | hprotocol
    · exact ⟨id, hid⟩
    · cases hfits with
      | anything hu => cases hu
      | nothingness ht => cases ht.symm.trans hprotocol
      | byKind _ _ hkind =>
        have hsame := hkind.kind_eq (by simp [hprotocol]) (by simp [hprotocol])
        cases hprotocol.symm.trans hsame
  · rintro ⟨id, hid⟩
    refine .byKind (by simp [hid]) (fun hoptional ↦ ?_) (.isInstance hid rfl)
    rw [hrequired] at hoptional
    cases hoptional

end Catalogue

namespace Analysis

variable {Γ : Setting} {t : Ty}

/-- What an enumerable value yields has a type. -/
theorem exists_elementType? (h : Γ.catalogue.isEnumerable t) :
    ∃ element, elementType? Γ t = some element := by
  by_cases hlist : t.objectId? = some TypeId.list
  · rw [elementType?, if_pos hlist]
    exact ⟨_, rfl⟩
  · rw [elementType?, if_neg hlist, if_pos h]
    dsimp only
    split <;> exact ⟨_, rfl⟩

/-! ## The parts of a loop -/

/-- A loop whose value has been analysed. -/
structure Loop where
  /-- The word for its opcode. -/
  opcode : Hole
  /-- The name of the element. -/
  name : String
  /-- The place of the name. -/
  span : Span
  /-- The slot of the element. -/
  slot : Nat
  /-- The first token of the value. -/
  token : Token
  /-- The static type of the value. -/
  iteratee : Ty

/-- The part of a loop that ends with its value. The scope of the loop is left open. -/
def enterLoop (Γ : Setting) (rec : Recursion) : Analysis Loop := do
  let opcode ← reserve
  let (name, span) ← variableName
  enterScope
  let slot ← newSlot Γ span
  emitNumber slot
  let hidden ← newSlot Γ span
  emitNumber hidden
  let token ← next
  let iteratee ← rec Γ token (some .anyObject)
  return { opcode, name, span, slot, token, iteratee }

namespace Loop

/-- Refuses values that a loop may not run over because of their static type, and finds the type of
the elements. -/
def elementType (Γ : Setting) (l : Loop) (loopSpan : Span) : Analysis Ty := do
  require (Γ.catalogue.fits l.iteratee .anyObject)
    (.incompatible (Γ.typeName .anyObject) (Γ.typeName l.iteratee)) l.token.span
  demand (elementType? Γ l.iteratee) (.typeMismatch
    s!"{Γ.typeName l.iteratee} does not conform to {Vocabulary.enumerableProtocol.text}") loopSpan

/-- The part of a loop behind its value, given the type of the elements. -/
def run (Γ : Setting) (rec : Recursion) (l : Loop) (element : Ty) : Analysis Ty := do
  fillOpcode l.opcode (.forIn (l.iteratee.objectId? == some TypeId.list))
  declare
    (Variable.ready { name := l.name, type := element, slot := l.slot, span := l.span }).frozen
  let _ ← conditionalBlock Γ rec
  leaveScope Γ
  return .nothingness

/-- Values of classes that conform to the enumerable protocol are accepted. -/
theorem elementType_of_object {l : Loop} {element : Ty} {id : TypeId} (loopSpan : Span)
    (hrequired : l.iteratee.isOptional = false) (henumerable : Γ.catalogue.isEnumerable l.iteratee)
    (hid : l.iteratee.kind = .object id) (helement : elementType? Γ l.iteratee = some element) :
    l.elementType Γ loopSpan = pure element := by
  have hfits := (Catalogue.fits_anyObject_iff henumerable hrequired).mpr ⟨id, hid⟩
  rw [elementType, require, if_pos hfits, pure_bind, helement, demand]

/-- Values of the enumerable protocol are refused in the first place. -/
theorem elementType_of_protocol {l : Loop} (loopSpan : Span)
    (hrequired : l.iteratee.isOptional = false)
    (hprotocol : l.iteratee.kind = .protocol TypeId.enumerable) (s : State) :
    l.elementType Γ loopSpan s = .error ((Cause.incompatible (Γ.typeName .anyObject)
      (Γ.typeName l.iteratee)).at l.token.span) s := by
  have henumerable : Γ.catalogue.isEnumerable l.iteratee :=
    Catalogue.isEnumerable_iff.mpr (.inr hprotocol)
  have hfits : ¬ Γ.catalogue.fits l.iteratee .anyObject := by
    rw [Catalogue.fits_anyObject_iff henumerable hrequired]
    rintro ⟨id, hid⟩
    cases hid.symm.trans hprotocol
  rw [elementType, require, if_neg hfits]
  rfl

end Loop

/-- **A loop is made of its parts**: it is entered, its value is accepted, and it is run. -/
theorem forIn_eq (Γ : Setting) (rec : Recursion) (loopSpan : Span) :
    forIn Γ rec loopSpan = (do
      let l ← enterLoop Γ rec
      let element ← l.elementType Γ loopSpan
      l.run Γ rec element) := by
  simp only [forIn, enterLoop, Loop.elementType, Loop.run, operandFitting, fitting,
    Composed.inScope_eq, bind_assoc, pure_bind]

end Analysis

/-! ## Loops over enumerable values -/

namespace Query

variable {q : Query} {n : Nat} {l : Analysis.Loop} {s : State}

/-- **Loops over enumerable values.** The value of a loop has an enumerable type that is not
optional. If it is the type of a class, then the loop goes on behind the value, so it is not
rejected because of the type. If it is the enumerable protocol itself, then the loop is rejected
because of it. -/
theorem answer_forIn (hasks : q.token.asksFor .forIn)
    (henter : Analysis.enterLoop q.setting (Analysis.expression n) q.begun = .ok l s)
    (hrequired : l.iteratee.isOptional = false)
    (henumerable : q.setting.catalogue.isEnumerable l.iteratee) :
    (∃ id element, l.iteratee.kind = .object id
      ∧ Analysis.elementType? q.setting l.iteratee = some element
      ∧ (Analysis.expression (n + 1)).answer q
        = l.run q.setting (Analysis.expression n) element s)
    ∨ l.iteratee.kind = .protocol TypeId.enumerable
      ∧ (Analysis.expression (n + 1)).answer q
        = .error ((Cause.incompatible (q.setting.typeName .anyObject)
            (q.setting.typeName l.iteratee)).at l.token.span) s := by
  have hforIn : (Analysis.expression (n + 1)).answer q
      = (l.elementType q.setting q.token.span
          >>= fun element ↦ l.run q.setting (Analysis.expression n) element) s := by
    rw [answer_of_asksFor hasks nofun]
    change Analysis.forIn q.setting (Analysis.expression n) q.token.span q.begun = _
    rw [Analysis.forIn_eq, Analysis.bind_of_ok henter]
  rcases Catalogue.isEnumerable_iff.mp henumerable with ⟨id, hid, -⟩ | hprotocol
  · obtain ⟨element, helement⟩ := Analysis.exists_elementType? henumerable
    refine .inl ⟨id, element, hid, helement, hforIn.trans ?_⟩
    rw [l.elementType_of_object _ hrequired henumerable hid helement, pure_bind]
  · exact .inr ⟨hprotocol, hforIn.trans
      (Analysis.bind_of_error (l.elementType_of_protocol _ hrequired hprotocol s))⟩

end Query

/-! ## A swarm and an enumerable value -/

namespace Sample

/-- An enumerable class 🐝 with a method 🌀 and a method 🌻 that takes any enumerable value. -/
def swarm : ClassDeclaration where
  space := Vocabulary.defaultNamespace
  name := ⟨0x1F41D⟩
  protocols := [TypeId.enumerable]
  methods := [{ symbol := ⟨0x1F300⟩ },
    { symbol := ⟨0x1F33B⟩, arguments := [⟨"n", .protocol TypeId.enumerable⟩] }]

/-- The standard types and 🐝. -/
def swarming : Catalogue := Catalogue.standard.addIfPossible (.ofClass swarm)

/-- The registered class 🐝. -/
def swarmClass : Class := (swarming.class? swarm.typeId).get (by decide +kernel)

/-- The method 🌀 of 🐝. -/
def whirl : Member := swarmClass.methods.head (by decide +kernel)

/-- The method 🌻 of 🐝. -/
def pollinate : Member := swarmClass.methods.getLast (by decide +kernel)

/-- What follows in a body that is a loop without statements, `🔂 e value 🍇 🍉 🍉`. -/
def overValue (value : Token) : List Token :=
  [word (.reference "e"), value, ask .blockOpen, ask .blockClose, ask .blockClose]

/-- The query for a loop over the instance. -/
def overSelf : Query :=
  .first (.ofMember swarming {} swarmClass whirl) (some ⟨swarming.fieldVariables swarmClass false⟩)
    .start (ask .forIn) (overValue (ask .selfReference))

/-- The loop over the instance. -/
def selfLoop : Analysis.Loop :=
  (Analysis.value? (Analysis.enterLoop overSelf.setting (Analysis.expression 5)
    overSelf.begun)).get (by decide +kernel)

end Sample

/-- In 🌀 a loop runs over the instance. -/
theorem answer_forIn_self :
    ∃ element s, ReachedIn Sample.swarming {} .start Sample.swarmClass Sample.whirl
        (Sample.ask .forIn :: Sample.overValue (Sample.ask .selfReference)) 6 Sample.overSelf
      ∧ Sample.overSelf.token.asksFor .forIn
      ∧ Analysis.enterLoop Sample.overSelf.setting (Analysis.expression 5) Sample.overSelf.begun
        = .ok Sample.selfLoop s
      ∧ Sample.selfLoop.iteratee.isOptional = false
      ∧ Sample.swarming.isEnumerable Sample.selfLoop.iteratee
      ∧ (Analysis.expression 6).answer Sample.overSelf
        = Sample.selfLoop.run Sample.overSelf.setting (Analysis.expression 5) element s := by
  have hreached : ReachedIn Sample.swarming {} .start Sample.swarmClass Sample.whirl
      (Sample.ask .forIn :: Sample.overValue (Sample.ask .selfReference)) 6 Sample.overSelf :=
    reachedIn_first (by decide +kernel) rfl (by decide +kernel) (by decide +kernel)
  have hasks : Sample.overSelf.token.asksFor .forIn := by decide +kernel
  obtain ⟨s, henter⟩ : ∃ s, Analysis.enterLoop Sample.overSelf.setting (Analysis.expression 5)
      Sample.overSelf.begun = .ok Sample.selfLoop s :=
    ⟨_, Analysis.eq_ok_of_value? (Option.some_get _).symm⟩
  have hrequired : Sample.selfLoop.iteratee.isOptional = false := by decide +kernel
  have henumerable : Sample.swarming.isEnumerable Sample.selfLoop.iteratee := by decide +kernel
  rcases Query.answer_forIn hasks henter hrequired henumerable with
    ⟨-, element, -, -, hrun⟩ | ⟨hprotocol, -⟩
  · exact ⟨element, s, hreached, hasks, henter, hrequired, henumerable, hrun⟩
  · exact absurd hprotocol (by decide +kernel)

/-- **The enumerable protocol is enumerable but not iterated.** In 🌻 a loop over the argument, whose
static type is the enumerable protocol, is rejected because of that type. -/
theorem protocol_is_not_iterated :
    Sample.swarming.Reachable
    ∧ Sample.swarming.isEnumerable (.protocol TypeId.enumerable)
    ∧ (Ty.protocol TypeId.enumerable).isOptional = false
    ∧ Sample.pollinate.arguments.map (·.type) = [.protocol TypeId.enumerable]
    ∧ (compile Sample.swarming {} .start Sample.swarmClass Sample.pollinate
        (Sample.ask .forIn :: Sample.overValue (Sample.word (.reference "n")))).1
      = .error ((Cause.incompatible "🔵" "🔂").at .nowhere) :=
  ⟨.addIfPossible .standard _, by decide +kernel, rfl, by decide +kernel, by decide +kernel⟩

end Pictograph
