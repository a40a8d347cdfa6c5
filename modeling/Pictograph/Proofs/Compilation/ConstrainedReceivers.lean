import Pictograph.Proofs.Compilation.GenericParameters

/-!
# Calls on generic parameters

A value whose static type is a generic parameter is an instance of the constraint of the parameter,
and a call on it is dispatched as one on the constraint. The signature of the method, however, is
read on the parameter, which has no generic arguments. So it counts as it is written, whereas on the
constraint the parameters in it stand for the generic arguments of the constraint.

Nothing comes of that as long as the signature reads on the constraint as it is written, as it does
if the constraint has no generic arguments. The two calls are the same then. Otherwise a parameter
of the class of the method is left in the types of the call, where it is taken for a parameter of
the class of the body.

## Main definitions

* `Analysis.callOn`: the part of a call behind its receiver.
* `Setting.Constrains`: the constraint of a generic parameter.

## Main results

* `Analysis.calls_on_parameter`: calls on a parameter and on its constraint.
* `parameter_differs_from_constraint`: a call that is accepted on a constraint alone.
-/

namespace Pictograph

namespace Ty

mutual

/-- On a receiver without generic arguments every type reads as it is written. -/
theorem resolve_of_arguments_eq_nil {on : Ty} (h : on.arguments = []) : (t : Ty) → resolve on t = t
  | ⟨kind, o, ts⟩ => by
    by_cases hkind : ∃ index, kind = .parameter index
    · obtain ⟨index, rfl⟩ := hkind
      rw [resolve, h]
      rfl
    · rw [resolve_of_ne_parameter fun index hindex ↦ hkind ⟨index, hindex⟩,
        resolveAll_of_arguments_eq_nil h ts]

theorem resolveAll_of_arguments_eq_nil {on : Ty} (h : on.arguments = []) :
    (ts : List Ty) → resolveAll on ts = ts
  | [] => rfl
  | t :: ts => by
    rw [resolveAll, resolve_of_arguments_eq_nil h t, resolveAll_of_arguments_eq_nil h ts]

end

end Ty

/-- In a setting, values of a generic parameter are instances of a type that is not optional. -/
structure Setting.Constrains (Γ : Setting) (i : Nat) (K : Ty) : Prop where
  constraint : Γ.class?.bind (·.constraints[i]?) = some K
  required : K.isOptional = false

namespace Analysis

variable {Γ : Setting} {rec : Recursion} {method : Symbol} {span p q : Span} {opcode : Hole}
  {receiver K : Ty} {m : Member} {i : Nat}

/-! ## Behind the receiver -/

/-- The part of a call behind its receiver. -/
def callOn (Γ : Setting) (rec : Recursion) (method : Symbol) (span : Span) (opcode : Hole)
    (receiver : Ty) (receiverSpan : Span) : Analysis Ty := do
  require (!receiver.isOptional) .optionalReceiver receiverSpan
  let dispatch := dispatchType Γ receiver
  match dispatch.kind with
  | .protocol id =>
    let p ← demand (Γ.catalogue.protocol? id) (noSuchMethod Γ receiver method) span
    let m ← demand (Γ.catalogue.method? dispatch method) (noSuchMethod Γ receiver method) span
    fillOpcode opcode .protocolMethodCall
    emitNumber p.index
    emitNumber m.slot
    callMember Γ rec m receiver span
  | .object _ =>
    let m ← demand (Γ.catalogue.method? dispatch method) (noSuchMethod Γ receiver method) span
    fillOpcode opcode .methodCall
    emitNumber m.slot
    callMember Γ rec m receiver span
  | _ =>
    let operation ← demand (Operation.find? dispatch method)
      (.unknownOperator method.text (Γ.typeName receiver)) span
    fillOpcode opcode (.operator operation.operator)
    if let some operand := operation.operand? then
      let _ ← operandFitting Γ rec operand
    return operation.result

theorem call_eq (Γ : Setting) (rec : Recursion) (method : Symbol) (span : Span) :
    call Γ rec method span = (do
      let opcode ← reserve
      let (receiver, receiverSpan) ← operandAndSpan Γ rec
      callOn Γ rec method span opcode receiver receiverSpan) := rfl

/-- Writes how a method is found when the call runs, by the type through which it is dispatched. -/
def emitDispatch (Γ : Setting) (opcode : Hole) (dispatch : Ty) (m : Member) : Analysis Unit := do
  match dispatch.protocolId?.bind Γ.catalogue.protocol? with
  | some p =>
    fillOpcode opcode .protocolMethodCall
    emitNumber p.index
  | none => fillOpcode opcode .methodCall
  emitNumber m.slot

/-- A call of a method is dispatched first. Then its arguments follow. -/
theorem callOn_eq (hrequired : receiver.isOptional = false)
    (hdispatch : dispatchType Γ receiver = K) (hm : Γ.catalogue.method? K method = some m) :
    callOn Γ rec method span opcode receiver p
      = emitDispatch Γ opcode K m >>= fun _ ↦ callMember Γ rec m receiver span := by
  have hmethod := hm
  rw [Catalogue.method?] at hm
  simp only [callOn, emitDispatch, Ty.protocolId?, hrequired, hdispatch, hmethod, require, demand,
    Bool.not_false, if_true, pure_bind]
  cases hkind : K.kind with
  | protocol id =>
    simp only [hkind] at hm
    cases hp : Γ.catalogue.protocol? id with
    | none =>
      rw [hp] at hm
      cases hm
    | some r => simp only [Option.bind_some, hp, pure_bind, bind_assoc]
  | object id => simp only [Option.bind_none, bind_assoc]
  | _ =>
    simp only [hkind] at hm
    cases hm

/-! ## On a parameter and on its constraint -/

theorem dispatchType_parameter (h : Γ.Constrains i K) : dispatchType Γ (.parameter i) = K :=
  congrArg (·.getD (Ty.parameter i)) h.constraint

/-- A type with methods is no parameter. -/
theorem dispatchType_of_method? (hm : Γ.catalogue.method? K method = some m) :
    dispatchType Γ K = K := by
  rw [Catalogue.method?] at hm
  rw [dispatchType]
  cases hkind : K.kind with
  | parameter index =>
    simp only [hkind] at hm
    cases hm
  | _ => rfl

/-- On a parameter the signature counts as it is written. -/
theorem callMember_parameter :
    callMember Γ rec m (.parameter i) span = (do
      requireAccess Γ m span
      arguments Γ rec (m.arguments.map (·.type))
      return m.result) := by
  have hread : ∀ t, Ty.resolve (.parameter i) t = t := Ty.resolve_of_arguments_eq_nil rfl
  simp only [callMember, argumentTypes, hread]

/-- If the types of the arguments read on the constraint as they are written, a call on the
constraint differs from one on the parameter in its type alone, which is read on the constraint. -/
theorem callOn_constraint (hK : Γ.Constrains i K) (hm : Γ.catalogue.method? K method = some m)
    (harguments : ∀ a ∈ m.arguments, Ty.resolve K a.type = a.type) :
    callOn Γ rec method span opcode K q = do
      let _ ← callOn Γ rec method span opcode (.parameter i) p
      return Ty.resolve K m.result := by
  have hread : argumentTypes m K = m.arguments.map (·.type) := List.map_congr_left harguments
  rw [callOn_eq hK.required (dispatchType_of_method? hm) hm,
    callOn_eq rfl (dispatchType_parameter hK) hm, callMember_parameter, callMember, hread]
  simp only [bind_assoc, pure_bind]

/-- **Calls on a generic parameter and on its constraint.** Let the types of the arguments read on
the constraint as they are written. Then a call on the parameter and one on the constraint are
accepted alike, with the same code, and the type of the one is that of the other, read on the
constraint. If the type of the result reads on the constraint as it is written, too, the two calls
are the same. -/
theorem calls_on_parameter (hK : Γ.Constrains i K) (hm : Γ.catalogue.method? K method = some m)
    (harguments : ∀ a ∈ m.arguments, Ty.resolve K a.type = a.type) :
    callOn Γ rec method span opcode K q
        = Ty.resolve K <$> callOn Γ rec method span opcode (.parameter i) p
      ∧ (Ty.resolve K m.result = m.result →
        callOn Γ rec method span opcode (.parameter i) p
          = callOn Γ rec method span opcode K q) := by
  have hparameter : callOn Γ rec method span opcode (.parameter i) p
      = emitDispatch Γ opcode K m >>= fun _ ↦ callMember Γ rec m (.parameter i) span :=
    callOn_eq rfl (dispatchType_parameter hK) hm
  rw [callOn_constraint (p := p) hK hm harguments, hparameter, callMember_parameter]
  constructor
  · simp only [map_bind, map_pure, bind_assoc, pure_bind]
  · intro hresult
    rw [hresult]
    simp only [bind_assoc, pure_bind]

end Analysis

/-! ## A constraint with a generic argument -/

namespace Sample

/-- A class 🧰 with a generic parameter, a method 📥 that takes a value of it and a method 📏 that
takes an integer and returns one. -/
def chest : ClassDeclaration where
  space := Vocabulary.defaultNamespace
  name := ⟨0x1F9F0⟩
  constraints := [.anything]
  methods := [{ symbol := ⟨0x1F4E5⟩, arguments := [⟨"x", .parameter 0⟩] },
    { symbol := ⟨0x1F4CF⟩, arguments := [⟨"n", .integer⟩], result := .integer }]

/-- A 🧰 for integers. -/
def integerChest : Ty := .objectOf chest.typeId [.integer]

/-- A class 🛠 with a generic parameter that stands for a 🧰 for integers. Its method 🔓 takes a value
of the parameter, and its method 🔑 a 🧰 for integers. -/
def workshop : ClassDeclaration where
  space := Vocabulary.defaultNamespace
  name := ⟨0x1F6E0⟩
  constraints := [integerChest]
  methods := [{ symbol := ⟨0x1F513⟩, arguments := [⟨"b", .parameter 0⟩] },
    { symbol := ⟨0x1F511⟩, arguments := [⟨"b", integerChest⟩] }]

/-- The catalogue of the two classes. -/
def workshops : Catalogue :=
  (Catalogue.empty.addIfPossible (.ofClass chest)).addIfPossible (.ofClass workshop)

/-- The registered class 🛠. -/
def workshopClass : Class := (workshops.class? workshop.typeId).get (by decide +kernel)

/-- The method 🔓 of 🛠. -/
def unlock : Member := workshopClass.methods.head (by decide +kernel)

/-- The method 🔑 of 🛠. -/
def unlockChest : Member := workshopClass.methods.getLast (by decide +kernel)

/-- A body that puts an integer into the argument, `📥 b 7 🍉`. -/
def putSeven : List Token :=
  [word (.identifier ⟨0x1F4E5⟩), word (.reference "b"), word (.integer 7), ask .blockClose]

/-- The setting of 🔓. -/
def workshopSetting : Setting := .ofMember workshops {} workshopClass unlock

/-- Calls a method with the argument `7`, given the type of the receiver, from where the receiver
has been analysed. -/
def callSeven (method : Symbol) (receiver : Ty) : EStateM.Result Fault State Ty :=
  Analysis.callOn workshopSetting (Analysis.expression 1) method .nowhere ⟨0⟩ receiver .nowhere
    { cursor := .start [word (.integer 7)], assembler := Assembler.start.reserve.2,
      session := .start, environment := .start none, frame := {} }

theorem constrains_workshop : workshopSetting.Constrains 0 integerChest :=
  ⟨by decide +kernel, rfl⟩

end Sample

/-- In 🛠 a call of 📏 on a value of the parameter is the same as one on a 🧰 for integers, and is
accepted. -/
theorem calls_on_parameter_sample :
    ∃ m, Sample.workshopSetting.Constrains 0 Sample.integerChest
      ∧ Sample.workshops.method? Sample.integerChest ⟨0x1F4CF⟩ = some m
      ∧ (∀ a ∈ m.arguments, Ty.resolve Sample.integerChest a.type = a.type)
      ∧ Ty.resolve Sample.integerChest m.result = m.result
      ∧ Sample.callSeven ⟨0x1F4CF⟩ (.parameter 0) = Sample.callSeven ⟨0x1F4CF⟩ Sample.integerChest
      ∧ ∃ s, Sample.callSeven ⟨0x1F4CF⟩ (.parameter 0) = .ok .integer s := by
  obtain ⟨m, hm, harguments, hresult⟩ : ∃ m,
      Sample.workshops.method? Sample.integerChest ⟨0x1F4CF⟩ = some m
      ∧ (∀ a ∈ m.arguments, Ty.resolve Sample.integerChest a.type = a.type)
      ∧ Ty.resolve Sample.integerChest m.result = m.result :=
    ⟨(Sample.workshops.method? Sample.integerChest ⟨0x1F4CF⟩).get (by decide +kernel),
      (Option.some_get _).symm, by decide +kernel, by decide +kernel⟩
  obtain ⟨-, hsame⟩ := Analysis.calls_on_parameter Sample.constrains_workshop hm harguments
  exact ⟨m, Sample.constrains_workshop, hm, harguments, hresult, congrFun (hsame hresult) _, _,
    Analysis.eq_ok_of_value? (by decide +kernel)⟩

/-- The parameter of 🛠 stands for a 🧰 for integers. An integer may be put into a 🧰 for integers, but
not into a value of the parameter, which would have to take a value of the parameter itself. -/
theorem parameter_differs_from_constraint :
    Sample.workshops.Reachable
    ∧ Sample.workshopSetting.Constrains 0 Sample.integerChest
    ∧ (Sample.workshops.method? Sample.integerChest ⟨0x1F4E5⟩).isSome
    ∧ (∃ s, Sample.callSeven ⟨0x1F4E5⟩ Sample.integerChest = .ok .nothingness s)
    ∧ Analysis.value? (Sample.callSeven ⟨0x1F4E5⟩ (.parameter 0)) = none
    ∧ (compile Sample.workshops {} .start Sample.workshopClass Sample.unlockChest
        Sample.putSeven).1.toOption.isSome
    ∧ (compile Sample.workshops {} .start Sample.workshopClass Sample.unlock
        Sample.putSeven).1.toOption.isNone :=
  ⟨(Catalogue.Reachable.empty.addIfPossible _).addIfPossible _, Sample.constrains_workshop,
    by decide +kernel, ⟨_, Analysis.eq_ok_of_value? (by decide +kernel)⟩, by decide +kernel,
    by decide +kernel, by decide +kernel⟩

end Pictograph
