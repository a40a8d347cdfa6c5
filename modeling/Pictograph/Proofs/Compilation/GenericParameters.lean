import Pictograph.Proofs.Compilation.References
import Pictograph.Proofs.Ty.Substitution

/-!
# Generic parameters in signatures

A generic parameter is a number without an owner, so one that is left in a type is read as a
parameter of the class whose body is analysed. Where a body refers to a procedure, the signature is
read on a receiver, and the parameters of the class that declares the procedure become the generic
arguments of the receiver. Then the parameters in it are those that these arguments mention.

This takes a receiver with an argument for each parameter. Not every receiver has them: a class does
not say which arguments its superclass has, so an inherited procedure may be declared by a class
with more parameters than the receiver has arguments, and a parameter without an argument stays as
it is.

## Main definitions

* `Catalogue.SignaturesClosed`: the members of each class mention only parameters of the class.

## Main results

* `parameters_of_references`: the parameters in the signatures of an accepted body.
* `parameter_of_ancestor`: a body that takes a parameter of another class for its own.
-/

namespace Pictograph

/-- The parameters in a class type are those in its arguments. -/
theorem Ty.mentions_of_objectId? {t : Ty} {i : Nat} (h : t.objectId?.isSome) (ht : t.Mentions i) :
    ∃ a ∈ t.arguments, a.Mentions i := by
  obtain ⟨id, hid⟩ := Option.isSome_iff_exists.mp h
  have hkind := kind_of_objectId? hid
  obtain ⟨kind, o, ts⟩ := t
  rw [Mentions] at ht
  obtain hparameter | hany := ht
  · cases hparameter.symm.trans hkind
  · exact mentionsAny_iff.mp hany

/-! ## References -/

/-- The members of each class mention only generic parameters that the class has. -/
def Catalogue.SignaturesClosed (cat : Catalogue) : Prop :=
  ∀ d ∈ cat.latestClasses, ∀ m ∈ d.allMembers, ∀ t ∈ m.result :: m.arguments.map (·.type), ∀ i,
    t.Mentions i → i < d.constraints.length

section

variable {cat : Catalogue} {c d : Class} {m : Member} {l : Lookup} {t u : Ty} {i : Nat}

/-- A parameter in the signature of a member, as it reads on a receiver, occurs in an argument of
the receiver, or it is a parameter of the class of the member, and that has more parameters than the
receiver has arguments. -/
theorem Catalogue.SignaturesClosed.of_mentions (h : cat.SignaturesClosed)
    (hd : d ∈ cat.latestClasses) (hm : m ∈ d.allMembers) {on : Ty}
    (hu : u ∈ Ty.resolve on m.result :: Analysis.argumentTypes m on) (hi : u.Mentions i) :
    (∃ a ∈ on.arguments, a.Mentions i)
      ∨ i < d.constraints.length ∧ on.arguments.length < d.constraints.length := by
  obtain ⟨v, hv, rfl⟩ : ∃ v ∈ m.result :: m.arguments.map (·.type), Ty.resolve on v = u := by
    obtain rfl | hu := List.mem_cons.mp hu
    · exact ⟨m.result, List.mem_cons_self, rfl⟩
    · obtain ⟨a, ha, rfl⟩ := List.mem_map.mp hu
      exact ⟨a.type, List.mem_cons_of_mem _ (List.mem_map_of_mem ha), rfl⟩
  obtain hargument | ⟨hi, j, hj, hlength⟩ := Ty.of_mentions_resolve on i v hi
  · exact .inl hargument
  · exact .inr ⟨h d hd m hm v hv i hi, Nat.lt_of_le_of_lt hlength (h d hd m hm v hv j hj)⟩

/-- The parameters in the type of a construct come from the signature that it refers to, or from the
receiver. -/
theorem Lookup.Gives.mentions (h : l.Gives m t) (hi : t.Mentions i) :
    (∃ u ∈ Ty.resolve l.receiver m.result :: Analysis.argumentTypes m l.receiver, u.Mentions i)
      ∨ ∃ a ∈ l.receiver.arguments, a.Mentions i := by
  cases h with
  | result => exact .inl ⟨_, List.mem_cons_self, hi⟩
  | optionalResult => exact .inl ⟨_, List.mem_cons_self, Ty.mentions_withOptional.mp hi⟩
  | bound =>
    rw [Ty.callable, Ty.Mentions] at hi
    obtain hkind | hi := hi
    · cases hkind
    · exact .inl (Ty.mentionsAny_iff.mp hi)
  | created hclass =>
    exact .inr (Ty.mentions_of_objectId? hclass (Ty.mentions_withOptional.mp hi))
  | nothingness =>
    rw [Ty.nothingness, Ty.plain, Ty.Mentions, Ty.MentionsAny] at hi
    obtain hkind | hi := hi
    · cases hkind
    · exact absurd hi id

end

/-- **Parameters of other classes stay out**, as far as the receivers have arguments for them. Where
an expression of an accepted body refers to a procedure on a class type, the parameters in its type
and in the types that the arguments are checked against occur in generic arguments of that class
type. Other parameters of the class that declares the procedure are there only if this class has
more of them than the class type has arguments. -/
theorem parameters_of_references {cat : Catalogue} {options : Options}
    {session session' : Session} {c : Class} {m : Member} {tokens : List Token} {record : Record}
    (hsignatures : cat.SignaturesClosed)
    (h : compile cat options session c m tokens = (.ok record, session')) {n : Nat} {q : Query}
    (hq : ReachedIn cat options session c m tokens n q) :
    ∃ k l? s t s', n = k + 1 ∧ q.lookup? (Analysis.expression k) q.state = .ok l? s
      ∧ (Analysis.expression n).answer q = .ok t s'
      ∧ ∀ l ∈ l?, l.receiver.objectId?.isSome → ∃ p, l.member? cat = some p
        ∧ ∃ d ∈ cat.latestClasses, p ∈ d.allMembers
          ∧ ∀ u ∈ t :: Analysis.argumentTypes p l.receiver, ∀ i, u.Mentions i →
            (∃ a ∈ l.receiver.arguments, a.Mentions i)
              ∨ i < d.constraints.length
                ∧ l.receiver.arguments.length < d.constraints.length := by
  obtain ⟨k, l?, s, t, s', hn, hlookup, hanswer, hfound⟩ := exists_found_of_reachedIn hq h
  refine ⟨k, l?, s, t, s', hn, hlookup, hanswer, fun l hl hclass ↦ ?_⟩
  obtain ⟨p, hfound⟩ := hfound l hl
  have hp : l.member? cat = some p := by
    rw [← hq.shares.1]
    exact hfound.member
  refine ⟨p, hp, ?_⟩
  obtain ⟨id, hid⟩ := Option.isSome_iff_exists.mp (hfound.target hclass)
  cases Catalogue.offers_of_member? hp with
  | ofProtocol hprotocol _ _ => cases (Ty.kind_of_objectId? hid).symm.trans hprotocol
  | @inherited _ d _ hd hm =>
    have hd := Catalogue.mem_of_mem_lineage hd
    refine ⟨d, hd, hm, fun u hu i hi ↦ ?_⟩
    obtain rfl | hu := List.mem_cons.mp hu
    · obtain ⟨v, hv, hi⟩ | hargument := hfound.gives.mentions hi
      · exact hsignatures.of_mentions hd hm hv hi
      · exact .inl hargument
    · exact hsignatures.of_mentions hd hm (List.mem_cons_of_mem _ hu) hi

/-! ## A class that fixes no argument of its superclass -/

namespace Sample

/-- A class 📦 with a generic parameter and a method 📤 that returns it. -/
def box : ClassDeclaration where
  space := Vocabulary.defaultNamespace
  name := ⟨0x1F4E6⟩
  constraints := [.anything]
  methods := [{ symbol := ⟨0x1F4E4⟩, result := .parameter 0 }]

/-- A subclass 🧺 of 📦 without parameters. -/
def basket : ClassDeclaration where
  space := Vocabulary.defaultNamespace
  name := ⟨0x1F9FA⟩
  superclass? := some box.typeId

/-- A class 🏭 with a generic parameter and a method 🔓 that takes a 🧺 and returns the parameter. -/
def factory : ClassDeclaration where
  space := Vocabulary.defaultNamespace
  name := ⟨0x1F3ED⟩
  constraints := [.anything]
  methods := [{ symbol := ⟨0x1F513⟩, arguments := [⟨"b", .object basket.typeId⟩]
                result := .parameter 0 }]

/-- The catalogue of the three classes. -/
def boxes : Catalogue := ((Catalogue.empty.addIfPossible (.ofClass box)).addIfPossible
  (.ofClass basket)).addIfPossible (.ofClass factory)

/-- The registered class 📦. -/
def boxClass : Class := (boxes.class? box.typeId).get (by decide +kernel)

/-- The method 📤 of 📦. -/
def boxMethod : Member := boxClass.methods.head (by decide +kernel)

/-- The registered class 🏭. -/
def factoryClass : Class := (boxes.class? factory.typeId).get (by decide +kernel)

/-- The method 🔓 of 🏭. -/
def factoryMethod : Member := factoryClass.methods.head (by decide +kernel)

theorem signaturesClosed_boxes : boxes.SignaturesClosed := by
  have hsignatures : ∀ d ∈ boxes.latestClasses, ∀ m ∈ d.allMembers,
      ∀ t ∈ m.result :: m.arguments.map (·.type),
        t = .parameter 0 ∧ 0 < d.constraints.length ∨ t = .object basket.typeId := by
    decide +kernel
  intro d hd m hm t ht i hi
  obtain ⟨rfl, hpositive⟩ | rfl := hsignatures d hd m hm t ht
  · rw [Ty.parameter, Ty.plain, Ty.Mentions, Ty.MentionsAny, or_false] at hi
    cases hi
    exact hpositive
  · rw [Ty.object, Ty.plain, Ty.Mentions, Ty.MentionsAny, or_false] at hi
    cases hi

/-- A body that returns what 📤 returns on the instance, `🍎 📤 🐕 🍉`. -/
def unpackSelf : List Token :=
  [ask .returning, word (.identifier ⟨0x1F4E4⟩), ask .selfReference, ask .blockClose]

/-- A body that returns what 📤 returns on the argument, `🍎 📤 b 🍉`. -/
def unpackArgument : List Token :=
  [ask .returning, word (.identifier ⟨0x1F4E4⟩), word (.reference "b"), ask .blockClose]

/-- The call of 📤 in a body looks the method up on a receiver and has the type parameter 0. -/
def Unpacks (c : Class) (m : Member) (tokens : List Token) (receiver : Ty) : Prop :=
  ∃ q, ReachedIn boxes {} .start c m tokens 3 q
    ∧ (∃ s, q.lookup? (Analysis.expression 2) q.state
      = .ok (some ⟨.method, receiver, ⟨0x1F4E4⟩, receiver⟩) s)
    ∧ ∃ s, (Analysis.expression 3).answer q = .ok (.parameter 0) s

theorem unpacks_unpackSelf : Unpacks boxClass boxMethod unpackSelf boxClass.selfType := by
  refine ⟨?call, ⟨by decide +kernel, some .empty, by decide +kernel,
    .nested (q := ?outer) (.asked ?asksOuter) ?asksCall⟩, ⟨_, Analysis.eq_ok_of_value? ?lookup⟩,
    _, Analysis.eq_ok_of_value? ?answer⟩
  case asksOuter =>
    have htoken : (ask .returning).asksFor .blockClose = false := by decide +kernel
    exact asks_first htoken
  case asksCall =>
    refine .behind_value () (by decide +kernel) (.behind rfl ?_)
    refine .behind_value () (by decide +kernel) (.behind_value () (by decide +kernel) ?_)
    refine .behind_value () (by decide +kernel) (.behind_value () (by decide +kernel) (.first ?_))
    refine .behind_value (word (.identifier ⟨0x1F4E4⟩)) (by decide +kernel) (.first ?_)
    exact .call
  case lookup => decide +kernel
  case answer => decide +kernel

theorem unpacks_unpackArgument :
    Unpacks factoryClass factoryMethod unpackArgument (.object basket.typeId) := by
  refine ⟨?call, ⟨by decide +kernel, some .empty, by decide +kernel,
    .nested (q := ?outer) (.asked ?asksOuter) ?asksCall⟩, ⟨_, Analysis.eq_ok_of_value? ?lookup⟩,
    _, Analysis.eq_ok_of_value? ?answer⟩
  case asksOuter =>
    refine .behind rfl (.behind_value () (by decide +kernel) ?_)
    refine .behind_value 1 (by decide +kernel) (.first ?_)
    refine .behind rfl (.first ?_)
    refine .behind_value (ask .returning) (by decide +kernel) (.first ?_)
    refine .behind_value () (by decide +kernel) (.first ?_)
    exact .call
  case asksCall =>
    refine .behind_value () (by decide +kernel) (.behind rfl ?_)
    refine .behind_value () (by decide +kernel) (.behind_value () (by decide +kernel) ?_)
    refine .behind_value () (by decide +kernel) (.behind_value () (by decide +kernel) (.first ?_))
    refine .behind_value (word (.identifier ⟨0x1F4E4⟩)) (by decide +kernel) (.first ?_)
    exact .call
  case lookup => decide +kernel
  case answer => decide +kernel

end Sample

/-- In 📦 itself the parameter that 📤 returns is the argument of the instance. -/
theorem parameters_of_references_box :
    Sample.boxes.SignaturesClosed
    ∧ ∃ record session', compile Sample.boxes {} .start Sample.boxClass Sample.boxMethod
        Sample.unpackSelf = (.ok record, session')
      ∧ ∃ q, ReachedIn Sample.boxes {} .start Sample.boxClass Sample.boxMethod
          Sample.unpackSelf 3 q
        ∧ ∃ l s s', q.lookup? (Analysis.expression 2) q.state = .ok (some l) s
          ∧ (Analysis.expression 3).answer q = .ok (.parameter 0) s'
          ∧ ∃ a ∈ l.receiver.arguments, a.Mentions 0 := by
  obtain ⟨listing, hcode⟩ : ∃ listing, listing? Sample.boxes {} .start Sample.boxClass
      Sample.boxMethod Sample.unpackSelf = some listing :=
    Option.isSome_iff_exists.mp (by decide +kernel)
  obtain ⟨record, session', h, -⟩ := exists_record hcode
  obtain ⟨q, hq, ⟨s, hvalue⟩, s', hanswer⟩ := Sample.unpacks_unpackSelf
  refine ⟨Sample.signaturesClosed_boxes, record, session', h, q, hq, _, s, s', hvalue, hanswer, ?_⟩
  obtain ⟨k, l?, s₁, t, s₂, hk, hlookup, ht, hmentions⟩ :=
    parameters_of_references Sample.signaturesClosed_boxes h hq
  obtain rfl : k = 2 := (Nat.succ.inj hk).symm
  cases hvalue.symm.trans hlookup
  cases hanswer.symm.trans ht
  obtain ⟨p, -, d, hd, -, hparameters⟩ := hmentions _ rfl rfl
  refine (hparameters _ List.mem_cons_self 0 (.inl rfl)).resolve_right ?_
  -- no class has more parameters than 📦
  rintro ⟨-, hlength⟩
  have hone : ∀ d ∈ Sample.boxes.latestClasses, d.constraints.length ≤ 1 := by decide +kernel
  exact absurd hlength (Nat.not_lt.mpr (hone d hd))

/-- A 🧺 has no generic arguments, but in 🏭 the call of 📤 on it has the parameter of 📦 for its
type, and 🔓 returns it where its own class says its own parameter. -/
theorem parameter_of_ancestor :
    Sample.boxes.Reachable ∧ Sample.boxes.SignaturesClosed
    ∧ Sample.boxes.class? Sample.factoryClass.id = some Sample.factoryClass
    ∧ ∃ record session', compile Sample.boxes {} .start Sample.factoryClass Sample.factoryMethod
        Sample.unpackArgument = (.ok record, session')
      ∧ ∃ q, ReachedIn Sample.boxes {} .start Sample.factoryClass Sample.factoryMethod
          Sample.unpackArgument 3 q
        ∧ ∃ l s t s', q.lookup? (Analysis.expression 2) q.state = .ok (some l) s
          ∧ l.receiver.objectId?.isSome ∧ (l.member? Sample.boxes).isSome
          ∧ (Analysis.expression 3).answer q = .ok t s'
          ∧ t.Mentions 0 ∧ ¬∃ a ∈ l.receiver.arguments, a.Mentions 0 := by
  obtain ⟨listing, hcode⟩ : ∃ listing, listing? Sample.boxes {} .start Sample.factoryClass
      Sample.factoryMethod Sample.unpackArgument = some listing :=
    Option.isSome_iff_exists.mp (by decide +kernel)
  obtain ⟨record, session', h, -⟩ := exists_record hcode
  obtain ⟨q, hq, ⟨s, hlookup⟩, s', hanswer⟩ := Sample.unpacks_unpackArgument
  have hreachable : Sample.boxes.Reachable :=
    ((Catalogue.Reachable.empty.addIfPossible _).addIfPossible _).addIfPossible _
  refine ⟨hreachable, Sample.signaturesClosed_boxes, by decide +kernel, record, session', h, q, hq,
    _, s, _, s', hlookup, rfl, by decide +kernel, hanswer, .inl rfl, ?_⟩
  rintro ⟨a, ha, -⟩
  cases ha

end Pictograph
