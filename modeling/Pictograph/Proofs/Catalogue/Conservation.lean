import Pictograph.Catalogue.Annotation
import Pictograph.Catalogue.Join
import Pictograph.Proofs.Catalogue.DispatchTables
import Pictograph.Proofs.Catalogue.RegistrationOrder

/-!
# What a registration leaves as it was

A registration can be refused at several places: the name may be taken, the superclass or a protocol
may be missing, a name may occur twice among the methods, the class methods or the initializers. A
registration in place passes these checks one after the other, against the catalogue that it is
going to change, and would leave behind what it had written before the check that it fails. It
writes at the very end, behind all of them. So a registration that is refused is as good as not
requested, for every question and for every registration after it.

A registration that succeeds adds a type with a new identity. A type that was registered before is
told apart from it by its identity. Its ancestors were registered even earlier, so the new type is
not among them, and nothing that is read off the lineage changes.

## Main definitions

* `Catalogue.register`: registration in place, step by step.
* `Catalogue.Performs`: a registration in place comes to what is computed at once.
* `Question`, `Catalogue.answer`: the questions to a catalogue.
* `Catalogue.serveAll`: what a list of questions and registrations comes to.
* `Catalogue.Keeps`: another catalogue says of an identity what this one says.

## Main results

* `Catalogue.performs_register`: registration in place comes to the registration that is computed.
* `Catalogue.register_error`: a registration that is refused leaves the catalogue as it is.
* `Catalogue.Reachable.keeps_of_add`: a type registered before is kept by a registration.
* `Catalogue.Reachable.keeps_serveAll`: it is kept by any number of requests.
* `Catalogue.registration_atomic_conservative`: both sides for one registration.
-/

namespace Pictograph

/-! ## Questions and registrations -/

/-- A question to a catalogue. -/
inductive Question where
  /-- Whether an identity is taken. -/
  | contains (id : TypeId)
  /-- The class with an identity. -/
  | class? (id : TypeId)
  /-- The protocol with an identity. -/
  | protocol? (id : TypeId)
  /-- The enumeration with an identity. -/
  | enumeration? (id : TypeId)
  /-- The table of classes. -/
  | classes
  /-- The table of protocols. -/
  | protocols
  /-- The type that a name stands for. -/
  | named? (space name : Symbol)
  /-- The superclass chain. -/
  | lineage (id : TypeId)
  /-- Whether a class inherits from another. -/
  | descends (id ancestor : TypeId)
  /-- Whether a class conforms to a protocol. -/
  | conforms (id protocol : TypeId)
  /-- Whether the values of a type can be iterated. -/
  | isEnumerable (t : Ty)
  /-- The method of a type. -/
  | method? (t : Ty) (symbol : Symbol)
  /-- The class method of a type. -/
  | classMethod? (t : Ty) (symbol : Symbol)
  /-- The initializer of a type. -/
  | initializer? (t : Ty) (symbol : Symbol)
  /-- The number of an enumeration value. -/
  | enumValue? (t : Ty) (name : Symbol)
  /-- The name of a type in messages. -/
  | typeName (t : Ty)
  /-- Whether a type fits another. -/
  | fits (found expected : Ty)
  /-- The common type of two types. -/
  | join (t u : Ty)
  /-- The type that an annotation stands for. -/
  | annotated (context : Ty) (space : Symbol) (dynamism : Dynamism) (tokens : List Token)

/-- What the answer to a question is. -/
def Question.Answer : Question → Type
  | contains _ | descends _ _ | conforms _ _ | isEnumerable _ | fits _ _ => Bool
  | class? _ => Option Class
  | protocol? _ => Option Protocol
  | enumeration? _ => Option Enumeration
  | classes | lineage _ => List Class
  | protocols => List Protocol
  | named? _ _ => Option Ty
  | method? _ _ | classMethod? _ _ | initializer? _ _ => Option Member
  | enumValue? _ _ => Option UInt64
  | typeName _ => String
  | join _ _ => Ty
  | annotated .. => EStateM.Result Fault Cursor (Ty × Bool)

/-- A request to a catalogue. -/
inductive Request where
  /-- Registers types. -/
  | register (call : RegistrationCall)
  /-- Asks a question. -/
  | ask (q : Question)

/-- The reply to a request. -/
inductive Reply where
  /-- A type was registered. -/
  | registered (id : TypeId)
  /-- The type was refused. -/
  | refused (e : RegistrationError)
  /-- The standard types are registered. -/
  | done
  /-- The question has this answer. -/
  | answered (q : Question) (a : q.Answer)

namespace Catalogue

/-- The answer to a question. -/
def answer (cat : Catalogue) : (q : Question) → q.Answer
  | .contains id => cat.contains id
  | .class? id => cat.class? id
  | .protocol? id => cat.protocol? id
  | .enumeration? id => cat.enumeration? id
  | .classes => cat.classes
  | .protocols => cat.protocols
  | .named? space name => cat.named? space name
  | .lineage id => cat.lineage id
  | .descends id ancestor => cat.descends id ancestor
  | .conforms id protocol => cat.conforms id protocol
  | .isEnumerable t => cat.isEnumerable t
  | .method? t symbol => cat.method? t symbol
  | .classMethod? t symbol => cat.classMethod? t symbol
  | .initializer? t symbol => cat.initializer? t symbol
  | .enumValue? t name => cat.enumValue? t name
  | .typeName t => cat.typeName t
  | .fits found expected => cat.fits found expected
  | .join t u => cat.join t u
  | .annotated context space dynamism tokens =>
    cat.annotation context space dynamism (.start tokens)

/-! ### Registration in place -/

/-- Checks the catalogue as it is by now. -/
def checked {α : Type} (check : Catalogue → Except RegistrationError α) :
    EStateM RegistrationError Catalogue α := do
  match check (← get) with
  | .ok a => return a
  | .error e => throw e

/-- Refuses a superclass that is not registered. -/
def requireSuperclass (cat : Catalogue) (d : ClassDeclaration) : Except RegistrationError Unit :=
  match d.superclass? with
  | some parent =>
    if (cat.class? parent).isSome then
      pure ()
    else
      throw (.typeNotFound s!"superclass of {d.name.text}")
  | none => pure ()

/-- Registers a class in place. Its members are numbered when the catalogue does not have it yet. -/
def registerClass (d : ClassDeclaration) : EStateM RegistrationError Catalogue TypeId := do
  checked (·.requireFree d.typeId d.name)
  checked (·.requireSuperclass d)
  checked (·.requireProtocols d.name d.protocols)
  checked fun _ ↦ requireDistinct d.name (d.methods.map (·.symbol))
  checked fun _ ↦ requireDistinct d.name (d.classMethods.map (·.symbol))
  checked fun _ ↦ requireDistinct d.name (d.initializers.map (·.symbol))
  modify fun cat ↦ cat.withClass (cat.entry d)
  return d.typeId

/-- Registers a protocol in place. -/
def registerProtocol (d : ProtocolDeclaration) : EStateM RegistrationError Catalogue TypeId := do
  checked (·.requireFree d.typeId d.name)
  checked fun _ ↦ requireDistinct d.name (d.methods.map (·.symbol))
  modify fun cat ↦ { cat with latestProtocols := cat.protocolEntry d :: cat.latestProtocols }
  return d.typeId

/-- Registers an enumeration in place. -/
def registerEnumeration (e : Enumeration) : EStateM RegistrationError Catalogue TypeId := do
  checked (·.requireFree e.typeId e.name)
  checked fun _ ↦ requireDistinct e.name (e.values.map (·.name))
  modify fun cat ↦ { cat with latestEnumerations := e :: cat.latestEnumerations }
  return e.typeId

/-- Registers a type in place, and returns its identity. -/
def register : Declaration → EStateM RegistrationError Catalogue TypeId
  | .ofClass d => registerClass d
  | .ofProtocol d => registerProtocol d
  | .ofEnumeration e => registerEnumeration e

/-! ### Requests -/

/-- Serves a request: the reply to it, and the catalogue afterwards. -/
def serve (cat : Catalogue) : Request → Reply × Catalogue
  | .register (.declare d) =>
    match register d cat with
    | .ok id extended => (.registered id, extended)
    | .error e left => (.refused e, left)
  | .register .standard => (.done, cat.addStandard)
  | .ask q => (.answered q (cat.answer q), cat)

/-- Serves one request after the other: the replies, and the catalogue at the end. -/
def serveAll (cat : Catalogue) : List Request → List Reply × Catalogue
  | [] => ([], cat)
  | request :: requests =>
    let (reply, next) := cat.serve request
    let (replies, last) := next.serveAll requests
    (reply :: replies, last)

/-! ## Registrations that are refused -/

section

variable {cat cat' : Catalogue} {d : Declaration} {id new : TypeId} {e : RegistrationError}

/-- Registration in place comes to what is computed: the new catalogue and the identity, or the
reason for the refusal and the catalogue as it was. -/
def Performs (cat : Catalogue) (m : EStateM RegistrationError Catalogue TypeId) (id : TypeId)
    (computed : Except RegistrationError Catalogue) : Prop :=
  m cat = match computed with
    | .ok extended => .ok id extended
    | .error e => .error e cat

theorem checked_eq {α : Type} (check : Catalogue → Except RegistrationError α) (cat : Catalogue) :
    checked check cat = match check cat with
      | .ok a => .ok a cat
      | .error e => .error e cat := by
  change (match check cat with
    | .ok a => fun s ↦ .ok a s
    | .error e => fun s ↦ .error e s : EStateM RegistrationError Catalogue α) cat = _
  cases check cat <;> rfl

/-- A check only reads. What comes after it starts from the same catalogue. -/
theorem Performs.check {α : Type} {check : Catalogue → Except RegistrationError α}
    {f : α → EStateM RegistrationError Catalogue TypeId}
    {g : α → Except RegistrationError Catalogue}
    (h : ∀ a, check cat = .ok a → cat.Performs (f a) id (g a)) :
    cat.Performs (checked check >>= f) id (check cat >>= g) := by
  change EStateM.bind (checked check) f cat = _
  rw [EStateM.bind, checked_eq]
  cases hcheck : check cat with
  | error e => rfl
  | ok a => exact h a hcheck

/-- Registering a class comes to a row of checks and a new entry. -/
theorem addClass_eq (cat : Catalogue) (d : ClassDeclaration) :
    cat.addClass d = (do
      cat.requireFree d.typeId d.name
      cat.requireSuperclass d
      cat.requireProtocols d.name d.protocols
      requireDistinct d.name (d.methods.map (·.symbol))
      requireDistinct d.name (d.classMethods.map (·.symbol))
      requireDistinct d.name (d.initializers.map (·.symbol))
      return cat.withClass (cat.entry d)) := by
  by_cases h : ∀ parent, d.superclass? = some parent → (cat.class? parent).isSome
  · have hsuper : cat.requireSuperclass d = .ok () := by
      rw [requireSuperclass]
      cases hs : d.superclass? with
      | none => rfl
      | some parent => exact if_pos (h parent hs)
    rw [addClass_of_superclass h, hsuper]
    rfl
  · push Not at h
    obtain ⟨parent, hs, hc⟩ := h
    have hnone : cat.class? parent = none := Option.not_isSome_iff_eq_none.mp hc
    unfold addClass
    rw [requireSuperclass]
    simp only [hs, hnone]
    rfl

/-- **Registration in place** passes the checks one after the other, and writes behind all of
them. -/
theorem performs_register (d : Declaration) (cat : Catalogue) :
    cat.Performs (register d) d.typeId (cat.add d) := by
  cases d with
  | ofClass d =>
    rw [add, addClass_eq]
    refine .check fun _ _ ↦ .check fun _ _ ↦ .check fun _ _ ↦ ?_
    exact .check fun _ _ ↦ .check fun _ _ ↦ .check fun _ _ ↦ rfl
  | ofProtocol d => exact .check fun _ _ ↦ .check fun _ _ ↦ rfl
  | ofEnumeration e => exact .check fun _ _ ↦ .check fun _ _ ↦ rfl

theorem register_ok : register d cat = .ok new cat' ↔ cat.add d = .ok cat' ∧ new = d.typeId := by
  rw [performs_register d cat]
  constructor
  · intro h
    split at h
    · next hadd =>
      cases h
      exact ⟨hadd, rfl⟩
    · cases h
  · rintro ⟨hadd, rfl⟩
    rw [hadd]

/-- **A registration that is refused leaves the catalogue as it is.** -/
theorem register_error : register d cat = .error e cat' ↔ cat.add d = .error e ∧ cat' = cat := by
  rw [performs_register d cat]
  constructor
  · intro h
    split at h
    · cases h
    · next hadd =>
      cases h
      exact ⟨hadd, rfl⟩
  · rintro ⟨hadd, rfl⟩
    rw [hadd]

/-- Serving a registration comes to what the call comes to. -/
theorem snd_serve_register (cat : Catalogue) (call : RegistrationCall) :
    (cat.serve (.register call)).2 = cat.afterCall call := by
  cases call with
  | standard => rfl
  | declare d =>
    rw [serve, afterCall]
    cases hadd : cat.add d with
    | ok extended => rw [register_ok.mpr ⟨hadd, rfl⟩]
    | error e => rw [register_error.mpr ⟨hadd, rfl⟩]

/-- The requests after one that is refused are served as if it had not been made. -/
theorem serveAll_of_refused (h : register d cat = .error e cat') (later : List Request) :
    cat.serveAll (.register (.declare d) :: later)
      = (.refused e :: (cat.serveAll later).1, (cat.serveAll later).2) := by
  obtain ⟨-, rfl⟩ := register_error.mp h
  rw [serveAll, serve, h]

end

/-! ## Registrations that succeed -/

/-- Another catalogue says of an identity what this one says: under it stands the same type with the
same index, the way from it to the root is the same, its members are the same in the same slots, and
it is related to the same types. -/
structure Keeps (cat cat' : Catalogue) (id : TypeId) : Prop where
  class? : cat'.class? id = cat.class? id
  protocol? : cat'.protocol? id = cat.protocol? id
  enumeration? : cat'.enumeration? id = cat.enumeration? id
  lineage : cat'.lineage id = cat.lineage id
  climb? : ∀ n, cat'.climb? id n = cat.climb? id n
  method? : ∀ t : Ty, t.kind = .object id ∨ t.kind = .protocol id →
    ∀ symbol, cat'.method? t symbol = cat.method? t symbol
  classMethod? : ∀ t : Ty, t.kind = .object id →
    ∀ symbol, cat'.classMethod? t symbol = cat.classMethod? t symbol
  initializer? : ∀ t : Ty, t.kind = .object id →
    ∀ symbol, cat'.initializer? t symbol = cat.initializer? t symbol
  enumValue? : ∀ t : Ty, t.kind = .enumeration id →
    ∀ name, cat'.enumValue? t name = cat.enumValue? t name
  descends : ∀ ancestor, cat'.descends id ancestor = cat.descends id ancestor
  conforms : ∀ protocol, cat'.conforms id protocol = cat.conforms id protocol

section

variable {cat cat' cat'' : Catalogue} {d : Declaration} {id : TypeId}

namespace Keeps

theorem refl (cat : Catalogue) (id : TypeId) : cat.Keeps cat id := by
  constructor <;> intros <;> rfl

theorem trans (h : cat.Keeps cat' id) (h' : cat'.Keeps cat'' id) : cat.Keeps cat'' id where
  class? := h'.class?.trans h.class?
  protocol? := h'.protocol?.trans h.protocol?
  enumeration? := h'.enumeration?.trans h.enumeration?
  lineage := h'.lineage.trans h.lineage
  climb? n := (h'.climb? n).trans (h.climb? n)
  method? t ht symbol := (h'.method? t ht symbol).trans (h.method? t ht symbol)
  classMethod? t ht symbol := (h'.classMethod? t ht symbol).trans (h.classMethod? t ht symbol)
  initializer? t ht symbol := (h'.initializer? t ht symbol).trans (h.initializer? t ht symbol)
  enumValue? t ht name := (h'.enumValue? t ht name).trans (h.enumValue? t ht name)
  descends ancestor := (h'.descends ancestor).trans (h.descends ancestor)
  conforms protocol := (h'.conforms protocol).trans (h.conforms protocol)

theorem contains (h : cat.Keeps cat' id) : cat'.contains id = cat.contains id := by
  rw [Catalogue.contains, h.class?, h.protocol?, h.enumeration?, ← Catalogue.contains]

/-- The entries and the lineage decide about the rest. -/
theorem of_lineage (hcat : cat.Reachable) (hcat' : cat'.Reachable)
    (hlineage : cat'.lineage id = cat.lineage id) (hp : cat'.protocol? id = cat.protocol? id)
    (he : cat'.enumeration? id = cat.enumeration? id) : cat.Keeps cat' id where
  class? := by rw [← head?_lineage, hlineage, head?_lineage]
  protocol? := hp
  enumeration? := he
  lineage := hlineage
  climb? n := by rw [hcat'.climb?_eq, hlineage, hcat.climb?_eq]
  method? t ht symbol := by
    obtain ht | ht := ht
    · rw [Catalogue.method?, Catalogue.method?, ht]
      simp only [nearest?, hlineage]
    · rw [Catalogue.method?, Catalogue.method?, ht]
      simp only [hp]
  classMethod? t ht symbol := by
    have hid : t.objectId? = some id := by rw [Ty.objectId?, ht]
    rw [Catalogue.classMethod?, Catalogue.classMethod?, hid, Option.bind_some, Option.bind_some,
      nearest?, nearest?, hlineage]
  initializer? t ht symbol := by
    have hid : t.objectId? = some id := by rw [Ty.objectId?, ht]
    rw [Catalogue.initializer?, Catalogue.initializer?, hid, Option.map_some, Option.map_some,
      hlineage]
  enumValue? t ht name := by
    rw [Catalogue.enumValue?, Catalogue.enumValue?, ht]
    simp only [he]
  descends ancestor := by rw [Catalogue.descends, Catalogue.descends, hlineage]
  conforms protocol := by rw [Catalogue.conforms, Catalogue.conforms, hlineage]

end Keeps

/-- Only a free name is registered. -/
theorem contains_eq_false_of_add (h : cat.add d = .ok cat') : cat.contains d.typeId = false := by
  cases registers_of_add h with
  | ofClass hd => exact hd.free
  | ofProtocol hfree | ofEnumeration hfree => exact hfree

theorem lineage_of_add (h : cat.add d = .ok cat') (hne : d.typeId ≠ id) :
    cat'.lineage id = cat.lineage id := by
  cases registers_of_add h with
  | @ofClass d _ => exact lineage_withClass_of_ne (c := cat.entry d) hne
  | ofProtocol | ofEnumeration => rfl

theorem protocol?_of_add (h : cat.add d = .ok cat') (hne : d.typeId ≠ id) :
    cat'.protocol? id = cat.protocol? id := by
  cases registers_of_add h with
  | ofClass | ofEnumeration => rfl
  | @ofProtocol d _ =>
    have hentry : (cat.protocolEntry d).id ≠ id := hne
    exact List.find?_cons_of_neg (by simpa using hentry)

theorem enumeration?_of_add (h : cat.add d = .ok cat') (hne : d.typeId ≠ id) :
    cat'.enumeration? id = cat.enumeration? id := by
  cases registers_of_add h with
  | ofClass | ofProtocol => rfl
  | @ofEnumeration e _ =>
    have hentry : e.typeId ≠ id := hne
    exact List.find?_cons_of_neg (by simpa using hentry)

/-- **A type that was registered before is kept by a registration.** -/
theorem Reachable.keeps_of_add (hcat : cat.Reachable) (h : cat.add d = .ok cat')
    (hid : cat.contains id) : cat.Keeps cat' id := by
  have hne : d.typeId ≠ id := by
    rintro rfl
    rw [contains_eq_false_of_add h] at hid
    cases hid
  apply Keeps.of_lineage hcat (hcat.add h)
  · exact lineage_of_add h hne
  · exact protocol?_of_add h hne
  · exact enumeration?_of_add h hne

/-! ## After any requests -/

theorem Reachable.keeps_addIfPossible (hcat : cat.Reachable) (hid : cat.contains id)
    (d : Declaration) : cat.Keeps (cat.addIfPossible d) id := by
  rw [Catalogue.addIfPossible]
  split
  · exact .refl cat id
  · split
    · next hadd => exact hcat.keeps_of_add hadd hid
    · exact .refl cat id

theorem Reachable.keeps_foldl (hcat : cat.Reachable) (hid : cat.contains id)
    (ds : List Declaration) : cat.Keeps (ds.foldl Catalogue.addIfPossible cat) id := by
  induction ds generalizing cat with
  | nil => exact .refl cat id
  | cons d ds ih =>
    have hkeeps : cat.Keeps (cat.addIfPossible d) id := hcat.keeps_addIfPossible hid d
    exact hkeeps.trans (ih (hcat.addIfPossible d) (hkeeps.contains.trans hid))

theorem Reachable.keeps_addStandard (hcat : cat.Reachable) (hid : cat.contains id) :
    cat.Keeps cat.addStandard id := hcat.keeps_foldl hid _

theorem Reachable.keeps_afterCall (hcat : cat.Reachable) (hid : cat.contains id)
    (call : RegistrationCall) : cat.Keeps (cat.afterCall call) id := by
  cases call with
  | declare d =>
    rw [Catalogue.afterCall]
    split
    · next hadd => exact hcat.keeps_of_add hadd hid
    · exact .refl cat id
  | standard => exact hcat.keeps_addStandard hid

theorem Reachable.keeps_serve (hcat : cat.Reachable) (hid : cat.contains id) (request : Request) :
    (cat.serve request).2.Reachable ∧ cat.Keeps (cat.serve request).2 id := by
  cases request with
  | ask q => exact ⟨hcat, .refl cat id⟩
  | register call =>
    rw [snd_serve_register]
    exact ⟨hcat.afterCall call, hcat.keeps_afterCall hid call⟩

/-- **A registered type is kept for good**, whatever is asked, registered or refused afterwards. -/
theorem Reachable.keeps_serveAll (hcat : cat.Reachable) (hid : cat.contains id)
    (requests : List Request) : cat.Keeps (cat.serveAll requests).2 id := by
  induction requests generalizing cat with
  | nil => exact .refl cat id
  | cons request requests ih =>
    obtain ⟨hnext, hkeeps⟩ := hcat.keeps_serve hid request
    exact hkeeps.trans (ih hnext (hkeeps.contains.trans hid))

/-! ## One registration -/

/-- **Registration is atomic and conservative.** In a catalogue that registrations lead to,

* if a registration is refused, then whatever is asked or registered afterwards comes to the same
  replies and to the same catalogue as without it;
* if it succeeds, every type that was registered before stands where it stood, with the same
  superclass chain, the same members in the same slots, and related to the same types. -/
theorem registration_atomic_conservative (h : cat.Reachable) (d : Declaration) :
    (∀ e cat', register d cat = .error e cat' → ∀ later,
      cat'.serveAll later = cat.serveAll later
      ∧ cat.serveAll (.register (.declare d) :: later)
        = (.refused e :: (cat.serveAll later).1, (cat.serveAll later).2))
    ∧ ∀ new cat', register d cat = .ok new cat' → ∀ id, cat.contains id → cat.Keeps cat' id := by
  constructor
  · intro e cat' he later
    have hsame : cat' = cat := (register_error.mp he).2
    exact ⟨by rw [hsame], serveAll_of_refused he later⟩
  · intro new cat' hnew id hid
    have hadd : cat.add d = .ok cat' := (register_ok.mp hnew).1
    exact h.keeps_of_add hadd hid

end

/-- To 🐈 its subclass 🐅 is added, and a second 🐈 is refused. -/
theorem registration_atomic_conservative_sample :
    let alone := empty.addIfPossible (.ofClass Sample.wide)
    alone.contains Sample.wide.typeId
    ∧ (∃ cat', register (.ofClass Sample.narrow) alone = .ok Sample.narrow.typeId cat'
        ∧ alone.Keeps cat' Sample.wide.typeId)
    ∧ ∃ e, ∀ later, alone.serveAll (.register (.declare (.ofClass Sample.wide)) :: later)
        = (.refused e :: (alone.serveAll later).1, (alone.serveAll later).2) := by
  intro alone
  have hreach : alone.Reachable := Reachable.empty.addIfPossible _
  have hcontains : alone.contains Sample.wide.typeId := by decide +kernel
  refine ⟨hcontains, ?_, ?_⟩
  · have hok : (alone.add (.ofClass Sample.narrow)).toOption.isSome := by decide +kernel
    cases hadd : alone.add (.ofClass Sample.narrow) with
    | error e =>
      rw [hadd] at hok
      cases hok
    | ok cat' =>
      have hnew := register_ok.mpr ⟨hadd, rfl⟩
      have hkeeps := (registration_atomic_conservative hreach (.ofClass Sample.narrow)).2
      exact ⟨cat', hnew, hkeeps _ cat' hnew _ hcontains⟩
  · have hrefused : (alone.add (.ofClass Sample.wide)).toOption.isNone := by decide +kernel
    cases hadd : alone.add (.ofClass Sample.wide) with
    | ok cat' =>
      rw [hadd] at hrefused
      cases hrefused
    | error e =>
      have hsame := (registration_atomic_conservative hreach (.ofClass Sample.wide)).1
      exact ⟨e, fun later ↦ (hsame e alone (register_error.mpr ⟨hadd, rfl⟩) later).2⟩

end Catalogue

end Pictograph
