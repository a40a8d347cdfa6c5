import Pictograph.Proofs.Compilation.References

/-!
# Access control

A procedure may be kept to the class that declares it or to the descendants of that class. A body
that is accepted refers to a procedure only if its class has this access, whatever construct it does
so by and however deeply the construct is nested.

The check compares the owner that the member carries with the class of the body. Identities of types
are never shared, so the owner is the class that declares the member, and a method of a protocol,
whose owner is no class, passes only if it is for everyone.

## Main definitions

* `Catalogue.Permits`: a class has access to a member.

## Main results

* `references_permitted`: accepted bodies refer to members that they have access to.
-/

namespace Pictograph

/-- A class has access to a member that is for everyone, to members that it declares itself, and to
members that it or one of its ancestors declares for descendants. -/
def Catalogue.Permits (cat : Catalogue) (c : Class) (m : Member) : Prop :=
  match m.visibility with
  | .everyone => True
  | .owner => m ∈ c.allMembers
  | .descendants => ∃ d ∈ cat.lineage c.id, m ∈ d.allMembers

/-- What passes the check is permitted. -/
theorem Analysis.permits_of_mayUse {cat : Catalogue} {Γ : Setting} {c : Class} {l : Lookup}
    {m : Member} (hcat : cat.Reachable) (hc : cat.class? c.id = some c)
    (hcatalogue : Γ.catalogue = cat) (hself : Γ.selfType = c.selfType)
    (hm : l.member? cat = some m) (huse : mayUse Γ m) : cat.Permits c m := by
  have hoffers : cat.Offers l.target m := Catalogue.offers_of_member? hm
  have hid : Γ.selfType.objectId? = some c.id := by rw [hself]; rfl
  rw [mayUse, hid, hcatalogue] at huse
  rw [Catalogue.Permits]
  cases hvisibility : m.visibility with
  | everyone => trivial
  | owner =>
    simp only [hvisibility] at huse
    have howner : m.owner = c.id := (Option.some.inj (beq_iff_eq.mp huse)).symm
    exact hcat.consistent.mem_of_owner (Catalogue.mem_of_class? hc) hoffers howner
  | descendants =>
    simp only [hvisibility] at huse
    obtain ⟨d, hd, howner⟩ := Catalogue.descends_iff.mp huse
    have hmem := Catalogue.mem_of_mem_lineage hd
    exact ⟨d, hd, hcat.consistent.mem_of_owner hmem hoffers howner.symm⟩

/-- **Access control is complete.** Each expression of an accepted body, at any nesting and in any
closure, gets past its lookup, and if it refers to a procedure, it finds a member that the class of
the body has access to. -/
theorem references_permitted {cat : Catalogue} {options : Options} {session session' : Session}
    {c : Class} {m : Member} {tokens : List Token} {record : Record} (hcat : cat.Reachable)
    (hc : cat.class? c.id = some c)
    (h : compile cat options session c m tokens = (.ok record, session')) {n : Nat} {q : Query}
    (hq : ReachedIn cat options session c m tokens n q) :
    ∃ k l? s, n = k + 1 ∧ q.lookup? (Analysis.expression k) q.state = .ok l? s
      ∧ ∀ l ∈ l?, ∃ p, l.member? cat = some p ∧ cat.Permits c p := by
  obtain ⟨k, l?, s, t, s', hn, hlookup, -, hfound⟩ := exists_found_of_reachedIn hq h
  obtain ⟨hcatalogue, hself⟩ := hq.shares
  refine ⟨k, l?, s, hn, hlookup, fun l hl ↦ ?_⟩
  obtain ⟨p, hfound⟩ := hfound l hl
  have hp := hfound.member
  rw [hcatalogue] at hp
  exact ⟨p, hp, Analysis.permits_of_mayUse hcat hc hcatalogue hself hp hfound.mayUse⟩

/-! ## A private method in a closure -/

namespace Sample

/-- A class 🐺 with a private method 🐾 and a method 🐶. -/
def wolf : ClassDeclaration where
  space := Vocabulary.defaultNamespace
  name := ⟨0x1F43A⟩
  methods := [{ symbol := ⟨0x1F43E⟩, visibility := .owner }, { symbol := ⟨0x1F436⟩ }]

/-- The catalogue of this class. -/
def wolves : Catalogue := Catalogue.empty.addIfPossible (.ofClass wolf)

/-- The registered class 🐺. -/
def wolfClass : Class := (wolves.class? wolf.typeId).get (by decide +kernel)

/-- The method 🐶 of 🐺. -/
def wolfMethod : Member := wolfClass.methods.getLast (by decide +kernel)

/-- A body with a closure that calls the private method on the instance, `🍇 🐾 🐕 🍉 🍉`. -/
def privateCall : List Token :=
  [ask .blockOpen, word (.identifier ⟨0x1F43E⟩), ask .selfReference, ask .blockClose,
    ask .blockClose]

theorem reachedIn_privateCall : ∃ q, ReachedIn wolves {} .start wolfClass wolfMethod privateCall 4 q
    ∧ ∃ s, q.lookup? (Analysis.expression 3) q.state
      = .ok (some ⟨.method, wolfClass.selfType, ⟨0x1F43E⟩, wolfClass.selfType⟩) s := by
  refine ⟨?call, ⟨by decide +kernel, some .empty, by decide +kernel,
    .nested (q := ?closure) (.asked ?asksClosure) ?asksCall⟩,
    _, Analysis.eq_ok_of_value? ?lookup⟩
  case asksClosure =>
    have htoken : (ask .blockOpen).asksFor .blockClose = false := by decide +kernel
    exact asks_first htoken
  case asksCall =>
    refine .behind_value () (by decide +kernel) (.behind_value () (by decide +kernel) ?_)
    refine .behind_value [] (by decide +kernel) (.behind_value .nothingness (by decide +kernel) ?_)
    refine .behind rfl (.behind rfl (.behind rfl (.behind rfl (.behind rfl (.first ?_)))))
    refine .behind rfl (.behind rfl (.first ?_))
    refine asks_body (.behind rfl (.first ?_))
    refine .behind_value (word (.identifier ⟨0x1F43E⟩)) (by decide +kernel) (.first ?_)
    refine .behind_value () (by decide +kernel) (.first ?_)
    exact .call
  case lookup => decide +kernel

end Sample

/-- The closure may call the private method, which its class declares. -/
theorem references_permitted_private :
    Sample.wolves.Reachable
    ∧ Sample.wolves.class? Sample.wolfClass.id = some Sample.wolfClass
    ∧ ∃ record session', compile Sample.wolves {} .start Sample.wolfClass Sample.wolfMethod
        Sample.privateCall = (.ok record, session')
      ∧ ∃ q, ReachedIn Sample.wolves {} .start Sample.wolfClass Sample.wolfMethod
          Sample.privateCall 4 q
        ∧ ∃ l s p, q.lookup? (Analysis.expression 3) q.state = .ok (some l) s
          ∧ l.member? Sample.wolves = some p ∧ p.visibility = .owner
          ∧ p ∈ Sample.wolfClass.allMembers := by
  have hcat : Sample.wolves.Reachable := Catalogue.Reachable.empty.addIfPossible _
  have hc : Sample.wolves.class? Sample.wolfClass.id = some Sample.wolfClass := by decide +kernel
  obtain ⟨listing, hcode⟩ : ∃ listing, listing? Sample.wolves {} .start Sample.wolfClass
      Sample.wolfMethod Sample.privateCall = some listing :=
    Option.isSome_iff_exists.mp (by decide +kernel)
  obtain ⟨record, session', h, -⟩ := exists_record hcode
  obtain ⟨q, hq, s, hcall⟩ := Sample.reachedIn_privateCall
  obtain ⟨k, l?, s', hk, hlookup, hpermits⟩ := references_permitted hcat hc h hq
  obtain rfl : k = 3 := (Nat.succ.inj hk).symm
  cases hcall.symm.trans hlookup
  obtain ⟨p, hp, hpermits⟩ := hpermits _ rfl
  have hvisibility : p.visibility = .owner := by
    have hmember : (Lookup.member? ⟨.method, Sample.wolfClass.selfType, ⟨0x1F43E⟩,
        Sample.wolfClass.selfType⟩ Sample.wolves).map (·.visibility) = some .owner := by
      decide +kernel
    rw [hp] at hmember
    exact Option.some.inj hmember
  rw [Catalogue.Permits, hvisibility] at hpermits
  exact ⟨hcat, hc, record, session', h, q, hq, _, s, p, hlookup, hp, hvisibility, hpermits⟩

end Pictograph
