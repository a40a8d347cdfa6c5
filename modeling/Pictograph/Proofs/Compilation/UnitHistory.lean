import Pictograph.Proofs.Compilation.CompleteBuilds

/-!
# The history of a unit

Bodies are added to a unit and the unit is built, in any order and as often as one likes. Some of
these calls fail. What a unit is worth at the end depends only on the calls that changed it: the
bodies are those that were accepted, and there is a program if the last of these calls was a build
that succeeded.

A build starts from nothing but the declarations, the options and the bodies. Bodies are looked up
by their procedures, no two of which are the same, so their order does not matter. It would matter
if a procedure could have two bodies, because the first one would be taken.

## Main definitions

* `CompilationUnit.run`: what a list of calls on a unit comes to.
* `CompilationUnit.Reflects`: how a unit follows from what the calls came to.
* `CompilationUnit.Alike`: units with the same bodies, in any order.

## Main results

* `CompilationUnit.reflects_run`: every unit follows from what the calls on it came to.
* `CompilationUnit.Alike.compileProgram_eq`: the order of the bodies does not matter.
* `CompilationUnit.history_faithful`: what a unit shows of the calls on it.
-/

namespace Pictograph

/-! ## Calls -/

/-- A call on a unit. -/
inductive UnitCall where
  /-- Adds a body. -/
  | add (b : Body)
  /-- Builds the program. -/
  | build

/-- What a call on a unit comes to. -/
inductive UnitEvent where
  /-- The body was added. -/
  | added (b : Body)
  /-- The body was refused. -/
  | refused (b : Body) (e : UnitError)
  /-- The program was built. -/
  | built (p : Program)
  /-- The program could not be built. -/
  | failed (e : UnitError)
deriving DecidableEq

namespace UnitEvent

/-- Whether the unit is changed: it is unless a body was refused. -/
def changes : UnitEvent → Bool
  | refused _ _ => false
  | _ => true

/-- The body that was added. -/
def body? : UnitEvent → Option Body
  | added b => some b
  | _ => none

/-- The program that was built. -/
def program? : UnitEvent → Option Program
  | built p => some p
  | _ => none

theorem program?_eq_some_iff {event : UnitEvent} {p : Program} :
    event.program? = some p ↔ event = .built p := by
  cases event <;> simp [program?]

end UnitEvent

namespace CompilationUnit

/-- A unit without bodies. -/
def fresh (cat : Catalogue) (options : Options) : CompilationUnit :=
  { catalogue := cat, options := options }

/-- What a call comes to, and the unit afterwards. -/
def answer (u : CompilationUnit) : UnitCall → UnitEvent × CompilationUnit
  | .add b =>
    match u.addBody b with
    | .ok extended => (.added b, extended)
    | .error e => (.refused b e, u)
  | .build =>
    match u.build with
    | (.ok p, built) => (.built p, built)
    | (.error e, unbuilt) => (.failed e, unbuilt)

/-- What a list of calls comes to, and the unit afterwards. -/
def run (u : CompilationUnit) : List UnitCall → List UnitEvent × CompilationUnit
  | [] => ([], u)
  | call :: calls =>
    let (event, next) := u.answer call
    let (events, last) := next.run calls
    (event :: events, last)

variable {u v : CompilationUnit} {b : Body}

theorem answer_add_ok {extended : CompilationUnit} (h : u.addBody b = .ok extended) :
    u.answer (.add b) = (.added b, extended) := by
  rw [answer, h]

theorem answer_add_error {e : UnitError} (h : u.addBody b = .error e) :
    u.answer (.add b) = (.refused b e, u) := by
  rw [answer, h]

theorem answer_build_ok {p : Program} (h : u.compileProgram = .ok p) :
    u.answer .build = (.built p, { u with program? := some p }) := by
  rw [answer, build, h]
  rfl

theorem answer_build_error {e : UnitError} (h : u.compileProgram = .error e) :
    u.answer .build = (.failed e, { u with program? := none }) := by
  rw [answer, build, h]
  rfl

theorem run_append (u : CompilationUnit) (calls more : List UnitCall) :
    u.run (calls ++ more)
      = ((u.run calls).1 ++ ((u.run calls).2.run more).1, ((u.run calls).2.run more).2) := by
  induction calls generalizing u with
  | nil => rfl
  | cons call calls ih => simp [run, ih]

end CompilationUnit

/-! ## Collections of bodies -/

/-- The procedure a body is for. -/
def Body.key (b : Body) : TypeId × Procedure.Kind × Symbol := (b.owner, b.kind, b.symbol)

/-- A body is for a procedure that is declared and is not native. -/
def Catalogue.Accepts (cat : Catalogue) (b : Body) : Prop :=
  ∃ c m, cat.class? b.owner = some c ∧ c.own? b.kind b.symbol = some m ∧ m.isNative = false

/-- Bodies that can be in one unit: each is accepted, and no two are for one procedure. -/
structure Catalogue.Collects (cat : Catalogue) (bodies : List Body) : Prop where
  accepts : ∀ b ∈ bodies, cat.Accepts b
  nodup : (bodies.map Body.key).Nodup

namespace CompilationUnit

variable {u v : CompilationUnit} {b : Body}

/-- A body is looked up by its procedure. -/
theorem body?_eq_none_iff :
    u.body? b.owner b.kind b.symbol = none ↔ b.key ∉ u.bodies.map Body.key := by
  simp [body?, Body.key, List.find?_eq_none]

/-- The unit takes a body if the catalogue accepts it and its procedure has none. -/
theorem addBody_ok_iff : u.addBody b = .ok v ↔ u.catalogue.Accepts b
    ∧ b.key ∉ u.bodies.map Body.key
    ∧ v = { u with bodies := u.bodies ++ [b], program? := none } := by
  rw [← body?_eq_none_iff, addBody, Catalogue.Accepts]
  cases hc : u.catalogue.class? b.owner with
  | none => simp
  | some c =>
    cases hm : c.own? b.kind b.symbol with
    | none => simp [hm]
    | some m =>
      by_cases hnative : m.isNative
      · simp [hm, hnative]
      · cases u.body? b.owner b.kind b.symbol with
        | none => simpa [hm, hnative] using eq_comm
        | some _ => simp [hm, hnative]

/-- The bodies of a unit stay a collection when one is added. -/
theorem collects_of_addBody (hu : u.catalogue.Collects u.bodies) (h : u.addBody b = .ok v) :
    v.catalogue.Collects v.bodies := by
  obtain ⟨haccepts, hnew, rfl⟩ := addBody_ok_iff.mp h
  constructor
  · intro a ha
    obtain ha | ha := List.mem_append.mp ha
    · exact hu.accepts a ha
    · rw [List.mem_singleton.mp ha]
      exact haccepts
  · rw [List.map_append, List.map_singleton, ← List.concat_eq_append]
    exact List.Nodup.concat hnew hu.nodup

/-- The bodies of a collection can be added one after the other. -/
theorem run_adds {bodies : List Body} (h : u.catalogue.Collects (u.bodies ++ bodies))
    (hprogram : u.program? = none) :
    u.run (bodies.map .add) = (bodies.map .added, { u with bodies := u.bodies ++ bodies }) := by
  induction bodies generalizing u with
  | nil =>
    rw [List.append_nil]
    rfl
  | cons b bodies ih =>
    have haccepts : u.catalogue.Accepts b := h.accepts b (by simp)
    have hnew : b.key ∉ u.bodies.map Body.key := by
      have hnodup := h.nodup
      rw [List.map_append, List.map_cons] at hnodup
      intro hmem
      exact (List.nodup_append.mp hnodup).2.2 _ hmem _ List.mem_cons_self rfl
    have hadd := addBody_ok_iff.mpr ⟨haccepts, hnew, rfl⟩
    have hrest : u.catalogue.Collects (u.bodies ++ [b] ++ bodies) := by
      rwa [List.append_assoc, List.singleton_append]
    rw [List.map_cons, run, answer_add_ok hadd]
    dsimp only
    rw [ih (u := { u with bodies := u.bodies ++ [b], program? := none }) hrest rfl]
    simp [hprogram]

/-! ## The order of the bodies -/

/-- Units with the same declarations, the same options and the same bodies, in any order. No two of
the bodies are for one procedure. -/
structure Alike (u v : CompilationUnit) : Prop where
  catalogue : u.catalogue = v.catalogue
  options : u.options = v.options
  bodies : u.bodies.Perm v.bodies
  nodup : (u.bodies.map Body.key).Nodup

namespace Alike

/-- Each procedure has the same body in both units. -/
theorem body?_eq (h : Alike u v) (owner : TypeId) (kind : Procedure.Kind) (symbol : Symbol) :
    u.body? owner kind symbol = v.body? owner kind symbol := by
  cases hv : v.body? owner kind symbol with
  | none =>
    rw [body?, List.find?_eq_none] at hv ⊢
    intro b hb
    exact hv b (h.bodies.mem_iff.mp hb)
  | some b =>
    have hmem : b ∈ u.bodies := h.bodies.mem_iff.mpr (List.mem_of_find?_eq_some hv)
    have htest := List.find?_some hv
    refine List.find?_of_nodup_map h.nodup hmem htest ?_
    intro a _ ha
    simp only [Bool.and_eq_true, beq_iff_eq] at ha htest
    rw [Body.key, Body.key, ha.1.1, ha.1.2, ha.2, htest.1.1, htest.1.2, htest.2]

theorem members_eq (h : Alike u v) : u.members = v.members := by
  have hbodies : u.hasBodyOf = v.hasBodyOf := by
    funext owner
    exact h.bodies.any_eq
  rw [members, members, h.catalogue, hbodies]

theorem compileMember_eq (h : Alike u v) (session : Session) (c : Class) (m : Member) :
    u.compileMember session c m = v.compileMember session c m := by
  rw [compileMember, compileMember, h.body?_eq, h.catalogue, h.options]

theorem compileMembers_eq (h : Alike u v) (session : Session) (ms : List (Class × Member)) :
    u.compileMembers session ms = v.compileMembers session ms := by
  induction ms generalizing session with
  | nil => rfl
  | cons cm ms ih => simp only [compileMembers, h.compileMember_eq, ih]

/-- **The order of the bodies does not matter.** -/
theorem compileProgram_eq (h : Alike u v) : u.compileProgram = v.compileProgram := by
  rw [compileProgram, compileProgram, h.members_eq, h.compileMembers_eq]

end Alike

/-! ## What a unit shows -/

/-- A unit follows from what the calls on it came to. Its program is that of the last call that
changed it. -/
structure Reflects (cat : Catalogue) (options : Options) (events : List UnitEvent)
    (u : CompilationUnit) : Prop where
  catalogue : u.catalogue = cat
  options : u.options = options
  bodies : u.bodies = events.filterMap UnitEvent.body?
  program : u.program? = (events.filter UnitEvent.changes).getLast?.bind UnitEvent.program?
  compiled : ∀ p, u.program? = some p → u.compileProgram = .ok p
  collects : u.catalogue.Collects u.bodies

section

variable {cat : Catalogue} {options : Options} {events : List UnitEvent}

theorem reflects_fresh (cat : Catalogue) (options : Options) :
    Reflects cat options [] (fresh cat options) where
  catalogue := rfl
  options := rfl
  bodies := rfl
  program := rfl
  compiled := nofun
  collects := ⟨nofun, List.nodup_nil⟩

/-- One more call. -/
theorem Reflects.answer (h : Reflects cat options events u) (call : UnitCall) :
    Reflects cat options (events ++ [(u.answer call).1]) (u.answer call).2 := by
  obtain ⟨hcat, hoptions, hbodies, hprogram, hcompiled, hcollects⟩ := h
  cases call with
  | add b =>
    cases hadd : u.addBody b with
    | error e =>
      rw [answer_add_error hadd]
      refine ⟨hcat, hoptions, ?_, ?_, hcompiled, hcollects⟩
      · simp [hbodies, UnitEvent.body?]
      · simp [hprogram, UnitEvent.changes]
    | ok extended =>
      rw [answer_add_ok hadd]
      have hextended := collects_of_addBody hcollects hadd
      obtain ⟨-, -, rfl⟩ := addBody_ok_iff.mp hadd
      refine ⟨hcat, hoptions, ?_, ?_, nofun, hextended⟩
      · simp [hbodies, UnitEvent.body?]
      · simp [UnitEvent.changes, UnitEvent.program?]
  | build =>
    cases hbuild : u.compileProgram with
    | error e =>
      rw [answer_build_error hbuild]
      refine ⟨hcat, hoptions, ?_, ?_, nofun, hcollects⟩
      · simp [hbodies, UnitEvent.body?]
      · simp [UnitEvent.changes, UnitEvent.program?]
    | ok p =>
      rw [answer_build_ok hbuild]
      refine ⟨hcat, hoptions, ?_, ?_, ?_, hcollects⟩
      · simp [hbodies, UnitEvent.body?]
      · simp [UnitEvent.changes, UnitEvent.program?]
      · rintro _ ⟨rfl⟩
        have halike : Alike { u with program? := some p } u :=
          ⟨rfl, rfl, .refl _, hcollects.nodup⟩
        exact halike.compileProgram_eq.trans hbuild

/-- Any number of calls. -/
theorem Reflects.run (h : Reflects cat options events u) (calls : List UnitCall) :
    Reflects cat options (events ++ (u.run calls).1) (u.run calls).2 := by
  induction calls generalizing u events with
  | nil =>
    rw [CompilationUnit.run, List.append_nil]
    exact h
  | cons call calls ih =>
    have hrest := ih (h.answer call)
    rwa [List.append_assoc, List.singleton_append] at hrest

/-- **Every unit follows from what the calls on it came to.** -/
theorem reflects_run (cat : Catalogue) (options : Options) (calls : List UnitCall) :
    Reflects cat options ((fresh cat options).run calls).1 ((fresh cat options).run calls).2 :=
  (reflects_fresh cat options).run calls

/-- A program is that of a fresh unit with the same bodies. -/
theorem Reflects.rebuild (h : Reflects cat options events u) {p : Program}
    (hp : u.program? = some p) :
    ((fresh cat options).run (u.bodies.map .add ++ [.build])).1
      = u.bodies.map .added ++ [.built p] := by
  have hcollects : cat.Collects u.bodies := by
    rw [← h.catalogue]
    exact h.collects
  let again : CompilationUnit := { catalogue := cat, options := options, bodies := u.bodies }
  have hadds : (fresh cat options).run (u.bodies.map .add) = (u.bodies.map .added, again) :=
    run_adds (u := fresh cat options) hcollects rfl
  have halike : Alike u again := ⟨h.catalogue, h.options, .refl _, h.collects.nodup⟩
  have hbuild : again.compileProgram = .ok p := by
    rw [← halike.compileProgram_eq]
    exact h.compiled p hp
  rw [run_append, hadds, CompilationUnit.run, answer_build_ok hbuild]
  rfl

/-- **A unit shows the history of its calls.** After any calls on a fresh unit:

* its bodies are those that were added, in their order;
* it is built if and only if the last call that added a body or tried to build it was a build that
  succeeded;
* its program, if it has one, is what a fresh unit comes to with the same options and the same
  bodies;
* a body that is refused changes nothing;
* a build that fails keeps the bodies and leaves no program;
* a build comes to the same after any other calls that added the same bodies, in any order. -/
theorem history_faithful {calls : List UnitCall}
    (h : (fresh cat options).run calls = (events, u)) :
    u.bodies = events.filterMap UnitEvent.body?
    ∧ (u.isBuilt ↔ ∃ p, (events.filter UnitEvent.changes).getLast? = some (.built p))
    ∧ (∀ p, u.program? = some p →
      ((fresh cat options).run (u.bodies.map .add ++ [.build])).1
        = u.bodies.map .added ++ [.built p])
    ∧ (∀ b e, u.addBody b = .error e → u.answer (.add b) = (.refused b e, u))
    ∧ (∀ e, u.build.1 = .error e → u.answer .build = (.failed e, { u with program? := none }))
    ∧ ∀ others events' v, (fresh cat options).run others = (events', v) →
      u.bodies.Perm v.bodies → u.build.1 = v.build.1 := by
  have hu : Reflects cat options events u := by
    have hrun := reflects_run cat options calls
    rwa [h] at hrun
  refine ⟨hu.bodies, ?_, fun p ↦ hu.rebuild, fun b e ↦ answer_add_error,
    fun e ↦ answer_build_error, ?_⟩
  · rw [isBuilt, Option.isSome_iff_exists, hu.program]
    simp only [Option.bind_eq_some_iff, UnitEvent.program?_eq_some_iff, exists_eq_right]
  · intro others events' v hothers hperm
    have hv : Reflects cat options events' v := by
      have hrun := reflects_run cat options others
      rwa [hothers] at hrun
    have halike : Alike u v :=
      ⟨hu.catalogue.trans hv.catalogue.symm, hu.options.trans hv.options.symm, hperm,
        hu.collects.nodup⟩
    exact halike.compileProgram_eq

end

end CompilationUnit

/-! ## A sample -/

namespace Sample

/-- The declarations of the nest, without a body. -/
def vacantNest : CompilationUnit := .fresh nest.catalogue {}

/-- Bodies for the class 🐤. The first build fails because two of them are missing, and the last
body is refused because its procedure has one already. -/
def brooding : List UnitCall :=
  [.add (broodBody .initializer), .build, .add (broodBody .method), .add (broodBody .classMethod),
    .build, .add (broodBody .method)]

/-- The same bodies in the order of the class. -/
def orderly : List UnitCall :=
  [.add (broodBody .method), .add (broodBody .classMethod), .add (broodBody .initializer)]

end Sample

/-- The unit is built at the end, although the last call failed. A fresh unit comes to the same
program, and so does one to which the bodies were added in another order. -/
theorem history_faithful_sample :
    ∃ events u p, Sample.vacantNest.run Sample.brooding = (events, u)
      ∧ events.getLast? = some (.refused (Sample.broodBody .method)
        (.duplicateBody ⟨Sample.brood.name, .method, ⟨0x1F415⟩⟩))
      ∧ u.program? = some p
      ∧ (Sample.vacantNest.run (u.bodies.map .add ++ [.build])).1
        = u.bodies.map .added ++ [.built p]
      ∧ (Sample.vacantNest.run Sample.orderly).2.build.1 = u.build.1 := by
  have hlast : (Sample.vacantNest.run Sample.brooding).1.getLast?
      = some (.refused (Sample.broodBody .method)
        (.duplicateBody ⟨Sample.brood.name, .method, ⟨0x1F415⟩⟩)) := by
    decide +kernel
  have hbuilt : (Sample.vacantNest.run Sample.brooding).2.isBuilt := by decide +kernel
  have hperm : (Sample.vacantNest.run Sample.brooding).2.bodies.Perm
      (Sample.vacantNest.run Sample.orderly).2.bodies := by
    decide +kernel
  cases h : Sample.vacantNest.run Sample.brooding with
  | mk events u =>
    rw [h] at hlast hbuilt hperm
    obtain ⟨-, -, hrebuild, -, -, hsame⟩ := CompilationUnit.history_faithful h
    obtain ⟨p, hp⟩ := Option.isSome_iff_exists.mp hbuilt
    exact ⟨events, u, p, rfl, hlast, hp, hrebuild p hp, (hsame _ _ _ rfl hperm).symm⟩

end Pictograph
