import Pictograph.Proofs.Analysis.Tolerance
import Pictograph.Proofs.Compilation.Isolation

/-!
# Names of variables do not influence the code

All variables are given other names: those of the body, the arguments of the procedure and the
fields of all classes. As long as different variables keep different names, the body is compiled
into the same record. The names show up again where they are reported, in diagnoses and warnings.

A renamed body is a transcription of the body, but it is analysed with another catalogue, in which
the fields are renamed. The catalogue answers all questions of the analysis as the first one does,
so the proof goes in two steps: first the catalogues are exchanged, then the names in the body.

## Main definitions

* `Class.Renames`, `Catalogue.Renames`: classes and catalogues with other names for the fields.

## Main results

* `alike_fieldsFor`: the fields in reach of a body are the same under other names.
* `compile_renamed`: other names for the variables do not change what a body is compiled into.
-/

namespace Pictograph

/-! ## Renaming -/

/-- An argument under another name. -/
def Argument.rename (f : String → String) (a : Argument) : Argument := { a with name := f a.name }

/-- A field under another name. -/
def Field.rename (f : String → String) (field : Field) : Field :=
  { field with name := f field.name }

/-- A member with other names for its arguments. -/
def Member.rename (f : String → String) (m : Member) : Member :=
  { m with arguments := m.arguments.map (·.rename f) }

/-- A token with another name for the variable that it refers to. -/
def Token.rename (f : String → String) (t : Token) : Token := { t with lexeme := t.lexeme.rename f }

/-- A warning with another name for the variable that it is about. -/
def Warning.rename (f : String → String) (w : Warning) : Warning :=
  { w with remark := w.remark.rename f }

/-- A class with other names for its fields. The arguments of its members may have any names. -/
structure Class.Renames (f : String → String) (c c' : Class) : Prop where
  nameless : c'.nameless = c.nameless
  fields : c'.fields = c.fields.map (·.rename f)

/-- A catalogue with other names for the fields of all classes. The arguments of the members may
have any names. -/
structure Catalogue.Renames (f : String → String) (cat cat' : Catalogue) : Prop where
  classes : List.Forall₂ (Class.Renames f) cat.latestClasses cat'.latestClasses
  protocols : cat'.latestProtocols.map (·.nameless) = cat.latestProtocols.map (·.nameless)
  enumerations : cat'.latestEnumerations = cat.latestEnumerations

theorem Member.nameless_rename (f : String → String) (m : Member) :
    (m.rename f).nameless = m.nameless := by
  have harguments : (m.arguments.map (·.rename f)).map (·.nameless)
      = m.arguments.map (·.nameless) := List.map_map
  rw [nameless, nameless, Procedure.nameless, Procedure.nameless, rename, harguments]

theorem Member.header_rename (f : String → String) (m : Member) (slotCount : Nat) :
    (m.rename f).header slotCount = m.header slotCount := by
  have hlength : (m.rename f).arguments.length = m.arguments.length := List.length_map _
  rw [header, header, hlength]
  rfl

theorem finishRecord_rename (f : String → String) (m : Member) (summary : Summary) (s : State) :
    finishRecord (m.rename f) summary s = finishRecord m summary s := by
  rw [finishRecord, finishRecord, Member.header_rename]

namespace Catalogue

variable {f : String → String} {cat cat' : Catalogue}

theorem Renames.nameless (h : cat.Renames f cat') : cat'.nameless = cat.nameless := by
  have hclasses := map_eq_of_forall₂ h.classes fun _ _ hc ↦ hc.nameless
  rw [Catalogue.nameless, Catalogue.nameless, hclasses, h.protocols, h.enumerations]

theorem inheritedFieldCount_nameless (cat : Catalogue) (c : Class) :
    cat.nameless.inheritedFieldCount c.nameless = cat.inheritedFieldCount c := by
  rw [inheritedFieldCount, inheritedFieldCount, show c.nameless.id = c.id from rfl,
    lineage_nameless, ← List.map_tail, List.foldr_map]
  simp only [Class.nameless, List.length_map]

/-- Under other names the fields of the ancestors take as many slots. -/
theorem Renames.inheritedFieldCount_eq {c c' : Class} (h : cat.Renames f cat')
    (hc : c.Renames f c') : cat'.inheritedFieldCount c' = cat.inheritedFieldCount c := by
  rw [← inheritedFieldCount_nameless, h.nameless, hc.nameless, inheritedFieldCount_nameless]

end Catalogue

/-! ### All fields

Every catalogue can be renamed. -/

/-- A class with other names for its fields. -/
def Class.renameFields (f : String → String) (c : Class) : Class :=
  { c with fields := c.fields.map (·.rename f) }

/-- A catalogue with other names for the fields of all classes. -/
def Catalogue.renameFields (f : String → String) (cat : Catalogue) : Catalogue :=
  { cat with latestClasses := cat.latestClasses.map (·.renameFields f) }

theorem Class.renames_renameFields (f : String → String) (c : Class) :
    c.Renames f (c.renameFields f) where
  nameless := by
    have hfields : (c.fields.map (·.rename f)).map (·.nameless) = c.fields.map (·.nameless) :=
      List.map_map
    rw [Class.nameless, Class.nameless, renameFields, hfields]
  fields := rfl

theorem Catalogue.renames_renameFields (f : String → String) (cat : Catalogue) :
    cat.Renames f (cat.renameFields f) where
  classes := List.forall₂_map_right_iff.mpr
    (List.forall₂_same.mpr fun c _ ↦ c.renames_renameFields f)
  protocols := rfl
  enumerations := rfl

/-! ## The fields in reach -/

namespace Transcription

variable {τ : Transcription}

theorem Outcomes.bind {α β γ δ : Type} {V : α → β → Prop} {W : γ → δ → Prop} {x : Except Fault α}
    {y : Except Fault β} {g : α → Except Fault γ} {k : β → Except Fault δ}
    (h : τ.Outcomes V x y) (hg : ∀ a b, V a b → τ.Outcomes W (g a) (k b)) :
    τ.Outcomes W (x >>= g) (y >>= k) := by
  cases h with
  | ok hab => exact hg _ _ hab
  | error he => exact .error he

theorem Outcomes.map {α β γ δ : Type} {V : α → β → Prop} {W : γ → δ → Prop} {x : Except Fault α}
    {y : Except Fault β} {g : α → γ} {k : β → δ} (h : τ.Outcomes V x y)
    (hg : ∀ a b, V a b → W (g a) (k b)) : τ.Outcomes W (g <$> x) (k <$> y) := by
  cases h with
  | ok hab => exact .ok (hg _ _ hab)
  | error he => exact .error he

/-- Renamed fields are declared in the same slots. -/
theorem alike_declareFields (hnowhere : τ.place .nowhere .nowhere) (isInitializer : Bool)
    (fields : List Field) (slot : Nat) {scope scope' : Scope}
    (h : scope.Alike τ τ.place scope') :
    τ.Outcomes (Scope.Alike τ τ.place) (declareFields isInitializer slot scope fields)
      (declareFields isInitializer slot scope' (fields.map (·.rename τ.name))) := by
  induction fields generalizing slot scope scope' with
  | nil => exact .ok h
  | cons field fields ih =>
    rw [List.map_cons, declareFields, declareFields]
    split
    · exact .error (.renamed (.tooManyVariables _) hnowhere)
    · let v : Variable := { name := field.name, type := field.type, slot, span := .nowhere }
      let v' : Variable := { v with name := τ.name field.name }
      have hv : v.Alike τ τ.place v' := ⟨rfl, rfl, rfl, rfl, rfl, rfl, hnowhere⟩
      have hready (isReady : Bool) : Variable.Alike τ τ.place (if isReady then v.ready else v)
          (if isReady then v'.ready else v') := by
        cases isReady with
        | true => exact hv.ready
        | false => exact hv
      exact .bind (h.declare (hready _)) fun _ _ hs ↦ ih (slot + 1) hs

/-- **The fields in reach of a body** are the same under other names. -/
theorem alike_fieldsFor {cat cat' : Catalogue} {c c' : Class} (h : cat.Renames τ.name cat')
    (hc : c.Renames τ.name c') (hnowhere : τ.place .nowhere .nowhere) (m : Member) :
    τ.Outcomes (Option.Rel (Scope.Alike τ Span.Anywhere)) (cat.fieldsFor c m)
      (cat'.fieldsFor c' (m.rename τ.name)) := by
  have hscope (isInitializer : Bool) : τ.Outcomes (Scope.Alike τ τ.place)
      (cat.fieldScope c isInitializer) (cat'.fieldScope c' isInitializer) := by
    rw [Catalogue.fieldScope, Catalogue.fieldScope, h.inheritedFieldCount_eq hc, hc.fields]
    exact alike_declareFields hnowhere isInitializer c.fields _ .empty
  have hreach {s s' : Scope} (hs : s.Alike τ τ.place s') :
      Option.Rel (Scope.Alike τ Span.Anywhere) (some s) (some s') :=
    .some (List.Forall₂.imp (fun _ _ hv ↦ { hv with span := trivial }) hs)
  rw [Catalogue.fieldsFor, Catalogue.fieldsFor, show (m.rename τ.name).kind = m.kind from rfl]
  cases m.kind with
  | classMethod => exact .ok .none
  | method => exact (hscope false).map fun _ _ hs ↦ hreach hs
  | initializer => exact (hscope true).map fun _ _ hs ↦ hreach hs

end Transcription

/-! ## Catalogues that are exchanged -/

/-- In a catalogue with renamed fields a member is analysed as before. -/
theorem Setting.admits_renamed {f : String → String} {cat cat' : Catalogue} {c c' : Class}
    (h : cat.Renames f cat') (hc : c.Renames f c') (options : Options) (m : Member) :
    Tolerance.strict.Admits (.ofMember cat options c m)
      (.ofMember cat' options c' (m.rename f)) where
  catalogue := h.nameless
  selfType := (congrArg Class.selfType hc.nameless :)
  space := (congrArg (·.space) hc.nameless :)
  isStatic := rfl
  result := rfl
  initializer? := by
    rw [Setting.ofMember, Setting.ofMember, show (m.rename f).kind = m.kind from rfl]
    split
    · exact congrArg (fun m : Member ↦ some m.toProcedure) (m.nameless_rename f)
    · rfl
  compilesDeadCode := rfl
  recommendsFrozen := .inl rfl
  slotLimit := .inl rfl

/-- An analysis and the same with exchanged catalogues, where nothing is tolerated. -/
theorem Tolerance.eq_of_strict {r r' : EStateM.Result Fault State Summary}
    (h : strict.lockstep.Ends r r') :
    (∃ summary s, r = .ok summary s ∧ r' = .ok summary s)
      ∨ ∃ fault s s', r = .error fault s ∧ r' = .error fault s' ∧ s'.session = s.session := by
  cases h with
  | ok ht =>
    obtain rfl := Agrees.eq (fun _ ↦ rfl) ht
    exact .inl ⟨_, _, rfl, rfl⟩
  | error ht => exact .inr ⟨_, _, _, rfl, rfl, Agrees.eq (fun _ ↦ rfl) ht⟩
  | excused he => exact he.elim

/-! ## Compilation -/

/-- Other names for variables, at the same places. The warnings before are arbitrary. -/
def Transcription.renamed (f : String → String) (hf : Function.Injective f)
    (earlier : Array Warning) : Transcription where
  earlier := earlier.toList
  name := f
  place := Eq
  line := Eq
  name_injective := hf
  line_of_place := congrArg Span.line

section

variable {f : String → String} (hf : Function.Injective f) {cat cat' : Catalogue} {c c' : Class}
  (hcat : cat.Renames f cat') (hc : c.Renames f c') (options : Options) (m : Member)
  (tokens : List Token)

include hf hcat hc

/-- A body and the same under other names are compiled alike, where no warnings were given before
the first one. -/
theorem Transcription.alike_compile_renamed (strings : StringTable) (earlier : Array Warning) :
    (renamed f hf earlier).Outcomes (Record.Alike (renamed f hf earlier))
        (compile cat options ⟨strings, #[]⟩ c m tokens).1
        (compile cat' options ⟨strings, earlier⟩ c' (m.rename f) (tokens.map (·.rename f))).1
      ∧ (compile cat options ⟨strings, #[]⟩ c m tokens).2.Alike (renamed f hf earlier)
        (compile cat' options ⟨strings, earlier⟩ c' (m.rename f) (tokens.map (·.rename f))).2 := by
  have hsession : Session.Alike (renamed f hf earlier) ⟨strings, #[]⟩ ⟨strings, earlier⟩ :=
    ⟨rfl, [], (List.append_nil _).symm, .nil⟩
  have harguments : List.Forall₂ (Argument.Alike (renamed f hf earlier)) m.arguments
      (m.rename f).arguments :=
    List.forall₂_map_right_iff.mpr (List.forall₂_same.mpr fun _ _ ↦ ⟨rfl, rfl⟩)
  have htokens : List.Forall₂ (Token.Alike (renamed f hf earlier)) tokens
      (tokens.map (·.rename f)) :=
    List.forall₂_map_right_iff.mpr (List.forall₂_same.mpr fun _ _ ↦ ⟨rfl, rfl⟩)
  rw [compile, compile, show (m.rename f).isNative = m.isNative from rfl]
  split
  · exact ⟨.ok ⟨m.header_rename f 0, .nil⟩, hsession⟩
  have hfields : (renamed f hf earlier).Outcomes _ (cat.fieldsFor c m)
      (cat'.fieldsFor c' (m.rename f)) :=
    alike_fieldsFor (τ := renamed f hf earlier) hcat hc rfl m
  generalize cat.fieldsFor c m = x, cat'.fieldsFor c' (m.rename f) = x' at hfields ⊢
  cases hfields with
  | error he => exact ⟨.error he, hsession⟩
  | @ok fields fields' hfields =>
    -- first the catalogue is exchanged, then the names in the body
    have hexchanged := Tolerance.ends_analyse (Setting.admits_renamed hcat hc options m)
      m.arguments fields (.refl ⟨strings, #[]⟩) tokens
    have hrenamed := ends_analyse (.ofMember cat' options c' (m.rename f)) rfl harguments hfields
      hsession htokens fun _ ↦ rfl
    dsimp only
    generalize analyse (.ofMember cat options c m) _ _ _ _ = r₁,
      analyse _ m.arguments _ _ tokens = r₂, analyse _ (m.rename f).arguments _ _ _ = r₃
      at hexchanged hrenamed ⊢
    obtain ⟨summary, s, rfl, rfl⟩ | ⟨fault, s, s', rfl, rfl, hs'⟩ :=
      Tolerance.eq_of_strict hexchanged
    · cases hrenamed with
      | ok hs _ hsummary =>
        subst hsummary
        dsimp only
        rw [finishRecord_rename]
        exact ⟨alike_finishRecord m _ hs, hs.session⟩
    · cases hrenamed with
      | error he hs =>
        have hsession' := hs.session
        rw [hs'] at hsession'
        exact ⟨.error he, hsession'⟩

omit hcat hc in
/-- The warnings that are added correspond, name by name. -/
theorem Session.Alike.warnings_eq {s s' : Session} {earlier : Array Warning}
    (h : s.Alike (.renamed f hf earlier) s') :
    s'.warnings = earlier ++ s.warnings.map (·.rename f) := by
  obtain ⟨added, hadded, hwarnings⟩ := h.warnings
  have hrenamed : added.map id = s.warnings.toList.map (·.rename f) :=
    map_eq_of_forall₂ hwarnings fun w w' hw ↦ congrArg₂ Warning.mk hw.remark hw.span.symm
  rw [List.map_id] at hrenamed
  rw [← Array.toList_inj, hadded, hrenamed, Array.toList_append, Array.toList_map]
  rfl

/-- **Names of variables do not influence the code.** Every variable of a body, every argument of
the procedure and every field of a class is given another name, different variables different names.
The session may have given other warnings before. Then the body is accepted if and only if it was,
and compiled into the same record. The same strings are met, and the same warnings are added, apart
from the names. -/
theorem compile_renamed {session session' : Session}
    (hstrings : session'.strings = session.strings) :
    let x := compile cat options session c m tokens
    let x' := compile cat' options session' c' (m.rename f) (tokens.map (·.rename f))
    (∀ record, x'.1 = .ok record ↔ x.1 = .ok record)
      ∧ x'.2.strings = x.2.strings
      ∧ ∃ added, x.2.warnings = session.warnings ++ added
        ∧ x'.2.warnings = session'.warnings ++ added.map (·.rename f) := by
  have halike := Transcription.alike_compile_renamed hf hcat hc options m tokens session.strings
    session'.warnings
  -- the warnings before the body are put in front of those that it adds
  have hbehind := compile_behind cat options ⟨session.strings, #[]⟩ session.warnings c m tokens
  rw [← Session.eq_behind] at hbehind
  rw [hbehind, show session' = ⟨session.strings, session'.warnings⟩ by rw [← hstrings]]
  obtain ⟨hresult, hsession⟩ := halike
  generalize compile cat options ⟨session.strings, #[]⟩ c m tokens = x,
    compile cat' _ _ c' _ _ = x' at hresult hsession ⊢
  refine ⟨fun record ↦ ?_, hsession.strings, x.2.warnings, rfl, hsession.warnings_eq⟩
  generalize x.1 = result, x'.1 = result' at hresult ⊢
  cases hresult with
  | ok hrecord => rw [hrecord.eq id]
  | error => exact ⟨nofun, nofun⟩

end

/-- A body that assigns to a field and copies it to a variable, `🍮 f 👍 🍮 x f 🍉`. -/
def Sample.copyField : List Token :=
  [ask .assign, word (.reference "f"), word (.boolean true), ask .assign, word (.reference "x"),
    word (.reference "f"), ask .blockClose]

/-- The field `f` is renamed to `vf` and the variable `x` to `vx`. The code is the same, and it is
`vx` that is recommended to be frozen. -/
theorem compile_renamed_sample :
    ∃ record strings,
      compile Sample.catalogue {} .start Sample.parentClass Sample.method Sample.copyField
        = (.ok record, ⟨strings, #[⟨.couldBeFrozen "x", .nowhere⟩]⟩)
      ∧ compile (Sample.catalogue.renameFields ("v" ++ ·)) {} .start
          (Sample.parentClass.renameFields ("v" ++ ·)) (Sample.method.rename ("v" ++ ·))
          (Sample.copyField.map (·.rename ("v" ++ ·)))
        = (.ok record, ⟨strings, #[⟨.couldBeFrozen "vx", .nowhere⟩]⟩) := by
  have hf : Function.Injective ("v" ++ · : String → String) :=
    fun _ _ h ↦ (String.append_right_inj "v").mp h
  have hrenamed := compile_renamed hf (Sample.catalogue.renames_renameFields _)
    (Sample.parentClass.renames_renameFields _) {} Sample.method Sample.copyField
    (rfl : Session.start.strings = Session.start.strings)
  have hcode : (listing? Sample.catalogue {} .start Sample.parentClass Sample.method
      Sample.copyField).isSome := by
    decide +kernel
  have hadded : (compile Sample.catalogue {} .start Sample.parentClass Sample.method
      Sample.copyField).2.warnings = #[⟨.couldBeFrozen "x", .nowhere⟩] := by
    decide +kernel
  obtain ⟨listing, hlisting⟩ := Option.isSome_iff_exists.mp hcode
  obtain ⟨record, ⟨strings, warnings⟩, h, -⟩ := exists_record hlisting
  rw [h] at hadded hrenamed
  generalize compile (Sample.catalogue.renameFields _) _ _ _ _ _ = x' at hrenamed ⊢
  obtain ⟨result', strings', warnings'⟩ := x'
  obtain ⟨haccepted, hstrings, added, hwarnings, hwarnings'⟩ := hrenamed
  dsimp only [Session.start] at haccepted hstrings hadded hwarnings hwarnings'
  rw [Array.empty_append] at hwarnings hwarnings'
  have hresult : result' = .ok record := (haccepted record).mpr rfl
  have hnames : (#[⟨.couldBeFrozen "x", .nowhere⟩] : Array Warning).map (·.rename ("v" ++ ·))
      = #[⟨.couldBeFrozen "vx", .nowhere⟩] := by
    decide +kernel
  rw [← hwarnings, hadded, hnames] at hwarnings'
  rw [hadded] at h
  exact ⟨record, strings, h, by rw [hresult, hstrings, hwarnings']⟩

end Pictograph
