import Pictograph.Proofs.Analysis.Coverage
import Pictograph.Proofs.Compilation.Emitted

/-!
# Initializers give all fields a value

Every run of an accepted initializer stores a value in each field of its class that is not optional,
unless the store stands in code that the run leaves out: in the body of a closure, which has its own
frame but the same fields and may never be invoked, or in the condition of a later branch.

## Main results

* `fields_bound_by_initializer`: what a run of an initializer does for a field.
* `field_bound_only_in_closure`: an initializer that leaves a field without a value.
-/

namespace Pictograph

/-- No assignment counts for another field than the one it writes. -/
theorem not_straysAt_object {cat : Catalogue} {options : Options} {session : Session} {c : Class}
    {m : Member} {tokens : List Token} {offset id : Nat} :
    ¬ StraysAt (AnsweredIn cat options session c m tokens) offset ⟨.object, id⟩ := by
  rintro ⟨q, s', x, st, v, v', hq, -, -, hv, hv', hid, hne⟩
  obtain ⟨n, t, ⟨-, fields, -, hreached⟩, hanswer⟩ := hq
  obtain ⟨o, hw, -⟩ := hreached.wrote hanswer
  obtain ⟨w, hw, he⟩ := hw.emits.grows.environment.resolve?_object hv'
  cases hv.symm.trans hw
  exact hne (congrArg (Slot.mk .object) (hid.symm.trans he.slot))

theorem not_strayedIn_object {cat : Catalogue} {options : Options} {session : Session} {c : Class}
    {m : Member} {tokens : List Token} {τ : List Event} {id : Nat} :
    ¬ StrayedIn (.ofAnalysis (AnsweredIn cat options session c m tokens)) τ ⟨.object, id⟩ :=
  fun ⟨_, _, _, _, _, h⟩ ↦ not_straysAt_object h

/-- At the start of an initializer the fields that count as having a value are optional. -/
theorem covers_start_of_initializer {cat : Catalogue} {c : Class} {m : Member} {e : Environment}
    (hk : m.kind = .initializer) (h : cat.fieldsFor c m = .ok e.fields) :
    Covers (fun slot ↦ slot.storage = .frame) e := by
  rintro (- | -) v hv hr
  · exact .inr rfl
  · obtain ⟨s, hs, hv⟩ := hv
    have hf := Catalogue.fieldsFor_ok h
    rw [hk, hs] at hf
    cases hf
    obtain ⟨⟨f, slot⟩, -, rfl⟩ := List.mem_map.mp hv
    refine .inl ?_
    rw [Field.variable_type]
    unfold Field.variable at hr
    by_contra ho
    simp [ho, Variable.isReady] at hr

/-- An initializer may only end where all fields have a value. -/
theorem ready_of_accepts {Γ : Setting} {c : Context} (h : Γ.Accepts c)
    (hΓ : Γ.initializer?.isSome) {v : Variable} (hv : c.environment.Holds .object v) :
    v.isReady := by
  obtain ⟨s, hs, hv⟩ := hv
  obtain ⟨span, hcomplete⟩ := h.complete hΓ
  unfold Environment.requireComplete at hcomplete
  split at hcomplete
  · cases hcomplete
  · next hnone =>
    rw [hs] at hnone
    simpa using List.find?_eq_none.mp hnone v hv

/-- A field of the class is in reach of an initializer. -/
theorem holds_field {cat : Catalogue} {c : Class} {m : Member} {e : Environment} {i : Nat}
    {f : Field} (hk : m.kind = .initializer) (h : cat.fieldsFor c m = .ok e.fields)
    (hf : c.fields[i]? = some f) :
    e.Holds .object (f.variable true (cat.inheritedFieldCount c + i)) := by
  have hs := Catalogue.fieldsFor_ok h
  rw [hk] at hs
  refine ⟨_, hs, List.mem_map.mpr ⟨(f, cat.inheritedFieldCount c + i), ?_, rfl⟩⟩
  exact List.mk_add_mem_zipIdx_iff_getElem?.mpr hf

/-- A run of an initializer has given a value to every field of the class that is not optional,
unless code that it left out does so. -/
def SetsFields (cat : Catalogue) (c : Class) (τ : List Event) : Prop :=
  ∀ i f, c.fields[i]? = some f → f.type.isOptional = false →
    BoundIn τ ⟨.object, cat.inheritedFieldCount c + i⟩
      ∨ PassedIn τ ⟨.object, cat.inheritedFieldCount c + i⟩

/-- **Initializers give all fields a value.** -/
theorem fields_bound_by_initializer {cat : Catalogue} {options : Options}
    {session session' : Session} {c : Class} {m : Member} {tokens : List Token} {record : Record}
    (hk : m.kind = .initializer) (hm : m.isNative = false)
    (h : compile cat options session c m tokens = (.ok record, session')) :
    ∃ o, IsOnlyOutline (AnsweredIn cat options session c m tokens) o record.code
      ∧ ∀ τ, Outline.Runs o 0 τ → SetsFields cat c τ := by
  obtain ⟨o, c₀, c₁, he⟩ := compile_emitted hm h
  refine ⟨o, he.isOutline.isOnly h, fun τ hτ i f hf ho ↦ ?_⟩
  have hΓ : (Setting.ofMember cat options c m).initializer?.isSome := by
    simp [Setting.ofMember, hk]
  have hstatic : (Setting.ofMember cat options c m).isStatic = false := by
    simp [Setting.ofMember, hk]
  obtain ⟨-, hcovers⟩ := he.emits.sound _ (fun hs ↦ absurd hs (by simp [hstatic])) he.distinct
    (covers_start_of_initializer hk he.fields) τ hτ
  obtain ⟨v, hv, hev⟩ := he.emits.grows.environment.holds_left (holds_field hk he.fields hf)
  have hslot : v.slot = cat.inheritedFieldCount c + i :=
    hev.slot.trans (f.variable_slot true _)
  have htype : v.type = f.type := hev.type.trans (f.variable_type true _)
  rcases hcovers .object v hv (ready_of_accepts he.accepts hΓ hv) with hoptional | hafter
  · rw [htype, ho] at hoptional
    cases hoptional
  · rw [hslot] at hafter
    rcases cases_of_after hafter with hs | hb | hp | hs
    · cases hs
    · exact .inl hb
    · exact .inr hp
    · exact absurd hs not_strayedIn_object

/-- A body that stores a value in the field, `🍮 f 👍 🍉`. -/
def Sample.fieldAssignment : List Token :=
  [ask .assign, word (.reference "f"), word (.boolean true), ask .blockClose]

/-- An initializer that stores a value in the only field of its class is accepted, and every run of
it sets the field. -/
theorem field_bound_by_initializer_sample :
    ∃ record session', compile Sample.catalogue {} .start Sample.parentClass Sample.initializer
        Sample.fieldAssignment = (.ok record, session')
      ∧ ∃ o, IsOnlyOutline (AnsweredIn Sample.catalogue {} .start Sample.parentClass
          Sample.initializer Sample.fieldAssignment) o record.code
        ∧ ∀ τ, Outline.Runs o 0 τ → SetsFields Sample.catalogue Sample.parentClass τ := by
  have hcode : listing? Sample.catalogue {} .start Sample.parentClass Sample.initializer
      Sample.fieldAssignment = some (Outline.entries
        [.plain (.access .object .store) [0] [.plain (.boolean true) [] []]]) := by
    decide +kernel
  obtain ⟨record, session', h, -⟩ := exists_record hcode
  exact ⟨record, session', h,
    fields_bound_by_initializer (by decide +kernel) (by decide +kernel) h⟩

/-! ## A field without a value -/

/-- A body is accepted for an initializer though a run of its code stores nothing in a field of the
class that is not optional. -/
def LeavesFieldUnset (cat : Catalogue) (options : Options) (session : Session) (c : Class)
    (m : Member) (tokens : List Token) : Prop :=
  m.kind = .initializer ∧ m.isNative = false
    ∧ ∃ record session' o, compile cat options session c m tokens = (.ok record, session')
      ∧ IsOnlyOutline (AnsweredIn cat options session c m tokens) o record.code
      ∧ ∃ τ i f, Outline.Runs o 0 τ ∧ c.fields[i]? = some f ∧ f.type.isOptional = false
        ∧ ¬ BoundIn τ ⟨.object, cat.inheritedFieldCount c + i⟩

/-- A body that stores a value in the field only inside a closure, `🍇 🍮 f 👍 🍉 🍉`. -/
def Sample.closureAssignment : List Token :=
  [ask .blockOpen, ask .assign, word (.reference "f"), word (.boolean true), ask .blockClose,
    ask .blockClose]

/-- **A store in a closure counts.** An initializer may leave a field without a value if a closure
in it stores one, though nothing invokes the closure. -/
theorem field_bound_only_in_closure :
    LeavesFieldUnset Sample.catalogue {} .start Sample.parentClass Sample.initializer
      Sample.closureAssignment := by
  have hcode : listing? Sample.catalogue {} .start Sample.parentClass Sample.initializer
      Sample.closureAssignment = some (Outline.entries
        [.closure 0 [.plain (.access .object .store) [0] [.plain (.boolean true) [] []]] 0
          true 0]) := by
    decide +kernel
  obtain ⟨record, session', h, hl⟩ := exists_record hcode
  obtain ⟨o, c₀, c₁, he⟩ := compile_emitted (by decide +kernel) h
  -- all of the code is the closure
  obtain ⟨item, rfl, hop⟩ := he.isOutline.exists_singleton h hl
    (hasCode_of_refuses h (by decide +kernel))
  obtain ⟨slots, body, arguments, usesSelf, captured, rfl⟩ :=
    (Outline.follows_singleton.mp he.isOutline.follows).exists_closure hop
  refine ⟨by decide +kernel, by decide +kernel, record, session', _, h, he.isOutline.isOnly h, _, 0,
    ⟨"f", .boolean⟩, Outline.runs_singleton.mpr rfl, by decide +kernel, rfl, ?_⟩
  rintro ⟨i, hi, -, hb⟩
  simp only [List.mem_cons, Event.done.injEq, reduceCtorEq, List.not_mem_nil, or_self,
    or_false] at hi
  simp [hi] at hb

end Pictograph
