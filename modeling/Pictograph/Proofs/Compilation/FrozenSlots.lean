import Pictograph.Proofs.Analysis.FrozenSlots
import Pictograph.Proofs.Code.Listings
import Pictograph.Proofs.Compilation.ReachedStates

/-!
# Frozen variables are written once

A frozen variable is an argument, a copy that a closure takes over, the variable of a condition or
of a loop, or one that a body declares as frozen. The code of a frame writes to the slot of one of
the last sort at one place, which gives it its value, and never to the slots of the others:
arguments and copies have their values when the frame starts, and conditions and loops bind theirs.

The rules for the code say which expression a store belongs to by its offset only. Two expressions
that store a value have their stores at different offsets, so the store of a frozen variable is that
of the expression that declares it.

## Main definitions

* `CodeFrame.Spares`, `CodeFrame.StoresOnce`: how often a frame writes to a slot.
* `KeepsFrozen`: what the code of a body does to frozen variables.

## Main results

* `frozen_slots_written_once`: the code of accepted bodies writes to frozen variables once at most.
-/

namespace Pictograph

open Analysis

/-! ## Slots that a frame leaves alone -/

/-- No instruction of a frame writes to a slot. What closures in it do is not counted, they have
frames of their own. -/
def CodeFrame.Spares (f : CodeFrame) (slot : Nat) : Prop := ∀ i ∈ f.own, ¬ i.Writes slot

/-- One instruction of a frame writes to a slot, the store at an offset. -/
def CodeFrame.StoresOnce (f : CodeFrame) (offset slot : Nat) : Prop :=
  ∃ i ∈ f.own, i.offset = offset ∧ i.op = .access .frame .store ∧ i.Writes slot
    ∧ ∀ i' ∈ f.own, i'.Writes slot → i' = i

/-- In the frame of a closure, the arguments are left alone, and so are the copies of the variables
that are frozen around it. -/
def SparesCaptured (answered : Query → State → Prop) (f : CodeFrame) : Prop :=
  ∃ q s' arguments, answered q s' ∧ q.Takes arguments ∧ f.offset = q.state.offset + 3
    ∧ f.given = arguments + q.state.frame.slotCount
    ∧ (∀ slot < arguments, f.Spares slot)
    ∧ ∀ v, q.state.environment.Holds .frame v → v.isFrozen → f.Spares (arguments + v.slot)

/-- The variables of conditions and of loops are left alone by the frame that binds them. -/
def CodeFrame.SparesBound (f : CodeFrame) : Prop :=
  ∀ i ∈ f.own, i.op.bindsSlot → ∃ slot, i.slot? = some slot ∧ f.Spares slot

/-- What the code of a body with so many arguments does to frozen variables, given its outline. -/
structure KeepsFrozen (given : Nat) (answered : Query → State → Prop) (o : Outline) :
    Prop where
  arguments : ∀ slot < given, CodeFrame.Spares ⟨given, 0, o⟩ slot
  captured : ∀ f ∈ Outline.closures o 0, SparesCaptured answered f
  bound : ∀ f ∈ Outline.frames o given, f.SparesBound
  declared : ∀ q s', answered q s' → q.token.asksFor .declareFrozen →
    ∃ v, s'.environment.resolve? v.name = some (.frame, v) ∧ v.isFrozen
      ∧ v.slot = q.state.frame.slotCount
      ∧ ∃ f ∈ Outline.frames o given, f.StoresOnce q.state.offset v.slot

/-! ## Frames -/

section

variable {π : Pins} {c c' : Context} {f : CodeFrame} {slot : Nat}

/-- A slot that is fixed when a frame starts is left alone. -/
theorem Guards.spares (h : Guards π c c' f.own) (hslot : c.Fixed slot) : f.Spares slot :=
  fun i hi hw ↦ (h.writes i hi slot hw).2 hslot

/-- What binds a variable does not write to it, and nothing else does. -/
theorem Guards.sparesBound (h : Guards π c c' f.own) : f.SparesBound := by
  intro i hi hbinds
  obtain ⟨v, hgives, hfrozen⟩ := h.gives i hi (Bool.or_eq_true_iff.mpr (.inr hbinds))
  obtain ⟨-, -, honly⟩ := hfrozen (hgives.binds hbinds)
  refine ⟨v.slot, hgives.slot, fun i' hi' hw ↦ ?_⟩
  obtain rfl := honly i' hi' hw
  cases (Opcode.not_writesSlot_of_bindsSlot hbinds).symm.trans hw.1

/-- A store is the only instruction that writes to a variable if the variable is frozen. -/
theorem Guards.storesOnce (h : Guards π c c' f.own) {i : Instruction} (hi : i ∈ f.own)
    (hop : i.op = .access .frame .store)
    (hstores : ∀ v, π.stores i.offset v → v.isFrozen ∧ v.slot = slot) :
    f.StoresOnce i.offset slot := by
  obtain ⟨v, hgives, hfrozen⟩ := h.gives i hi (by rw [hop]; rfl)
  obtain ⟨hv, rfl⟩ := hstores v (hgives.stores hop)
  exact ⟨i, hi, rfl, hop, ⟨by rw [hop]; rfl, hgives.slot⟩, (hfrozen hv).2.2⟩

/-- The slots that are handed over to a closure are fixed if nothing in them may be written. -/
theorem Context.HandsOver.fixed {arguments : Nat} {c₀ : Context} (h : c.HandsOver arguments c₀)
    (hd : c.Distinct) :
    (∀ slot < arguments, c₀.Fixed slot)
    ∧ ∀ v, c.environment.Holds .frame v → v.isFrozen → c₀.Fixed (arguments + v.slot) := by
  refine ⟨fun slot hslot ↦ ⟨?_, fun v hv heq ↦ h.frozen v hv (heq ▸ hslot)⟩,
    fun v hv hf ↦ ⟨?_, fun v' hv' heq ↦ (h.copies v v' hv hv' heq).trans hf⟩⟩
  · rw [h.slotCount]
    exact Nat.lt_add_right _ hslot
  · rw [h.slotCount]
    exact Nat.add_lt_add_left (hd.lt v hv) _

end

theorem GuardedClosure.sparesCaptured {answered : Query → State → Prop} {f : CodeFrame}
    (h : GuardedClosure (.ofAnalysis answered) f) : SparesCaptured answered f := by
  obtain ⟨k, arguments, c, c₀, c₁, hoffset, hgiven, hd, ⟨q, s', hq, rfl, htakes, rfl⟩, hover,
    hguards⟩ := h
  obtain ⟨harguments, hcopies⟩ := hover.fixed hd
  exact ⟨q, s', arguments, hq, htakes, hoffset, hgiven.trans hover.slotCount,
    fun slot hslot ↦ hguards.spares (harguments slot hslot),
    fun v hv hf ↦ hguards.spares (hcopies v hv hf)⟩

/-- Every frame of guarded code is guarded. -/
theorem Guarded.frame {π : Pins} {c c' : Context} {o : Outline} {arguments : Nat}
    (h : Guarded π c c' (Outline.own o 0) (Outline.closures o 0)) {f : CodeFrame}
    (hf : f ∈ Outline.frames o arguments) : ∃ c₀ c₁, Guards π c₀ c₁ f.own := by
  rcases List.mem_cons.mp hf with rfl | hf
  · exact ⟨c, c', h.own⟩
  · obtain ⟨-, -, -, c₀, c₁, -, -, -, -, -, hguards⟩ := h.closures f hf
    exact ⟨c₀, c₁, hguards⟩

/-! ## Declarations -/

/-- A name that was just declared refers to its variable. -/
theorem Environment.resolve?_of_declare {e e' : Environment} {v : Variable}
    (h : e.declare v = .ok e') :
    e'.resolve? v.name = some (.frame, v) := by
  cases hs : e.current.declare v with
  | error fault =>
    rw [declare, hs] at h
    cases h
  | ok current =>
    rw [declare, hs] at h
    cases h
    have hnew : e.current.declared.find? (·.name == v.name) = none := by
      unfold Scope.declare at hs
      split at hs
      · cases hs
      · next hnot =>
        exact List.find?_eq_none.mpr fun u hu hname ↦ hnot (List.any_eq_true.mpr ⟨u, hu, hname⟩)
    have hfound : current.find? v.name = some v := by
      rw [Scope.find?, Scope.eq_of_declare hs, List.find?_append, hnew]
      simp
    simp only [resolve?, locals, List.findSome?_cons, hfound]

/-- What stands in the code is an instruction of some frame. -/
theorem IsOutline.exists_own {analysed : Query → State → Prop} {o : Outline} {code : Chunk}
    (h : IsOutline analysed o code) (arguments : Nat) {k : Nat} {op : Opcode}
    (hmark : code.opcodeAt? k = some op) :
    ∃ f ∈ Outline.frames o arguments, ∃ i ∈ f.own, i.offset = k ∧ i.op = op := by
  obtain ⟨l, hl, heq⟩ := (mem_marks_iff h).mp (Chunk.mem_marks.mpr hmark)
  obtain ⟨hoffset, hop⟩ := Prod.mk.inj heq
  rcases Outline.mem_own_or_closures o hl with hi | ⟨f, hf, hi⟩
  · exact ⟨_, List.mem_cons_self, _, hi, hoffset, hop⟩
  · exact ⟨f, List.mem_cons_of_mem _ hf, _, hi, hoffset, hop⟩

namespace Analysis

variable {Γ : Setting} {rec : Recursion} {s s' : State} {t : Ty}

/-- The declaration of a frozen variable stores its value in the next slot. -/
theorem declareFrozen_ok (hrec : rec.GoesOnward) (h : declareFrozen Γ rec s = .ok t s')
    (hholes : s.offset ∉ s.assembler.holes) :
    s'.assembler.chunk.opcodeAt? s.offset = some (.access .frame .store)
    ∧ ∃ v, s'.environment.resolve? v.name = some (.frame, v) ∧ v.isFrozen
      ∧ v.slot = s.frame.slotCount := by
  obtain ⟨⟨x, span⟩, s₁, hreading, h⟩ := bind_ok h
  obtain ⟨cursor, -, rfl⟩ := reading_ok hreading
  obtain ⟨_, _, hundeclared, h⟩ := bind_ok h
  obtain rfl := requireUndeclared_ok hundeclared
  obtain ⟨v, s₂, hstore, h⟩ := bind_ok h
  obtain ⟨_, s₃, hdeclare, h⟩ := bind_ok h
  obtain ⟨-, rfl⟩ := pure_ok h
  obtain ⟨e, he, rfl⟩ := declare_ok hdeclare
  obtain ⟨_, s₄, hemit, hstore⟩ := bind_ok hstore
  obtain ⟨slot, s₅, hslot, hstore⟩ := bind_ok hstore
  obtain ⟨_, s₆, hnumber, hstore⟩ := bind_ok hstore
  obtain ⟨type, s₇, hvalue, hstore⟩ := bind_ok hstore
  obtain ⟨rfl, rfl⟩ := pure_ok hstore
  cases hemit
  refine ⟨?_, _, Environment.resolve?_of_declare he, rfl, (newSlot_ok hslot).1⟩
  -- the store stands, since all words that are reserved by then are in front of it
  have hsize : (s.assembler.opcode (.access .frame .store)).chunk.size = s.offset + 1 :=
    s.assembler.size_opcode _
  have hmark : (s.assembler.opcode (.access .frame .store)).chunk.opcodeAt? s.offset
      = some (.access .frame .store) := (Chunk.opcodeAt?_pushOpcode ..).trans (if_pos rfl)
  have honward := ((Goes.newSlot (R := State.Onward) _ _ _ hslot).trans
    (Goes.emitNumber slot _ _ _ hnumber)).trans ((Traverses.operand hrec).onward _ _ _ hvalue)
  rw [Chunk.opcodeAt?, honward.code.cells (hsize ▸ Nat.lt_succ_self _) hholes]
  exact hmark

end Analysis

section

variable {cat : Catalogue} {options : Options} {session session' : Session} {c : Class}
  {m : Member} {tokens : List Token} {record : Record} {q : Query} {n : Nat} {t : Ty} {s' : State}

/-- The store of a declaration is in the code in the end. -/
theorem ReachedIn.opcodeAt?_declareFrozen (h : ReachedIn cat options session c m tokens n q)
    (hcompile : compile cat options session c m tokens = (.ok record, session'))
    (hq : q.token.asksFor .declareFrozen) (hanswer : (Analysis.expression n).answer q = .ok t s') :
    record.code.opcodeAt? q.state.offset = some (.access .frame .store)
    ∧ ∃ v, s'.environment.resolve? v.name = some (.frame, v) ∧ v.isFrozen
      ∧ v.slot = q.state.frame.slotCount := by
  have hstays := h.staysIn hcompile hanswer
  obtain ⟨-, fields, hfields, hreaches⟩ := id h
  obtain ⟨rest, qs, hstanding⟩ := hreaches.exists_standing
    (fun _ hrec ↦ Analysis.orderly_body hrec .nil fun _ hv ↦ nomatch hv)
    ⟨[], [], rfl, fun _ hk ↦ (nomatch hk), .nil, fun _ hk ↦ nomatch hk⟩
  have hholes : q.state.offset ∉ q.state.assembler.holes := by
    intro hk
    exact Nat.lt_irrefl _ (hstanding.below _ (hstanding.holes ▸ hk))
  cases n with
  | zero => cases hanswer
  | succ n =>
    rw [q.answer_of_asksFor hq nofun] at hanswer
    obtain ⟨hmark, hdeclared⟩ :=
      declareFrozen_ok (Analysis.goesOnward_expression n) hanswer hholes
    refine ⟨?_, hdeclared⟩
    rw [Chunk.opcodeAt?, hstays _ (Nat.le_refl _) (Chunk.lt_size_of_opcodeAt? hmark)]
    exact hmark

/-- What is stored by a declaration is a frozen variable in the next slot, because no other
expression has its store there. -/
theorem AnsweredIn.isFrozen_of_storesAt (h : AnsweredIn cat options session c m tokens q s')
    (hcompile : compile cat options session c m tokens = (.ok record, session'))
    (hq : q.token.asksFor .declareFrozen) {v : Variable}
    (hv : StoresAt (AnsweredIn cat options session c m tokens) q.state.offset v) :
    v.isFrozen ∧ v.slot = q.state.frame.slotCount := by
  obtain ⟨q', s₁, hq', hoffset, hstores⟩ := hv
  have hdeclare : q'.token.asksFor .declare = false :=
    hstores.elim (Token.asksFor_of_ne · nofun) (Token.asksFor_of_ne ·.1 nofun)
  obtain ⟨rfl, rfl⟩ := hq'.eq_of_offset_eq h hcompile (hq'.lt_offset hdeclare)
    (h.lt_offset (Token.asksFor_of_ne hq nofun)) hoffset
  rcases hstores with hassign | ⟨-, hfrozen, hslot⟩
  · cases (beq_iff_eq.mp hassign).symm.trans (beq_iff_eq.mp hq)
  · exact ⟨hfrozen, hslot⟩

/-- **Frozen variables are written once.** In every frame of an accepted body, the code writes to
the slot of a variable that is declared as frozen at one place, by a store, and it does not write to
the slots of arguments, of copies of frozen variables, of bound conditions and of the variables of
loops. -/
theorem frozen_slots_written_once
    (h : compile cat options session c m tokens = (.ok record, session')) :
    ∃ o, IsOnlyOutline (AnsweredIn cat options session c m tokens) o record.code
      ∧ KeepsFrozen m.arguments.length (AnsweredIn cat options session c m tokens) o := by
  cases hm : m.isNative with
  | true =>
    refine ⟨[], (isOutline_native hm h _).isOnly h, fun _ _ _ hi ↦ (nomatch hi),
      fun f hf ↦ (nomatch hf), fun f hf i hi ↦ ?_, fun q s' ⟨n, t, hq, _⟩ ↦ ?_⟩
    · obtain rfl := List.mem_singleton.mp hf
      cases hi
    · cases hm.symm.trans hq.1
  | false =>
    obtain ⟨o, c₀, c₁, he⟩ := compile_emitted hm h
    have hguarded : Guarded _ c₀ c₁ (Outline.own o 0) (Outline.closures o 0) :=
      he.emits.guarded ⟨he.distinct, he.below⟩
    refine ⟨o, he.isOutline.isOnly h, ?arguments, ?captured, ?bound, ?declared⟩
    case arguments =>
      refine fun slot hslot ↦ Guards.spares (f := ⟨m.arguments.length, 0, o⟩) hguarded.own ?_
      exact ⟨hslot.trans_eq he.isStart.slotCount.symm, fun v hv _ ↦ he.frozen v hv⟩
    case captured => exact fun f hf ↦ (hguarded.closures f hf).sparesCaptured
    case bound =>
      intro f hf
      obtain ⟨c₂, c₃, hguards⟩ := hguarded.frame hf
      exact hguards.sparesBound
    case declared =>
      rintro q s' ⟨n, t, hq, hanswer⟩ htoken
      obtain ⟨hmark, v, hv, hfrozen, hslot⟩ := hq.opcodeAt?_declareFrozen h htoken hanswer
      refine ⟨v, hv, hfrozen, hslot, ?_⟩
      obtain ⟨f, hf, i, hi, hoffset, hop⟩ := he.isOutline.exists_own m.arguments.length hmark
      obtain ⟨c₂, c₃, hguards⟩ := hguarded.frame hf
      refine ⟨f, hf, hoffset ▸ hguards.storesOnce hi hop fun u hu ↦ ?_⟩
      rw [hslot]
      exact AnsweredIn.isFrozen_of_storesAt ⟨n, t, hq, hanswer⟩ h htoken (hoffset ▸ hu)

end

namespace Sample

/-- A body that declares a frozen variable, which a closure with an argument takes over,
`🍦 x 1 🍇 y ⚪ 🍦 z x 🍉 🍉`. -/
def frozenCapture : List Token :=
  [ask .declareFrozen, word (.reference "x"), word (.integer 1), ask .blockOpen,
    word (.reference "y"), word (.identifier Vocabulary.anything), ask .declareFrozen,
    word (.reference "z"), word (.reference "x"), ask .blockClose, ask .blockClose]

theorem listing_frozenCapture :
    listing? catalogue {} .start parentClass method frozenCapture = some (Outline.entries
      [.plain (.access .frame .store) [0] [.plain .integer [1] []],
        .closure 3 [.plain (.access .frame .store) [2] [.plain (.access .frame .load) [1] []]]
          1 false 1]) := by
  decide +kernel

/-- The query for the declaration. -/
def frozenCaptureQuery : Query :=
  .first (.ofMember catalogue {} parentClass method)
    (some ⟨catalogue.fieldVariables parentClass false⟩) .start (ask .declareFrozen)
    frozenCapture.tail

theorem reachedIn_frozenCapture :
    ReachedIn catalogue {} .start parentClass method frozenCapture 11 frozenCaptureQuery :=
  reachedIn_first (by decide +kernel) rfl (by decide +kernel) (by decide +kernel)

end Sample

/-- The slot of a frozen variable is written by its declaration alone, though a closure takes the
variable over. -/
theorem frozen_slots_written_once_capture :
    ∃ record session' o, compile Sample.catalogue {} .start Sample.parentClass Sample.method
        Sample.frozenCapture = (.ok record, session')
      ∧ IsOnlyOutline (AnsweredIn Sample.catalogue {} .start Sample.parentClass Sample.method
        Sample.frozenCapture) o record.code
      ∧ ∃ f ∈ Outline.frames o Sample.method.arguments.length, f.StoresOnce 0 0 := by
  obtain ⟨record, session', h, -⟩ := exists_record Sample.listing_frozenCapture
  obtain ⟨o, ho, hkeeps⟩ := frozen_slots_written_once h
  obtain ⟨t, s', hanswer⟩ := Sample.reachedIn_frozenCapture.answered h
  obtain ⟨v, -, -, hslot, hstores⟩ := hkeeps.declared Sample.frozenCaptureQuery s'
    ⟨_, t, Sample.reachedIn_frozenCapture, hanswer⟩ (by decide +kernel)
  have hoffset : Sample.frozenCaptureQuery.state.offset = 0 := by decide +kernel
  have hcount : Sample.frozenCaptureQuery.state.frame.slotCount = 0 := by decide +kernel
  rw [hslot, hcount, hoffset] at hstores
  exact ⟨record, session', o, h, ho, hstores⟩

end Pictograph
