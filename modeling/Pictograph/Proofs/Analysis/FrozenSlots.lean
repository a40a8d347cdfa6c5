import Pictograph.Proofs.Analysis.Coverage
import Pictograph.Proofs.Code.OwnInstructions
import Pictograph.Proofs.Compilation.SlotLimit

/-!
# What code does to the slots of frozen variables

A slot is fixed in a context if it was handed out and no variable that may be written is in it. From
then on it stays fixed, since a new variable takes a new slot, and no instruction of the frame
writes to it, since only variables that may be written are written to. A frozen variable fixes its
slot when it is declared. The instruction that gives it its value stands in front of the value, and
while the value is analysed the slot is already handed out and without a variable, so it is fixed.

## Main definitions

* `Context.Fixed`: no variable that may be written is in a slot.
* `Guards`: what the instructions of a frame do to fixed slots and to those of frozen variables.

## Main results

* `Emits.guarded`: all code that is emitted, that of closures included, leaves fixed slots alone and
  gives a frozen variable its value once.
-/

namespace Pictograph

/-! ## Fixed slots -/

namespace Context

/-- A slot was handed out, and no variable that may be written is in it. -/
def Fixed (c : Context) (slot : Nat) : Prop :=
  slot < c.slotCount ∧ ∀ v, c.environment.Holds .frame v → v.slot = slot → v.isFrozen

/-- From one context to another, slots were handed out, and what was fixed stays fixed. -/
structure Ages (c c' : Context) : Prop where
  slotCount : c.slotCount ≤ c'.slotCount
  fixed : ∀ {slot}, c.Fixed slot → c'.Fixed slot

variable {c c' c'' : Context} {slot : Nat}

/-- A slot that was handed out for later is fixed in the meantime. -/
theorem Distinct.fixed (h : c.Distinct) (hle : c.slotCount ≤ slot) {n : Nat}
    (hlt : slot < c.slotCount + n) : (c.addSlots n).Fixed slot :=
  ⟨hlt, fun v hv heq ↦ absurd (h.lt v hv) (Nat.not_lt_of_le (heq ▸ hle))⟩

namespace Ages

theorem refl (c : Context) : c.Ages c := ⟨Nat.le_refl _, id⟩

theorem trans (h : c.Ages c') (h' : c'.Ages c'') : c.Ages c'' :=
  ⟨Nat.le_trans h.slotCount h'.slotCount, fun hfixed ↦ h'.fixed (h.fixed hfixed)⟩

/-- Nothing changes if each variable in reach is one from before or in a slot that is new. -/
theorem of_holds (hle : c.slotCount ≤ c'.slotCount)
    (h : ∀ v', c'.environment.Holds .frame v' → c.slotCount ≤ v'.slot
      ∨ ∃ v, c.environment.Holds .frame v ∧ v'.slot = v.slot ∧ v'.isFrozen = v.isFrozen) :
    c.Ages c' := by
  refine ⟨hle, fun {slot} ⟨hlt, hfrozen⟩ ↦ ⟨Nat.lt_of_lt_of_le hlt hle, fun v' hv' hslot ↦ ?_⟩⟩
  rcases h v' hv' with hnew | ⟨v, hv, hvslot, hvfrozen⟩
  · exact absurd (hslot ▸ hnew) (Nat.not_le_of_lt hlt)
  · exact hvfrozen.trans (hfrozen v hv (hvslot.symm.trans hslot))

theorem of_grows (h : c.Grows c') : c.Ages c' := by
  refine .of_holds h.slotCount fun v' hv' ↦ ?_
  rcases h.environment.holds hv' with ⟨v, hv, he⟩ | ⟨-, hlo, -⟩
  · exact .inr ⟨v, hv, he.slot, he.isFrozen⟩
  · exact .inl hlo

theorem addSlots (c : Context) (n : Nat) : c.Ages (c.addSlots n) := .of_grows (.addSlots c n)

theorem enterScope (c : Context) : c.Ages c.enterScope :=
  .of_holds (Nat.le_refl _) fun v hv ↦ .inr ⟨v, Environment.holds_push.mp hv, rfl, rfl⟩

theorem leaveScope (c : Context) : c.Ages c.leaveScope :=
  .of_holds (Nat.le_refl _) fun v hv ↦ .inr ⟨v, Environment.holds_of_leave hv, rfl, rfl⟩

theorem enterBlock (c : Context) (withFields : Bool) : c.Ages (c.enterBlock withFields) := by
  refine .of_holds (Nat.le_refl _) fun v' hv' ↦ ?_
  obtain ⟨v, hv, rfl⟩ := Environment.holds_of_shift hv' (.inl rfl)
  exact .inr ⟨v, hv, v.shift_slot 1, v.shift_isFrozen 1⟩

theorem leaveBlock (c : Context) (withFields : Bool) : c.Ages (c.leaveBlock withFields) := by
  refine .of_holds (Nat.le_refl _) fun v' hv' ↦ ?_
  obtain ⟨v, hv, rfl⟩ := Environment.holds_of_shift hv' (.inl rfl)
  exact .inr ⟨v, hv, v.shift_slot (-1), v.shift_isFrozen (-1)⟩

/-- The fields are in slots of the object. -/
theorem withFields (c : Context) (fields : Option Scope) : c.Ages (c.withFields fields) :=
  .of_holds (Nat.le_refl _) fun v hv ↦ .inr ⟨v, hv, rfl, rfl⟩

end Ages

/-- A frozen variable leaves its slot fixed, and any variable the other slots. -/
theorem Fixed.declare {v : Variable} {e : Environment} (h : c.Fixed slot)
    (hd : c.environment.declare v = .ok e) (hv : v.slot = slot → v.isFrozen) :
    (c.withEnvironment e).Fixed slot := by
  refine ⟨h.1, fun v' hv' hslot ↦ ?_⟩
  rcases Environment.holds_of_declare hd hv' with hv' | ⟨-, rfl⟩
  · exact h.2 v' hv' hslot
  · exact hv hslot

end Context

/-! ## Instructions that leave fixed slots alone -/

/-- Whether an instruction gives a variable of its frame a value from an operand. -/
def Opcode.givesSlot (op : Opcode) : Bool := op == .access .frame .store || op.bindsSlot

/-- An instruction gives a variable its value. Conditions and loops do so for frozen ones. -/
structure Gives (π : Pins) (i : Instruction) (v : Variable) : Prop where
  slot : i.slot? = some v.slot
  stores : i.op = .access .frame .store → π.stores i.offset v
  binds : i.op.bindsSlot → v.isFrozen

/-- From one context to another, these instructions of a frame leave slots alone that are fixed. One
that gives a frozen variable its value does so in a new slot, which is fixed then, and no other one
writes to it. -/
structure Guards (π : Pins) (c c' : Context) (is : List Instruction) : Prop where
  ages : c.Ages c'
  writes : ∀ i ∈ is, ∀ slot, i.Writes slot → slot < c'.slotCount ∧ ¬ c.Fixed slot
  gives : ∀ i ∈ is, i.op.givesSlot → ∃ v, Gives π i v ∧ (v.isFrozen → c.slotCount ≤ v.slot
    ∧ c'.Fixed v.slot ∧ ∀ i' ∈ is, i'.Writes v.slot → i' = i)

variable {π : Pins} {c c₁ c' : Context} {is is' : List Instruction} {i : Instruction}
  {v : Variable}

theorem Instruction.Writes.eq {slot slot' : Nat} (h : i.Writes slot) (hs : i.slot? = some slot') :
    slot = slot' := Option.some.inj (h.2.symm.trans hs)

namespace Guards

theorem nil (h : c.Ages c') : Guards π c c' [] :=
  ⟨h, fun _ hi ↦ (nomatch hi), fun _ hi ↦ nomatch hi⟩

theorem append (h : Guards π c c₁ is) (h' : Guards π c₁ c' is') : Guards π c c' (is ++ is') where
  ages := h.ages.trans h'.ages
  writes i hi slot hw := by
    rcases List.mem_append.mp hi with hi | hi
    · obtain ⟨hlt, hfixed⟩ := h.writes i hi slot hw
      exact ⟨Nat.lt_of_lt_of_le hlt h'.ages.slotCount, hfixed⟩
    · obtain ⟨hlt, hfixed⟩ := h'.writes i hi slot hw
      exact ⟨hlt, fun hc ↦ hfixed (h.ages.fixed hc)⟩
  gives i hi hg := by
    rcases List.mem_append.mp hi with hi | hi
    · obtain ⟨v, hv, hfrozen⟩ := h.gives i hi hg
      refine ⟨v, hv, fun hf ↦ ?_⟩
      obtain ⟨hle, hfixed, honly⟩ := hfrozen hf
      refine ⟨hle, h'.ages.fixed hfixed, fun i' hi' hw ↦ ?_⟩
      -- what comes behind finds the slot fixed
      exact (List.mem_append.mp hi').elim (honly i' · hw)
        fun hi' ↦ absurd hfixed (h'.writes i' hi' _ hw).2
    · obtain ⟨v, hv, hfrozen⟩ := h'.gives i hi hg
      refine ⟨v, hv, fun hf ↦ ?_⟩
      obtain ⟨hle, hfixed, honly⟩ := hfrozen hf
      refine ⟨Nat.le_trans h.ages.slotCount hle, hfixed, fun i' hi' hw ↦ ?_⟩
      -- what comes before knows nothing of the slot
      exact (List.mem_append.mp hi').elim
        (fun hi' ↦ absurd (h.writes i' hi' _ hw).1 (Nat.not_lt_of_le hle)) (honly i' · hw)

theorem before (h : c.Ages c₁) (h' : Guards π c₁ c' is) : Guards π c c' is :=
  (nil h).append h'

theorem after (h : Guards π c c₁ is) (h' : c₁.Ages c') : Guards π c c' is :=
  List.append_nil is ▸ h.append (nil h')

/-- An instruction that neither writes to a variable nor gives one a value. -/
theorem silent (hw : i.op.writesSlot = false) (hg : i.op.givesSlot = false) :
    Guards π c c [i] where
  ages := .refl c
  writes j hj slot h := by
    obtain rfl := List.mem_singleton.mp hj
    cases h.1.symm.trans hw
  gives j hj h := by
    obtain rfl := List.mem_singleton.mp hj
    cases h.symm.trans hg

theorem cons_silent (h : Guards π c c' is) (hw : i.op.writesSlot = false)
    (hg : i.op.givesSlot = false) : Guards π c c' (i :: is) :=
  (silent hw hg).append h

/-- A variable that may be written is written to. -/
theorem write (hd : c.Distinct) (hv : c.environment.Holds .frame v) (hf : v.isFrozen = false)
    (hs : i.slot? = some v.slot) (hπ : i.op = .access .frame .store → π.stores i.offset v)
    (hb : i.op.bindsSlot = false) : Guards π c c [i] where
  ages := .refl c
  writes j hj slot h := by
    obtain rfl := List.mem_singleton.mp hj
    obtain rfl := h.eq hs
    exact ⟨hd.lt v hv, fun hfixed ↦ by cases hf.symm.trans (hfixed.2 v hv rfl)⟩
  gives j hj _ := by
    obtain rfl := List.mem_singleton.mp hj
    exact ⟨v, ⟨hs, hπ, fun h ↦ by cases hb.symm.trans h⟩, fun h ↦ by cases hf.symm.trans h⟩

/-- A variable is declared in a new slot, behind instructions for its value. -/
theorem introduce {n : Nat} {e : Environment} (hd : c.Distinct) (hn : 0 < n)
    (hv : v.slot = c.slotCount) (hi : Gives π i v) (h : Guards π (c.addSlots n) c₁ is)
    (he : c₁.environment.declare v = .ok e) (hages : c.Ages (c₁.withEnvironment e)) :
    Guards π c (c₁.withEnvironment e) (i :: is) := by
  have hfixed : (c.addSlots n).Fixed v.slot := by
    refine hd.fixed (Nat.le_of_eq hv.symm) ?_
    omega
  have hlt : v.slot < c₁.slotCount := Nat.lt_of_lt_of_le hfixed.1 h.ages.slotCount
  refine ⟨hages, fun j hj slot hw ↦ ?_, fun j hj hg ↦ ?_⟩
  · rcases List.mem_cons.mp hj with rfl | hj
    · obtain rfl := hw.eq hi.slot
      exact ⟨hlt, fun h ↦ Nat.ne_of_lt h.1 hv⟩
    · obtain ⟨hlt, hnot⟩ := h.writes j hj slot hw
      exact ⟨hlt, fun h ↦ hnot ((Context.Ages.addSlots c n).fixed h)⟩
  · rcases List.mem_cons.mp hj with rfl | hj
    · refine ⟨v, hi, fun hf ↦ ⟨Nat.le_of_eq hv.symm, ?_, fun j' hj' hw ↦ ?_⟩⟩
      · exact (h.ages.fixed hfixed).declare he fun _ ↦ hf
      · exact (List.mem_cons.mp hj').elim id
          fun hj' ↦ absurd hfixed (h.writes j' hj' _ hw).2
    · obtain ⟨u, hu, hfrozen⟩ := h.gives j hj hg
      refine ⟨u, hu, fun hf ↦ ?_⟩
      obtain ⟨hle, hfixed', honly⟩ := hfrozen hf
      have hne : v.slot < u.slot := Nat.lt_of_lt_of_le hfixed.1 hle
      refine ⟨by omega, hfixed'.declare he fun heq ↦ absurd heq (Nat.ne_of_lt hne),
        fun j' hj' hw ↦ ?_⟩
      rcases List.mem_cons.mp hj' with rfl | hj'
      · exact absurd (hw.eq hi.slot) (Nat.ne_of_gt hne)
      · exact honly j' hj' hw

end Guards

/-! ## Closures -/

/-- The code of the frame of a closure is guarded, from what is handed over to it. -/
def GuardedClosure (π : Pins) (f : CodeFrame) : Prop :=
  ∃ (k arguments : Nat) (c c₀ c₁ : Context), f.offset = k + 3 ∧ f.given = c₀.slotCount
    ∧ c.Distinct ∧ π.captures k arguments c ∧ c.HandsOver arguments c₀ ∧ Guards π c₀ c₁ f.own

/-- Instructions of a frame are guarded, and so is the code of closures. -/
structure Guarded (π : Pins) (c c' : Context) (is : List Instruction) (fs : List CodeFrame) :
    Prop where
  own : Guards π c c' is
  closures : ∀ f ∈ fs, GuardedClosure π f

namespace Guarded

variable {fs fs' : List CodeFrame}

theorem of_guards (h : Guards π c c' is) : Guarded π c c' is [] := ⟨h, fun _ hf ↦ nomatch hf⟩

theorem append (h : Guarded π c c₁ is fs) (h' : Guarded π c₁ c' is' fs') :
    Guarded π c c' (is ++ is') (fs ++ fs') :=
  ⟨h.own.append h'.own, fun f hf ↦ (List.mem_append.mp hf).elim (h.closures f) (h'.closures f)⟩

theorem before (h : c.Ages c₁) (h' : Guarded π c₁ c' is fs) : Guarded π c c' is fs :=
  ⟨.before h h'.own, h'.closures⟩

theorem after (h : Guarded π c c₁ is fs) (h' : c₁.Ages c') : Guarded π c c' is fs :=
  ⟨h.own.after h', h.closures⟩

theorem cons_silent (h : Guarded π c c' is fs) (hw : i.op.writesSlot = false)
    (hg : i.op.givesSlot = false) : Guarded π c c' (i :: is) fs :=
  ⟨h.own.cons_silent hw hg, h.closures⟩

theorem scope (h : Guarded π c.enterScope c' is fs) : Guarded π c c'.leaveScope is fs :=
  .before (.enterScope c) (h.after (.leaveScope c'))

theorem block {withFields : Bool} (h : Guarded π (c.enterBlock withFields) c' is fs) :
    Guarded π c (c'.leaveBlock withFields) is fs :=
  .before (.enterBlock c withFields) (h.after (.leaveBlock c' withFields))

/-- A branch has a scope around its condition and its block. -/
theorem branch {withFields : Bool} (h : Guarded π c.enterScope c₁ is fs)
    (h' : Guarded π (c₁.enterBlock withFields) c' is' fs') :
    Guarded π c (c'.leaveBlock withFields).leaveScope (is ++ is') (fs ++ fs') :=
  .scope (h.append h'.block)

/-- An outline of one item. -/
theorem singleton {item : Item} {k : Nat} (h : Guarded π c c' (item.own k) (item.closures k)) :
    Guarded π c c' (Outline.own [item] k) (Outline.closures [item] k) := by
  rwa [Outline.own_singleton, Outline.closures_singleton]

end Guarded

/-! ## All code -/

/-- The instructions of a piece of code that run in its own frame. -/
def Part.own (k : Nat) : Part → List Instruction
  | .code o | .chain o _ _ => Outline.own o k

/-- A piece of code is guarded. -/
def Part.Guarded (π : Pins) (k : Nat) (c c' : Context) (part : Part) : Prop :=
  Pictograph.Guarded π c c' (part.own k) (part.closures k)

theorem Opcode.isSilent_of_isOrdinary {op : Opcode} (h : op.isOrdinary) :
    op.writesSlot = false ∧ op.givesSlot = false := by
  cases op <;> first | exact ⟨rfl, rfl⟩ | cases h

/-- The first word of an instruction is a slot if slots of that size are handed out. -/
theorem Instruction.slot?_eq {Γ : Setting} {slot : Nat} (h : slot < Γ.slotBound) (k : Nat)
    (op : Opcode) (words : List UInt32) :
    Instruction.slot? ⟨k, op, UInt32.ofNat slot :: words⟩ = some slot := by
  have hcount : slot < Slot.count := Nat.lt_of_lt_of_le h (Nat.min_le_right _ _)
  exact congrArg some (UInt32.toNat_ofNat_of_lt' (Nat.lt_trans hcount (by decide)))

theorem Variable.isFrozen_of_mutate {mutated : Variable} {span : Span}
    (h : v.mutate span = .ok mutated) : v.isFrozen = false := by
  unfold mutate at h
  split at h
  · cases h
  · next hf => exact eq_false_of_ne_true hf

/-- An instruction for a variable, with the code of its value. -/
theorem Part.own_plain (op : Opcode) (words : List UInt32) (o : Outline) (k : Nat) :
    Part.own k (.code [.plain op words o])
      = ⟨k, op, words⟩ :: Outline.own o (k + 1 + words.length) := by
  rw [Part.own, Outline.own_singleton, Item.own_instruction]
  rfl

theorem Part.closures_plain (op : Opcode) (words : List UInt32) (o : Outline) (k : Nat) :
    Part.closures k (.code [.plain op words o]) = Outline.closures o (k + 1 + words.length) := by
  rw [Part.closures, Outline.closures_singleton]
  rfl

/-- An instruction that has nothing to do with variables, with an operand. -/
theorem Part.Guarded.plain {k : Nat} {op : Opcode} {words : List UInt32} {o : Outline}
    (h : Part.Guarded π (k + 1 + words.length) c c' (.code o))
    (hw : op.writesSlot = false) (hg : op.givesSlot = false) :
    Part.Guarded π k c c' (.code [.plain op words o]) := by
  rw [Part.Guarded, Part.own_plain, Part.closures_plain]
  exact h.cons_silent hw hg

/-- A variable that may be written is written to, by an instruction with an operand. -/
theorem Part.Guarded.write {k : Nat} {x : String} {st : Storage} {action : Access} {o : Outline}
    {mutated : Variable} {span : Span} {Γ : Setting} (hc : c.Placed Γ.slotBound)
    (hx : c.environment.resolve? x = some (st, v)) (hm : v.mutate span = .ok mutated)
    (hπ : action = .store → π.stores k v)
    (h : Part.Guarded π (k + 2) (c.withEnvironment (c.environment.update x fun _ ↦ mutated)) c'
      (.code o)) :
    Part.Guarded π k c c' (.code [.plain (.access st action) [UInt32.ofNat v.slot] o]) := by
  have hages : c.Ages (c.withEnvironment (c.environment.update x fun _ ↦ mutated)) :=
    .of_grows (.mutate hx hm)
  rw [Part.Guarded, Part.own_plain, Part.closures_plain]
  cases st with
  | object => exact Guarded.cons_silent (.before hages h) rfl rfl
  | frame =>
    have hv := Environment.holds_of_resolve? hx
    have hwrite : Guards π c c [⟨k, .access .frame action, [UInt32.ofNat v.slot]⟩] := by
      refine .write hc.distinct hv (Variable.isFrozen_of_mutate hm) ?_ (fun hop ↦ hπ ?_) rfl
      · exact Instruction.slot?_eq (hc.below v hv) k _ []
      · cases hop
        rfl
    exact (Guarded.of_guards hwrite).append (.before hages h)

/-- **All code that is emitted is guarded**, that of closures included. -/
theorem Emits.guarded {Γ : Setting} {part : Part} {k : Nat} (h : Emits π Γ part k c c')
    (hc : c.Placed Γ.slotBound) : part.Guarded π k c c' := by
  induction h with
  | nil | chainEnd => exact Guarded.of_guards (.nil (.refl _))
  | append h₁ _ ih₁ ih₂ =>
    rw [Part.Guarded, Part.own, Outline.own_append, Part.closures, Outline.closures_append]
    exact (ih₁ hc).append (ih₂ (h₁.placed hc))
  | ordinary hop h₁ _ ih₁ ih₂ =>
    refine Guarded.singleton ?_
    rw [Item.own_instruction]
    obtain ⟨hw, hg⟩ := Opcode.isSilent_of_isOrdinary hop
    exact ((ih₁ hc).append (ih₂ (h₁.placed hc))).cons_silent hw hg
  | @load Γ k c x st v =>
    refine .plain (Guarded.of_guards (.nil (.refl _))) ?_ ?_ <;> cases st <;> rfl
  | step hx _ hm _ ha =>
    refine .write hc hx hm (fun hstore ↦ ?_) (Guarded.of_guards (.nil (.refl _)))
    rcases ha with rfl | rfl <;> cases hstore
  | declare hs _ hr _ hd =>
    refine Guarded.of_guards (.nil (.of_grows ?_))
    exact (Context.Grows.refl _).declareFirst hd hs hr
  | introduce hop hs hl hr hf hπ h₁ hd ih =>
    rw [Part.Guarded, Part.own_plain, Part.closures_plain]
    have ho := ih (hc.addSlots 1)
    have hg := h₁.grows.declareFirst hd hs (by omega)
    refine ⟨ho.own.introduce hc.distinct Nat.one_pos hs ⟨?_, hπ, ?_⟩ hd (.of_grows hg),
      ho.closures⟩
    · exact Instruction.slot?_eq hl _ _ []
    · rcases hop with rfl | rfl
      · exact fun h ↦ by cases h
      · exact fun _ ↦ hf rfl
  | assign hx hm hπ _ _ ih =>
    refine .write hc hx hm (fun _ ↦ hπ) (Guarded.after (ih (hc.mutate hx hm)) (.of_grows ?_))
    exact .withEnvironment (Environment.grows_update fun _ v _ ↦ .settle v)
  | selfReference => exact .plain (Guarded.of_guards (.nil (.refl _))) rfl rfl
  | superInitializer _ _ _ _ ih | returning _ _ ih =>
    exact .plain (Guarded.after (ih hc)
      (.of_holds (Nat.le_refl _) fun v hv ↦ .inr ⟨v, hv, rfl, rfl⟩)) rfl rfl
  | @ifChain Γ k c c₁ c₂ c₃ reports isTotal condition body rest h₁ h₂ _ ih₁ ih₂ ih₃ =>
    refine Guarded.singleton ?_
    rw [Item.own_ifChain]
    have hbranch := (ih₁ hc.enterScope).branch (ih₂ ((h₁.placed hc.enterScope).enterBlock _))
    have hchain := (hbranch.append (ih₃ (h₁.placed_branch h₂ hc))).cons_silent
      (i := ⟨k, .ifChain, []⟩) rfl rfl
    cases isTotal with
    | false => exact hchain
    | true => exact hchain.after (.of_grows (.settleEach _ _))
  | otherwise _ ih =>
    refine Guarded.singleton ?_
    rw [Item.own_otherwise]
    exact (Guarded.scope (.block (ih (hc.enterScope.enterBlock _)))).cons_silent rfl rfl
  | elseIf h₁ h₂ _ ih₁ ih₂ ih₃ =>
    refine Guarded.singleton ?_
    rw [Item.own_elseIf]
    have hbranch := (ih₁ hc.enterScope).branch (ih₂ ((h₁.placed hc.enterScope).enterBlock _))
    exact (hbranch.append (ih₃ (h₁.placed_branch h₂ hc))).cons_silent rfl rfl
  | repeatWhile h₁ _ ih₁ ih₂ =>
    refine Guarded.singleton ?_
    rw [Item.own_repeatWhile]
    have hblock := Guarded.block (ih₂ ((h₁.placed hc).enterScope.enterBlock _))
    exact ((ih₁ hc).append hblock.scope).cons_silent rfl rfl
  | @forIn Γ k c c₁ c₂ v e overList iteratee body hs hl hr hf h₁ hd _ ih₁ ih₂ =>
    refine Guarded.singleton ?_
    rw [Item.own_forIn]
    have ho := ih₁ (hc.enterScope.addSlots 2)
    have hgives : Gives π ⟨k, .forIn overList, [UInt32.ofNat v.slot, UInt32.ofNat (v.slot + 1)]⟩
        v :=
      ⟨Instruction.slot?_eq (Nat.lt_of_succ_lt hl) _ _ _, fun h ↦ (by cases h), fun _ ↦ hf⟩
    have hi := ho.own.introduce hc.distinct.enterScope Nat.two_pos hs hgives hd
      (.of_grows (h₁.grows_loop hs hr hd))
    have hloop : Pictograph.Guarded π c.enterScope _ _ _ := ⟨hi, ho.closures⟩
    exact hloop.branch (ih₂ ((h₁.placed_loop hs hl hr hd hc).enterBlock _))
  | closure _ _ hc₀ _ _ hf₀ hΓ hb₀ he hπ _ ih =>
    refine Guarded.singleton ?_
    rw [Item.own_closure]
    have hstart := hc₀ hc.distinct
    rw [hΓ] at ih
    have hbody := ih ⟨hstart.distinct (hf₀ ▸ hc.distinct.object), hb₀⟩
    refine ⟨(Guards.silent rfl rfl).after (.withFields _ _), fun f hf ↦ ?_⟩
    rcases List.mem_cons.mp hf with rfl | hf
    · exact ⟨_, _, _, _, _, rfl, hstart.slotCount.symm, hc.distinct, hπ, he hc.distinct,
        hbody.own⟩
    · exact hbody.closures f hf

end Pictograph
