import Pictograph.Proofs.Code.Run

/-!
# The instructions of a frame

An instruction runs in the frame of the innermost closure around it, or in that of the body if there
is none. The instructions of an outline are so divided among its own frame and those of the closures
in it.

## Main definitions

* `Outline.own`: the instructions of an outline that run in its own frame.
* `Instruction.Writes`: an instruction writes to a slot of its frame.

## Main results

* `Outline.mem_own_or_closures`: every instruction runs in one of the frames.
-/

namespace Pictograph

/-! ## Instructions of its own -/

/-- The instructions that are not inside a closure. -/
def ownInstructions (ls : List Located) : List Instruction :=
  (ls.filter (!·.inClosure)).map (·.toInstruction)

@[simp] theorem ownInstructions_nil : ownInstructions [] = [] := rfl

@[simp] theorem ownInstructions_append (ls ls' : List Located) :
    ownInstructions (ls ++ ls') = ownInstructions ls ++ ownInstructions ls' := by
  rw [ownInstructions, List.filter_append, List.map_append, ownInstructions, ownInstructions]

@[simp] theorem ownInstructions_outermost (i : Instruction) (ls : List Located) :
    ownInstructions (.outermost i :: ls) = i :: ownInstructions ls := rfl

/-- Surroundings other than closures make no difference. -/
theorem ownInstructions_map {f : Located → Located}
    (hf : ∀ l, (f l).inClosure = l.inClosure ∧ (f l).toInstruction = l.toInstruction)
    (ls : List Located) : ownInstructions (ls.map f) = ownInstructions ls := by
  induction ls with
  | nil => rfl
  | cons l ls ih =>
    rw [List.map_cons, ownInstructions, ownInstructions, List.filter_cons, List.filter_cons,
      (hf l).1]
    split
    · rw [List.map_cons, List.map_cons, (hf l).2]
      exact congrArg _ ih
    · exact ih

@[simp] theorem ownInstructions_enterBlock (ls : List Located) :
    ownInstructions (ls.map (·.enterBlock)) = ownInstructions ls :=
  ownInstructions_map (f := Located.enterBlock) (fun _ ↦ ⟨rfl, rfl⟩) ls

@[simp] theorem ownInstructions_enterCondition (ls : List Located) :
    ownInstructions (ls.map (·.enterCondition)) = ownInstructions ls :=
  ownInstructions_map (f := Located.enterCondition) (fun _ ↦ ⟨rfl, rfl⟩) ls

@[simp] theorem ownInstructions_enterOperand (op : Opcode) (ls : List Located) :
    ownInstructions (ls.map (·.enterOperand op)) = ownInstructions ls :=
  ownInstructions_map (f := Located.enterOperand op) (fun _ ↦ ⟨rfl, rfl⟩) ls

/-- What is inside a closure is left out. -/
@[simp] theorem ownInstructions_enterClosure (ls : List Located) :
    ownInstructions (ls.map (·.enterClosure)) = [] := by
  induction ls with
  | nil => rfl
  | cons l ls ih => exact ih

/-- The instructions of an item that run in its own frame. -/
def Item.own (item : Item) (k : Nat) : List Instruction := ownInstructions (item.survey k)

/-- The instructions of an outline that run in its own frame. -/
def Outline.own (o : Outline) (k : Nat) : List Instruction := ownInstructions (survey o k)

namespace Outline

@[simp] theorem own_nil (k : Nat) : own [] k = [] := rfl

theorem own_cons (item : Item) (o : Outline) (k : Nat) :
    own (item :: o) k = item.own k ++ own o (k + item.size) := by
  rw [own, survey_cons, ownInstructions_append, Item.own, own]

@[simp] theorem own_append (o o' : Outline) (k : Nat) :
    own (o ++ o') k = own o k ++ own o' (k + size o) := by
  rw [own, survey_append, ownInstructions_append, own, own]

@[simp] theorem own_singleton (item : Item) (k : Nat) : own [item] k = item.own k := by
  rw [own, survey_singleton, Item.own]

end Outline

namespace Item

variable (condition body rest : Outline) (k : Nat)

theorem own_instruction (op : Opcode) (counted : Counted) (receiver : Outline)
    (words : List UInt32) (operands : Outline) :
    (instruction op counted receiver words operands).own k = ⟨k, op, words⟩
      :: (Outline.own receiver (k + 1 + counted.size) ++ Outline.own operands
        (k + 1 + counted.size + Outline.size receiver + words.length)) := by
  rw [own, survey, ownInstructions_outermost, ownInstructions_enterOperand,
    ownInstructions_append, Outline.own, Outline.own]

theorem own_ifChain :
    (ifChain condition body rest).own k = ⟨k, .ifChain, []⟩ :: (Outline.own condition (k + 2)
      ++ Outline.own body (k + 3 + Outline.size condition)
      ++ Outline.own rest (k + 3 + Outline.size condition + Outline.size body)) := by
  rw [own, survey, ownInstructions_outermost, ownInstructions_append, ownInstructions_append,
    ownInstructions_enterBlock, Outline.own, Outline.own, Outline.own]

theorem own_elseIf :
    (elseIf condition body rest).own k = ⟨k, .elseIfBranch, []⟩ :: (Outline.own condition (k + 1)
      ++ Outline.own body (k + 2 + Outline.size condition)
      ++ Outline.own rest (k + 2 + Outline.size condition + Outline.size body)) := by
  rw [own, survey, ownInstructions_outermost, ownInstructions_append, ownInstructions_append,
    ownInstructions_enterCondition, ownInstructions_enterBlock, Outline.own, Outline.own,
    Outline.own]

theorem own_otherwise :
    (otherwise body).own k = ⟨k, .elseBranch, []⟩ :: Outline.own body (k + 2) := by
  rw [own, survey, ownInstructions_outermost, ownInstructions_enterBlock, Outline.own]

theorem own_repeatWhile :
    (repeatWhile condition body).own k = ⟨k, .repeatWhile, []⟩
      :: (Outline.own condition (k + 1)
        ++ Outline.own body (k + 2 + Outline.size condition)) := by
  rw [own, survey, ownInstructions_outermost, ownInstructions_append,
    ownInstructions_enterCondition, ownInstructions_enterBlock, Outline.own, Outline.own]

theorem own_forIn (overList : Bool) (slot hidden : Nat) :
    (forIn overList slot hidden condition body).own k
      = ⟨k, .forIn overList, [UInt32.ofNat slot, UInt32.ofNat hidden]⟩
        :: (Outline.own condition (k + 3)
          ++ Outline.own body (k + 4 + Outline.size condition)) := by
  rw [own, survey, ownInstructions_outermost, ownInstructions_append, ownInstructions_enterBlock,
    Outline.own, Outline.own]

theorem own_closure (slots arguments captured : Nat) (usesSelf : Bool) :
    (closure slots body arguments usesSelf captured).own k
      = [⟨k, .closure, [UInt32.ofNat slots]⟩] := by
  rw [own, survey, ownInstructions_outermost, ownInstructions_enterClosure]

end Item

/-- The instructions that run in a frame. -/
def CodeFrame.own (f : CodeFrame) : List Instruction := Outline.own f.code f.offset

/-! ## All frames -/

/-- An instruction runs in the frame with some instructions or in one of the others. -/
def RunsIn (own : List Instruction) (closures : List CodeFrame) (i : Instruction) : Prop :=
  i ∈ own ∨ ∃ f ∈ closures, i ∈ f.own

namespace RunsIn

variable {own own' : List Instruction} {closures closures' : List CodeFrame} {i : Instruction}

theorem left (h : RunsIn own closures i) : RunsIn (own ++ own') (closures ++ closures') i :=
  h.imp (List.mem_append_left _) fun ⟨f, hf, hi⟩ ↦ ⟨f, List.mem_append_left _ hf, hi⟩

theorem right (h : RunsIn own' closures' i) : RunsIn (own ++ own') (closures ++ closures') i :=
  h.imp (List.mem_append_right _) fun ⟨f, hf, hi⟩ ↦ ⟨f, List.mem_append_right _ hf, hi⟩

theorem behind (j : Instruction) (h : RunsIn own closures i) : RunsIn (j :: own) closures i :=
  h.imp_left (List.mem_cons_of_mem _)

end RunsIn

mutual

theorem Item.mem_own_or_closures (item : Item) {k : Nat} {l : Located} (hl : l ∈ item.survey k) :
    RunsIn (item.own k) (item.closures k) l.toInstruction := by
  cases item with
  | instruction op counted receiver words operands =>
    rw [Item.own_instruction, Item.closures]
    rcases List.mem_cons.mp hl with rfl | hl
    · exact .inl List.mem_cons_self
    obtain ⟨l, hm, rfl⟩ := List.mem_map.mp hl
    refine .behind _ ((List.mem_append.mp hm).elim (fun hl ↦ .left ?_) fun hl ↦ .right ?_)
    · exact Outline.mem_own_or_closures receiver (l := l) hl
    · exact Outline.mem_own_or_closures operands (l := l) hl
  | ifChain condition body rest =>
    rw [Item.own_ifChain, Item.closures]
    rcases List.mem_cons.mp hl with rfl | hl
    · exact .inl List.mem_cons_self
    refine .behind _ ?_
    rcases List.mem_append.mp hl with hl | hl
    · rcases List.mem_append.mp hl with hl | hl
      · exact .left (.left (Outline.mem_own_or_closures condition hl))
      · obtain ⟨l, hm, rfl⟩ := List.mem_map.mp hl
        exact .left (.right (Outline.mem_own_or_closures body (l := l) hm))
    · exact .right (Outline.mem_own_or_closures rest hl)
  | elseIf condition body rest =>
    rw [Item.own_elseIf, Item.closures]
    rcases List.mem_cons.mp hl with rfl | hl
    · exact .inl List.mem_cons_self
    refine .behind _ ?_
    rcases List.mem_append.mp hl with hl | hl
    · rcases List.mem_append.mp hl with hl | hl
      · obtain ⟨l, hm, rfl⟩ := List.mem_map.mp hl
        exact .left (.left (Outline.mem_own_or_closures condition (l := l) hm))
      · obtain ⟨l, hm, rfl⟩ := List.mem_map.mp hl
        exact .left (.right (Outline.mem_own_or_closures body (l := l) hm))
    · exact .right (Outline.mem_own_or_closures rest hl)
  | otherwise body =>
    rw [Item.own_otherwise, Item.closures]
    rcases List.mem_cons.mp hl with rfl | hl
    · exact .inl List.mem_cons_self
    obtain ⟨l, hm, rfl⟩ := List.mem_map.mp hl
    exact .behind _ (Outline.mem_own_or_closures body (l := l) hm)
  | repeatWhile condition body =>
    rw [Item.own_repeatWhile, Item.closures]
    rcases List.mem_cons.mp hl with rfl | hl
    · exact .inl List.mem_cons_self
    refine .behind _ ((List.mem_append.mp hl).elim (fun hl ↦ .left ?_) fun hl ↦ .right ?_)
    · obtain ⟨l, hm, rfl⟩ := List.mem_map.mp hl
      exact Outline.mem_own_or_closures condition (l := l) hm
    · obtain ⟨l, hm, rfl⟩ := List.mem_map.mp hl
      exact Outline.mem_own_or_closures body (l := l) hm
  | forIn overList slot hidden iteratee body =>
    rw [Item.own_forIn, Item.closures]
    rcases List.mem_cons.mp hl with rfl | hl
    · exact .inl List.mem_cons_self
    refine .behind _ ((List.mem_append.mp hl).elim (fun hl ↦ .left ?_) fun hl ↦ .right ?_)
    · exact Outline.mem_own_or_closures iteratee hl
    · obtain ⟨l, hm, rfl⟩ := List.mem_map.mp hl
      exact Outline.mem_own_or_closures body (l := l) hm
  | closure slots body arguments usesSelf captured =>
    rw [Item.own_closure, Item.closures]
    rcases List.mem_cons.mp hl with rfl | hl
    · exact .inl List.mem_cons_self
    -- the instructions of the closure run in its frame or in one further inside
    obtain ⟨l, hm, rfl⟩ := List.mem_map.mp hl
    rcases Outline.mem_own_or_closures body (l := l) hm with hi | ⟨f, hf, hi⟩
    · exact .inr ⟨_, List.mem_cons_self, hi⟩
    · exact .inr ⟨f, List.mem_cons_of_mem _ hf, hi⟩

/-- **Every instruction runs in one of the frames**, that of the outline or that of a closure. -/
theorem Outline.mem_own_or_closures (o : List Item) {k : Nat} {l : Located}
    (hl : l ∈ Outline.survey o k) :
    RunsIn (Outline.own o k) (Outline.closures o k) l.toInstruction := by
  cases o with
  | nil => cases hl
  | cons item rest =>
    rw [Outline.own_cons, Outline.closures]
    rcases List.mem_append.mp hl with hl | hl
    · exact .left (item.mem_own_or_closures hl)
    · exact .right (Outline.mem_own_or_closures rest hl)

end

/-! ## Slots -/

/-- Whether an instruction writes to a variable of its frame. -/
def Opcode.writesSlot : Opcode → Bool
  | access .frame action => action != .load
  | _ => false

/-- Whether an instruction binds a variable of its frame to values. -/
def Opcode.bindsSlot : Opcode → Bool
  | conditionalBind | forIn _ => true
  | _ => false

theorem Opcode.not_writesSlot_of_bindsSlot {op : Opcode} (h : op.bindsSlot) :
    op.writesSlot = false := by
  cases op <;> first | rfl | cases h

/-- The number in the first immediate word of an instruction, which is the slot of a variable if it
has to do with one. -/
def Instruction.slot? (i : Instruction) : Option Nat := i.words.head?.map (·.toNat)

/-- An instruction writes to a slot of its frame. -/
def Instruction.Writes (i : Instruction) (slot : Nat) : Prop :=
  i.op.writesSlot ∧ i.slot? = some slot

end Pictograph
