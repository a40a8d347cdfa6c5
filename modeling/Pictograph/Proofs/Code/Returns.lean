import Pictograph.Proofs.Code.Run

/-!
# Returns in code

A return ends its frame, so it has to be a statement: an item of the body or of a block, and no part
of an operand. Whether a frame is sure to pass a return shows in its code, since a return that
stands in the body itself is outside all branches and loops.

An analysis does not see the whole code. It keeps a flag that a return raises and that the end of a
block lowers, and it asks for the flag at the end of the body. `Outline.returned` is the flag as a
function of the code, and `Outline.returned_iff` says what the flag stands for.

## Main definitions

* `Item.isReturn`, `Outline.WithoutReturn`: which items of an outline are returns.
* `Outline.statements`: the items of a body and of the blocks in it.
* `Outline.returned`: the flag behind some code.
* `Outline.ReturnsProperly`: returns are statements, and closures return what their types ask for.

## Main results

* `Outline.returned_iff`: the flag is up behind a return that no block follows.
* `Outline.ownReturns`: a return is a statement of its frame.
* `Outline.exists_return_of_runs`: a return in the body itself is passed in every run.
-/

namespace Pictograph

/-! ## Items that return -/

/-- Whether an item is a return with its value. -/
def Item.isReturn : Item → Bool
  | .instruction op _ _ _ _ => op == .returning
  | _ => false

/-- None of the items is a return. There may be returns in the blocks inside them. -/
def Outline.WithoutReturn (o : Outline) : Prop := ∀ item ∈ o, item.isReturn = false

namespace Outline.WithoutReturn

variable {o o' : Outline} {item : Item}

theorem nil : WithoutReturn [] := fun _ h ↦ nomatch h

theorem single (h : item.isReturn = false) : WithoutReturn [item] := by
  intro item' hm
  obtain rfl := List.mem_singleton.mp hm
  exact h

theorem append (h : WithoutReturn o) (h' : WithoutReturn o') : WithoutReturn (o ++ o') :=
  fun item hm ↦ (List.mem_append.mp hm).elim (h item) (h' item)

theorem head (h : WithoutReturn (item :: o)) : item.isReturn = false := h item List.mem_cons_self

theorem tail (h : WithoutReturn (item :: o)) : WithoutReturn o :=
  fun item' hm ↦ h item' (List.mem_cons_of_mem _ hm)

end Outline.WithoutReturn

/-! ## Returns among the instructions of a frame -/

/-- Something holds of the offset of every return, returns in closures left out. -/
def OwnReturns (P : Nat → Prop) (ls : List Located) : Prop :=
  ∀ l ∈ ls, l.op = .returning → l.inClosure = false → P l.offset

namespace OwnReturns

variable {P P' : Nat → Prop} {ls ls' : List Located}

theorem nil : OwnReturns P [] := fun _ h ↦ nomatch h

theorem cons {i : Instruction} (hi : i.op = .returning → P i.offset) (h : OwnReturns P ls) :
    OwnReturns P (.outermost i :: ls) := by
  intro l hl hop hc
  rcases List.mem_cons.mp hl with rfl | hl
  · exact hi hop
  · exact h l hl hop hc

theorem append (h : OwnReturns P ls) (h' : OwnReturns P ls') : OwnReturns P (ls ++ ls') :=
  fun l hl ↦ (List.mem_append.mp hl).elim (h l) (h' l)

theorem mono (h : OwnReturns P ls) (hP : ∀ k, P k → P' k) : OwnReturns P' ls :=
  fun l hl hop hc ↦ hP _ (h l hl hop hc)

/-- Other surroundings than a closure do not matter. -/
theorem map {f : Located → Located} (h : OwnReturns P ls)
    (hf : ∀ l, (f l).toInstruction = l.toInstruction ∧ (f l).inClosure = l.inClosure) :
    OwnReturns P (ls.map f) := by
  intro l hl hop hc
  obtain ⟨l', hl', rfl⟩ := List.mem_map.mp hl
  obtain ⟨hi, hcl⟩ := hf l'
  rw [hcl] at hc
  rw [hi] at hop ⊢
  exact h l' hl' hop hc

theorem enterBlock (h : OwnReturns P ls) : OwnReturns P (ls.map (·.enterBlock)) :=
  h.map (f := Located.enterBlock) fun _ ↦ ⟨rfl, rfl⟩

theorem enterCondition (h : OwnReturns P ls) : OwnReturns P (ls.map (·.enterCondition)) :=
  h.map (f := Located.enterCondition) fun _ ↦ ⟨rfl, rfl⟩

theorem enterOperand (op : Opcode) (h : OwnReturns P ls) :
    OwnReturns P (ls.map (·.enterOperand op)) :=
  h.map (f := Located.enterOperand op) fun _ ↦ ⟨rfl, rfl⟩

/-- The returns in a closure are not those of the frame around it. -/
theorem closure (ls : List Located) : OwnReturns P (ls.map (·.enterClosure)) := by
  intro l hl _ hc
  obtain ⟨l', -, rfl⟩ := List.mem_map.mp hl
  cases hc

end OwnReturns

/-! ## Statements -/

/-- There is a statement at an offset, given the statements with their offsets. -/
def IsStatement (statements : List (Nat × Item)) (k : Nat) : Prop :=
  ∃ item, (k, item) ∈ statements

namespace OwnReturns

variable {ls ls' : List Located} {ss ss' : List (Nat × Item)}

theorem statements (h : OwnReturns (IsStatement ss) ls)
    (h' : OwnReturns (IsStatement ss') ls') :
    OwnReturns (IsStatement (ss ++ ss')) (ls ++ ls') :=
  (h.mono fun _ ⟨item, hi⟩ ↦ ⟨item, List.mem_append_left _ hi⟩).append
    (h'.mono fun _ ⟨item, hi⟩ ↦ ⟨item, List.mem_append_right _ hi⟩)

end OwnReturns

mutual

/-- The statements in the blocks of an item that starts at an offset, with their own offsets. -/
def Item.statements : Item → Nat → List (Nat × Item)
  | .instruction _ counted receiver words operands, k =>
    Outline.nested receiver (k + 1 + counted.size)
      ++ Outline.nested operands
        (k + 1 + counted.size + Outline.size receiver + words.length)
  | .ifChain condition body rest, k =>
    Outline.nested condition (k + 2)
      ++ Outline.statements body (k + 3 + Outline.size condition)
      ++ Outline.nested rest (k + 3 + Outline.size condition + Outline.size body)
  | .elseIf condition body rest, k =>
    Outline.nested condition (k + 1)
      ++ Outline.statements body (k + 2 + Outline.size condition)
      ++ Outline.nested rest (k + 2 + Outline.size condition + Outline.size body)
  | .otherwise body, k => Outline.statements body (k + 2)
  | .repeatWhile condition body, k =>
    Outline.nested condition (k + 1) ++ Outline.statements body (k + 2 + Outline.size condition)
  | .forIn _ _ _ iteratee body, k =>
    Outline.nested iteratee (k + 3) ++ Outline.statements body (k + 4 + Outline.size iteratee)
  | .closure .., _ => []

/-- The statements in the blocks of some items. -/
def Outline.nested : List Item → Nat → List (Nat × Item)
  | [], _ => []
  | item :: rest, k => item.statements k ++ Outline.nested rest (k + item.size)

/-- The statements of a body or a block, each followed by those in the blocks inside it. -/
def Outline.statements : List Item → Nat → List (Nat × Item)
  | [], _ => []
  | item :: rest, k => (k, item) :: (item.statements k ++ Outline.statements rest (k + item.size))

end

/-! ## The flag -/

mutual

/-- Whether there is a branch or a loop in an item, closures left out. -/
def Item.branches : Item → Bool
  | .instruction _ _ receiver _ operands => Outline.branches receiver || Outline.branches operands
  | .closure .. => false
  | _ => true

/-- Whether there is a branch or a loop in an outline, closures left out. -/
def Outline.branches : List Item → Bool
  | [] => false
  | item :: rest => item.branches || Outline.branches rest

end

mutual

/-- The flag behind an item, given the flag in front of it: a return raises it, the end of a block
lowers it. -/
def Item.returned : Item → Bool → Bool
  | .instruction op _ receiver _ operands, b =>
    op == .returning || Outline.returned operands (Outline.returned receiver b)
  | .closure .., b => b
  | _, _ => false

/-- The flag behind an outline, given the flag in front of it. -/
def Outline.returned : List Item → Bool → Bool
  | [], b => b
  | item :: rest, b => Outline.returned rest (item.returned b)

end

theorem Item.returned_of_isReturn {item : Item} (h : item.isReturn) (b : Bool) :
    item.returned b := by
  cases item with
  | instruction op counted receiver words operands => exact Bool.or_eq_true_iff.mpr (.inl h)
  | _ => cases h

@[simp] theorem Outline.returned_append (o o' : Outline) (b : Bool) :
    returned (o ++ o') b = returned o' (returned o b) := by
  induction o generalizing b with
  | nil => rfl
  | cons item o ih => exact ih _

@[simp] theorem Outline.returned_singleton (item : Item) (b : Bool) :
    returned [item] b = item.returned b := rfl

/-! ## Proper returns -/

/-- The code of a frame returns as its return type asks: nothing is returned, or one of the items of
the body is a return. -/
structure Outline.ReturnsAs (t : Ty) (o : Outline) (k : Nat) : Prop where
  silent : t.isNothingness → OwnReturns (fun _ ↦ False) (Outline.survey o k)
  certain : t.isNothingness = false → ∃ item ∈ o, item.isReturn

section

variable (returns : Nat → Ty → Prop)

mutual

/-- In an item that starts at an offset no operand is a return, and closures return as their return
types ask, given the return types of the closures at offsets. -/
def Item.ReturnsProperly : Item → Nat → Prop
  | .instruction _ counted receiver words operands, k =>
    Outline.WithoutReturn receiver ∧ Outline.WithoutReturn operands
      ∧ Outline.ReturnsProperly receiver (k + 1 + counted.size)
      ∧ Outline.ReturnsProperly operands
        (k + 1 + counted.size + Outline.size receiver + words.length)
  | .ifChain condition body rest, k =>
    Outline.WithoutReturn condition ∧ Outline.WithoutReturn rest
      ∧ Outline.ReturnsProperly condition (k + 2)
      ∧ Outline.ReturnsProperly body (k + 3 + Outline.size condition)
      ∧ Outline.ReturnsProperly rest (k + 3 + Outline.size condition + Outline.size body)
  | .elseIf condition body rest, k =>
    Outline.WithoutReturn condition ∧ Outline.WithoutReturn rest
      ∧ Outline.ReturnsProperly condition (k + 1)
      ∧ Outline.ReturnsProperly body (k + 2 + Outline.size condition)
      ∧ Outline.ReturnsProperly rest (k + 2 + Outline.size condition + Outline.size body)
  | .otherwise body, k => Outline.ReturnsProperly body (k + 2)
  | .repeatWhile condition body, k =>
    Outline.WithoutReturn condition ∧ Outline.ReturnsProperly condition (k + 1)
      ∧ Outline.ReturnsProperly body (k + 2 + Outline.size condition)
  | .forIn _ _ _ iteratee body, k =>
    Outline.WithoutReturn iteratee ∧ Outline.ReturnsProperly iteratee (k + 3)
      ∧ Outline.ReturnsProperly body (k + 4 + Outline.size iteratee)
  | .closure _ body _ _ _, k =>
    (∃ t, returns k t ∧ Outline.ReturnsAs t body (k + 3)) ∧ Outline.ReturnsProperly body (k + 3)

/-- In an outline that starts at an offset no operand is a return, and closures return as their
return types ask. -/
def Outline.ReturnsProperly : List Item → Nat → Prop
  | [], _ => True
  | item :: rest, k => item.ReturnsProperly k ∧ Outline.ReturnsProperly rest (k + item.size)

end

end

section

variable {returns : Nat → Ty → Prop}

theorem Outline.ReturnsProperly.append {o o' : Outline} {k : Nat}
    (h : Outline.ReturnsProperly returns o k)
    (h' : Outline.ReturnsProperly returns o' (k + Outline.size o)) :
    Outline.ReturnsProperly returns (o ++ o') k := by
  induction o generalizing k with
  | nil => exact h'
  | cons item o ih =>
    rw [Outline.size_cons, ← Nat.add_assoc] at h'
    exact ⟨h.1, ih h.2 h'⟩

theorem Outline.returnsProperly_singleton {item : Item} {k : Nat} :
    Outline.ReturnsProperly returns [item] k ↔ item.ReturnsProperly returns k :=
  iff_of_eq (and_true _)

/-! ### Returns are statements -/

mutual

/-- A return in an item is the item, or a statement in one of its blocks. -/
theorem Item.ownReturns (item : Item) {k : Nat} (h : item.ReturnsProperly returns k) :
    OwnReturns (fun k' ↦ k' = k ∧ item.isReturn ∨ IsStatement (item.statements k) k')
      (item.survey k) := by
  cases item with
  | instruction op counted receiver words operands =>
    obtain ⟨hr, ho, pr, po⟩ := h
    have h := (Outline.ownReturns_nested receiver hr pr).statements
      (Outline.ownReturns_nested operands ho po)
    exact .cons (fun hop ↦ .inl ⟨rfl, beq_iff_eq.mpr hop⟩)
      (.enterOperand op (h.mono fun _ ↦ .inr))
  | ifChain condition body rest =>
    obtain ⟨hc, hr, pc, pb, pr⟩ := h
    have h := ((Outline.ownReturns_nested condition hc pc).statements
      (Outline.ownReturns body pb).enterBlock).statements (Outline.ownReturns_nested rest hr pr)
    exact .cons (fun hop ↦ nomatch hop) (h.mono fun _ ↦ .inr)
  | elseIf condition body rest =>
    obtain ⟨hc, hr, pc, pb, pr⟩ := h
    have h := ((Outline.ownReturns_nested condition hc pc).enterCondition.statements
      (Outline.ownReturns body pb).enterBlock).statements (Outline.ownReturns_nested rest hr pr)
    exact .cons (fun hop ↦ nomatch hop) (h.mono fun _ ↦ .inr)
  | otherwise body =>
    exact .cons (fun hop ↦ nomatch hop) ((Outline.ownReturns body h).enterBlock.mono fun _ ↦ .inr)
  | repeatWhile condition body =>
    obtain ⟨hc, pc, pb⟩ := h
    have h := (Outline.ownReturns_nested condition hc pc).enterCondition.statements
      (Outline.ownReturns body pb).enterBlock
    exact .cons (fun hop ↦ nomatch hop) (h.mono fun _ ↦ .inr)
  | forIn overList slot hidden iteratee body =>
    obtain ⟨hc, pc, pb⟩ := h
    have h := (Outline.ownReturns_nested iteratee hc pc).statements
      (Outline.ownReturns body pb).enterBlock
    exact .cons (fun hop ↦ nomatch hop) (h.mono fun _ ↦ .inr)
  | closure slots body arguments usesSelf captured =>
    exact .cons (fun hop ↦ nomatch hop) (.closure _)

/-- A return in items that are no returns themselves is a statement in one of their blocks. -/
theorem Outline.ownReturns_nested (o : List Item) {k : Nat} (hw : Outline.WithoutReturn o)
    (h : Outline.ReturnsProperly returns o k) :
    OwnReturns (IsStatement (Outline.nested o k)) (Outline.survey o k) := by
  cases o with
  | nil => exact .nil
  | cons item rest =>
    have hitem : OwnReturns (IsStatement (item.statements k)) (item.survey k) := by
      refine (item.ownReturns h.1).mono fun _ hs ↦ ?_
      rcases hs with hr | hs
      · cases hw.head.symm.trans hr.2
      · exact hs
    exact hitem.statements (Outline.ownReturns_nested rest hw.tail h.2)

/-- **A return is a statement of its frame.** -/
theorem Outline.ownReturns (o : List Item) {k : Nat} (h : Outline.ReturnsProperly returns o k) :
    OwnReturns (IsStatement (Outline.statements o k)) (Outline.survey o k) := by
  cases o with
  | nil => exact .nil
  | cons item rest =>
    have hitem : OwnReturns (IsStatement ((k, item) :: item.statements k)) (item.survey k) := by
      refine (item.ownReturns h.1).mono fun k' hk ↦ ?_
      rcases hk with ⟨rfl, -⟩ | ⟨i, hi⟩
      · exact ⟨item, List.mem_cons_self⟩
      · exact ⟨i, List.mem_cons_of_mem _ hi⟩
    exact hitem.statements (Outline.ownReturns rest h.2)

end

/-! ### What the flag stands for -/

mutual

theorem Item.returned_eq (item : Item) {k : Nat} (h : item.ReturnsProperly returns k) (b : Bool) :
    item.returned b = (item.isReturn || b && !item.branches) := by
  cases item with
  | instruction op counted receiver words operands =>
    obtain ⟨hr, ho, pr, po⟩ := h
    rw [Item.returned, Outline.returned_eq receiver hr pr, Outline.returned_eq operands ho po,
      Item.isReturn, Item.branches, Bool.not_or, Bool.and_assoc]
  | closure slots body arguments usesSelf captured => exact (Bool.and_true b).symm
  | _ => exact (Bool.and_false b).symm

theorem Outline.returned_eq (o : List Item) {k : Nat} (hw : Outline.WithoutReturn o)
    (h : Outline.ReturnsProperly returns o k) (b : Bool) :
    Outline.returned o b = (b && !Outline.branches o) := by
  cases o with
  | nil => exact (Bool.and_true b).symm
  | cons item rest =>
    rw [Outline.returned, item.returned_eq h.1, Outline.returned_eq rest hw.tail h.2, hw.head,
      Outline.branches, Bool.not_or, Bool.false_or, Bool.and_assoc]

end

/-- One of the items is a return, and there is no branch or loop behind it. -/
def Outline.EndsReturned (o : Outline) : Prop :=
  ∃ before item after, o = before ++ item :: after ∧ item.isReturn
    ∧ Outline.branches after = false

theorem Outline.endsReturned_cons {item : Item} {o : Outline} :
    Outline.EndsReturned (item :: o)
      ↔ item.isReturn ∧ Outline.branches o = false ∨ Outline.EndsReturned o := by
  constructor
  · rintro ⟨before, item', after, he, hr, hb⟩
    cases before with
    | nil =>
      obtain ⟨rfl, rfl⟩ := List.cons.inj he
      exact .inl ⟨hr, hb⟩
    | cons first before => exact .inr ⟨before, item', after, (List.cons.inj he).2, hr, hb⟩
  · rintro (⟨hr, hb⟩ | ⟨before, item', after, rfl, hr, hb⟩)
    · exact ⟨[], item, o, rfl, hr, hb⟩
    · exact ⟨item :: before, item', after, rfl, hr, hb⟩

/-- **What the flag stands for.** Behind an outline it is up if one of the items is a return with no
block behind it, or if it was up before and there is no block at all. -/
theorem Outline.returned_iff {o : Outline} {k : Nat} (h : Outline.ReturnsProperly returns o k)
    {b : Bool} :
    Outline.returned o b ↔ Outline.EndsReturned o ∨ b ∧ Outline.branches o = false := by
  induction o generalizing k b with
  | nil =>
    have hnone : ¬ Outline.EndsReturned [] := by
      rintro ⟨before, item, after, he, -⟩
      cases before <;> cases he
    simp [Outline.returned, Outline.branches, hnone]
  | cons item o ih =>
    rw [Outline.returned, ih h.2, item.returned_eq h.1, Outline.endsReturned_cons,
      Outline.branches]
    simp only [Bool.or_eq_true, Bool.and_eq_true, Bool.not_eq_true', Bool.or_eq_false_iff]
    grind

/-- A return among the items is one that the flag knows of. -/
theorem Outline.EndsReturned.exists_return {o : Outline} (h : Outline.EndsReturned o) :
    ∃ item ∈ o, item.isReturn := by
  obtain ⟨before, item, after, rfl, hr, -⟩ := h
  exact ⟨item, by simp, hr⟩

/-! ### Runs pass returns -/

/-- A run of a return ends with it. -/
theorem Item.exists_done_of_isReturn {item : Item} {k : Nat} {τ : List Event}
    (hr : item.isReturn) (h : item.Runs k τ) : ∃ i, .done i ∈ τ ∧ i.op = .returning := by
  cases item with
  | instruction op counted receiver words operands =>
    obtain ⟨τ₁, τ₂, -, -, rfl⟩ := h
    exact ⟨⟨k, op, words⟩, by simp, beq_iff_eq.mp hr⟩
  | _ => cases hr

/-- **A return in the body itself is passed in every run.** -/
theorem Outline.exists_return_of_runs {o : Outline} {k : Nat} {τ : List Event}
    (hr : ∃ item ∈ o, item.isReturn) (h : Outline.Runs o k τ) :
    ∃ i, .done i ∈ τ ∧ i.op = .returning := by
  induction o generalizing k τ with
  | nil =>
    obtain ⟨item, hm, -⟩ := hr
    cases hm
  | cons item o ih =>
    obtain ⟨τ₁, τ₂, h₁, h₂, rfl⟩ := h
    obtain ⟨item', hm, hr⟩ := hr
    rcases List.mem_cons.mp hm with rfl | hm
    · obtain ⟨i, hi, hop⟩ := item'.exists_done_of_isReturn hr h₁
      exact ⟨i, List.mem_append_left _ hi, hop⟩
    · obtain ⟨i, hi, hop⟩ := ih ⟨item', hm, hr⟩ h₂
      exact ⟨i, List.mem_append_right _ hi, hop⟩

/-! ### Closures -/

mutual

/-- The closures in an item return as their return types ask, and so do the closures in them. -/
theorem Item.closures_return (item : Item) {k : Nat} (h : item.ReturnsProperly returns k) :
    ∀ f ∈ item.closures k, (∃ k' t, f.offset = k' + 3 ∧ returns k' t
      ∧ Outline.ReturnsAs t f.code f.offset) ∧ Outline.ReturnsProperly returns f.code f.offset := by
  intro f hf
  cases item with
  | instruction op counted receiver words operands =>
    obtain ⟨-, -, pr, po⟩ := h
    exact (List.mem_append.mp hf).elim (Outline.closures_return receiver pr f)
      (Outline.closures_return operands po f)
  | ifChain condition body rest | elseIf condition body rest =>
    obtain ⟨-, -, pc, pb, pr⟩ := h
    rcases List.mem_append.mp hf with hf | hf
    · exact (List.mem_append.mp hf).elim (Outline.closures_return condition pc f)
        (Outline.closures_return body pb f)
    · exact Outline.closures_return rest pr f hf
  | otherwise body => exact Outline.closures_return body h f hf
  | repeatWhile condition body | forIn _ _ _ condition body =>
    obtain ⟨-, pc, pb⟩ := h
    exact (List.mem_append.mp hf).elim (Outline.closures_return condition pc f)
      (Outline.closures_return body pb f)
  | closure slots body arguments usesSelf captured =>
    obtain ⟨⟨t, ht, hb⟩, pb⟩ := h
    rcases List.mem_cons.mp hf with rfl | hf
    · exact ⟨⟨k, t, rfl, ht, hb⟩, pb⟩
    · exact Outline.closures_return body pb f hf

/-- The closures in an outline return as their return types ask. -/
theorem Outline.closures_return (o : List Item) {k : Nat}
    (h : Outline.ReturnsProperly returns o k) :
    ∀ f ∈ Outline.closures o k, (∃ k' t, f.offset = k' + 3 ∧ returns k' t
      ∧ Outline.ReturnsAs t f.code f.offset) ∧ Outline.ReturnsProperly returns f.code f.offset := by
  cases o with
  | nil => exact fun _ hf ↦ nomatch hf
  | cons item rest =>
    exact fun f hf ↦ (List.mem_append.mp hf).elim (item.closures_return h.1 f)
      (Outline.closures_return rest h.2 f)

end

end

end Pictograph
