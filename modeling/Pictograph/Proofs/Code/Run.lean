import Pictograph.Proofs.Code.Outline

/-!
# Runs of code

A run of an outline is one way of executing it, as the list of what happened. Control flow is taken
as free: a condition may hold or not, a loop may go round any number of times. A chain of branches
evaluates its conditions in order until one holds and runs the block of that branch, a loop runs its
block zero or more times, and everything else runs in order, operands before the instruction they
belong to. An execution that breaks off, or goes round a loop forever, goes through beginnings of
runs.

Two things are left out by a run, and the run says so: the conditions behind the branch that was
taken, and the body of a closure, which runs when the closure is invoked and in a frame of its own.

## Main definitions

* `Outline.Runs` says which lists of events are runs of an outline.
* `Outline.frames` lists the code of each frame: an outline itself and the closures in it.

## Main results

* `Outline.exists_run`: there always is a run.
* `Outline.occursIn_of_runs`: what happens in a run is in the code.
-/

namespace Pictograph

/-! ## Events -/

/-- Something that happens in a run. -/
inductive Event where
  /-- An instruction was executed. -/
  | done (i : Instruction)
  /-- Code was left out. -/
  | passed (code : List Located)

mutual

/-- The conditions of the branches that an item of a chain starts with. -/
def Item.conditions : Item → Nat → List Located
  | .elseIf condition body rest, k =>
    Outline.survey condition (k + 1)
      ++ Outline.conditions rest (k + 2 + Outline.size condition + Outline.size body)
  | _, _ => []

/-- The conditions in the rest of a chain. -/
def Outline.conditions : List Item → Nat → List Located
  | [], _ => []
  | item :: _, k => item.conditions k

end

/-! ## Runs -/

/-- The ways to go through something any number of times, given the ways to go through it once. -/
def Rounds (once : List Event → Prop) (τ : List Event) : Prop :=
  ∃ rounds : List (List Event), (∀ r ∈ rounds, once r) ∧ τ = rounds.flatten

mutual

/-- The runs of an item that starts at an offset. -/
def Item.Runs : Item → Nat → List Event → Prop
  | .instruction op counted receiver words operands, k, τ =>
    ∃ τ₁ τ₂, Outline.Runs receiver (k + 1 + counted.size) τ₁
      ∧ Outline.Runs operands
        (k + 1 + counted.size + Outline.size receiver + words.length) τ₂
      ∧ τ = τ₁ ++ τ₂ ++ [.done ⟨k, op, words⟩]
  | .ifChain condition body rest, k, τ =>
    ∃ τ₁ τ₂, Outline.Runs condition (k + 2) τ₁
      ∧ (Outline.Runs body (k + 3 + Outline.size condition) τ₂
          ∧ τ = τ₁ ++ τ₂ ++ [.passed (Outline.conditions rest
            (k + 3 + Outline.size condition + Outline.size body))]
        ∨ Outline.Runs rest (k + 3 + Outline.size condition + Outline.size body) τ₂
          ∧ τ = τ₁ ++ τ₂)
  | .elseIf condition body rest, k, τ =>
    ∃ τ₁ τ₂, Outline.Runs condition (k + 1) τ₁
      ∧ (Outline.Runs body (k + 2 + Outline.size condition) τ₂
          ∧ τ = τ₁ ++ τ₂ ++ [.passed (Outline.conditions rest
            (k + 2 + Outline.size condition + Outline.size body))]
        ∨ Outline.Runs rest (k + 2 + Outline.size condition + Outline.size body) τ₂
          ∧ τ = τ₁ ++ τ₂)
  | .otherwise body, k, τ => Outline.Runs body (k + 2) τ
  | .repeatWhile condition body, k, τ =>
    ∃ τ₁ τ₂, Rounds (fun r ↦ ∃ r₁ r₂, Outline.Runs condition (k + 1) r₁
          ∧ Outline.Runs body (k + 2 + Outline.size condition) r₂ ∧ r = r₁ ++ r₂) τ₁
      ∧ Outline.Runs condition (k + 1) τ₂ ∧ τ = τ₁ ++ τ₂
  | .forIn overList slot hidden iteratee body, k, τ =>
    ∃ τ₁ τ₂, Outline.Runs iteratee (k + 3) τ₁
      ∧ Rounds (fun r ↦ ∃ r₁, Outline.Runs body (k + 4 + Outline.size iteratee) r₁
          ∧ r = .done ⟨k, .forIn overList, [UInt32.ofNat slot, UInt32.ofNat hidden]⟩ :: r₁) τ₂
      ∧ τ = τ₁ ++ τ₂
  | .closure slots body _ _ _, k, τ =>
    τ = [.done ⟨k, .closure, [UInt32.ofNat slots]⟩,
      .passed ((Outline.survey body (k + 3)).map (·.enterClosure))]

/-- The runs of an outline that starts at an offset. -/
def Outline.Runs : List Item → Nat → List Event → Prop
  | [], _, τ => τ = []
  | item :: rest, k, τ =>
    ∃ τ₁ τ₂, item.Runs k τ₁ ∧ Outline.Runs rest (k + item.size) τ₂ ∧ τ = τ₁ ++ τ₂

end

/-- The runs of two outlines in a row are those of the first followed by those of the second. -/
theorem Outline.runs_append {o o' : Outline} {k : Nat} {τ : List Event} :
    Outline.Runs (o ++ o') k τ
      ↔ ∃ τ₁ τ₂, Outline.Runs o k τ₁ ∧ Outline.Runs o' (k + Outline.size o) τ₂
        ∧ τ = τ₁ ++ τ₂ := by
  induction o generalizing k τ with
  | nil => simp [Outline.Runs]
  | cons item o ih =>
    rw [List.cons_append, Outline.size_cons, ← Nat.add_assoc]
    constructor
    · rintro ⟨τ₁, _, h₁, h, rfl⟩
      obtain ⟨τ₂, τ₃, h₂, h₃, rfl⟩ := ih.mp h
      exact ⟨τ₁ ++ τ₂, τ₃, ⟨τ₁, τ₂, h₁, h₂, rfl⟩, h₃, (List.append_assoc ..).symm⟩
    · rintro ⟨_, τ₃, ⟨τ₁, τ₂, h₁, h₂, rfl⟩, h₃, rfl⟩
      exact ⟨τ₁, τ₂ ++ τ₃, h₁, ih.mpr ⟨τ₂, τ₃, h₂, h₃, rfl⟩, List.append_assoc ..⟩

theorem Outline.runs_singleton {item : Item} {k : Nat} {τ : List Event} :
    Outline.Runs [item] k τ ↔ item.Runs k τ := by
  constructor
  · rintro ⟨τ₁, _, h, rfl, rfl⟩
    rwa [List.append_nil]
  · intro h
    exact ⟨τ, [], h, rfl, (List.append_nil τ).symm⟩

theorem Item.runs_plain {op : Opcode} {words : List UInt32} {o : Outline} {k : Nat}
    {τ : List Event} :
    (Item.plain op words o).Runs k τ
      ↔ ∃ τ', Outline.Runs o (k + 1 + words.length) τ' ∧ τ = τ' ++ [.done ⟨k, op, words⟩] := by
  constructor
  · rintro ⟨_, τ', rfl, h, rfl⟩
    exact ⟨τ', h, rfl⟩
  · rintro ⟨τ', h, rfl⟩
    exact ⟨[], τ', rfl, h, rfl⟩

/-- Going round any number of times preserves what going round once preserves. -/
theorem Rounds.induct {once : List Event → Prop} {motive : List Event → Prop} {τ : List Event}
    (h : Rounds once τ) (nil : motive [])
    (append : ∀ r τ, once r → motive τ → motive (r ++ τ)) : motive τ := by
  obtain ⟨rounds, hr, rfl⟩ := h
  induction rounds with
  | nil => exact nil
  | cons r rounds ih =>
    exact append r _ (hr r List.mem_cons_self) (ih fun r' hr' ↦ hr r' (List.mem_cons_of_mem _ hr'))

theorem Rounds.none (once : List Event → Prop) : Rounds once [] :=
  ⟨[], fun _ h ↦ absurd h List.not_mem_nil, rfl⟩

mutual

/-- Every item has a run. -/
theorem Item.exists_run (item : Item) (k : Nat) : ∃ τ, item.Runs k τ := by
  cases item with
  | instruction op counted receiver words operands =>
    obtain ⟨τ₁, h₁⟩ := Outline.exists_run receiver (k + 1 + counted.size)
    obtain ⟨τ₂, h₂⟩ := Outline.exists_run operands
      (k + 1 + counted.size + Outline.size receiver + words.length)
    exact ⟨_, τ₁, τ₂, h₁, h₂, rfl⟩
  | ifChain condition body rest =>
    obtain ⟨τ₁, h₁⟩ := Outline.exists_run condition (k + 2)
    obtain ⟨τ₂, h₂⟩ := Outline.exists_run body (k + 3 + Outline.size condition)
    exact ⟨_, τ₁, τ₂, h₁, .inl ⟨h₂, rfl⟩⟩
  | elseIf condition body rest =>
    obtain ⟨τ₁, h₁⟩ := Outline.exists_run condition (k + 1)
    obtain ⟨τ₂, h₂⟩ := Outline.exists_run body (k + 2 + Outline.size condition)
    exact ⟨_, τ₁, τ₂, h₁, .inl ⟨h₂, rfl⟩⟩
  | otherwise body => exact Outline.exists_run body (k + 2)
  | repeatWhile condition body =>
    obtain ⟨τ, h⟩ := Outline.exists_run condition (k + 1)
    exact ⟨_, [], τ, .none _, h, rfl⟩
  | forIn overList slot hidden iteratee body =>
    obtain ⟨τ, h⟩ := Outline.exists_run iteratee (k + 3)
    exact ⟨_, τ, [], h, .none _, rfl⟩
  | closure slots body arguments usesSelf captured => exact ⟨_, rfl⟩

/-- **There always is a run.** -/
theorem Outline.exists_run (o : List Item) (k : Nat) : ∃ τ, Outline.Runs o k τ := by
  cases o with
  | nil => exact ⟨[], rfl⟩
  | cons item rest =>
    obtain ⟨τ₁, h₁⟩ := item.exists_run k
    obtain ⟨τ₂, h₂⟩ := Outline.exists_run rest (k + item.size)
    exact ⟨_, τ₁, τ₂, h₁, h₂, rfl⟩

end

/-! ## Runs and surveys -/

/-- The instructions that an event is about. -/
def Event.located : Event → List Located
  | done i => [.outermost i]
  | passed code => code

/-- Whether a survey finds an instruction, on the same side of a closure. -/
def Located.AppearsIn (l : Located) (survey : List Located) : Prop :=
  ∃ l' ∈ survey, l'.toInstruction = l.toInstruction ∧ l'.inClosure = l.inClosure

namespace Located.AppearsIn

variable {l : Located} {ls ls' : List Located}

theorem of_mem (h : l ∈ ls) : l.AppearsIn ls := ⟨l, h, rfl, rfl⟩

theorem mono (h : l.AppearsIn ls) (hs : ls ⊆ ls') : l.AppearsIn ls' := by
  obtain ⟨l', hm, h'⟩ := h
  exact ⟨l', hs hm, h'⟩

/-- Other surroundings than a closure do not matter. -/
theorem map {f : Located → Located} (h : l.AppearsIn ls)
    (hf : ∀ l, (f l).toInstruction = l.toInstruction ∧ (f l).inClosure = l.inClosure) :
    l.AppearsIn (ls.map f) := by
  obtain ⟨l', hm, hi, hc⟩ := h
  exact ⟨f l', List.mem_map_of_mem hm, (hf l').1.trans hi, (hf l').2.trans hc⟩

theorem enterBlock (h : l.AppearsIn ls) : l.AppearsIn (ls.map (·.enterBlock)) :=
  h.map (f := Located.enterBlock) fun _ ↦ ⟨rfl, rfl⟩

theorem enterCondition (h : l.AppearsIn ls) : l.AppearsIn (ls.map (·.enterCondition)) :=
  h.map (f := Located.enterCondition) fun _ ↦ ⟨rfl, rfl⟩

theorem enterOperand (op : Opcode) (h : l.AppearsIn ls) :
    l.AppearsIn (ls.map (·.enterOperand op)) :=
  h.map (f := Located.enterOperand op) fun _ ↦ ⟨rfl, rfl⟩

theorem append_left (h : l.AppearsIn ls) : l.AppearsIn (ls ++ ls') :=
  h.mono (List.subset_append_left ..)

theorem append_right (h : l.AppearsIn ls') : l.AppearsIn (ls ++ ls') :=
  h.mono (List.subset_append_right ..)

theorem cons (l' : Located) (h : l.AppearsIn ls) : l.AppearsIn (l' :: ls) :=
  h.mono (List.subset_cons_self ..)

end Located.AppearsIn

mutual

/-- The conditions of a branch are part of its code. -/
theorem Item.appearsIn_of_conditions (item : Item) {k : Nat} {l : Located}
    (h : l ∈ item.conditions k) : l.AppearsIn (item.survey k) := by
  cases item with
  | elseIf condition body rest =>
    rw [Item.conditions, List.mem_append] at h
    rcases h with h | h
    · exact .cons _ (.append_left (.append_left (.enterCondition (.of_mem h))))
    · exact .cons _ (.append_right (Outline.appearsIn_of_conditions rest h))
  | _ => exact absurd h List.not_mem_nil

/-- The conditions in the rest of a chain are part of its code. -/
theorem Outline.appearsIn_of_conditions (o : List Item) {k : Nat} {l : Located}
    (h : l ∈ Outline.conditions o k) : l.AppearsIn (Outline.survey o k) := by
  cases o with
  | nil => exact absurd h List.not_mem_nil
  | cons item rest => exact (item.appearsIn_of_conditions h).append_left

end

/-- What all events of a list are about appears in a survey. -/
def OccursIn (τ : List Event) (survey : List Located) : Prop :=
  ∀ e ∈ τ, ∀ l ∈ e.located, l.AppearsIn survey

namespace OccursIn

variable {τ τ' : List Event} {ls ls' : List Located}

theorem append (h : OccursIn τ ls) (h' : OccursIn τ' ls) : OccursIn (τ ++ τ') ls := by
  intro e he
  rcases List.mem_append.mp he with he | he
  · exact h e he
  · exact h' e he

theorem imp (h : OccursIn τ ls) (hs : ∀ l : Located, l.AppearsIn ls → l.AppearsIn ls') :
    OccursIn τ ls' := fun e he l hl ↦ hs l (h e he l hl)

theorem nil : OccursIn [] ls := fun _ h ↦ absurd h List.not_mem_nil

theorem done {i : Instruction} (h : (Located.outermost i).AppearsIn ls) :
    OccursIn [.done i] ls := by
  intro e he l hl
  rw [List.mem_singleton] at he
  subst he
  rw [Event.located, List.mem_singleton] at hl
  exact hl ▸ h

theorem passed {code : List Located} (h : ∀ l ∈ code, l.AppearsIn ls) :
    OccursIn [.passed code] ls := by
  intro e he l hl
  rw [List.mem_singleton] at he
  subst he
  exact h l hl

theorem rounds {once : List Event → Prop} (h : Rounds once τ)
    (ho : ∀ r, once r → OccursIn r ls) : OccursIn τ ls :=
  h.induct (motive := fun τ ↦ OccursIn τ ls) nil fun r _ hr hτ ↦ (ho r hr).append hτ

end OccursIn

mutual

/-- What happens in a run of an item is in its code. -/
theorem Item.occursIn_of_runs (item : Item) {k : Nat} {τ : List Event} (h : item.Runs k τ) :
    OccursIn τ (item.survey k) := by
  cases item with
  | instruction op counted receiver words operands =>
    obtain ⟨τ₁, τ₂, h₁, h₂, rfl⟩ := h
    have ho₁ := Outline.occursIn_of_runs receiver h₁
    have ho₂ := Outline.occursIn_of_runs operands h₂
    refine .append (.append (ho₁.imp fun l hl ↦ ?_) (ho₂.imp fun l hl ↦ ?_))
      (.done (.of_mem List.mem_cons_self))
    · exact .cons _ (.enterOperand op hl.append_left)
    · exact .cons _ (.enterOperand op hl.append_right)
  | ifChain condition body rest =>
    obtain ⟨τ₁, τ₂, h₁, h⟩ := h
    have ho₁ := (Outline.occursIn_of_runs condition h₁).imp
      fun l hl ↦ (hl.append_left.append_left.cons _ : l.AppearsIn
        ((Item.ifChain condition body rest).survey k))
    rcases h with ⟨h₂, rfl⟩ | ⟨h₂, rfl⟩
    -- a taken branch also passes over the conditions of the rest, which the survey lists
    · refine .append (ho₁.append ((Outline.occursIn_of_runs body h₂).imp fun l hl ↦ ?_))
        (.passed fun l hl ↦ ?_)
      · exact .cons _ (.append_left (.append_right hl.enterBlock))
      · exact .cons _ (.append_right (Outline.appearsIn_of_conditions rest hl))
    · exact ho₁.append ((Outline.occursIn_of_runs rest h₂).imp fun l hl ↦ .cons _ hl.append_right)
  | elseIf condition body rest =>
    obtain ⟨τ₁, τ₂, h₁, h⟩ := h
    have ho₁ := (Outline.occursIn_of_runs condition h₁).imp
      fun l hl ↦ (hl.enterCondition.append_left.append_left.cons _ : l.AppearsIn
        ((Item.elseIf condition body rest).survey k))
    rcases h with ⟨h₂, rfl⟩ | ⟨h₂, rfl⟩
    · refine .append (ho₁.append ((Outline.occursIn_of_runs body h₂).imp fun l hl ↦ ?_))
        (.passed fun l hl ↦ ?_)
      · exact .cons _ (.append_left (.append_right hl.enterBlock))
      · exact .cons _ (.append_right (Outline.appearsIn_of_conditions rest hl))
    · exact ho₁.append ((Outline.occursIn_of_runs rest h₂).imp fun l hl ↦ .cons _ hl.append_right)
  | otherwise body =>
    exact (Outline.occursIn_of_runs body h).imp fun l hl ↦ .cons _ hl.enterBlock
  | repeatWhile condition body =>
    obtain ⟨τ₁, τ₂, h₁, h₂, rfl⟩ := h
    -- the condition runs in each round and once more at the end
    have hc {r : List Event} (hr : Outline.Runs condition (k + 1) r) :
        OccursIn r ((Item.repeatWhile condition body).survey k) :=
      (Outline.occursIn_of_runs condition hr).imp fun l hl ↦
        .cons _ hl.enterCondition.append_left
    refine .append (.rounds h₁ fun r hr ↦ ?_) (hc h₂)
    obtain ⟨r₁, r₂, hr₁, hr₂, rfl⟩ := hr
    exact (hc hr₁).append ((Outline.occursIn_of_runs body hr₂).imp fun l hl ↦
      .cons _ hl.enterBlock.append_right)
  | forIn overList slot hidden iteratee body =>
    obtain ⟨τ₁, τ₂, h₁, h₂, rfl⟩ := h
    refine .append ((Outline.occursIn_of_runs iteratee h₁).imp fun l hl ↦
      .cons _ hl.append_left) (.rounds h₂ fun r hr ↦ ?_)
    obtain ⟨r₁, hr₁, rfl⟩ := hr
    exact .append (τ := [_]) (.done (.of_mem List.mem_cons_self))
      ((Outline.occursIn_of_runs body hr₁).imp fun l hl ↦ .cons _ hl.enterBlock.append_right)
  | closure slots body arguments usesSelf captured =>
    obtain rfl := h
    exact .append (τ := [_]) (.done (.of_mem List.mem_cons_self))
      (.passed fun l hl ↦ .cons _ (.of_mem hl))

/-- **What happens in a run is in the code.** -/
theorem Outline.occursIn_of_runs (o : List Item) {k : Nat} {τ : List Event}
    (h : Outline.Runs o k τ) : OccursIn τ (Outline.survey o k) := by
  cases o with
  | nil =>
    obtain rfl := h
    exact .nil
  | cons item rest =>
    obtain ⟨τ₁, τ₂, h₁, h₂, rfl⟩ := h
    exact .append ((item.occursIn_of_runs h₁).imp fun _ hl ↦ hl.append_left)
      ((Outline.occursIn_of_runs rest h₂).imp fun _ hl ↦ hl.append_right)

end

/-! ## Frames -/

/-- The code that runs in one frame. -/
structure CodeFrame where
  /-- How many slots have a value from the start: arguments, and in a closure what it captured. -/
  given : Nat
  /-- The offset of the code. -/
  offset : Nat
  /-- The code. -/
  code : Outline

mutual

/-- The frames of the closures in an item. -/
def Item.closures : Item → Nat → List CodeFrame
  | .instruction _ counted receiver words operands, k =>
    Outline.closures receiver (k + 1 + counted.size)
      ++ Outline.closures operands
        (k + 1 + counted.size + Outline.size receiver + words.length)
  | .ifChain condition body rest, k =>
    Outline.closures condition (k + 2)
      ++ Outline.closures body (k + 3 + Outline.size condition)
      ++ Outline.closures rest (k + 3 + Outline.size condition + Outline.size body)
  | .elseIf condition body rest, k =>
    Outline.closures condition (k + 1)
      ++ Outline.closures body (k + 2 + Outline.size condition)
      ++ Outline.closures rest (k + 2 + Outline.size condition + Outline.size body)
  | .otherwise body, k => Outline.closures body (k + 2)
  | .repeatWhile condition body, k =>
    Outline.closures condition (k + 1) ++ Outline.closures body (k + 2 + Outline.size condition)
  | .forIn _ _ _ iteratee body, k =>
    Outline.closures iteratee (k + 3) ++ Outline.closures body (k + 4 + Outline.size iteratee)
  | .closure _ body arguments _ captured, k =>
    ⟨arguments + captured, k + 3, body⟩ :: Outline.closures body (k + 3)

/-- The frames of the closures in an outline. -/
def Outline.closures : List Item → Nat → List CodeFrame
  | [], _ => []
  | item :: rest, k => item.closures k ++ Outline.closures rest (k + item.size)

end

@[simp] theorem Outline.closures_append (o o' : Outline) (k : Nat) :
    Outline.closures (o ++ o') k
      = Outline.closures o k ++ Outline.closures o' (k + Outline.size o) := by
  induction o generalizing k with
  | nil => rfl
  | cons item o ih =>
    rw [List.cons_append, Outline.closures, Outline.closures, ih, List.append_assoc,
      Outline.size_cons, Nat.add_assoc]

@[simp] theorem Outline.closures_singleton (item : Item) (k : Nat) :
    Outline.closures [item] k = item.closures k := List.append_nil _

/-- The frames of a procedure with so many arguments: its own and those of the closures in it. -/
def Outline.frames (o : Outline) (arguments : Nat) : List CodeFrame :=
  ⟨arguments, 0, o⟩ :: Outline.closures o 0

end Pictograph
