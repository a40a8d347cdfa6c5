import Mathlib.Data.List.Perm.Subperm
import Pictograph.Proofs.Analysis.Bodies
import Pictograph.Proofs.Analysis.Touches
import Pictograph.Proofs.Catalogue.Faults

/-!
# Orderly analyses

An analysis is orderly if it keeps its books in order from wherever it is started: it fills the
reserved words that are left to it and those that it reserves itself, the innermost first, and it
declares variables only in slots that were given away for them. What it may rely on is a list of
reservations that it has to fill and a list of slots that it may still declare a variable in; the
rules of this module follow the program text and pass these lists on from step to step.

Nothing is said about the place in the tokens or about types: an orderly analysis is orderly for any
body, well-formed or not.

## Main definitions

* `Orderly`: an analysis that keeps its books in order from a state on.

## Main results

* `Orderly.bind`: one orderly step after another is orderly.
* `Orderly.inFrame`: in a frame of its own an orderly analysis gives and declares its own slots.
-/

namespace Pictograph

/-! ## Books in order -/

/-- The slots of the local variables, the innermost scope first. -/
def Environment.slots (e : Environment) : List Nat :=
  (e.locals.flatMap (·.declared)).map (·.slot)

/-- A state with these reservations open and these slots given away for variables to come. -/
structure Standing (os ps : List Nat) (s : State) : Prop where
  holes : s.assembler.holes = os
  below : ∀ k ∈ os, k < s.assembler.chunk.size
  nodup : (s.environment.slots ++ ps).Nodup
  bounds : ∀ k ∈ s.environment.slots ++ ps, k < s.frame.slotCount

/-- An analysis keeps its books in order from a state on, whatever else is open there: it fills the
reservations `os` and its own and declares variables in the slots `ps` or in new ones, or else it
fails, but not with a misfilled word. -/
def Orderly {α : Type} (os ps : List Nat) (m : Analysis α) (s : State) : Prop :=
  ∀ rest qs, Standing (os ++ rest) (ps ++ qs) s → ∃ touches, Does m s touches ∧
    match m s with
    | .ok _ s' => Standing rest qs s'
    | .error fault _ => fault ≠ .misfilled

theorem List.Subperm.nodup {α : Type} {l l' : List α} (h : l.Subperm l') (hn : l'.Nodup) :
    l.Nodup := by
  obtain ⟨l₁, hp, hs⟩ := h
  exact hp.nodup_iff.mp (hs.nodup hn)

namespace Standing

variable {os ps ps' : List Nat} {s s' : State}

/-- Reservations stay open while words are appended, and variables may go out of reach. -/
theorem mono (h : Standing os ps s) (hh : s'.assembler.holes = s.assembler.holes)
    (hs : s.assembler.chunk.size ≤ s'.assembler.chunk.size)
    (hp : (s'.environment.slots ++ ps').Subperm (s.environment.slots ++ ps))
    (hc : s.frame.slotCount ≤ s'.frame.slotCount) : Standing os ps' s' where
  holes := hh.trans h.holes
  below k hk := Nat.lt_of_lt_of_le (h.below k hk) hs
  nodup := List.Subperm.nodup hp h.nodup
  bounds k hk := Nat.lt_of_lt_of_le (h.bounds k (hp.subset hk)) hc

/-- Variables may go out of reach. -/
theorem forget (h : Standing os ps s) (ha : s'.assembler = s.assembler)
    (hc : s'.frame.slotCount = s.frame.slotCount)
    (hs : s'.environment.slots.Sublist s.environment.slots) : Standing os ps s' :=
  h.mono (congrArg _ ha) (Nat.le_of_eq (congrArg (·.chunk.size) ha).symm)
    (hs.append_right ps).subperm (Nat.le_of_eq hc.symm)

end Standing

/-! ## Steps -/

/-- What the books of a body are about. -/
def State.books (s : State) : Assembler × Nat × List Nat :=
  (s.assembler, s.frame.slotCount, s.environment.slots)

namespace Analysis

variable {α : Type} {m : Analysis α} {s s' : State}

/-- A step that leaves the code and the slots alone, wherever it is run. -/
structure Aside (m : Analysis α) : Prop extends LeavesCode m where
  slotCount : ∀ s, (final (m s)).frame.slotCount = s.frame.slotCount
  slots : ∀ s, (final (m s)).environment.slots = s.environment.slots

theorem Aside.of_ok {a : State → α} {f : State → State} (h : ∀ s, m s = .ok (a s) (f s))
    (hf : ∀ s, (f s).books = s.books) : Aside m := by
  refine ⟨.of_ok h fun s ↦ congrArg (·.1) (hf s), fun s ↦ ?_, fun s ↦ ?_⟩
  · rw [h]
    exact congrArg (·.2.1) (hf s)
  · rw [h]
    exact congrArg (·.2.2) (hf s)

/-- Appending one word. -/
theorem Appends.push {f : Assembler → Assembler} {cell : Assembler → Cell}
    (hc : ∀ a, (f a).chunk.cells = a.chunk.cells.push (cell a)) (hh : ∀ a, (f a).holes = a.holes) :
    Appends f := by
  refine ⟨fun a ↦ ?_, hh⟩
  rw [hc, Array.toList_push]
  exact List.prefix_append _ _

theorem Appends.comp {f g : Assembler → Assembler} (hg : Appends g) (hf : Appends f) :
    Appends (g ∘ f) :=
  ⟨fun a ↦ (hf.cells a).trans (hg.cells (f a)), fun a ↦ (hg.holes (f a)).trans (hf.holes a)⟩

end Analysis

/-- Declarations add the slots of their variables. -/
theorem Environment.slots_append (e : Environment) (vs : List Variable) :
    ({ e with current := ⟨e.current.declared ++ vs⟩ } : Environment).slots.Perm
      (vs.map (·.slot) ++ e.slots) := by
  have hl : ({ e with current := ⟨e.current.declared ++ vs⟩ } : Environment).slots
      = e.current.declared.map (·.slot)
        ++ (vs.map (·.slot) ++ (e.outer.flatMap (·.declared)).map (·.slot)) := by
    rw [slots, locals, List.flatMap_cons, List.map_append, List.map_append, List.append_assoc]
  have hr : e.slots = e.current.declared.map (·.slot)
      ++ (e.outer.flatMap (·.declared)).map (·.slot) := by
    rw [slots, locals, List.flatMap_cons, List.map_append]
  rw [hl, hr]
  exact List.perm_append_comm_assoc _ _ _

theorem Environment.slots_of_declare {e e' : Environment} {v : Variable}
    (h : e.declare v = .ok e') : e'.slots.Perm (v.slot :: e.slots) := by
  rw [Environment.eq_of_declare h]
  exact e.slots_append [v]

/-! ## Rules -/

namespace Orderly

open Analysis

variable {α β : Type} {os os' ps ps' : List Nat} {m : Analysis α} {s s' : State}

/-- A step may not need all the slots that it is left. -/
theorem drop {p : Nat} (h : Orderly os ps m s) : Orderly os (p :: ps) m s := by
  intro rest qs hs
  exact h rest qs (hs.mono rfl (Nat.le_refl _)
    ((List.sublist_cons_self p _).append_left _).subperm (Nat.le_refl _))

/-- **One step after another.** The first step takes care of the innermost reservations. -/
theorem bind {f : α → Analysis β} (h : Orderly os ps m s)
    (h' : ∀ a s₁, m s = .ok a s₁ → Orderly os' ps' (f a) s₁) :
    Orderly (os ++ os') (ps ++ ps') (m >>= f) s := by
  intro rest qs hs
  rw [List.append_assoc, List.append_assoc] at hs
  obtain ⟨touches, hd, ho⟩ := h _ _ hs
  cases hm : m s with
  | ok a s₁ =>
    rw [hm] at ho
    obtain ⟨touches', hd', ho'⟩ := h' a s₁ hm _ _ ho
    refine ⟨touches ++ touches', .bind hm hd hd', ?_⟩
    rw [bind_of_ok hm]
    exact ho'
  | error fault s₁ =>
    rw [hm] at ho
    refine ⟨touches, .stop hm hd, ?_⟩
    rw [bind_of_error hm]
    exact ho

/-- A step that leaves everything to those behind it. -/
theorem step {f : α → Analysis β} (h : Orderly [] [] m s)
    (h' : ∀ a s₁, m s = .ok a s₁ → Orderly os ps (f a) s₁) : Orderly os ps (m >>= f) s :=
  bind h h'

/-- A step that takes care of everything that is left. -/
theorem last {f : α → Analysis β} (h : Orderly os ps m s)
    (h' : ∀ a s₁, m s = .ok a s₁ → Orderly [] [] (f a) s₁) : Orderly os ps (m >>= f) s := by
  have h := bind h h'
  rwa [List.append_nil, List.append_nil] at h

/-- The slots of the variables in reach are their own, and were handed out. -/
theorem standing (h : s.environment.slots.Nodup →
    (∀ k ∈ s.environment.slots, k < s.frame.slotCount) → Orderly os ps m s) :
    Orderly os ps m s := by
  intro rest qs hs
  exact h (List.nodup_append.mp hs.nodup).1
    (fun k hk ↦ hs.bounds k (List.mem_append_left _ hk)) rest qs hs

theorem aside (h : Aside m) : Orderly [] [] m s := by
  intro rest qs hs
  refine ⟨[], .aside h.toLeavesCode, ?_⟩
  have ha := h.assembler s
  have hc := h.slotCount s
  have he := h.slots s
  cases hm : m s with
  | ok a s' =>
    rw [hm] at ha hc he
    exact hs.forget ha hc (by rw [← he]; exact .refl _)
  | error fault s' =>
    rintro rfl
    exact h.ne_misfilled s s' hm

/-- A step that always succeeds and changes neither the code nor the slots. -/
theorem keeps {a : State → α} {f : State → State} (h : ∀ s, m s = .ok (a s) (f s))
    (hf : ∀ s, (f s).books = s.books) : Orderly [] [] m s := aside (.of_ok h hf)

theorem pure (a : α) : Orderly [] [] (pure a : Analysis α) s := keeps (fun _ ↦ rfl) fun _ ↦ rfl

/-- A step that changes what is known about variables. -/
theorem change {f : Environment → Environment}
    (h : (f s.environment).slots.Sublist s.environment.slots) :
    Orderly [] [] (modifyEnvironment f) s :=
  fun _ _ hs ↦ ⟨[], .aside (.of_ok (fun _ ↦ rfl) fun _ ↦ rfl), hs.forget rfl rfl h⟩

/-- A step that fails owes nothing. -/
theorem throw {fault : Fault} (h : fault ≠ .misfilled) :
    Orderly os ps (throw fault : Analysis α) s := by
  have ha : LeavesCode (MonadExcept.throw fault : Analysis α) :=
    .of_cases fun _ ↦ .inr ⟨fault, h, rfl⟩
  exact fun _ _ _ ↦ ⟨[], .aside ha, h⟩

theorem ite {c : Prop} [Decidable c] {n : Analysis α} (h : Orderly os ps m s)
    (h' : Orderly os ps n s) : Orderly os ps (if c then m else n) s := by
  split
  · exact h
  · exact h'

/-- A step that may be left out. -/
theorem optional {c : Prop} [Decidable c] {x : Analysis Unit} {f : Unit → Analysis α}
    (h : Orderly [] [] x s) (h' : ∀ s, Orderly os ps (f ()) s) :
    Orderly os ps (if c then x >>= f else f ()) s := ite (h.step fun _ _ _ ↦ h' _) (h' s)

/-- A repetition of orderly steps is orderly. -/
theorem repeatUntil {σ : Type} {step : σ → Analysis (σ ⊕ β)}
    (h : ∀ v s, Orderly [] [] (step v) s) (v : σ) :
    Orderly [] [] (Analysis.repeatUntil step v) s := by
  have hrepeating (fuel : Nat) (v : σ) (s : State) :
      Orderly [] [] (repeating step fuel v) s := by
    induction fuel generalizing v s with
    | zero => exact throw fun h ↦ nomatch h
    | succ fuel ih =>
      refine (h v s).step fun x s₁ _ ↦ ?_
      cases x with
      | inl v' => exact ih v' s₁
      | inr b => exact pure b
  refine Orderly.step (m := get) ?_ fun _ _ _ ↦ hrepeating _ v _
  exact keeps (fun _ ↦ rfl) fun _ ↦ rfl

theorem forM {l : List β} {f : β → Analysis Unit} (h : ∀ b s, Orderly [] [] (f b) s) :
    Orderly [] [] (l.forM f) s := by
  induction l generalizing s with
  | nil => exact pure ()
  | cons b l ih => exact (h b s).step fun _ _ _ ↦ ih

/-! ### Reserved words -/

theorem append {f : Assembler → Assembler} (hf : Appends f) : Orderly [] [] (assemble f) s := by
  intro rest qs hs
  have hsize : s.assembler.chunk.size ≤ (f s.assembler).chunk.size := by
    have h := (hf.cells s.assembler).length_le
    rwa [Array.length_toList, Array.length_toList] at h
  exact ⟨[], .append hf, hs.mono (hf.holes _) hsize (.refl _) (Nat.le_refl _)⟩

/-- What opens a reservation leaves it to the steps behind it. -/
theorem opening {f : α → Analysis β} {a : α}
    (hd : Does m s [.reserve s.assembler.chunk.size])
    (hm : m s = .ok a { s with assembler := s.assembler.appendHole })
    (h : Orderly (s.assembler.chunk.size :: os) ps (f a)
      { s with assembler := s.assembler.appendHole }) : Orderly os ps (m >>= f) s := by
  intro rest qs hs
  have hsize : s.assembler.appendHole.chunk.size = s.assembler.chunk.size + 1 :=
    Array.size_push _
  have hs₁ : Standing (s.assembler.chunk.size :: os ++ rest) (ps ++ qs)
      { s with assembler := s.assembler.appendHole } := by
    refine ⟨congrArg (_ :: ·) hs.holes, fun k hk ↦ ?_, hs.nodup, hs.bounds⟩
    change k < s.assembler.appendHole.chunk.size
    rcases List.mem_cons.mp hk with rfl | hk
    · omega
    · have hlt := hs.below k hk
      omega
  obtain ⟨touches, hd', ho⟩ := h rest qs hs₁
  refine ⟨_, .bind hm hd hd', ?_⟩
  rw [bind_of_ok hm]
  exact ho

/-- What fills the innermost reservation, which is that of a word written before, succeeds. -/
theorem filling {f : Assembler → Option Assembler} {offset : Nat}
    (write : Chunk → Nat → Option Chunk)
    (hd : Does (Analysis.filling f) s [.fill offset])
    (hf : f s.assembler = s.assembler.close offset write)
    (hw : ∀ c, offset < c.size → ∃ c', write c offset = some c' ∧ c'.size = c.size) :
    Orderly [offset] [] (Analysis.filling f) s := by
  intro rest qs hs
  have hholes : s.assembler.holes = offset :: rest := hs.holes
  obtain ⟨c, hc, hsize⟩ := hw s.assembler.chunk (hs.below offset List.mem_cons_self)
  have hclose : f s.assembler = some { s.assembler with chunk := c, holes := rest } := by
    rw [hf, Assembler.close, hholes]
    dsimp only
    rw [if_pos rfl, hc]
    rfl
  refine ⟨_, hd, ?_⟩
  rw [Analysis.filling, hclose]
  refine ⟨rfl, fun k hk ↦ ?_, hs.nodup, hs.bounds⟩
  change k < c.size
  rw [hsize]
  exact hs.below k (List.mem_cons_of_mem _ hk)

theorem fill {hole : Hole} {w : UInt32} : Orderly [hole.offset] [] (Analysis.fill hole w) s :=
  filling (·.patch? · w) .fill rfl fun _ hlt ↦ Chunk.exists_patch? hlt w

theorem fillOpcode {hole : Hole} {op : Opcode} :
    Orderly [hole.offset] [] (Analysis.fillOpcode hole op) s :=
  filling (·.patchOpcode? · op) .fillOpcode rfl fun _ hlt ↦ Chunk.exists_patchOpcode? hlt op

theorem fillCount {hole : CountHole} :
    Orderly [hole.offset] [] (Analysis.fillCount hole) s :=
  filling (·.patch? · (UInt32.ofNat (s.assembler.chunk.size - hole.offset - 1))) .fillCount rfl
    fun _ hlt ↦ Chunk.exists_patch? hlt _

theorem reserve {f : Hole → Analysis β}
    (h : ∀ hole s₁, Orderly (hole.offset :: os) ps (f hole) s₁) :
    Orderly os ps (Analysis.reserve >>= f) s := opening .reserve rfl (h ⟨_⟩ _)

theorem reserveCount {f : CountHole → Analysis β}
    (h : ∀ hole s₁, Orderly (hole.offset :: os) ps (f hole) s₁) :
    Orderly os ps (Analysis.reserveCount >>= f) s := opening .reserveCount rfl (h ⟨_⟩ _)

/-! ### Slots -/

/-- What asks for a slot leaves it to the steps behind it. -/
theorem newSlot {Γ : Setting} {span : Span} {f : Nat → Analysis β}
    (h : ∀ slot s₁, Orderly os (slot :: ps) (f slot) s₁) :
    Orderly os ps (Analysis.newSlot Γ span >>= f) s := by
  intro rest qs hs
  have hn : Does (Analysis.newSlot Γ span) s [] := .aside (.newSlot Γ span)
  rcases newSlot_cases Γ span s with hm | ⟨fault, hf, hm⟩
  · have hs₁ : Standing (os ++ rest) (s.frame.slotCount :: ps ++ qs)
        { s with frame := { s.frame with slotCount := s.frame.slotCount + 1 } } := by
      have hperm : (s.environment.slots ++ (s.frame.slotCount :: (ps ++ qs))).Perm
          (s.frame.slotCount :: (s.environment.slots ++ (ps ++ qs))) := List.perm_middle
      refine ⟨hs.holes, hs.below, hperm.nodup_iff.mpr (List.nodup_cons.mpr ⟨fun hk ↦ ?_,
        hs.nodup⟩), fun k hk ↦ ?_⟩
      · exact Nat.lt_irrefl _ (hs.bounds _ hk)
      · rcases List.mem_cons.mp (hperm.mem_iff.mp hk) with rfl | hk
        · exact Nat.lt_succ_self _
        · exact Nat.lt_succ_of_lt (hs.bounds k hk)
    obtain ⟨touches, hd, ho⟩ := h s.frame.slotCount _ rest qs hs₁
    refine ⟨_, .bind hm hn hd, ?_⟩
    rw [bind_of_ok hm]
    exact ho
  · refine ⟨_, .stop hm hn, ?_⟩
    rw [bind_of_error hm]
    exact hf

/-- A variable is declared in a slot that was left for it. -/
theorem declare {v : Variable} {slot : Nat} (hv : v.slot = slot) :
    Orderly [] [slot] (Analysis.declare v) s := by
  subst hv
  intro rest qs hs
  refine ⟨_, .aside (.declare v), ?_⟩
  rcases declare_cases v s with ⟨e, he, hm⟩ | ⟨fault, hf, hm⟩
  · rw [hm]
    refine hs.mono rfl (Nat.le_refl _) ?_ (Nat.le_refl _)
    refine List.Perm.subperm (((Environment.slots_of_declare he).append_right qs).trans ?_)
    exact List.perm_middle.symm
  · rw [hm]
    exact hf

/-! ### Frames -/

/-- The slots of an enclosing frame are given to the copies of its variables. -/
theorem takeOver {Γ : Setting} {span : Span} {captured : List Variable} {outerSlots : Nat}
    (hnodup : (captured.map (·.slot)).Nodup) (hlt : ∀ v ∈ captured, v.slot < outerSlots) :
    Orderly [] [] (Analysis.takeOver Γ span captured outerSlots) s := by
  intro rest qs hs
  have hleaves : LeavesCode (Analysis.takeOver Γ span captured outerSlots) :=
    .takeOver Γ span captured outerSlots
  refine ⟨[], .aside hleaves, ?_⟩
  have hassembler := hleaves.assembler s
  cases hm : Analysis.takeOver Γ span captured outerSlots s with
  | error fault s₁ =>
    rintro rfl
    exact hleaves.ne_misfilled s s₁ hm
  | ok first s₁ =>
    rw [hm] at hassembler
    obtain ⟨vs, hvs, hsub, -⟩ := declares_takeOver hm
    obtain ⟨hgiven, hbounds⟩ := slots_of_taken hsub hnodup hlt
    have hcount : s₁.frame.slotCount = s.frame.slotCount + outerSlots :=
      congrArg Context.slotCount hvs.context
    have hperm : (s₁.environment.slots ++ qs).Perm
        (vs.map (·.slot) ++ (s.environment.slots ++ qs)) := by
      have henvironment : s₁.environment
          = { s.environment with current := ⟨s.environment.current.declared ++ vs⟩ } :=
        congrArg Context.environment hvs.context
      rw [henvironment, ← List.append_assoc]
      exact (s.environment.slots_append vs).append_right qs
    -- the copies are behind all slots that were handed out before
    refine ⟨hassembler ▸ hs.holes, hassembler ▸ hs.below, hperm.nodup_iff.mpr
      (List.nodup_append.mpr ⟨hgiven, hs.nodup, fun k hk k' hk' ↦ ?_⟩), fun k hk ↦ ?_⟩
    · exact Nat.ne_of_gt (Nat.lt_of_lt_of_le (hs.bounds k' hk') (hbounds k hk).1)
    · rw [hcount]
      rcases List.mem_append.mp (hperm.mem_iff.mp hk) with hk | hk
      · exact (hbounds k hk).2
      · exact Nat.lt_add_right outerSlots (hs.bounds k hk)

/-- **A frame of its own.** An analysis that is orderly in a frame of its own gives and declares the
slots of that frame alone. -/
theorem inFrame (h : Orderly [] []  m
      { s with environment := .start s.environment.fields, frame := {} }) :
    Orderly [] [] (Analysis.inFrame m) s := by
  intro rest qs hs
  have hs₁ : Standing rest []
      { s with environment := .start s.environment.fields, frame := {} } :=
    ⟨hs.holes, hs.below, .nil, fun _ hk ↦ nomatch hk⟩
  obtain ⟨touches, hd, ho⟩ := h rest [] hs₁
  refine ⟨touches, .inFrame hd, ?_⟩
  rw [inFrame_eq]
  cases hm : m { s with environment := .start s.environment.fields, frame := {} } with
  | ok a s₁ =>
    rw [hm] at ho
    exact ⟨ho.holes, ho.below, hs.nodup, hs.bounds⟩
  | error fault s₁ =>
    rw [hm] at ho
    exact ho

end Orderly

end Pictograph
