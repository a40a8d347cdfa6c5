import Pictograph.Proofs.Compilation.BodyFrames
import Pictograph.Proofs.Compilation.References

/-!
# The slots of a frame are its own

Each frame of an accepted body, that of the body itself and those of its closures, hands out its
slots one after the other: to arguments, to copies of what a closure captures, to declarations, to
conditions that bind a value and, two at a time, to loops over the elements of a value. The first
slots are those of the arguments and of the frame around a closure. Each slot behind them is taken
by one expression of the frame, which takes it once. All slots that the code of a frame names are
below the number of its slots, which is what the header of the procedure or the word behind the
closure's opcode says.

Which slots an expression takes is told by a run of its construct that does the same as the
analysis, `Telling.expressionStep`. The code alone would not say it: where a variable is declared
without a value nothing is written, and an assignment looks the same whether its variable is new.

## Main definitions

* `Outline.Within`: the slots named in an outline are below a bound, and those in a closure below
  the number of slots of the closure.
* `FrameBody.SharesOut`: how a frame shares out its slots.

## Main results

* `Emits.within`: what is emitted names slots that were handed out.
* `FrameIn.sharesOut`: the frames of a procedure share out their slots.
* `frame_slots_private`: both properties, for accepted bodies.
-/

namespace Pictograph

/-! ## Slots in code -/

/-- Whether the immediate words of an opcode are slots of the frame it is executed in. -/
def Opcode.namesSlots : Opcode → Bool
  | access .frame _ | conditionalBind | forIn _ => true
  | _ => false

mutual

/-- All slots of the frame that an item names are below a bound. The slots in a closure are those of
another frame, whose number of slots the closure says. -/
def Item.Within (bound : Nat) : Item → Prop
  | .instruction op _ receiver words operands =>
    (op.namesSlots → ∀ w ∈ words, w.toNat < bound)
      ∧ Outline.Within bound receiver ∧ Outline.Within bound operands
  | .ifChain condition body rest | .elseIf condition body rest =>
    Outline.Within bound condition ∧ Outline.Within bound body ∧ Outline.Within bound rest
  | .otherwise body => Outline.Within bound body
  | .repeatWhile condition body => Outline.Within bound condition ∧ Outline.Within bound body
  | .forIn _ slot hidden iteratee body =>
    ((UInt32.ofNat slot).toNat < bound ∧ (UInt32.ofNat hidden).toNat < bound)
      ∧ Outline.Within bound iteratee ∧ Outline.Within bound body
  | .closure slots body _ _ _ => Outline.Within slots body

/-- All slots of the frame that an outline names are below a bound. -/
def Outline.Within (bound : Nat) : List Item → Prop
  | [] => True
  | item :: rest => item.Within bound ∧ Outline.Within bound rest

end

namespace Outline

theorem Within.append {bound : Nat} {o o' : Outline} (h : Within bound o)
    (h' : Within bound o') : Within bound (o ++ o') := by
  induction o with
  | nil => exact h'
  | cons item o ih => exact ⟨h.1, ih h.2⟩

theorem within_singleton {bound : Nat} {item : Item} :
    Within bound [item] ↔ item.Within bound := iff_of_eq (and_true _)

/-- An instruction whose immediate word may be a slot, with its operands behind it. -/
theorem within_plain {bound slot : Nat} {op : Opcode} {o : Outline}
    (hs : op.namesSlots → slot < bound) (ho : Within bound o) :
    Within bound [.plain op [UInt32.ofNat slot] o] := by
  refine within_singleton.mpr ⟨fun hn w hw ↦ ?_, trivial, ho⟩
  obtain rfl := List.mem_singleton.mp hw
  exact Nat.lt_of_le_of_lt (Nat.mod_le _ _) (hs hn)

end Outline

/-- All slots of the frame that a piece of code names are below a bound. -/
def Part.Within (bound : Nat) : Part → Prop
  | .code o | .chain o _ _ => Outline.Within bound o

theorem Opcode.storage_of_namesSlots {st : Storage} {action : Access}
    (h : (access st action).namesSlots) : st = .frame := by
  cases st with
  | frame => rfl
  | object => cases h

theorem Opcode.not_namesSlots_of_isOrdinary {op : Opcode} (h : op.isOrdinary) :
    op.namesSlots = false := by
  cases op <;> first | rfl | cases h

/-- A variable within reach is in a slot that was handed out. -/
theorem Context.Distinct.slot_lt {c : Context} {x : String} {st : Storage} {v : Variable}
    {action : Access} (hd : c.Distinct) (hx : c.environment.resolve? x = some (st, v))
    (hn : (Opcode.access st action).namesSlots) : v.slot < c.slotCount := by
  obtain rfl := Opcode.storage_of_namesSlots hn
  exact hd.lt v (Environment.holds_of_resolve? hx)

/-- **Only slots that were handed out are named.** -/
theorem Emits.within {π : Pins} {Γ : Setting} {part : Part} {k bound : Nat} {c c' : Context}
    (h : Emits π Γ part k c c') (hd : c.Distinct) (hb : c'.slotCount ≤ bound) :
    part.Within bound := by
  induction h generalizing bound with
  | nil | declare | chainEnd => trivial
  | append h₁ h₂ ih₁ ih₂ =>
    exact (ih₁ hd (Nat.le_trans h₂.grows.slotCount hb)).append (ih₂ (hd.grows h₁.grows) hb)
  | ordinary hop h₁ h₂ ih₁ ih₂ =>
    refine Outline.within_singleton.mpr ⟨fun hn ↦ ?_, ih₁ hd (Nat.le_trans h₂.grows.slotCount hb),
      ih₂ (hd.grows h₁.grows) hb⟩
    rw [Opcode.not_namesSlots_of_isOrdinary hop] at hn
    cases hn
  | load hx | step hx =>
    exact Outline.within_plain (fun hn ↦ Nat.lt_of_lt_of_le (hd.slot_lt hx hn) hb) trivial
  | introduce _ hs _ _ _ _ h₁ _ ih =>
    have hle := Nat.le_trans h₁.grows.slotCount hb
    exact Outline.within_plain (fun _ ↦ Nat.lt_of_lt_of_le (hs ▸ Nat.lt_succ_self _) hle)
      (ih (hd.addSlots 1) hb)
  | assign hx hm _ h₁ _ ih =>
    have hle := Nat.le_trans h₁.grows.slotCount hb
    exact Outline.within_plain (fun hn ↦ Nat.lt_of_lt_of_le (hd.slot_lt hx hn) hle)
      (ih (hd.grows (.mutate hx hm)) hb)
  | selfReference => exact Outline.within_singleton.mpr ⟨fun hn ↦ (nomatch hn), trivial, trivial⟩
  | superInitializer _ _ _ _ ih | returning _ _ ih =>
    exact Outline.within_singleton.mpr ⟨fun hn ↦ (nomatch hn), trivial, ih hd hb⟩
  | @ifChain Γ k c c₁ c₂ c₃ reports isTotal condition body rest h₁ h₂ h₃ ih₁ ih₂ ih₃ =>
    have hb₃ : c₃.slotCount ≤ bound := by
      cases isTotal <;> exact hb
    have hb₂ := Nat.le_trans h₃.grows.slotCount hb₃
    exact Outline.within_singleton.mpr
      ⟨ih₁ hd.enterScope (Nat.le_trans h₂.grows.slotCount hb₂),
        ih₂ ((hd.enterScope.grows h₁.grows).enterBlock _) hb₂,
        ih₃ (hd.grows (h₁.grows.branch h₂.grows)) hb₃⟩
  | otherwise _ ih => exact Outline.within_singleton.mpr (ih (hd.enterScope.enterBlock _) hb)
  | elseIf h₁ h₂ h₃ ih₁ ih₂ ih₃ =>
    have hb₂ := Nat.le_trans h₃.grows.slotCount hb
    exact Outline.within_singleton.mpr
      ⟨ih₁ hd.enterScope (Nat.le_trans h₂.grows.slotCount hb₂),
        ih₂ ((hd.enterScope.grows h₁.grows).enterBlock _) hb₂,
        ih₃ (hd.grows (h₁.grows.branch h₂.grows)) hb⟩
  | repeatWhile h₁ h₂ ih₁ ih₂ =>
    exact Outline.within_singleton.mpr ⟨ih₁ hd (Nat.le_trans h₂.grows.slotCount hb),
      ih₂ ((hd.grows h₁.grows).enterScope.enterBlock _) hb⟩
  | @forIn Γ k c c₁ c₂ v e overList iteratee body hs _ hr _ h₁ hdecl h₂ ih₁ ih₂ =>
    have hb₁ := Nat.le_trans h₂.grows.slotCount hb
    -- the loop takes the next two slots
    have hle : c.slotCount + 2 ≤ bound := Nat.le_trans h₁.grows.slotCount hb₁
    have hwords : (UInt32.ofNat v.slot).toNat < bound
        ∧ (UInt32.ofNat (v.slot + 1)).toNat < bound := by
      refine ⟨Nat.lt_of_le_of_lt (Nat.mod_le _ _) ?_, Nat.lt_of_le_of_lt (Nat.mod_le _ _) ?_⟩
      all_goals omega
    have hgrows := h₁.grows_loop hs hr hdecl
    exact Outline.within_singleton.mpr ⟨hwords, ih₁ (hd.enterScope.addSlots 2) hb₁,
      ih₂ (.enterBlock (hd.enterScope.grows hgrows) _) hb⟩
  | closure _ _ hc₀ _ _ hf₀ _ _ _ _ h₁ ih =>
    exact Outline.within_singleton.mpr (ih ((hc₀ hd).distinct (hf₀ ▸ hd.object)) (Nat.le_refl _))

/-! ## Frames -/

/-- How a frame shares out its slots, which is entered in the state `entry` and whose statements end
in the state `ending`. -/
structure FrameBody.SharesOut (b : FrameBody) (entry ending : State) : Prop where
  /-- The arguments and the copies of what is taken over are in the first slots, each in its own. -/
  start : entry.context.IsStart (b.arguments.length + b.outerSlots)
  /-- An expression takes the slots that are told when it is analysed. -/
  told : ∀ n q, b.Has entry (n + 1) q → ∃ t s, (Analysis.expression (n + 1)).answer q = .ok t s
    ∧ (Telling.expressionStep (Analysis.expression n) q.setting q.token q.hint).run q.state
      = .ok (t, q.taken (n + 1)) s
  /-- It takes no slot twice. -/
  once : ∀ n q, b.Has entry n q → (q.taken n).Nodup
  /-- Each slot behind the first ones is taken by one expression, and no others are. -/
  shared : ∀ slot, entry.frame.slotCount ≤ slot ∧ slot < ending.frame.slotCount ↔
    ∃! p : Nat × Query, b.Has entry p.1 p.2 ∧ slot ∈ p.2.taken p.1
  /-- The variables in reach of an expression are in slots that were handed out, each in its own. -/
  distinct : ∀ n q, b.Has entry n q → q.state.environment.Distinct q.state.frame.slotCount

section

variable {cat : Catalogue} {options : Options} {session session' : Session} {c : Class}
  {m : Member} {tokens : List Token} {record : Record} {place : Option Nat} {b : FrameBody}
  {entry ending : State}

/-- A frame starts with its arguments and with what it takes over. -/
theorem FrameIn.isStart (hb : FrameIn cat options session c m tokens place b)
    (henter : b.Enters entry) :
    entry.context.IsStart (b.arguments.length + b.outerSlots) := by
  obtain ⟨first, henter⟩ := henter
  cases hb with
  | own => exact Analysis.isStart_of_enterBody rfl rfl henter .nil fun _ hv ↦ nomatch hv
  | @closure n q arguments result s₁ s₂ hq hclosure harguments hresult =>
    -- what is visible in front of the heading of a closure is in slots of its own
    have hcontext : s₂.context = q.state.context :=
      (Analysis.keeps_heading harguments hresult).context
    have hdistinct : s₂.environment.Distinct s₂.frame.slotCount := by
      have henvironment : s₂.environment = q.state.environment :=
        congrArg Context.environment hcontext
      have hcount : s₂.frame.slotCount = q.state.frame.slotCount :=
        congrArg Context.slotCount hcontext
      rw [henvironment, hcount]
      exact hq.distinct
    obtain ⟨hnodup, hlt⟩ := hdistinct.visible
    exact Analysis.isStart_of_enterBody rfl rfl henter hnodup hlt

/-- **The frames of an accepted procedure share out their slots.** -/
theorem FrameIn.sharesOut (hb : FrameIn cat options session c m tokens place b)
    (h : compile cat options session c m tokens = (.ok record, session'))
    (hruns : b.Runs entry ending) : b.SharesOut entry ending := by
  obtain ⟨henter, close, hstatements⟩ := hruns
  obtain ⟨honce, hshared⟩ := Analysis.shares_bodyStatements hstatements
  refine ⟨hb.isStart henter, fun n q hq ↦ ?_, honce, hshared, fun n q hq ↦ ?_⟩
  · obtain ⟨t, s, hanswer⟩ := (hb.reachedIn henter hq).answered h
    exact ⟨t, s, hanswer, Query.told hanswer⟩
  · exact (hb.reachedIn henter hq).distinct

/-- **The slots of a frame are its own.** All of an accepted body is analysed in its frames, that of
the procedure and those of closures. In each of them the slots of the arguments and of what is taken
over are distinct, and of the slots behind them each is given once, to a declared variable, to a
bound condition or to a loop. The record says how many slots the frame has, and the slots that its
code names are below this number. -/
theorem frame_slots_private (h : compile cat options session c m tokens = (.ok record, session')) :
    FramesCover cat options session c m tokens
    ∧ (∀ place b, FrameIn cat options session c m tokens place b → ∃ entry ending,
      b.Runs entry ending ∧ b.SharesOut entry ending ∧ record.Counts place ending.frame.slotCount)
    ∧ ∃ o, IsOnlyOutline (AnsweredIn cat options session c m tokens) o record.code
      ∧ Outline.Within record.header.slotCount o := by
  refine ⟨framesCover_of_compile h, fun place b hb ↦ ?_, ?_⟩
  · obtain ⟨entry, ending, hruns, hcounts⟩ := hb.exists_runs h
    exact ⟨entry, ending, hruns, hb.sharesOut h hruns, hcounts⟩
  · cases hm : m.isNative with
    | true => exact ⟨[], (isOutline_native hm h _).isOnly h, trivial⟩
    | false =>
      obtain ⟨o, c₀, c₁, he⟩ := compile_emitted hm h
      refine ⟨o, he.isOutline.isOnly h, ?_⟩
      rw [he.slotCount]
      exact he.emits.within he.distinct (Nat.le_refl _)

end

namespace Sample

/-- A body with a variable of its own and one in a closure, `🍇 🍦 x 1 🍉 🍦 y 2 🍉`. -/
def privateSlots : List Token :=
  [ask .blockOpen, ask .declareFrozen, word (.reference "x"), word (.integer 1), ask .blockClose,
    ask .declareFrozen, word (.reference "y"), word (.integer 2), ask .blockClose]

theorem listing_privateSlots : listing? catalogue {} .start parentClass method privateSlots
    = some (Outline.entries [
      .closure 1 [.plain (.access .frame .store) [0] [.plain .integer [1] []]] 0 false 0,
      .plain (.access .frame .store) [0] [.plain .integer [2] []]]) := by
  decide +kernel

end Sample

/-- Both frames of a body with a closure have a slot, and it is the first one. -/
theorem frame_slots_private_sample :
    ∃ record session' b entry ending, compile Sample.catalogue {} .start Sample.parentClass
        Sample.method Sample.privateSlots = (.ok record, session')
      ∧ FrameIn Sample.catalogue {} .start Sample.parentClass Sample.method Sample.privateSlots
        (some 0) b
      ∧ b.Runs entry ending ∧ b.SharesOut entry ending
      ∧ UInt32.ofNat ending.frame.slotCount = 1 := by
  obtain ⟨record, session', h, hlisting⟩ := exists_record Sample.listing_privateSlots
  obtain ⟨hcover, hframes, -⟩ := frame_slots_private h
  have hfirst : ReachedIn Sample.catalogue {} .start Sample.parentClass Sample.method
      Sample.privateSlots 9 (.first (.ofMember Sample.catalogue {} Sample.parentClass Sample.method)
        _ .start (Sample.ask .blockOpen) Sample.privateSlots.tail) :=
    reachedIn_first (by decide +kernel) (by decide +kernel) Sample.fieldsFor_method
      (by decide +kernel)
  obtain ⟨b, hb⟩ := hcover.closures _ _ hfirst (by decide +kernel)
  obtain ⟨entry, ending, hruns, hshares, hcounts⟩ := hframes _ b hb
  have hword : record.code.wordAt? 1 = some 1 := by
    rw [Chunk.wordAt?_eq, hlisting]
    rfl
  exact ⟨record, session', b, entry, ending, h, hb, hruns, hshares,
    Option.some.inj (hcounts.symm.trans hword)⟩

end Pictograph
