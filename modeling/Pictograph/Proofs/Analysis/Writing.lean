import Pictograph.Proofs.Analysis.Emission
import Pictograph.Proofs.Analysis.Query
import Pictograph.Proofs.Code.Offsets
import Pictograph.Proofs.Code.Places
import Pictograph.Proofs.Code.Returns

/-!
# What an analysis writes

Seen from outside, a successful step of an analysis adds words to the listing of the chunk, opens
and closes reservations, and takes one context to another. A step that emits an outline by the rules
leaves no reservation of its own open. Instructions with a reserved word are put together from three
parts: what opens the reservation, what is written behind it, and what fills it.

## Main definitions

* `State.listing`, `State.context`: the parts of a state that the rules for emitted code are about.
* `Adds`: a step only writes words.
* `Wrote`: a step emits an outline.
* `Inside`: a reservation is open, and some words were written behind it.
-/

namespace Pictograph

/-! ## Views of a state -/

namespace State

/-- The offset of the next word. -/
def offset (s : State) : Nat := s.assembler.chunk.size

/-- The words written so far. -/
def listing (s : State) : List Entry := s.assembler.chunk.listing

/-- The reservations that are open. -/
def holes (s : State) : List Nat := s.assembler.holes

/-- What the rules for emitted code know of a state. -/
def context (s : State) : Context :=
  ⟨s.environment, s.frame.slotCount, s.frame.flowDepth, s.frame.calledSuper, s.frame.hasReturned⟩

theorem length_listing (s : State) : s.listing.length = s.offset :=
  s.assembler.chunk.length_listing

/-- Words that are written move the offset. -/
theorem offset_of_listing {s s' : State} {es : List Entry} (h : s'.listing = s.listing ++ es) :
    s'.offset = s.offset + es.length := by
  rw [← s'.length_listing, ← s.length_listing, h, List.length_append]

theorem offset_congr {s s' : State} (h : s'.listing = s.listing) : s'.offset = s.offset := by
  rw [← s'.length_listing, h, s.length_listing]

end State

/-! ## Writing words -/

/-- A step writes words and does nothing else that matters for emitted code. -/
structure Adds (es : List Entry) (s s' : State) : Prop where
  listing : s'.listing = s.listing ++ es
  holes : s'.holes = s.holes
  context : s'.context = s.context
  effect : s.frame.hasEffect → s'.frame.hasEffect

/-- A step that writes nothing. -/
abbrev Keeps (s s' : State) : Prop := Adds [] s s'

namespace Adds

variable {es es' : List Entry} {s s' s'' : State}

theorem keeps (hl : s'.listing = s.listing) (hh : s'.holes = s.holes)
    (hc : s'.context = s.context) (he : s.frame.hasEffect → s'.frame.hasEffect) : Keeps s s' :=
  ⟨by rw [hl, List.append_nil], hh, hc, he⟩

theorem refl (s : State) : Keeps s s := keeps rfl rfl rfl id

theorem trans (h : Adds es s s') (h' : Adds es' s' s'') : Adds (es ++ es') s s'' where
  listing := by rw [h'.listing, h.listing, List.append_assoc]
  holes := h'.holes.trans h.holes
  context := h'.context.trans h.context
  effect := h'.effect ∘ h.effect

theorem offset (h : Adds es s s') : s'.offset = s.offset + es.length :=
  State.offset_of_listing h.listing

end Adds

namespace Analysis

variable {α : Type} {s s' : State}

theorem listing_pushOpcode (c : Chunk) (op : Opcode) (line : Nat) :
    (c.pushOpcode op line).listing = c.listing ++ [op.entry] := by
  rw [Chunk.listing, Chunk.pushOpcode, Array.toList_push, List.map_append]
  rfl

theorem listing_pushWord (c : Chunk) (w : UInt32) (line : Nat) :
    (c.pushWord w line).listing = c.listing ++ [immediate w] := by
  rw [Chunk.listing, Chunk.pushWord, Array.toList_push, List.map_append]
  rfl

theorem adds_emit {op : Opcode} {u : Unit} (h : emit op s = .ok u s') : Adds [op.entry] s s' := by
  cases h
  exact ⟨listing_pushOpcode _ _ _, rfl, rfl, id⟩

theorem adds_word {w : UInt32} {u : Unit} (h : emitWord w s = .ok u s') :
    Adds [immediate w] s s' := by
  cases h
  exact ⟨listing_pushWord _ _ _, rfl, rfl, id⟩

theorem adds_number {n : Nat} {u : Unit} (h : emitNumber n s = .ok u s') :
    Adds [immediateNumber n] s s' := adds_word h

theorem adds_wide {value : UInt64} {u : Unit} (h : emitWide value s = .ok u s') :
    Adds [immediate (Chunk.highWord value), immediate (Chunk.lowWord value)] s s' := by
  cases h
  refine ⟨?_, rfl, rfl, id⟩
  change (Chunk.pushWide _ _ _).listing = _
  rw [Chunk.pushWide, listing_pushWord, listing_pushWord, List.append_assoc]
  rfl

/-! ## Steps that write nothing -/

theorem keeps_reading {r : Reading α} {a : α} (h : reading r s = .ok a s') : Keeps s s' := by
  unfold reading at h
  split at h <;> cases h
  exact .keeps rfl rfl rfl id

theorem keeps_annotated {Γ : Setting} {dynamism : Dynamism} {t : Ty × Bool}
    (h : annotation Γ dynamism s = .ok t s') : Keeps s s' := keeps_reading h

theorem keeps_next {token : Token} (h : next s = .ok token s') : Keeps s s' := keeps_reading h

theorem keeps_name {x : Symbol × Span} (h : name s = .ok x s') : Keeps s s' := keeps_reading h

theorem keeps_variableName {x : String × Span} (h : variableName s = .ok x s') : Keeps s s' :=
  keeps_reading h

theorem keeps_accepts {construct : Construct} {b : Bool} (h : accepts construct s = .ok b s') :
    Keeps s s' := by
  obtain ⟨token?, s₁, h₁, h⟩ := bind_ok h
  cases h
  exact keeps_reading h₁

theorem keeps_here {span : Span} (h : here s = .ok span s') : Keeps s s' := by
  cases h
  exact .keeps rfl rfl rfl id

theorem keeps_setLine {line : Nat} {u : Unit} (h : setLine line s = .ok u s') : Keeps s s' := by
  cases h
  exact .keeps rfl rfl rfl id

theorem keeps_warn {remark : Remark} {span : Span} {u : Unit} (h : warn remark span s = .ok u s') :
    Keeps s s' := by
  cases h
  exact .keeps rfl rfl rfl id

/-- A warning that may be left out. -/
theorem keeps_optional_warn {remark : Remark} {span : Span}
    (h : warn remark span s = .ok () s' ∨ s = s') : Keeps s s' := by
  rcases h with h | rfl
  · exact keeps_warn h
  · exact .refl s

theorem keeps_intern {content : String} {index : Nat} (h : intern content s = .ok index s') :
    Keeps s s' := by
  cases h
  exact .keeps rfl rfl rfl id

theorem keeps_useSelf {u : Unit} (h : useSelf s = .ok u s') : Keeps s s' := by
  cases h
  exact .keeps rfl rfl rfl id

/-! ## Reserved words -/

/-- Behind a reserved word some words were written, and the reservation is the innermost one that is
open. -/
structure Inside (es : List Entry) (s s' : State) : Prop where
  listing : s'.listing = s.listing ++ immediate 0 :: es
  holes : s'.holes = s.offset :: s.holes

theorem Inside.adds {es es' : List Entry} {s'' : State} (h : Inside es s s')
    (hl : s''.listing = s'.listing ++ es') (hh : s''.holes = s'.holes) :
    Inside (es ++ es') s s'' := by
  refine ⟨?_, hh.trans h.holes⟩
  rw [hl, h.listing, List.append_assoc, List.cons_append]

theorem Inside.offset {es : List Entry} (h : Inside es s s') :
    s'.offset = s.offset + 1 + es.length := by
  rw [State.offset_of_listing h.listing, List.length_cons]
  omega

theorem inside_reserve {hole : Hole} (h : reserve s = .ok hole s') :
    Inside [] s s' ∧ hole.offset = s.offset ∧ s'.context = s.context
      ∧ (s.frame.hasEffect → s'.frame.hasEffect) := by
  cases h
  exact ⟨⟨listing_pushWord _ _ _, rfl⟩, rfl, rfl, id⟩

theorem inside_reserveCount {hole : CountHole} (h : reserveCount s = .ok hole s') :
    Inside [] s s' ∧ hole.offset = s.offset ∧ s'.context = s.context
      ∧ (s.frame.hasEffect → s'.frame.hasEffect) := by
  cases h
  exact ⟨⟨listing_pushWord _ _ _, rfl⟩, rfl, rfl, id⟩

/-- Filling a reserved word changes that word. -/
theorem set_reserved {L es : List Entry} {offset : Nat} (ho : L.length = offset) (e : Entry) :
    (L ++ immediate 0 :: es).set offset e = L ++ e :: es := by
  subst ho
  rw [List.set_append_right _ _ (Nat.le_refl _), Nat.sub_self]
  rfl

theorem listing_patch? {c c' : Chunk} {L es : List Entry} {offset : Nat} {w : UInt32}
    (hl : c.listing = L ++ immediate 0 :: es) (ho : L.length = offset)
    (h : c.patch? offset w = some c') : c'.listing = L ++ immediate w :: es := by
  unfold Chunk.patch? at h
  split at h
  · next hlt =>
    cases h
    -- patching a word keeps the mark of its cell, and a reserved word has none
    have hmark : c.cells[offset].mark = none := by
      have hget : c.listing[offset]? = some (c.cells[offset].word, c.cells[offset].mark) := by
        rw [Chunk.listing, List.getElem?_map, Array.getElem?_toList,
          Array.getElem?_eq_getElem hlt]
        rfl
      have hat : (L ++ immediate 0 :: es)[offset]? = some (immediate 0) := by
        rw [← ho, List.getElem?_append_right (Nat.le_refl _), Nat.sub_self]
        rfl
      rw [hl, hat] at hget
      exact (Prod.mk.inj (Option.some.inj hget)).2.symm
    rw [Chunk.listing, Array.toList_set, List.map_set, hmark]
    rw [Chunk.listing] at hl
    rw [hl]
    exact set_reserved ho _
  · cases h

theorem listing_patchOpcode? {c c' : Chunk} {L es : List Entry} {offset : Nat} {op : Opcode}
    (hl : c.listing = L ++ immediate 0 :: es) (ho : L.length = offset)
    (h : c.patchOpcode? offset op = some c') : c'.listing = L ++ op.entry :: es := by
  unfold Chunk.patchOpcode? at h
  split at h
  · cases h
    rw [Chunk.listing, Array.toList_set, List.map_set]
    rw [Chunk.listing] at hl
    rw [hl]
    exact set_reserved ho _
  · cases h

/-- A reserved word is filled, and the reservation is closed. -/
structure Filled (e : Entry) (es : List Entry) (s s' s'' : State) : Prop where
  listing : s''.listing = s.listing ++ e :: es
  holes : s''.holes = s.holes
  context : s''.context = s'.context
  effect : s'.frame.hasEffect → s''.frame.hasEffect

theorem filled_close {es : List Entry} {e : Entry} {s'' : State} {u : Unit} {offset : Nat}
    {write : Chunk → Nat → Option Chunk} (hi : Inside es s s') (ho : offset = s.offset)
    (hw : ∀ c, write s'.assembler.chunk s.offset = some c → c.listing = s.listing ++ e :: es)
    (h : filling (·.close offset write) s' = .ok u s'') : Filled e es s s' s'' := by
  subst ho
  have hholes : s'.assembler.holes = s.offset :: s.holes := hi.holes
  obtain ⟨asm, hasm, rfl⟩ := filling_ok h
  obtain ⟨c, holes, hc, hclosed, rfl⟩ := Assembler.exists_of_close hasm
  exact ⟨hw c hc, (List.cons.inj (hclosed.symm.trans hholes)).2, rfl, id⟩

theorem filled_fill {es : List Entry} {w : UInt32} {s'' : State} {u : Unit} {hole : Hole}
    (hi : Inside es s s') (ho : hole.offset = s.offset) (h : fill hole w s' = .ok u s'') :
    Filled (immediate w) es s s' s'' :=
  filled_close hi ho (fun _ ↦ listing_patch? hi.listing s.length_listing) h

theorem filled_fillOpcode {es : List Entry} {op : Opcode} {s'' : State} {u : Unit} {hole : Hole}
    (hi : Inside es s s') (ho : hole.offset = s.offset) (h : fillOpcode hole op s' = .ok u s'') :
    Filled op.entry es s s' s'' :=
  filled_close hi ho (fun _ ↦ listing_patchOpcode? hi.listing s.length_listing) h

theorem filled_fillCount {es : List Entry} {s'' : State} {u : Unit} {hole : CountHole}
    (hi : Inside es s s') (ho : hole.offset = s.offset) (h : fillCount hole s' = .ok u s'') :
    Filled (immediateNumber es.length) es s s' s'' := by
  -- the words behind the reservation are counted, without the reserved word itself
  have hn : s'.assembler.chunk.size - hole.offset - 1 = es.length := by
    have h := hi.offset
    rw [ho]
    change s'.assembler.chunk.size = _ at h
    omega
  refine filled_close hi ho (fun c hc ↦ ?_) h
  rw [hn] at hc
  exact listing_patch? hi.listing s.length_listing hc

end Analysis

/-! ## Emitting -/

/-- What is said about the places of a body beyond the code itself and the rules. -/
structure Notes extends Pins, Places where
  /-- An operand may be missing at an offset. -/
  gap : Nat → Prop
  /-- The call at an offset takes so many arguments. -/
  callee : Nat → Nat → Prop
  /-- The closure at an offset has a return type. -/
  returns : Nat → Ty → Prop

/-- An outline that starts at an offset is made of expressions. -/
structure Outline.Expressions (π : Notes) (o : Outline) (k : Nat) : Prop where
  follows : Outline.Follows π.toPlaces o k
  laid : Outline.Laid π.gap π.callee o k
  returnsProperly : Outline.ReturnsProperly π.returns o k

/-- An outline that starts at an offset is made of a number of operands, none of which is a
return. -/
structure Outline.Operands (π : Notes) (n : Nat) (o : Outline) (k : Nat) : Prop
    extends Outline.Expressions π o k where
  fills : Outline.Fills π.gap n o k
  withoutReturn : Outline.WithoutReturn o

theorem Outline.Expressions.nil {π : Notes} {k : Nat} : Outline.Expressions π [] k :=
  ⟨trivial, trivial, trivial⟩

theorem Outline.Expressions.append {π : Notes} {o o' : Outline} {k : Nat}
    (h : Outline.Expressions π o k) (h' : Outline.Expressions π o' (k + Outline.size o)) :
    Outline.Expressions π (o ++ o') k :=
  ⟨h.follows.append h'.follows, h.laid.append h'.laid,
    h.returnsProperly.append h'.returnsProperly⟩

theorem Outline.Operands.nil {π : Notes} {k : Nat} : Outline.Operands π 0 [] k :=
  ⟨.nil, .nil, .nil⟩

/-- An item is laid out as its opcode says if its operands are. -/
theorem Item.laid_instruction {π : Notes} {op : Opcode} {counted : Counted} {words : List UInt32}
    {r n k : Nat} {count : OperandCount} {receiver operands : Outline}
    (hl : op.layout? = some ⟨counted, r, words.length, count⟩)
    (ha : count.Admits (π.callee k) words n)
    (hr : Outline.Operands π r receiver (k + 1 + counted.size))
    (ho : Outline.Operands π n operands
      (k + 1 + counted.size + Outline.size receiver + words.length)) :
    (Item.instruction op counted receiver words operands).Laid π.gap π.callee k :=
  ⟨⟨_, r, n, hl, ⟨rfl, rfl, rfl, ha⟩, hr.fills, ho.fills⟩, hr.laid, ho.laid⟩

/-- An item has the parts that its opcode asks for if its operands are there. -/
theorem Item.follows_instruction {π : Notes} {op : Opcode} {counted : Counted}
    {words : List UInt32} {r n k : Nat} {count : OperandCount} {receiver operands : Outline}
    (hop : op.isControl = false) (hl : op.layout? = some ⟨counted, r, words.length, count⟩)
    (ha : count.Admits (π.callee k) words n)
    (hr : Outline.Operands π r receiver (k + 1 + counted.size))
    (ho : Outline.Operands π n operands
      (k + 1 + counted.size + Outline.size receiver + words.length))
    (hs : π.spans k (k + (Item.instruction op counted receiver words operands).size)) :
    (Item.instruction op counted receiver words operands).Follows π.toPlaces k :=
  have hfits : Layout.Fits ⟨counted, r, words.length, count⟩ (π.callee k) counted r words n :=
    ⟨rfl, rfl, rfl, ha⟩
  ⟨hop, ⟨_, hl, hfits.bounds hr.fills ho.fills⟩, hs, hr.follows, ho.follows⟩

/-- The operands of an instruction are no returns. -/
theorem Item.returnsProperly_instruction {π : Notes} {op : Opcode} {counted : Counted}
    {words : List UInt32} {r n k : Nat} {receiver operands : Outline}
    (hr : Outline.Operands π r receiver (k + 1 + counted.size))
    (ho : Outline.Operands π n operands
      (k + 1 + counted.size + Outline.size receiver + words.length)) :
    (Item.instruction op counted receiver words operands).ReturnsProperly π.returns k :=
  ⟨hr.withoutReturn, ho.withoutReturn, hr.returnsProperly, ho.returnsProperly⟩

/-- A step emits an outline. -/
structure Written (π : Pins) (Γ : Setting) (o : Outline) (s s' : State) : Prop where
  emits : Emits π Γ (.code o) s.offset s.context s'.context
  listing : s'.listing = s.listing ++ Outline.entries o
  holes : s'.holes = s.holes

/-- A step emits an outline of expressions. -/
structure Writes (π : Notes) (Γ : Setting) (o : Outline) (s s' : State) : Prop
    extends Written π.toPins Γ o s s' where
  expressions : Outline.Expressions π o s.offset

/-- A step emits an outline of operands. Around it something has had an effect, and this remains
true. -/
structure WritesOperands (π : Notes) (Γ : Setting) (n : Nat) (o : Outline) (s s' : State) : Prop
    extends Written π.toPins Γ o s s' where
  operands : Outline.Operands π n o s.offset
  effect : s'.frame.hasEffect

/-- A step emits some outline of expressions. -/
def WroteSome (π : Notes) (Γ : Setting) (s s' : State) : Prop := ∃ o, Writes π Γ o s s'

/-- A step emits an outline of no more than so many expressions. If it is taken inside another
expression, they are so many operands, none of which is a return. -/
def Wrote (π : Notes) (Γ : Setting) (n : Nat) (s s' : State) : Prop :=
  ∃ o, Writes π Γ o s s' ∧ o.length ≤ n ∧ (s.frame.hasEffect →
    Outline.Fills π.gap n o s.offset ∧ Outline.WithoutReturn o ∧ s'.frame.hasEffect)

theorem Opcode.isControl_of_isOrdinary {op : Opcode} (h : op.isOrdinary) :
    op.isControl = false := by
  cases op <;> first | rfl | cases h

section

variable {π : Notes} {Γ : Setting} {s s₁ s₂ s₃ s' : State} {o : Outline} {n n' : Nat}

theorem Written.offset (h : Written π.toPins Γ o s s') : s'.offset = s.offset + o.size :=
  State.offset_of_listing h.listing

/-- A step in front of which nothing is written. -/
theorem Written.behind (h : Written π.toPins Γ o s₁ s') (hl : s₁.listing = s.listing)
    (hh : s₁.holes = s.holes) (hc : s₁.context = s.context) : Written π.toPins Γ o s s' := by
  have he := h.emits
  rw [State.offset_congr hl, hc] at he
  exact ⟨he, by rw [h.listing, hl], h.holes.trans hh⟩

theorem Written.of_keeps (hk : Keeps s s₁) (h : Written π.toPins Γ o s₁ s') :
    Written π.toPins Γ o s s' :=
  h.behind (hk.listing.trans (List.append_nil _)) hk.holes hk.context

/-- A step in front of which nothing is written. -/
theorem Writes.behind (h : Writes π Γ o s₁ s') (hl : s₁.listing = s.listing)
    (hh : s₁.holes = s.holes) (hc : s₁.context = s.context) : Writes π Γ o s s' :=
  ⟨h.toWritten.behind hl hh hc, State.offset_congr hl ▸ h.expressions⟩

theorem Writes.of_keeps (hk : Keeps s s₁) (h : Writes π Γ o s₁ s') : Writes π Γ o s s' :=
  h.behind (hk.listing.trans (List.append_nil _)) hk.holes hk.context

/-- A step that writes nothing emits the empty outline. -/
theorem Writes.nil (h : Keeps s s') : Writes π Γ [] s s' := by
  refine ⟨⟨?_, h.listing, h.holes⟩, .nil⟩
  rw [h.context]
  exact .nil

/-- Operands stand one behind the other. -/
theorem Outline.Operands.append {o' : Outline} {k : Nat} (h : Outline.Operands π n o k)
    (h' : Outline.Operands π n' o' (k + Outline.size o)) :
    Outline.Operands π (n + n') (o ++ o') k :=
  ⟨h.toExpressions.append h'.toExpressions, h.fills.append h'.fills,
    h.withoutReturn.append h'.withoutReturn⟩

/-- Two steps emit one outline after the other. -/
theorem Writes.append {o' : Outline} (h : Writes π Γ o s s₁) (h' : Writes π Γ o' s₁ s') :
    Writes π Γ (o ++ o') s s' := by
  have he := h'.emits
  have hx := h'.expressions
  rw [h.offset] at he hx
  refine ⟨⟨.append h.emits he, ?_, h'.holes.trans h.holes⟩, h.expressions.append hx⟩
  rw [h'.listing, h.listing, List.append_assoc, Outline.entries_append]

/-- An instruction that writes its opcode, its immediate words and then its operands. The context
may change in front of the operands and behind them. -/
theorem Written.plain (op : Opcode) (words : List UInt32)
    (hl₁ : s₁.listing = s.listing ++ op.entry :: words.map immediate) (hh₁ : s₁.holes = s.holes)
    (ho : WritesOperands π Γ n o s₁ s₂) (hl₂ : s'.listing = s₂.listing)
    (hh₂ : s'.holes = s₂.holes)
    (he : Emits π.toPins Γ (.code o) (s.offset + 1 + words.length) s₁.context s₂.context →
      Emits π.toPins Γ (.code [.plain op words o]) s.offset s.context s'.context) :
    Written π.toPins Γ [.plain op words o] s s'
      ∧ Outline.Operands π n o (s.offset + 1 + words.length) := by
  have hoff : s₁.offset = s.offset + 1 + words.length := by
    rw [State.offset_of_listing hl₁, List.length_cons, List.length_map]
    omega
  have he' := ho.emits
  have hp := ho.operands
  rw [hoff] at he' hp
  refine ⟨⟨he he', ?_, hh₂.trans (ho.holes.trans hh₁)⟩, hp⟩
  rw [hl₂, ho.listing, hl₁, List.append_assoc, Outline.entries_singleton]
  rfl

namespace WroteSome

theorem of_keeps (h : Keeps s s') : WroteSome π Γ s s' := ⟨[], .nil h⟩

theorem refl (s : State) : WroteSome π Γ s s := of_keeps (.refl s)

theorem trans (h : WroteSome π Γ s s₁) (h' : WroteSome π Γ s₁ s') : WroteSome π Γ s s' := by
  obtain ⟨o, h⟩ := h
  obtain ⟨o', h'⟩ := h'
  exact ⟨o ++ o', h.append h'⟩

end WroteSome

namespace Wrote

/-- Inside an expression, a step emits operands. -/
theorem operands (h : Wrote π Γ n s s') (he : s.frame.hasEffect) :
    ∃ o, WritesOperands π Γ n o s s' := by
  obtain ⟨o, hw, -, ho⟩ := h
  obtain ⟨hf, hr, he'⟩ := ho he
  exact ⟨o, hw.toWritten, ⟨hw.expressions, hf, hr⟩, he'⟩

theorem of_keeps (h : Keeps s s') : Wrote π Γ 0 s s' :=
  ⟨[], .nil h, Nat.le_refl 0, fun he ↦ ⟨.nil, .nil, h.effect he⟩⟩

theorem refl (s : State) : Wrote π Γ 0 s s := of_keeps (.refl s)

theorem trans (h : Wrote π Γ n s s₁) (h' : Wrote π Γ n' s₁ s') : Wrote π Γ (n + n') s s' := by
  obtain ⟨o, h, hle, hn⟩ := h
  obtain ⟨o', h', hle', hn'⟩ := h'
  refine ⟨o ++ o', h.append h', ?_, fun heff ↦ ?_⟩
  · rw [List.length_append]
    exact Nat.add_le_add hle hle'
  obtain ⟨hf, hr, heff⟩ := hn heff
  obtain ⟨hf', hr', heff⟩ := hn' heff
  rw [h.offset] at hf'
  exact ⟨hf.append hf', hr.append hr', heff⟩

/-- A step in front of which nothing is written. -/
theorem behind (hk : Keeps s s₁) (h : Wrote π Γ n s₁ s') : Wrote π Γ n s s' :=
  Nat.zero_add n ▸ (of_keeps hk).trans h

/-- A step behind which nothing is written. -/
theorem before (h : Wrote π Γ n s s₁) (hk : Keeps s₁ s') : Wrote π Γ n s s' :=
  h.trans (of_keeps hk)

/-- An expression that emits nothing is missing where an operand is expected. -/
theorem missing (h : Writes π Γ [] s s') (he : s.frame.hasEffect → s'.frame.hasEffect)
    (hg : s.frame.hasEffect → π.gap s.offset) : Wrote π Γ 1 s s' :=
  ⟨[], h, Nat.zero_le 1, fun hs ↦ ⟨.gap (hg hs) .nil, .nil, he hs⟩⟩

/-- An expression emits a single item. It is no return if something has had an effect in front of
it. -/
theorem single {item : Item} (hs : π.spans s.offset s'.offset)
    (h : Written π.toPins Γ [item] s s')
    (hf : π.spans s.offset (s.offset + item.size) → item.Follows π.toPlaces s.offset)
    (hl : item.Laid π.gap π.callee s.offset) (hp : item.ReturnsProperly π.returns s.offset)
    (he : s.frame.hasEffect → item.isReturn = false ∧ s'.frame.hasEffect) :
    Wrote π Γ 1 s s' := by
  have ho := h.offset
  rw [Outline.size_singleton] at ho
  refine ⟨[item], ⟨h, Outline.follows_singleton.mpr (hf (ho ▸ hs)),
    Outline.laid_singleton.mpr hl, Outline.returnsProperly_singleton.mpr hp⟩, Nat.le_refl 1,
    fun heff ↦ ?_⟩
  obtain ⟨hr, heff⟩ := he heff
  exact ⟨.single item, .single hr, heff⟩

theorem item {item : Item} (hs : π.spans s.offset s'.offset)
    (hem : Emits π.toPins Γ (.code [item]) s.offset s.context s'.context)
    (hf : π.spans s.offset (s.offset + item.size) → item.Follows π.toPlaces s.offset)
    (hl : item.Laid π.gap π.callee s.offset) (hp : item.ReturnsProperly π.returns s.offset)
    (he : s.frame.hasEffect → item.isReturn = false ∧ s'.frame.hasEffect)
    (hlist : s'.listing = s.listing ++ item.entries) (hh : s'.holes = s.holes) :
    Wrote π Γ 1 s s' :=
  single hs ⟨hem, by rw [hlist, Outline.entries_singleton], hh⟩ hf hl hp he

/-- A plain instruction that is an expression. -/
theorem plain (op : Opcode) (words : List UInt32) {count : OperandCount}
    (hs : π.spans s.offset s'.offset) (hop : op.isControl = false)
    (hl : op.layout? = .some { words := words.length, operands := count })
    (ha : count.Admits (π.callee s.offset) words n)
    (h : Written π.toPins Γ [.plain op words o] s s'
      ∧ Outline.Operands π n o (s.offset + 1 + words.length))
    (he : s.frame.hasEffect → (op == .returning) = false ∧ s'.frame.hasEffect) :
    Wrote π Γ 1 s s' :=
  single hs h.1 (Item.follows_instruction hop hl ha .nil h.2) (Item.laid_instruction hl ha .nil h.2)
    (Item.returnsProperly_instruction .nil h.2) he

/-- An instruction that writes its opcode and its immediate words and has no operands. -/
theorem leaf (op : Opcode) (words : List UInt32) (hs : π.spans s.offset s'.offset)
    (hop : op.isControl = false) (hret : (op == .returning) = false)
    (hl : op.layout? = .some { words := words.length })
    (h : Adds (op.entry :: words.map immediate) s₁ s') (hl₁ : s₁.listing = s.listing)
    (hh₁ : s₁.holes = s.holes) (he₁ : s.frame.hasEffect → s₁.frame.hasEffect)
    (hem : Emits π.toPins Γ (.code [.plain op words []]) s.offset s.context s₁.context) :
    Wrote π Γ 1 s s' := by
  rw [← h.context] at hem
  refine item hs hem (Item.follows_instruction hop hl rfl .nil .nil)
    (Item.laid_instruction hl rfl .nil .nil) (Item.returnsProperly_instruction .nil .nil)
    (fun he ↦ ⟨hret, h.effect (he₁ he)⟩) ?_ (h.holes.trans hh₁)
  rw [h.listing, hl₁]
  exact congrArg (s.listing ++ op.entry :: ·) (List.append_nil _).symm

/-- An ordinary instruction without operands. -/
theorem literal (op : Opcode) (words : List UInt32) (hs : π.spans s.offset s'.offset)
    (hop : op.isOrdinary) (hl : op.layout? = .some { words := words.length })
    (h : Adds (op.entry :: words.map immediate) s s') : Wrote π Γ 1 s s' :=
  leaf op words hs (Opcode.isControl_of_isOrdinary hop) (Opcode.ne_returning_of_isOrdinary hop) hl h
    rfl rfl id (.ordinary hop .nil .nil)

/-- An ordinary instruction that writes its opcode, its immediate words and then its operands. -/
theorem ordinary (op : Opcode) (words : List UInt32) {count : OperandCount}
    (hs : π.spans s.offset s'.offset) (hop : op.isOrdinary)
    (hl : op.layout? = .some { words := words.length, operands := count })
    (ha : count.Admits (π.callee s.offset) words n) (he : s.frame.hasEffect)
    (h : Adds (op.entry :: words.map immediate) s s₁) (ho : Wrote π Γ n s₁ s') :
    Wrote π Γ 1 s s' := by
  obtain ⟨o, ho⟩ := ho.operands (h.effect he)
  exact plain op words hs (Opcode.isControl_of_isOrdinary hop) hl ha
    (Written.plain op words h.listing h.holes ho rfl rfl fun he ↦
      .ordinary hop .nil (h.context ▸ he)) fun _ ↦
        ⟨Opcode.ne_returning_of_isOrdinary hop, ho.effect⟩

/-- An ordinary instruction with operands in front of the immediate words. -/
theorem applied (op : Opcode) (counted : Counted) (words : List UInt32)
    {count : OperandCount} {m : Nat} {r : Outline} (hs : π.spans s.offset s'.offset)
    (hop : op.isOrdinary)
    (hlayout : op.layout? = .some ⟨counted, m, words.length, count⟩)
    (ha : count.Admits (π.callee s.offset) words n) (hc₁ : s₁.context = s.context)
    (ho₁ : s₁.offset = s.offset + 1 + counted.size) (hr : WritesOperands π Γ m r s₁ s₂)
    (hc₃ : s₃.context = s₂.context) (ho : WritesOperands π Γ n o s₃ s')
    (hl : s₃.listing = s.listing ++ op.entry :: (counted.entries (r.size + words.length) o.size
      ++ (Outline.entries r ++ words.map immediate)))
    (hh : s₃.holes = s.holes) : Wrote π Γ 1 s s' := by
  have ho₃ : s₃.offset = s.offset + 1 + counted.size + r.size + words.length := by
    rw [State.offset_of_listing hl]
    simp only [List.length_append, List.length_cons, List.length_map, Counted.length_entries,
      Outline.length_entries]
    omega
  have er := hr.emits
  have pr := hr.operands
  have eo := ho.emits
  have po := ho.operands
  rw [ho₁] at er pr
  rw [ho₃] at eo po
  rw [hc₁] at er
  rw [hc₃] at eo
  refine item hs (.ordinary hop er eo)
    (Item.follows_instruction (Opcode.isControl_of_isOrdinary hop) hlayout ha pr po)
    (Item.laid_instruction hlayout ha pr po) (Item.returnsProperly_instruction pr po)
    (fun _ ↦ ⟨Opcode.ne_returning_of_isOrdinary hop, ho.effect⟩) ?_ (ho.holes.trans hh)
  rw [ho.listing, hl, List.append_assoc, List.cons_append, List.append_assoc, List.append_assoc]
  rfl

/-- An ordinary instruction whose opcode is filled in behind its first operands. -/
theorem late (op : Opcode) (words : List UInt32) {count : OperandCount} {s₄ : State} {hole : Hole}
    {u : Unit} {m : Nat} (hs : π.spans s.offset s'.offset) (hop : op.isOrdinary)
    (hl : op.layout? = .some { receivers := m, words := words.length, operands := count })
    (ha : count.Admits (π.callee s.offset) words n) (he : s.frame.hasEffect)
    (h₁ : Analysis.reserve s = .ok hole s₁) (h₂ : Wrote π Γ m s₁ s₂)
    (h₃ : Analysis.fillOpcode hole op s₂ = .ok u s₃) (h₄ : Adds (words.map immediate) s₃ s₄)
    (h₅ : Wrote π Γ n s₄ s') : Wrote π Γ 1 s s' := by
  obtain ⟨hi, hhole, hc, he₁⟩ := Analysis.inside_reserve h₁
  obtain ⟨r, h₂⟩ := h₂.operands (he₁ he)
  have hf := Analysis.filled_fillOpcode (hi.adds h₂.listing h₂.holes) hhole h₃
  obtain ⟨o, h₅⟩ := h₅.operands (h₄.effect (hf.effect h₂.effect))
  refine applied op .nothing words hs hop hl ha hc hi.offset h₂
    (h₄.context.trans hf.context) h₅ ?_ (h₄.holes.trans hf.holes)
  rw [h₄.listing, hf.listing, List.append_assoc]
  rfl

/-- An ordinary instruction without immediate words whose opcode is filled in behind its first
operands. -/
theorem lateFirst (op : Opcode) {count : OperandCount} {hole : Hole} {u : Unit} {m : Nat}
    (hs : π.spans s.offset s'.offset) (hop : op.isOrdinary)
    (hl : op.layout? = .some { operands := count })
    (ha : count.Admits (π.callee s.offset) [] (m + n)) (he : s.frame.hasEffect)
    (h₁ : Analysis.reserve s = .ok hole s₁) (h₂ : Wrote π Γ m s₁ s₂)
    (h₃ : Analysis.fillOpcode hole op s₂ = .ok u s₃) (h₄ : Wrote π Γ n s₃ s') :
    Wrote π Γ 1 s s' := by
  obtain ⟨hi, hhole, hc, he₁⟩ := Analysis.inside_reserve h₁
  obtain ⟨r, hr⟩ := h₂.operands (he₁ he)
  have hf := Analysis.filled_fillOpcode (hi.adds hr.listing hr.holes) hhole h₃
  obtain ⟨o, ho⟩ := h₄.operands (hf.effect hr.effect)
  have ho₁ : s₁.offset = s.offset + 1 := hi.offset
  have ho₃ : s₃.offset = s.offset + 1 + r.size := by
    rw [State.offset_of_listing hf.listing]
    simp only [List.length_append, List.length_cons, List.length_nil, Outline.length_entries]
    omega
  have er := hr.emits
  have pr := hr.operands
  have eo := ho.emits
  have po := ho.operands
  rw [ho₁, hc] at er
  rw [ho₁] at pr
  rw [ho₃, hf.context] at eo
  rw [ho₃] at po
  have hoperands := pr.append po
  refine item hs (.ordinary hop .nil (er.append eo))
    (Item.follows_instruction (Opcode.isControl_of_isOrdinary hop) hl ha .nil hoperands)
    (Item.laid_instruction hl ha .nil hoperands) (Item.returnsProperly_instruction .nil hoperands)
    (fun _ ↦ ⟨Opcode.ne_returning_of_isOrdinary hop, ho.effect⟩) ?_ (ho.holes.trans hf.holes)
  have hentries : (Item.plain op [] (r ++ o)).entries
      = op.entry :: (Outline.entries r ++ Outline.entries o) :=
    congrArg (op.entry :: ·) (Outline.entries_append r o)
  rw [ho.listing, hf.listing, hentries, List.append_assoc]
  rfl

/-- An ordinary instruction with a reserved word behind its opcode, which is filled in behind the
operands. The word counts the operands or is an immediate word. -/
theorem backfilled (op : Opcode) (counted : Counted) (words : List UInt32)
    {count : OperandCount} {e : Entry} {hole : Nat} (hs : π.spans s.offset s'.offset)
    (hop : op.isOrdinary)
    (hl : op.layout? = .some ⟨counted, 0, words.length, count⟩)
    (ha : count.Admits (π.callee s.offset) words n)
    (h₁ : Adds [op.entry] s s₁)
    (h₂ : Analysis.Inside [] s₁ s₂ ∧ hole = s₁.offset ∧ s₂.context = s₁.context)
    (h₃ : WritesOperands π Γ n o s₂ s₃)
    (h₄ : Analysis.Inside (Outline.entries o) s₁ s₃ → hole = s₁.offset →
      Analysis.Filled e (Outline.entries o) s₁ s₃ s')
    (he : counted.entries words.length o.size ++ words.map immediate = [e]) : Wrote π Γ 1 s s' := by
  obtain ⟨hi, hhole, hc⟩ := h₂
  have hf := h₄ (hi.adds h₃.listing h₃.holes) hhole
  -- one word was reserved, whether it counts or not
  have hsize : counted.size + words.length = 1 := by
    have hlen := congrArg List.length he
    rwa [List.length_append, Counted.length_entries, List.length_map, List.length_singleton]
      at hlen
  have hoff : s₂.offset = s.offset + 1 + counted.size + 0 + words.length := by
    have ho₁ := h₁.offset
    have ho₂ := hi.offset
    simp only [List.length_singleton, List.length_nil] at ho₁ ho₂
    omega
  have hem := h₃.emits
  have hp := h₃.operands
  rw [hoff] at hem hp
  rw [hc, h₁.context, ← hf.context] at hem
  have hitem : Emits π.toPins Γ (.code [.instruction op counted [] words o]) s.offset s.context
      s'.context := .ordinary hop .nil hem
  refine item hs hitem
    (Item.follows_instruction (Opcode.isControl_of_isOrdinary hop) hl ha .nil hp)
    (Item.laid_instruction hl ha .nil hp) (Item.returnsProperly_instruction .nil hp)
    (fun _ ↦ ⟨Opcode.ne_returning_of_isOrdinary hop, hf.effect h₃.effect⟩) ?_
    (hf.holes.trans h₁.holes)
  have hentries : (Item.instruction op counted [] words o).entries
      = op.entry :: (counted.entries (0 + words.length) o.size
        ++ (words.map immediate ++ Outline.entries o)) := rfl
  rw [hf.listing, h₁.listing, hentries, Nat.zero_add, ← List.append_assoc, he, List.append_assoc]
  rfl

/-- An ordinary instruction with a word count of all its operands. -/
theorem collected (op : Opcode) {count : OperandCount} {hole : CountHole} {u : Unit}
    (hs : π.spans s.offset s'.offset) (hop : op.isOrdinary)
    (hl : op.layout? = .some { counted := .operands, operands := count })
    (ha : count.Admits (π.callee s.offset) [] n) (he : s.frame.hasEffect)
    (h₁ : Adds [op.entry] s s₁) (h₂ : Analysis.reserveCount s₁ = .ok hole s₂)
    (h₃ : Wrote π Γ n s₂ s₃) (h₄ : Analysis.fillCount hole s₃ = .ok u s') : Wrote π Γ 1 s s' := by
  obtain ⟨hi, hhole, hc, he₂⟩ := Analysis.inside_reserveCount h₂
  obtain ⟨o, h₃⟩ := h₃.operands (he₂ (h₁.effect he))
  exact backfilled op .operands [] hs hop hl ha h₁ ⟨hi, hhole, hc⟩ h₃
    (fun hi hhole ↦ Analysis.filled_fillCount hi hhole h₄) rfl

/-- An ordinary instruction with an immediate word that depends on the operands. -/
theorem numbered (op : Opcode) {count : OperandCount} {hole : Hole} {w : UInt32} {u : Unit}
    (hs : π.spans s.offset s'.offset) (hop : op.isOrdinary)
    (hl : op.layout? = .some { words := 1, operands := count })
    (ha : count.Admits (π.callee s.offset) [w] n) (he : s.frame.hasEffect)
    (h₁ : Adds [op.entry] s s₁) (h₂ : Analysis.reserve s₁ = .ok hole s₂)
    (h₃ : Wrote π Γ n s₂ s₃) (h₄ : Analysis.fill hole w s₃ = .ok u s') : Wrote π Γ 1 s s' := by
  obtain ⟨hi, hhole, hc, he₂⟩ := Analysis.inside_reserve h₂
  obtain ⟨o, h₃⟩ := h₃.operands (he₂ (h₁.effect he))
  exact backfilled op .nothing [w] hs hop hl ha h₁ ⟨hi, hhole, hc⟩ h₃
    (fun hi hhole ↦ Analysis.filled_fill hi hhole h₄) rfl

end Wrote

end

end Pictograph
