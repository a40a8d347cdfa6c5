import Pictograph.Proofs.Compilation.Emitted

/-!
# Code in prefix order

In the code of an accepted body every opcode is followed by its word count, its immediate words and
the code of its operands, as its layout says. A call has an operand for each argument of the
procedure, or of the callable type, that it was checked against.

One construct has no code of its own, the declaration of a variable without a value. It is an
expression like any other, so it may stand where an operand is expected, and there the operand is
missing. The instruction then takes what follows for its operand.

## Main results

* `code_in_prefix_order`: the code of a body is laid out as the opcodes say, but for declarations
  inside other expressions.
* `declaration_as_operand`: the code of a body with such a declaration.
-/

namespace Pictograph

/-! ## The layout of a body -/

/-- **Code is in prefix order**, up to declarations inside other expressions. All words of an
accepted body are those of instructions that are laid out as their opcodes say, each call with as
many operands as it passes on arguments, and an operand is missing only at such a declaration. -/
theorem code_in_prefix_order {cat : Catalogue} {options : Options} {session session' : Session}
    {c : Class} {m : Member} {tokens : List Token} {record : Record}
    (h : compile cat options session c m tokens = (.ok record, session')) :
    ∃ o, IsOnlyOutline (AnsweredIn cat options session c m tokens) o record.code
      ∧ Outline.Laid (GapAt (AnsweredIn cat options session c m tokens))
        (CalleeAt (AnsweredIn cat options session c m tokens)) o 0
      ∧ (∀ offset n n', CalleeAt (AnsweredIn cat options session c m tokens) offset n →
        CalleeAt (AnsweredIn cat options session c m tokens) offset n' → n = n')
      ∧ ((∀ offset, ¬ GapAt (AnsweredIn cat options session c m tokens) offset) →
        Outline.InPrefixOrder (CalleeAt (AnsweredIn cat options session c m tokens)) o) := by
  obtain ⟨o, ho, hl⟩ := exists_laid h
  exact ⟨o, ho.isOnly h, hl, fun _ _ _ hn hn' ↦ calleeAt_unique h hn hn', hl.inPrefixOrder⟩

/-- A body that calls a method on the instance, `🐾 🐕 🍉`. -/
def Sample.selfCall : List Token :=
  [word (.identifier ⟨0x1F43E⟩), ask .selfReference, ask .blockClose]

/-- The call of a method on the instance is in prefix order, for nothing is declared in it. -/
theorem code_in_prefix_order_sample :
    ∃ record session', compile Sample.catalogue {} .start Sample.parentClass Sample.method
        Sample.selfCall = (.ok record, session')
      ∧ ∃ o, IsOnlyOutline (AnsweredIn Sample.catalogue {} .start Sample.parentClass Sample.method
          Sample.selfCall) o record.code
        ∧ Outline.InPrefixOrder (CalleeAt (AnsweredIn Sample.catalogue {} .start
            Sample.parentClass Sample.method Sample.selfCall)) o := by
  have hcode : listing? Sample.catalogue {} .start Sample.parentClass Sample.method
      Sample.selfCall = some (Outline.entries
        [.instruction .methodCall .nothing [.plain .selfReference [] []] [0] []]) := by
    decide +kernel
  obtain ⟨record, session', h, -⟩ := exists_record hcode
  obtain ⟨o, ho, -, -, hprefix⟩ := code_in_prefix_order h
  refine ⟨record, session', h, o, ho, hprefix fun offset ⟨q, s', hq, _, hdeclare, _⟩ ↦ ?_⟩
  have hnone : ¬ refuses Sample.catalogue {} .start Sample.parentClass Sample.method
      Sample.selfCall fun q _ ↦ q.token.asksFor .declare := by
    decide +kernel
  exact hnone ((refuses_iff h).mpr ⟨q, s', hq, hdeclare⟩)

/-! ## A missing operand -/

theorem Outline.eq_nil_of_size {o : Outline} (h : o.size = 0) : o = [] := by
  cases o with
  | nil => rfl
  | cons item o =>
    rw [Outline.size_cons] at h
    have := item.size_pos
    omega

/-- An instruction whose operand is missing is not in prefix order. -/
theorem Outline.not_inPrefixOrder_of_isNothingness {callee : Nat → Nat → Prop} {o : Outline}
    (ho : Outline.entries o = [Opcode.isNothingness.entry]) : ¬ o.InPrefixOrder callee := by
  intro hlaid
  cases o with
  | nil => cases ho
  | cons item rest =>
    have hlaid : item.Laid (fun _ ↦ False) callee 0 := hlaid.1
    cases item with
    | instruction op counted receiver words operands =>
      -- the only word is the opcode, so there are no operands
      obtain ⟨hop, hrest⟩ := List.cons.inj ho
      obtain rfl : op = .isNothingness := Option.some.inj (Prod.mk.inj hop).2
      have hnil := List.append_eq_nil_iff.mp (List.append_eq_nil_iff.mp
        (List.append_eq_nil_iff.mp (List.append_eq_nil_iff.mp hrest).1).2).2
      obtain rfl : operands = [] := Outline.eq_nil_of_size (congrArg List.length hnil.2)
      -- but its layout asks for one
      obtain ⟨⟨layout, receivers, count, hlayout, hfits, -, hfills⟩, -, -⟩ := hlaid
      cases hlayout
      have hcount : count = 1 := hfits.admits
      have hlength := hfills.length_eq fun _ ↦ id
      rw [hcount] at hlength
      cases hlength
    | _ => simp [Outline.entries_cons, Item.entries] at ho

/-- A body in which the operand of an instruction is a declaration, `☁ 🍰 x 🚂 🍉`. -/
def Sample.missingOperand : List Token :=
  [ask .isNothingness, ask .declare, word (.reference "x"), word (.identifier Vocabulary.integer),
    ask .blockClose]

/-- **A declaration may be an operand.** A body is accepted in which the operand of an instruction
has no code, and its code is not in prefix order however many arguments calls take. -/
theorem declaration_as_operand :
    ∃ record session', compile Sample.catalogue {} .start Sample.parentClass Sample.method
        Sample.missingOperand = (.ok record, session')
      ∧ ∀ callee, ¬ ∃ o : Outline, Outline.entries o = record.code.listing
        ∧ o.InPrefixOrder callee := by
  have hcode : listing? Sample.catalogue {} .start Sample.parentClass Sample.method
      Sample.missingOperand = some [Opcode.isNothingness.entry] := by
    decide +kernel
  obtain ⟨record, session', h, hl⟩ := exists_record hcode
  exact ⟨record, session', h, fun _ ⟨_, ho, hlaid⟩ ↦
    Outline.not_inPrefixOrder_of_isNothingness (ho.trans hl) hlaid⟩

end Pictograph
