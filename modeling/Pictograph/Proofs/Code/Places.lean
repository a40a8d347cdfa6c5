import Mathlib.Data.Nat.Bitwise
import Pictograph.Proofs.Code.Layout

/-!
# The places of expressions

A chunk has many outlines, for nothing in its words says where the operands of a call end, or to
which instruction of several an operand belongs. What settles this is from where to where
expressions have their code. An outline *follows* such places if its items are expressions at these
places, with the parts that their opcodes ask for.

No two expressions start at the same word. So there is one outline at most that follows the places
of expressions. The proof reads both outlines from the front. The opcode says which item it is and
how many immediate words it has, the places say where it ends, and a list of items ends where the
next word is not the opcode of an expression.

## Main definitions

* `Places`: where expressions have their code.
* `Item.Follows` and `Outline.Follows` tie an outline to the places of expressions.

## Main results

* `Outline.Follows.eq_of_entries_eq`: an outline that follows given places is determined by its
  words.
-/

namespace Pictograph

/-- What is known about the places of a body from its expressions. -/
structure Places where
  /-- An expression has its code between two offsets. -/
  spans : Nat → Nat → Prop
  /-- The closure at an offset has a frame of so many slots, and the frame around it has had so
  many. -/
  frames : Nat → Nat → Nat → Prop

/-- Whether an opcode takes part in control flow, so that it does not start a plain instruction. -/
def Opcode.isControl : Opcode → Bool
  | conditionalBind | repeatWhile | ifChain | forIn _ | elseIfBranch | elseBranch | closure => true
  | _ => false

section

variable (P : Places)

mutual

/-- Everything in an item that starts at an offset is the code of an expression. Branches do not
stand alone. -/
def Item.Follows : Item → Nat → Prop
  | .instruction op counted receiver words operands, k =>
    op.isControl = false
      ∧ op.Bounds counted receiver.length words.length operands.length
      ∧ P.spans k (k + (Item.instruction op counted receiver words operands).size)
      ∧ Outline.Follows receiver (k + 1 + counted.size)
      ∧ Outline.Follows operands (k + 1 + counted.size + Outline.size receiver + words.length)
  | .ifChain condition body rest, k =>
    P.spans k (k + (Item.ifChain condition body rest).size)
      ∧ Outline.Decides condition (k + 2)
      ∧ Outline.Follows body (k + 3 + Outline.size condition)
      ∧ Outline.Continues rest (k + 3 + Outline.size condition + Outline.size body)
  | .elseIf _ _ _, _ | .otherwise _, _ => False
  | .repeatWhile condition body, k =>
    P.spans k (k + (Item.repeatWhile condition body).size)
      ∧ Outline.Follows condition (k + 1) ∧ Outline.Follows body (k + 2 + Outline.size condition)
  | .forIn overList slot hidden iteratee body, k =>
    slot < Slot.count ∧ hidden < Slot.count
      ∧ P.spans k (k + (Item.forIn overList slot hidden iteratee body).size)
      ∧ Outline.Follows iteratee (k + 3) ∧ Outline.Follows body (k + 4 + Outline.size iteratee)
  | .closure slots body arguments usesSelf captured, k =>
    arguments ≤ Slot.count ∧ P.frames k slots captured
      ∧ P.spans k (k + (Item.closure slots body arguments usesSelf captured).size)
      ∧ Outline.Follows body (k + 3)

/-- Everything in an outline that starts at an offset is the code of an expression. -/
def Outline.Follows : List Item → Nat → Prop
  | [], _ => True
  | item :: rest, k => item.Follows k ∧ Outline.Follows rest (k + item.size)

/-- A condition is the code of an expression or binds the value of an expression. -/
def Outline.Decides : List Item → Nat → Prop
  | [], _ => True
  | [.instruction .conditionalBind .nothing [] [_] operands], k => Outline.Follows operands (k + 2)
  | item :: rest, k => item.Follows k ∧ Outline.Follows rest (k + item.size)

/-- Everything in the rest of a chain is a branch made of expressions. -/
def Outline.Continues : List Item → Nat → Prop
  | [], _ => True
  | [.elseIf condition body rest], k =>
    Outline.Decides condition (k + 1) ∧ Outline.Follows body (k + 2 + Outline.size condition)
      ∧ Outline.Continues rest (k + 2 + Outline.size condition + Outline.size body)
  | [.otherwise body], k => Outline.Follows body (k + 2)
  | _, _ => False

end

variable {P}

theorem Outline.Follows.append {o o' : Outline} {k : Nat} (h : Outline.Follows P o k)
    (h' : Outline.Follows P o' (k + Outline.size o)) : Outline.Follows P (o ++ o') k := by
  induction o generalizing k with
  | nil => exact h'
  | cons item o ih =>
    rw [Outline.size_cons, ← Nat.add_assoc] at h'
    exact ⟨h.1, ih h.2 h'⟩

theorem Outline.Follows.decides {o : Outline} {k : Nat} (h : Outline.Follows P o k) :
    Outline.Decides P o k := by
  unfold Outline.Decides
  split
  · trivial
  · exact nomatch h.1.1
  · exact h

theorem Outline.follows_singleton {item : Item} {k : Nat} :
    Outline.Follows P [item] k ↔ item.Follows P k := iff_of_eq (and_true _)

/-- A condition is an expression, or it binds the value of one. -/
theorem Outline.Decides.cases {o : Outline} {k : Nat} (h : Outline.Decides P o k) :
    Outline.Follows P o k ∨ ∃ w operands, o = [.plain .conditionalBind [w] operands]
      ∧ Outline.Follows P operands (k + 2) := by
  unfold Outline.Decides at h
  split at h
  · exact .inl trivial
  · exact .inr ⟨_, _, rfl, h⟩
  · exact .inl h

/-! ## The opcode of an item -/

/-- The opcode that an item starts with. -/
def Item.opcode : Item → Opcode
  | .instruction op _ _ _ _ => op
  | .ifChain _ _ _ => .ifChain
  | .elseIf _ _ _ => .elseIfBranch
  | .otherwise _ => .elseBranch
  | .repeatWhile _ _ => .repeatWhile
  | .forIn overList _ _ _ _ => .forIn overList
  | .closure _ _ _ _ _ => .closure

theorem Item.exists_entries (item : Item) :
    ∃ es, item.entries = item.opcode.entry :: es := by
  cases item <;> exact ⟨_, rfl⟩

/-- Whether an opcode is that of a further branch of a chain. -/
def Opcode.isBranch : Opcode → Bool
  | elseIfBranch | elseBranch => true
  | _ => false

/-- Words in front of which a list of expressions ends. -/
def Stops : List Entry → Prop
  | [] | (_, none) :: _ => True
  | (_, some op) :: _ => op.isBranch

theorem stops_nil : Stops [] := trivial

theorem stops_immediate (w : UInt32) (es : List Entry) : Stops (immediate w :: es) := trivial

theorem stops_words {words : List UInt32} (h : 0 < words.length) (es : List Entry) :
    Stops (words.map immediate ++ es) := by
  cases words with
  | nil => exact absurd h (Nat.lt_irrefl 0)
  | cons w words => exact stops_immediate w _

namespace Item.Follows

variable {item : Item} {k : Nat} (h : item.Follows P k)

include h

theorem isBranch_eq_false : item.opcode.isBranch = false := by
  cases item with
  | instruction op counted receiver words operands =>
    obtain ⟨hop, -⟩ := h
    cases op <;> first | rfl | cases hop
  | elseIf | otherwise => cases h
  | _ => rfl

theorem opcode_ne_conditionalBind : item.opcode ≠ .conditionalBind := by
  cases item with
  | instruction op counted receiver words operands =>
    rintro rfl
    cases h.1
  | _ => exact nofun

/-- From where to where the item has its code. -/
theorem spans : P.spans k (k + item.size) := by
  cases item with
  | instruction | closure => exact h.2.2.1
  | ifChain | repeatWhile => exact h.1
  | forIn => exact h.2.2.1
  | elseIf | otherwise => cases h

theorem exists_instruction (hop : item.opcode.isControl = false) :
    ∃ op counted receiver words operands,
      item = .instruction op counted receiver words operands := by
  cases item with
  | instruction => exact ⟨_, _, _, _, _, rfl⟩
  | _ => cases hop

theorem exists_ifChain (hop : item.opcode = .ifChain) :
    ∃ condition body rest, item = .ifChain condition body rest := by
  cases item with
  | ifChain => exact ⟨_, _, _, rfl⟩
  | instruction =>
    obtain rfl := hop
    cases h.1
  | _ => cases hop

theorem exists_repeatWhile (hop : item.opcode = .repeatWhile) :
    ∃ condition body, item = .repeatWhile condition body := by
  cases item with
  | repeatWhile => exact ⟨_, _, rfl⟩
  | instruction =>
    obtain rfl := hop
    cases h.1
  | _ => cases hop

theorem exists_forIn {overList : Bool} (hop : item.opcode = .forIn overList) :
    ∃ slot hidden iteratee body, item = .forIn overList slot hidden iteratee body := by
  cases item with
  | forIn =>
    cases hop
    exact ⟨_, _, _, _, rfl⟩
  | instruction =>
    obtain rfl := hop
    cases h.1
  | _ => cases hop

theorem exists_closure (hop : item.opcode = .closure) :
    ∃ slots body arguments usesSelf captured,
      item = .closure slots body arguments usesSelf captured := by
  cases item with
  | closure => exact ⟨_, _, _, _, _, rfl⟩
  | instruction =>
    obtain rfl := hop
    cases h.1
  | _ => cases hop

end Item.Follows

end

/-! ## Words that determine numbers -/

/-- The flag stands above the number of arguments. -/
theorem toNat_closureWord {n : Nat} (h : n < 2 ^ 16) (usesSelf : Bool) :
    (closureWord n usesSelf).toNat = n + if usesSelf then 2 ^ 16 else 0 := by
  have hn : (UInt32.ofNat n).toNat = n := UInt32.toNat_ofNat_of_lt' (by simp [UInt32.size]; omega)
  cases usesSelf with
  | false =>
    rw [closureWord, if_neg Bool.false_ne_true, hn, if_neg Bool.false_ne_true, Nat.add_zero]
  | true =>
    rw [closureWord, if_pos rfl, UInt32.toNat_or, hn, if_pos rfl]
    calc
      n ||| Analysis.selfFlag.toNat = 2 ^ 16 * 1 ||| n := Nat.or_comm n _
      _ = 2 ^ 16 * 1 + n := (Nat.two_pow_add_eq_or_of_lt h 1).symm
      _ = n + 2 ^ 16 := Nat.add_comm _ n

/-- The word of a closure tells its arguments and whether it refers to the instance. -/
theorem closureWord_inj {n n' : Nat} {b b' : Bool} (hn : n < 2 ^ 16) (hn' : n' < 2 ^ 16)
    (h : closureWord n b = closureWord n' b') : n = n' ∧ b = b' := by
  have hnat := congrArg UInt32.toNat h
  rw [toNat_closureWord hn, toNat_closureWord hn'] at hnat
  cases b <;> cases b' <;>
    simp only [if_true, if_false, Bool.false_eq_true, Bool.true_eq_false, Nat.add_zero, and_true,
      and_false] at hnat ⊢ <;>
    omega

/-- The word of a slot tells the slot. -/
theorem slotWord_inj {n n' : Nat} (hn : n < Slot.count) (hn' : n' < Slot.count)
    (h : immediateNumber n = immediateNumber n') : n = n' := by
  have hlt {n : Nat} (hn : n < Slot.count) : (UInt32.ofNat n).toNat = n :=
    UInt32.toNat_ofNat_of_lt' (Nat.lt_trans hn (by decide))
  have hnat := congrArg UInt32.toNat (congrArg Prod.fst h)
  exact (hlt hn).symm.trans (hnat.trans (hlt hn'))

/-- As many immediate words in front of other words are the same. -/
theorem words_inj {words words' : List UInt32} {es es' : List Entry}
    (hlength : words.length = words'.length)
    (h : words.map immediate ++ es = words'.map immediate ++ es') : words = words' ∧ es = es' := by
  obtain ⟨hwords, hes⟩ := List.append_inj h (by rw [List.length_map, List.length_map, hlength])
  exact ⟨(List.map_inj_right fun _ _ hw ↦ congrArg Prod.fst hw).mp hwords, hes⟩

/-! ## Unique outlines -/

/-- No two expressions with code start at one offset, and each closure is recorded once. -/
structure Places.Functional (P : Places) : Prop where
  spans : ∀ {k l l'}, k < l → k < l' → P.spans k l → P.spans k l' → l = l'
  frames : ∀ {k n n' m m'}, P.frames k n m → P.frames k n' m' → n = n' ∧ m = m'

theorem Item.size_pos (item : Item) : 0 < item.size := by
  obtain ⟨es, he⟩ := item.exists_entries
  rw [Item.size, he]
  exact Nat.succ_pos _

/-- Items that start with the same word have the same opcode. -/
theorem Item.opcode_eq {item item' : Item} {es es' : List Entry}
    (h : item.entries ++ es = item'.entries ++ es') : item.opcode = item'.opcode := by
  obtain ⟨rest, hrest⟩ := item.exists_entries
  obtain ⟨rest', hrest'⟩ := item'.exists_entries
  rw [hrest, hrest', List.cons_append, List.cons_append] at h
  exact Option.some.inj (congrArg Prod.snd (List.cons.inj h).1)

section

variable {P : Places}

/-- A list of expressions ends where no expression starts. -/
theorem Item.Follows.not_stops {item : Item} {k : Nat} (h : item.Follows P k) (es : List Entry) :
    ¬ Stops (item.entries ++ es) := by
  obtain ⟨rest, hrest⟩ := item.exists_entries
  rw [hrest]
  change ¬ item.opcode.isBranch
  rw [h.isBranch_eq_false]
  exact Bool.false_ne_true

/-- An expression does not start with the binding of a condition. -/
theorem Outline.Follows.entries_ne_conditionalBind {o : Outline} {k : Nat} {es es' : List Entry}
    (h : Outline.Follows P o k) (hes : Stops es) :
    Opcode.conditionalBind.entry :: es' ≠ Outline.entries o ++ es := by
  intro he
  cases o with
  | nil =>
    rw [Outline.entries_nil, List.nil_append] at he
    subst he
    cases hes
  | cons item rest =>
    obtain ⟨tail, htail⟩ := item.exists_entries
    rw [Outline.entries_cons, htail] at he
    exact h.1.opcode_ne_conditionalBind
      (Option.some.inj (congrArg Prod.snd (List.cons.inj he).1)).symm

/-- The rest of a chain is empty, or a branch with a condition, or one without. -/
theorem Outline.Continues.cases {o : Outline} {k : Nat} (h : Outline.Continues P o k) :
    o = [] ∨ (∃ condition body rest, o = [.elseIf condition body rest]
        ∧ Outline.Decides P condition (k + 1)
        ∧ Outline.Follows P body (k + 2 + Outline.size condition)
        ∧ Outline.Continues P rest (k + 2 + Outline.size condition + Outline.size body))
      ∨ ∃ body, o = [.otherwise body] ∧ Outline.Follows P body (k + 2) := by
  unfold Outline.Continues at h
  split at h
  · exact .inl rfl
  · exact .inr (.inl ⟨_, _, _, rfl, h⟩)
  · exact .inr (.inr ⟨_, rfl, h⟩)
  · cases h

/-- What stands behind the block of a branch does not start an expression. -/
theorem Outline.Continues.stops {o : Outline} {k : Nat} (h : Outline.Continues P o k) :
    Stops (Outline.entries o) := by
  rcases h.cases with rfl | ⟨condition, body, rest, rfl, -⟩ | ⟨body, rfl, -⟩
  · trivial
  · rfl
  · rfl

/-- Expressions that start at one offset end at one offset. -/
theorem Item.Follows.size_eq (hP : P.Functional) {item item' : Item} {k : Nat}
    (h : item.Follows P k) (h' : item'.Follows P k) : item.size = item'.size :=
  Nat.add_left_cancel (hP.spans (Nat.lt_add_of_pos_right item.size_pos)
    (Nat.lt_add_of_pos_right item'.size_pos) h.spans h'.spans)

mutual

/-- Expressions with the same words at one offset are the same. -/
theorem Item.Follows.unique (hP : P.Functional) (item item' : Item) {k : Nat} (h : item.Follows P k)
    (h' : item'.Follows P k) (he : item.entries = item'.entries) : item = item' := by
  have hop : item.opcode = item'.opcode := Item.opcode_eq (congrArg (· ++ []) he)
  cases item with
  | instruction op counted receiver words operands =>
    obtain ⟨_, counted', receiver', words', operands', rfl⟩ :=
      h'.exists_instruction (hop ▸ h.1)
    obtain rfl : op = _ := hop
    obtain ⟨-, ⟨layout, hl, hb⟩, -, hr, ho⟩ := h
    obtain ⟨-, ⟨layout', hl', hb'⟩, -, hr', ho'⟩ := h'
    cases hl.symm.trans hl'
    obtain rfl : counted = counted' := hb.counted_eq.trans hb'.counted_eq.symm
    -- behind the opcode and the word count
    have he₁ := (List.append_inj (List.cons.inj he).2 (by
      rw [Counted.length_entries, Counted.length_entries])).2
    obtain ⟨rfl, he₂⟩ : receiver = receiver' ∧ words.map immediate ++ Outline.entries operands
        = words'.map immediate ++ Outline.entries operands' := by
      rcases Opcode.receivers_cases hl with hzero | ⟨-, hpos⟩
      · obtain rfl := List.length_eq_zero_iff.mp (Nat.le_zero.mp (hzero ▸ hb.receivers_le))
        obtain rfl := List.length_eq_zero_iff.mp (Nat.le_zero.mp (hzero ▸ hb'.receivers_le))
        exact ⟨rfl, he₁⟩
      · exact Outline.Follows.unique hP receiver receiver' hr hr'
          (stops_words (hb.words_eq ▸ hpos) _) (stops_words (hb'.words_eq ▸ hpos) _) he₁
    obtain ⟨rfl, he₃⟩ := words_inj (hb.words_eq.trans hb'.words_eq.symm) he₂
    obtain ⟨rfl, -⟩ := Outline.Follows.unique hP operands operands' ho ho' stops_nil stops_nil
      (congrArg (· ++ []) he₃)
    rfl
  | ifChain condition body rest =>
    obtain ⟨condition', body', rest', rfl⟩ := h'.exists_ifChain hop.symm
    obtain ⟨-, hc, hb, hr⟩ := h
    obtain ⟨-, hc', hb', hr'⟩ := h'
    obtain ⟨rfl, he₁⟩ := Outline.Decides.unique hP condition condition' hc hc' (stops_immediate _ _)
      (stops_immediate _ _) (List.cons.inj (List.cons.inj he).2).2
    obtain ⟨rfl, he₂⟩ := Outline.Follows.unique hP body body' hb hb' hr.stops hr'.stops
      (List.cons.inj he₁).2
    rw [Outline.Continues.unique hP rest rest' hr hr' he₂]
  | elseIf | otherwise => cases h
  | repeatWhile condition body =>
    obtain ⟨condition', body', rfl⟩ := h'.exists_repeatWhile hop.symm
    obtain ⟨-, hc, hb⟩ := h
    obtain ⟨-, hc', hb'⟩ := h'
    obtain ⟨rfl, he₁⟩ := Outline.Follows.unique hP condition condition' hc hc' (stops_immediate _ _)
      (stops_immediate _ _) (List.cons.inj he).2
    obtain ⟨rfl, -⟩ := Outline.Follows.unique hP body body' hb hb' stops_nil stops_nil
      (congrArg (· ++ []) (List.cons.inj he₁).2)
    rfl
  | forIn overList slot hidden iteratee body =>
    obtain ⟨slot', hidden', iteratee', body', rfl⟩ := h'.exists_forIn hop.symm
    obtain ⟨hs, hh, -, hi, hb⟩ := h
    obtain ⟨hs', hh', -, hi', hb'⟩ := h'
    obtain ⟨hslot, he₁⟩ := List.cons.inj (List.cons.inj he).2
    obtain ⟨hhidden, he₂⟩ := List.cons.inj he₁
    obtain rfl := slotWord_inj hs hs' hslot
    obtain rfl := slotWord_inj hh hh' hhidden
    obtain ⟨rfl, he₃⟩ := Outline.Follows.unique hP iteratee iteratee' hi hi' (stops_immediate _ _)
      (stops_immediate _ _) he₂
    obtain ⟨rfl, -⟩ := Outline.Follows.unique hP body body' hb hb' stops_nil stops_nil
      (congrArg (· ++ []) (List.cons.inj he₃).2)
    rfl
  | closure slots body arguments usesSelf captured =>
    obtain ⟨slots', body', arguments', usesSelf', captured', rfl⟩ := h'.exists_closure hop.symm
    obtain ⟨ha, hf, -, hb⟩ := h
    obtain ⟨ha', hf', -, hb'⟩ := h'
    obtain ⟨rfl, rfl⟩ := hP.frames hf hf'
    obtain ⟨rfl, he₁⟩ := Outline.Follows.unique hP body body' hb hb' (stops_immediate _ _)
      (stops_immediate _ _) (List.cons.inj (List.cons.inj (List.cons.inj he).2).2).2
    obtain ⟨rfl, rfl⟩ := closureWord_inj (Nat.lt_of_le_of_lt ha (by decide))
      (Nat.lt_of_le_of_lt ha' (by decide)) (congrArg Prod.fst (List.cons.inj he₁).1)
    rfl
termination_by (sizeOf item, 0)

/-- Outlines that follow the places of expressions and have the same words are the same, up to where
no expression starts. -/
theorem Outline.Follows.unique (hP : P.Functional) (o o' : Outline) {k : Nat} {es es' : List Entry}
    (h : Outline.Follows P o k) (h' : Outline.Follows P o' k) (hes : Stops es) (hes' : Stops es')
    (he : Outline.entries o ++ es = Outline.entries o' ++ es') : o = o' ∧ es = es' := by
  cases o with
  | nil =>
    cases o' with
    | nil => exact ⟨rfl, he⟩
    | cons item' rest' =>
      refine absurd ?_ (h'.1.not_stops (Outline.entries rest' ++ es'))
      rw [← List.append_assoc]
      exact he ▸ hes
  | cons item rest =>
    cases o' with
    | nil =>
      refine absurd ?_ (h.1.not_stops (Outline.entries rest ++ es))
      rw [← List.append_assoc]
      exact he ▸ hes'
    | cons item' rest' =>
      rw [Outline.entries_cons, Outline.entries_cons, List.append_assoc, List.append_assoc] at he
      have hsize := Item.Follows.size_eq hP h.1 h'.1
      obtain ⟨hitem, hrest⟩ := List.append_inj he hsize
      obtain rfl := Item.Follows.unique hP item item' h.1 h'.1 hitem
      obtain ⟨rfl, rfl⟩ := Outline.Follows.unique hP rest rest' h.2 h'.2 hes hes' hrest
      exact ⟨rfl, rfl⟩
termination_by (sizeOf o, 0)

/-- Conditions with the same words are the same, up to where no expression starts. -/
theorem Outline.Decides.unique (hP : P.Functional) (o o' : Outline) {k : Nat} {es es' : List Entry}
    (h : Outline.Decides P o k) (h' : Outline.Decides P o' k) (hes : Stops es) (hes' : Stops es')
    (he : Outline.entries o ++ es = Outline.entries o' ++ es') : o = o' ∧ es = es' := by
  rcases h.cases with hf | ⟨w, operands, rfl, ho⟩ <;>
    rcases h'.cases with hf' | ⟨w', operands', rfl, ho'⟩
  · exact Outline.Follows.unique hP o o' hf hf' hes hes' he
  · exact absurd he.symm (hf.entries_ne_conditionalBind hes)
  · exact absurd he (hf'.entries_ne_conditionalBind hes')
  · rw [Outline.entries_singleton, Outline.entries_singleton] at he
    obtain ⟨hw, he₁⟩ := List.cons.inj (List.cons.inj he).2
    obtain ⟨rfl, rfl⟩ := Outline.Follows.unique hP operands operands' ho ho' hes hes' he₁
    obtain rfl : w = w' := congrArg Prod.fst hw
    exact ⟨rfl, rfl⟩
termination_by (sizeOf o, 1)

/-- Rests of chains with the same words are the same. -/
theorem Outline.Continues.unique (hP : P.Functional) (o o' : Outline) {k : Nat}
    (h : Outline.Continues P o k) (h' : Outline.Continues P o' k)
    (he : Outline.entries o = Outline.entries o') : o = o' := by
  rcases h.cases with rfl | ⟨condition, body, rest, rfl, hc, hb, hr⟩ | ⟨body, rfl, hb⟩
  · rcases h'.cases with rfl | ⟨condition, body, rest, rfl, -⟩ | ⟨body, rfl, -⟩
    · rfl
    · cases he
    · cases he
  · rcases h'.cases with rfl | ⟨condition', body', rest', rfl, hc', hb', hr'⟩ | ⟨body, rfl, -⟩
    · cases he
    · rw [Outline.entries_singleton, Outline.entries_singleton] at he
      obtain ⟨rfl, he₁⟩ := Outline.Decides.unique hP condition condition' hc hc'
        (stops_immediate _ _) (stops_immediate _ _) (List.cons.inj he).2
      obtain ⟨rfl, he₂⟩ := Outline.Follows.unique hP body body' hb hb' hr.stops hr'.stops
        (List.cons.inj he₁).2
      rw [Outline.Continues.unique hP rest rest' hr hr' he₂]
    · exact absurd (congrArg Prod.snd (List.cons.inj he).1) (by decide)
  · rcases h'.cases with rfl | ⟨condition, body, rest, rfl, -⟩ | ⟨body', rfl, hb'⟩
    · cases he
    · exact absurd (congrArg Prod.snd (List.cons.inj he).1) (by decide)
    · rw [Outline.entries_singleton, Outline.entries_singleton] at he
      obtain ⟨rfl, -⟩ := Outline.Follows.unique hP body body' hb hb' stops_nil stops_nil
        (congrArg (· ++ []) (List.cons.inj (List.cons.inj he).2).2)
      rfl
termination_by (sizeOf o, 0)

end

/-- **An outline that follows the places of expressions is determined by its words.** -/
theorem Outline.Follows.eq_of_entries_eq (hP : P.Functional) {o o' : Outline} {k : Nat}
    (h : Outline.Follows P o k) (h' : Outline.Follows P o' k)
    (he : Outline.entries o = Outline.entries o') : o = o' :=
  (Outline.Follows.unique hP o o' h h' stops_nil stops_nil (congrArg (· ++ []) he)).1

end

end Pictograph
