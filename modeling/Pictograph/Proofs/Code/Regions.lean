import Mathlib.Data.List.Pairwise
import Pictograph.Proofs.Code.Layout

/-!
# Regions of code

A word count says how many words stand in the region behind it, so that an interpreter can skip
them. The documentation of the instruction set says for each opcode which regions have a word count:
the branches of a chain, the body of a branch, of a loop and of a closure, the elements of a
collection, and the receiver of a call that may be left out together with what stands behind it.

## Main definitions

* `Opcode.extents`: the regions of an opcode that have a word count.
* `Item.regions` and `Outline.regions`: all of them with their word counts and their sizes.
* `Counts`: word counts are right, and regions are nested or apart.

## Main results

* `Outline.counts_regions`: the regions of an outline have the right word counts, and any two of
  them are nested or apart.
* `Outline.perm_regions`: they are those that the opcodes ask for.
-/

namespace Pictograph

/-! ## Regions -/

/-- What a word count spans. -/
inductive Extent where
  /-- All branches of a chain. -/
  | chain
  /-- The body of a branch, of a loop or of a closure. -/
  | body
  /-- The receiver of a call and its immediate words. -/
  | receiver
  /-- The elements of a collection. -/
  | operands
deriving DecidableEq

/-- What the word counts of an opcode span. -/
def Opcode.extents : Opcode → List Extent
  | ifChain => [.chain, .body]
  | elseIfBranch | elseBranch | repeatWhile | forIn _ | closure => [.body]
  | list | dictionary => [.operands]
  | optionalChain => [.receiver]
  | _ => []

/-- A region of code at its place. It stands right behind its word count. -/
structure Region where
  /-- The offset of the opcode that the region belongs to. -/
  owner : Nat
  /-- What the region spans. -/
  extent : Extent
  /-- The offset of the word count. -/
  word : Nat
  /-- The number of words in the region. -/
  size : Nat
deriving DecidableEq

namespace Region

/-- The offset of the first word. -/
def first (r : Region) : Nat := r.word + 1

/-- The offset behind the last word. -/
def last (r : Region) : Nat := r.first + r.size

/-- The opcode that a region belongs to and what it spans there. -/
def place (r : Region) : Nat × Extent := (r.owner, r.extent)

/-- A region is inside another one. -/
def Inside (r r' : Region) : Prop := r'.first ≤ r.first ∧ r.last ≤ r'.last

/-- Two regions have no word in common. -/
def Apart (r r' : Region) : Prop := r.last ≤ r'.first ∨ r'.last ≤ r.first

/-- Two regions are nested or apart. -/
def Nests (r r' : Region) : Prop := r.Inside r' ∨ r'.Inside r ∨ r.Apart r'

theorem Nests.refl (r : Region) : r.Nests r := .inl ⟨Nat.le_refl _, Nat.le_refl _⟩

theorem Nests.symm {r r' : Region} : r.Nests r' → r'.Nests r
  | .inl h => .inr (.inl h)
  | .inr (.inl h) => .inl h
  | .inr (.inr h) => .inr (.inr h.symm)

instance : Std.Symm Nests := ⟨fun _ _ ↦ Nests.symm⟩

end Region

/-! ## Word counts of a list of regions -/

/-- Between two offsets of some code there are regions. Their word counts are right, and any two of
them are nested or apart. -/
structure Counts (es : List Entry) (first last : Nat) (rs : List Region) : Prop where
  le : first ≤ last
  exact : ∀ r ∈ rs, es[r.word]? = some (immediateNumber r.size)
  between : ∀ r ∈ rs, first ≤ r.first ∧ r.last ≤ last
  nested : rs.Pairwise Region.Nests

namespace Counts

variable {es : List Entry} {a a' b b' : Nat} {rs rs' : List Region} {r : Region}

theorem nil (h : a ≤ b) : Counts es a b [] :=
  ⟨h, fun _ h ↦ (nomatch h), fun _ h ↦ (nomatch h), .nil⟩

theorem mono (h : Counts es a b rs) (ha : a' ≤ a) (hb : b ≤ b') : Counts es a' b' rs where
  le := Nat.le_trans ha (Nat.le_trans h.le hb)
  exact := h.exact
  between r hr := ⟨Nat.le_trans ha (h.between r hr).1, Nat.le_trans (h.between r hr).2 hb⟩
  nested := h.nested

/-- Regions one behind the other are apart. -/
theorem append (h : Counts es a b rs) (h' : Counts es a' b' rs') (hab : b ≤ a') :
    Counts es a b' (rs ++ rs') where
  le := Nat.le_trans h.le (Nat.le_trans hab h'.le)
  exact r hr := (List.mem_append.mp hr).elim (h.exact r) (h'.exact r)
  between r hr := by
    have hle := h.le
    have hle' := h'.le
    rcases List.mem_append.mp hr with hr | hr
    · have := h.between r hr
      omega
    · have := h'.between r hr
      omega
  nested := by
    refine List.pairwise_append.mpr ⟨h.nested, h'.nested, fun r hr r' hr' ↦ .inr (.inr (.inl ?_))⟩
    exact Nat.le_trans (h.between r hr).2 (Nat.le_trans hab (h'.between r' hr').1)

/-- A region is around the regions in it. -/
theorem cons (owner : Nat) (extent : Extent) {word size : Nat}
    (h : Counts es (word + 1) (word + 1 + size) rs)
    (hw : es[word]? = some (immediateNumber size)) :
    Counts es (word + 1) (word + 1 + size) (⟨owner, extent, word, size⟩ :: rs) where
  le := h.le
  exact := List.forall_mem_cons.mpr ⟨hw, h.exact⟩
  between := List.forall_mem_cons.mpr ⟨⟨Nat.le_refl _, Nat.le_refl _⟩, h.between⟩
  nested := List.pairwise_cons.mpr ⟨fun r hr ↦ .inr (.inl (h.between r hr)), h.nested⟩

/-- Any two regions are nested or apart. -/
theorem nests (h : Counts es a b rs) : ∀ r ∈ rs, ∀ r' ∈ rs, r.Nests r' :=
  fun _ hr _ hr' ↦ List.Pairwise.forall_of_forall (fun r _ ↦ .refl r) h.nested hr hr'

end Counts

/-! ## The regions of an outline -/

/-- The region of an instruction at an offset, if it has a word count. -/
def Counted.regions (counted : Counted) (k receiverSize operandsSize : Nat) : List Region :=
  match counted with
  | nothing => []
  | receiver => [⟨k, .receiver, k + 1, receiverSize⟩]
  | operands => [⟨k, .operands, k + 1, operandsSize⟩]

mutual

/-- The regions of an item that starts at an offset. -/
def Item.regions : Item → Nat → List Region
  | .instruction _ counted receiver words operands, k =>
    counted.regions k (Outline.size receiver + words.length) (Outline.size operands)
      ++ (Outline.regions receiver (k + 1 + counted.size)
        ++ Outline.regions operands
          (k + 1 + counted.size + Outline.size receiver + words.length))
  | .ifChain condition body rest, k =>
    ⟨k, .chain, k + 1, Outline.size condition + 1 + Outline.size body + Outline.size rest⟩
      :: (Outline.regions condition (k + 2)
        ++ ⟨k, .body, k + 2 + Outline.size condition, Outline.size body⟩
        :: (Outline.regions body (k + 3 + Outline.size condition)
          ++ Outline.regions rest (k + 3 + Outline.size condition + Outline.size body)))
  | .elseIf condition body rest, k =>
    Outline.regions condition (k + 1)
      ++ ⟨k, .body, k + 1 + Outline.size condition, Outline.size body⟩
      :: (Outline.regions body (k + 2 + Outline.size condition)
        ++ Outline.regions rest (k + 2 + Outline.size condition + Outline.size body))
  | .otherwise body, k => ⟨k, .body, k + 1, Outline.size body⟩ :: Outline.regions body (k + 2)
  | .repeatWhile condition body, k =>
    Outline.regions condition (k + 1)
      ++ ⟨k, .body, k + 1 + Outline.size condition, Outline.size body⟩
      :: Outline.regions body (k + 2 + Outline.size condition)
  | .forIn _ _ _ iteratee body, k =>
    Outline.regions iteratee (k + 3)
      ++ ⟨k, .body, k + 3 + Outline.size iteratee, Outline.size body⟩
      :: Outline.regions body (k + 4 + Outline.size iteratee)
  | .closure _ body _ _ _, k =>
    ⟨k, .body, k + 2, Outline.size body⟩ :: Outline.regions body (k + 3)

/-- The regions of an outline that starts at an offset. -/
def Outline.regions : List Item → Nat → List Region
  | [], _ => []
  | item :: rest, k => item.regions k ++ Outline.regions rest (k + item.size)

end

/-! ## Words at an offset -/

/-- Words stand in a list one behind the other, from an offset on. -/
def StandsAt (L : List Entry) (k : Nat) (es : List Entry) : Prop := es <+: L.drop k

namespace StandsAt

variable {L es es' : List Entry} {e : Entry} {k : Nat}

theorem append (h : StandsAt L k (es ++ es')) :
    StandsAt L k es ∧ StandsAt L (k + es.length) es' := by
  obtain ⟨t, ht⟩ := h
  refine ⟨⟨es' ++ t, by rw [← ht, List.append_assoc]⟩, t, ?_⟩
  rw [← List.drop_drop, ← ht, List.append_assoc, List.drop_left]

theorem cons (h : StandsAt L k (e :: es)) : L[k]? = some e ∧ StandsAt L (k + 1) es := by
  have htail : StandsAt L k ([e] ++ es) := h
  refine ⟨?_, htail.append.2⟩
  obtain ⟨t, ht⟩ := h
  rw [← Nat.add_zero k, ← List.getElem?_drop, ← ht]
  rfl

end StandsAt

/-! ## Word counts of an outline -/

/-- The elements of a collection stand right behind their word count. -/
theorem Opcode.receivers_eq_zero {op : Opcode} {layout : Layout} (h : op.layout? = some layout)
    (hc : layout.counted = .operands) : layout.receivers = 0 ∧ layout.words = 0 := by
  unfold layout? at h
  split at h <;> cases h <;> first | exact ⟨rfl, rfl⟩ | cases hc

section

variable {gap : Nat → Prop} {callee : Nat → Nat → Prop} {L : List Entry} {k : Nat}

mutual

theorem Item.counts_regions (item : Item) (k : Nat) (h : StandsAt L k item.entries)
    (hlaid : item.Laid gap callee k) :
    Counts L (k + 1) (k + item.size) (item.regions k) := by
  cases item with
  | instruction op counted receiver words operands =>
    obtain ⟨⟨layout, receivers, count, hl, hfits, hreceiver, -⟩, hlr, hlo⟩ := hlaid
    have hsize := Item.size_instruction op counted receiver words operands
    obtain ⟨-, h⟩ := h.cons
    obtain ⟨hcount, h⟩ := h.append
    obtain ⟨hr, h⟩ := h.append
    obtain ⟨-, ho⟩ := h.append
    simp only [Counted.length_entries, Outline.length_entries, List.length_map] at hcount hr ho
    have cr := Outline.counts_regions receiver _ hr hlr
    have co := Outline.counts_regions operands _ ho hlo
    cases counted with
    | nothing => exact (cr.append co (Nat.le_add_right _ _)).mono (Nat.le_refl _) (by omega)
    | receiver =>
      simp only [Counted.size] at hsize cr co
      have cr' := (cr.mono (Nat.le_refl _) (by omega)).cons k .receiver hcount.cons.1
      exact (cr'.append co (by omega)).mono (by omega) (by omega)
    | operands =>
      -- nothing stands between the word count and the operands
      obtain ⟨hreceivers, hwords⟩ := Opcode.receivers_eq_zero hl hfits.counted_eq.symm
      rw [← hfits.receivers_eq] at hreceivers
      rw [← hfits.length_words] at hwords
      subst hreceivers
      obtain rfl := hreceiver.eq_nil
      obtain rfl := List.length_eq_zero_iff.mp hwords
      simp only [Counted.size, Outline.size_nil, List.length_nil, Nat.add_zero] at hsize co
      exact (co.cons k .operands hcount.cons.1).mono (by omega) (by omega)
  | ifChain condition body rest =>
    obtain ⟨-, hlc, hlb, hlr⟩ := hlaid
    have hsize := Item.size_ifChain condition body rest
    obtain ⟨-, h⟩ := h.cons
    obtain ⟨hchain, h⟩ := h.cons
    obtain ⟨hc, h⟩ := h.append
    obtain ⟨hbody, h⟩ := h.cons
    obtain ⟨hb, hr⟩ := h.append
    have ek : k + 1 + 1 + Outline.size condition + 1 = k + 3 + Outline.size condition := by omega
    simp only [Outline.length_entries, ek] at hchain hbody hb hr
    have cc := Outline.counts_regions condition _ hc hlc
    have cb := Outline.counts_regions body _ hb hlb
    have cr := Outline.counts_regions rest _ hr hlr
    have cb' := Counts.cons k .body (cb.mono (Nat.le_of_eq ek) (by omega)) hbody
    have call := cc.append (cb'.append cr (by omega)) (by omega)
    have call' := Counts.cons k .chain (call.mono (Nat.le_refl _) (by omega)) hchain
    exact call'.mono (Nat.le_succ _) (by omega)
  | elseIf condition body rest =>
    obtain ⟨-, hlc, hlb, hlr⟩ := hlaid
    have hsize := Item.size_elseIf condition body rest
    obtain ⟨-, h⟩ := h.cons
    obtain ⟨hc, h⟩ := h.append
    obtain ⟨hbody, h⟩ := h.cons
    obtain ⟨hb, hr⟩ := h.append
    have ek : k + 1 + Outline.size condition + 1 = k + 2 + Outline.size condition := by omega
    simp only [Outline.length_entries, ek] at hbody hb hr
    have cc := Outline.counts_regions condition _ hc hlc
    have cb := Outline.counts_regions body _ hb hlb
    have cr := Outline.counts_regions rest _ hr hlr
    have cb' := Counts.cons k .body (cb.mono (Nat.le_of_eq ek) (by omega)) hbody
    have call := cc.append (cb'.append cr (by omega)) (by omega)
    exact call.mono (Nat.le_refl _) (by omega)
  | otherwise body =>
    have hsize := Item.size_otherwise body
    obtain ⟨-, h⟩ := h.cons
    obtain ⟨hbody, hb⟩ := h.cons
    have cb := (Outline.counts_regions body _ hb hlaid).cons k .body hbody
    exact cb.mono (by omega) (by omega)
  | repeatWhile condition body =>
    obtain ⟨-, hlc, hlb⟩ := hlaid
    have hsize := Item.size_repeatWhile condition body
    obtain ⟨-, h⟩ := h.cons
    obtain ⟨hc, h⟩ := h.append
    obtain ⟨hbody, hb⟩ := h.cons
    have ek : k + 1 + Outline.size condition + 1 = k + 2 + Outline.size condition := by omega
    simp only [Outline.length_entries, ek] at hbody hb
    have cc := Outline.counts_regions condition _ hc hlc
    have cb := Outline.counts_regions body _ hb hlb
    have cb' := Counts.cons k .body (cb.mono (Nat.le_of_eq ek) (by omega)) hbody
    exact (cc.append cb' (by omega)).mono (Nat.le_refl _) (by omega)
  | forIn overList slot hidden iteratee body =>
    obtain ⟨-, hli, hlb⟩ := hlaid
    have hsize := Item.size_forIn iteratee body overList slot hidden
    obtain ⟨-, h⟩ := h.cons
    obtain ⟨-, h⟩ := h.cons
    obtain ⟨-, h⟩ := h.cons
    obtain ⟨hi, h⟩ := h.append
    obtain ⟨hbody, hb⟩ := h.cons
    have ek : k + 3 + Outline.size iteratee + 1 = k + 4 + Outline.size iteratee := by omega
    simp only [Outline.length_entries, ek] at hbody hb
    have ci := Outline.counts_regions iteratee _ hi hli
    have cb := Outline.counts_regions body _ hb hlb
    have cb' := Counts.cons k .body (cb.mono (Nat.le_of_eq ek) (by omega)) hbody
    exact (ci.append cb' (by omega)).mono (by omega) (by omega)
  | closure slots body arguments usesSelf captured =>
    have hsize := Item.size_closure body slots arguments captured usesSelf
    obtain ⟨-, h⟩ := h.cons
    obtain ⟨-, h⟩ := h.cons
    obtain ⟨hbody, h⟩ := h.cons
    obtain ⟨hb, -⟩ := h.append
    have cb := (Outline.counts_regions body _ hb hlaid).cons k .body hbody
    exact cb.mono (by omega) (by omega)

theorem Outline.counts_regions (o : List Item) (k : Nat) (h : StandsAt L k (Outline.entries o))
    (hlaid : Outline.Laid gap callee o k) :
    Counts L k (k + Outline.size o) (Outline.regions o k) := by
  cases o with
  | nil => exact .nil (Nat.le_refl _)
  | cons item rest =>
    obtain ⟨hi, hr⟩ := h.append
    have ci := (item.counts_regions k hi hlaid.1).mono (Nat.le_succ k) (Nat.le_refl _)
    have cr := Outline.counts_regions rest _ hr hlaid.2
    rw [Outline.size_cons, ← Nat.add_assoc]
    exact ci.append cr (Nat.le_refl _)

end

end

/-! ## The regions that opcodes ask for -/

/-- The regions of opcodes at their offsets. -/
def extentsAt (ps : List (Nat × Opcode)) : List (Nat × Extent) :=
  ps.flatMap fun (offset, op) ↦ op.extents.map (offset, ·)

theorem extentsAt_cons (k : Nat) (op : Opcode) (ps : List (Nat × Opcode)) :
    extentsAt ((k, op) :: ps) = op.extents.map (k, ·) ++ extentsAt ps := rfl

theorem extentsAt_append (ps ps' : List (Nat × Opcode)) :
    extentsAt (ps ++ ps') = extentsAt ps ++ extentsAt ps' := List.flatMap_append

/-- What a word count of an instruction spans. -/
theorem Opcode.extents_of_layout {op : Opcode} {layout : Layout} (h : op.layout? = some layout)
    (k r o : Nat) :
    op.extents.map (k, ·) = (layout.counted.regions k r o).map Region.place := by
  unfold layout? at h
  split at h <;> cases h <;> rfl

section

variable {gap : Nat → Prop} {callee : Nat → Nat → Prop}

mutual

theorem Item.perm_regions (item : Item) (k : Nat) (hlaid : item.Laid gap callee k) :
    ((item.regions k).map Region.place).Perm (extentsAt (surveyMarks (item.survey k))) := by
  cases item with
  | instruction op counted receiver words operands =>
    obtain ⟨⟨layout, receivers, count, hl, hfits, -, -⟩, hlr, hlo⟩ := hlaid
    have pr := Outline.perm_regions receiver _ hlr
    have po := Outline.perm_regions operands _ hlo
    simp only [Item.regions, Item.survey, surveyMarks_cons, surveyMarks_enterOperand,
      surveyMarks_append, List.map_append, Located.outermost, Instruction.mark, extentsAt_cons,
      extentsAt_append]
    rw [Opcode.extents_of_layout hl k (Outline.size receiver + words.length)
      (Outline.size operands), ← hfits.counted_eq]
    exact (pr.append po).append_left _
  | ifChain condition body rest =>
    obtain ⟨-, hlc, hlb, hlr⟩ := hlaid
    have pc := Outline.perm_regions condition _ hlc
    have pb := Outline.perm_regions body _ hlb
    have pr := Outline.perm_regions rest _ hlr
    simp only [Item.regions, Item.survey, surveyMarks_cons, surveyMarks_enterBlock,
      surveyMarks_append, List.map_cons, List.map_append, Located.outermost, Instruction.mark,
      extentsAt_cons, extentsAt_append, List.append_assoc]
    exact (List.perm_middle.trans ((pc.append (pb.append pr)).cons _)).cons _
  | elseIf condition body rest =>
    obtain ⟨-, hlc, hlb, hlr⟩ := hlaid
    have pc := Outline.perm_regions condition _ hlc
    have pb := Outline.perm_regions body _ hlb
    have pr := Outline.perm_regions rest _ hlr
    simp only [Item.regions, Item.survey, surveyMarks_cons, surveyMarks_enterBlock,
      surveyMarks_enterCondition, surveyMarks_append, List.map_cons, List.map_append,
      Located.outermost, Instruction.mark, extentsAt_cons, extentsAt_append, List.append_assoc]
    exact List.perm_middle.trans ((pc.append (pb.append pr)).cons _)
  | otherwise body =>
    have pb := Outline.perm_regions body _ hlaid
    simp only [Item.regions, Item.survey, surveyMarks_cons, surveyMarks_enterBlock, List.map_cons,
      Located.outermost, Instruction.mark, extentsAt_cons]
    exact pb.cons _
  | repeatWhile condition body =>
    obtain ⟨-, hlc, hlb⟩ := hlaid
    have pc := Outline.perm_regions condition _ hlc
    have pb := Outline.perm_regions body _ hlb
    simp only [Item.regions, Item.survey, surveyMarks_cons, surveyMarks_enterBlock,
      surveyMarks_enterCondition, surveyMarks_append, List.map_cons, List.map_append,
      Located.outermost, Instruction.mark, extentsAt_cons, extentsAt_append]
    exact List.perm_middle.trans ((pc.append pb).cons _)
  | forIn overList slot hidden iteratee body =>
    obtain ⟨-, hli, hlb⟩ := hlaid
    have pi := Outline.perm_regions iteratee _ hli
    have pb := Outline.perm_regions body _ hlb
    simp only [Item.regions, Item.survey, surveyMarks_cons, surveyMarks_enterBlock,
      surveyMarks_append, List.map_cons, List.map_append, Located.outermost, Instruction.mark,
      extentsAt_cons, extentsAt_append]
    exact List.perm_middle.trans ((pi.append pb).cons _)
  | closure slots body arguments usesSelf captured =>
    have pb := Outline.perm_regions body _ hlaid
    simp only [Item.regions, Item.survey, surveyMarks_cons, surveyMarks_enterClosure,
      List.map_cons, Located.outermost, Instruction.mark, extentsAt_cons]
    exact pb.cons _

theorem Outline.perm_regions (o : List Item) (k : Nat) (hlaid : Outline.Laid gap callee o k) :
    ((Outline.regions o k).map Region.place).Perm
      (extentsAt (surveyMarks (Outline.survey o k))) := by
  cases o with
  | nil => exact .nil
  | cons item rest =>
    have pi := item.perm_regions k hlaid.1
    have pr := Outline.perm_regions rest _ hlaid.2
    rw [Outline.survey_cons, surveyMarks_append, extentsAt_append]
    simp only [Outline.regions, List.map_append]
    exact pi.append pr

end

end

end Pictograph
