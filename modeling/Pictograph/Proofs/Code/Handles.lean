import Mathlib.Data.List.Nodup
import Pictograph.Proofs.Code.Offsets

/-!
# Handles of reserved words

Whoever reserves a word gets a handle for it and fills the word with the handle later. The handle is
nothing but the offset of the word, and the assembler accepts it if this is the offset of the
innermost reservation that is open. Within one procedure a word is reserved at most once, so a
handle is accepted just if its own reservation is the innermost one that is open.

Every procedure begins at offset zero. A handle from a procedure that was given up is not told apart
from one of the procedure after it, and is accepted if the word at its offset happens to be the
innermost reservation there.

## The journal

What a handle stands for is not written down in the assembler. So the actions are accompanied by a
journal, which numbers the reservations throughout, and has for each number the handle and whether
the word is still to be filled. The assembler has the offsets of these words on its stack, which is
the invariant of every run.

## Main definitions

* `Assembler.Action`: what can be done with an assembler.
* `Assembler.Journal`: an assembler, and the reservations made with it so far.
* `Assembler.Journal.run`: what a list of actions leads to, unless one of them is refused.

## Main results

* `Assembler.Journal.sound_of_run`: the invariant of a run.
* `Assembler.Journal.fills_iff`: when a handle is accepted.
* `Assembler.Journal.fills_of_earlier`: a handle of another procedure that is accepted.
-/

namespace Pictograph.Assembler

/-! ## Actions -/

/-- The handle of a reserved word. -/
inductive Handle where
  /-- The word takes a value or an opcode. -/
  | value (hole : Hole)
  /-- The word takes a count. -/
  | count (hole : CountHole)

/-- What a word is filled with. -/
inductive Filling where
  /-- A value. -/
  | word (w : UInt32)
  /-- An opcode. -/
  | opcode (op : Opcode)

namespace Handle

/-- The offset of the reserved word. -/
def offset : Handle → Nat
  | value hole => hole.offset
  | count hole => hole.offset

/-- Fills the reserved word. One that takes a count is not told what to take. -/
def fill? (a : Assembler) : Handle → Filling → Option Assembler
  | value hole, .word w => a.fill? hole w
  | value hole, .opcode op => a.fillOpcode? hole op
  | count hole, _ => a.fillCount? hole

end Handle

/-- What can be done with an assembler. -/
inductive Action where
  /-- Goes to a line of the source. -/
  | atLine (line : Nat)
  /-- Appends an opcode. -/
  | opcode (op : Opcode)
  /-- Appends an operand. -/
  | word (w : UInt32)
  /-- Appends a 64-bit operand. -/
  | wide (value : UInt64)
  /-- Reserves a word for a value or an opcode. -/
  | reserve
  /-- Reserves a word for a count. -/
  | reserveCount
  /-- Fills a word with the handle of the `n`-th reservation, which may have been used before. -/
  | fill (n : Nat) (filling : Filling)
  /-- Ends the procedure and starts the next one. -/
  | reset

/-- An assembler, and the reservations made with it so far, which are numbered. -/
structure Journal where
  /-- The assembler. -/
  assembler : Assembler := .start
  /-- The handles of all reservations, in order. -/
  handles : List Handle := []
  /-- The number of the first reservation for the procedure. -/
  first : Nat := 0
  /-- The reservations for the procedure whose words are still to be filled, the latest first. -/
  pending : List Nat := []

namespace Journal

/-- The journal before the first action. -/
def start : Journal := {}

/-- The offset of the word of a reservation. -/
def offset? (j : Journal) (n : Nat) : Option Nat := j.handles[n]?.map (·.offset)

/-- One more word is reserved. -/
def reserved (j : Journal) (handle : Handle) (a : Assembler) : Journal := { j with
  assembler := a
  handles := j.handles ++ [handle]
  pending := j.handles.length :: j.pending }

/-- The word that a handle refers to is filled. -/
def filled (j : Journal) (handle : Handle) (a : Assembler) : Journal := { j with
  assembler := a
  pending := j.pending.filter fun m ↦ j.offset? m != some handle.offset }

/-- The journal after an action, unless the action is refused. -/
def step (j : Journal) : Action → Option Journal
  | .atLine line => some { j with assembler := j.assembler.atLine line }
  | .opcode op => some { j with assembler := j.assembler.opcode op }
  | .word w => some { j with assembler := j.assembler.word w }
  | .wide value => some { j with assembler := j.assembler.wide value }
  | .reserve => some (j.reserved (.value j.assembler.reserve.1) j.assembler.reserve.2)
  | .reserveCount =>
    some (j.reserved (.count j.assembler.reserveCount.1) j.assembler.reserveCount.2)
  | .fill n filling =>
    j.handles[n]?.bind fun handle ↦ (handle.fill? j.assembler filling).map (j.filled handle)
  | .reset =>
    some { j with assembler := j.assembler.reset.2, first := j.handles.length, pending := [] }

/-- The journal after some actions, unless one of them is refused. -/
def run (actions : List Action) : Option Journal := actions.foldlM step start

end Journal

/-! ## What the assembler accepts -/

section

variable {a a' : Assembler} {handle : Handle} {filling : Filling}

/-- A reservation can be closed just if it is the innermost one, because its word is there to be
written. -/
theorem isSome_close_iff (h : a.Sound) {offset : Nat} {write : Chunk → Nat → Option Chunk}
    (hwrite : offset < a.chunk.size → (write a.chunk offset).isSome) :
    (a.close offset write).isSome ↔ a.holes.head? = some offset := by
  rw [close]
  cases hholes : a.holes with
  | nil => simp
  | cons innermost holes =>
    by_cases hinnermost : innermost = offset
    · have hlt : offset < a.chunk.size :=
        h.lt_size offset (by rw [hholes, hinnermost]; exact List.mem_cons_self)
      simp [hinnermost, hwrite hlt]
    · simp [hinnermost]

/-- A handle is used by closing its reservation with a word or with an opcode. -/
theorem Handle.fill?_eq (handle : Handle) (a : Assembler) (filling : Filling) :
    (∃ w, handle.fill? a filling = a.close handle.offset (·.patch? · w))
    ∨ ∃ op, handle.fill? a filling = a.close handle.offset (·.patchOpcode? · op) := by
  cases handle with
  | value hole =>
    cases filling with
    | word w => exact .inl ⟨w, rfl⟩
    | opcode op => exact .inr ⟨op, rfl⟩
  | count hole => exact .inl ⟨_, rfl⟩

/-- **What the assembler accepts**: the offset of the innermost reservation that is open. -/
theorem Handle.isSome_fill?_iff (h : a.Sound) :
    (handle.fill? a filling).isSome ↔ a.holes.head? = some handle.offset := by
  rcases handle.fill?_eq a filling with ⟨w, heq⟩ | ⟨op, heq⟩
  all_goals
    rw [heq]
    apply isSome_close_iff h
    intro hlt
    exact Option.isSome_of_eq_some (dif_pos hlt)

/-- What is filled is closed, and the rest is in order. -/
theorem Handle.fill?_ok (h : a.Sound) (hfill : handle.fill? a filling = some a') :
    a'.Sound ∧ a.chunk.size ≤ a'.chunk.size ∧ a.holes = handle.offset :: a'.holes := by
  have hclosed {write : Chunk → Nat → Option Chunk}
      (hclose : a.close handle.offset write = some a') : a.holes = handle.offset :: a'.holes := by
    obtain ⟨chunk, holes, -, hholes, rfl⟩ := exists_of_close hclose
    exact hholes
  rcases handle.fill?_eq a filling with ⟨w, heq⟩ | ⟨op, heq⟩
  · rw [heq] at hfill
    have hspares := h.spares_patch (p := fun _ ↦ false) hfill
    exact ⟨hspares.sound, hspares.size_le, hclosed hfill⟩
  · rw [heq] at hfill
    have hfill' : a.fillOpcode? ⟨handle.offset⟩ op = some a' := hfill
    have hspares := h.spares_fillOpcode? (p := fun _ ↦ false) rfl hfill'
    exact ⟨hspares.sound, hspares.size_le, hclosed hfill⟩

end

/-! ## The invariant -/

namespace Journal

variable {j j' : Journal} {n m k : Nat} {handle : Handle} {a : Assembler}

/-- The journal and the assembler agree. -/
structure Sound (j : Journal) : Prop where
  /-- The reserved words are in order. -/
  assembler : j.assembler.Sound
  /-- The first reservation for the procedure is behind those for earlier ones. -/
  first_le : j.first ≤ j.handles.length
  /-- No word of the procedure was reserved twice. -/
  nodup : ((j.handles.drop j.first).map (·.offset)).Nodup
  /-- The words reserved for the procedure are there. -/
  lt_size : ∀ handle ∈ j.handles.drop j.first, handle.offset < j.assembler.chunk.size
  /-- The assembler has the offsets of the words that are still to be filled. -/
  pending : j.pending.map j.offset? = j.assembler.holes.map some
  /-- These words were reserved for the procedure. -/
  first_le_pending : ∀ m ∈ j.pending, j.first ≤ m

theorem sound_start : start.Sound :=
  ⟨Assembler.sound_start, Nat.le_refl _, List.nodup_nil, nofun, rfl, nofun⟩

theorem offset?_of_lt (hn : n < j.handles.length) : j.offset? n = some j.handles[n].offset := by
  rw [offset?, List.getElem?_eq_getElem hn, Option.map_some]

/-- Later reservations have later numbers. -/
theorem offset?_reserved (hn : n < j.handles.length) :
    (j.reserved handle a).offset? n = j.offset? n := by
  rw [offset?, reserved, List.getElem?_append_left hn, offset?]

namespace Sound

variable (h : j.Sound)

include h

/-- The words that are still to be filled are numbered. -/
theorem lt_length (hm : m ∈ j.pending) : m < j.handles.length := by
  have hmem : j.offset? m ∈ j.assembler.holes.map some := h.pending ▸ List.mem_map_of_mem hm
  obtain ⟨k, -, hk⟩ := List.mem_map.mp hmem
  obtain ⟨handle, hhandle, -⟩ := Option.map_eq_some_iff.mp hk.symm
  exact (List.getElem?_eq_some_iff.mp hhandle).1

/-- Within a procedure, the offset tells the reservation. -/
theorem eq_of_offset? (hn : j.first ≤ n) (hm : j.first ≤ m) (hk : j.offset? n = some k)
    (hk' : j.offset? m = some k) : n = m := by
  have hget {i : Nat} (hi : j.first ≤ i) :
      ((j.handles.drop j.first).map (·.offset))[i - j.first]? = j.offset? i := by
    rw [List.getElem?_map, List.getElem?_drop, Nat.add_sub_cancel' hi, offset?]
  have hsome := (hget hn).trans hk
  have hlt := (List.getElem?_eq_some_iff.mp hsome).1
  have hsub : n - j.first = m - j.first :=
    (List.getElem?_inj hlt h.nodup).mp (hsome.trans ((hget hm).trans hk').symm)
  omega

/-- The innermost reservation that is open is the latest one whose word is still to be filled. -/
theorem head?_holes_iff :
    j.assembler.holes.head? = some k ↔ ∃ m, j.pending.head? = some m ∧ j.offset? m = some k := by
  have hhead := congrArg List.head? h.pending
  rw [List.head?_map, List.head?_map] at hhead
  constructor
  · intro hk
    rw [hk, Option.map_some] at hhead
    exact Option.map_eq_some_iff.mp hhead
  · rintro ⟨m, hm, hk⟩
    rw [hm, Option.map_some, hk] at hhead
    obtain ⟨k', hk', hsame⟩ := Option.map_eq_some_iff.mp hhead.symm
    rw [hk', Option.some.inj hsame]

/-! ### One action -/

/-- What is appended changes nothing about the reservations. -/
theorem append (ha : a.Sound) (hholes : a.holes = j.assembler.holes)
    (hsize : j.assembler.chunk.size ≤ a.chunk.size) : Sound { j with assembler := a } where
  assembler := ha
  first_le := h.first_le
  nodup := h.nodup
  lt_size handle hhandle := Nat.lt_of_lt_of_le (h.lt_size handle hhandle) hsize
  pending := hholes ▸ h.pending
  first_le_pending := h.first_le_pending

/-- A word that is reserved is a new one. -/
theorem reserved (hoffset : handle.offset = j.assembler.chunk.size) :
    (j.reserved handle j.assembler.appendHole).Sound where
  assembler := (h.assembler.spares_appendHole (p := fun _ ↦ false)).sound
  first_le := by
    rw [Journal.reserved, List.length_append]
    exact Nat.le_add_right_of_le h.first_le
  nodup := by
    rw [Journal.reserved, List.drop_append_of_le_length h.first_le, List.map_append,
      List.map_singleton, List.nodup_append]
    refine ⟨h.nodup, List.nodup_singleton _, fun k hk k' hk' hsame ↦ ?_⟩
    obtain ⟨handle', hhandle', rfl⟩ := List.mem_map.mp hk
    have hlt := h.lt_size handle' hhandle'
    rw [List.mem_singleton.mp hk', hoffset] at hsame
    exact Nat.ne_of_lt hlt hsame
  lt_size handle' hhandle' := by
    rw [Journal.reserved, List.drop_append_of_le_length h.first_le, List.mem_append,
      List.mem_singleton] at hhandle'
    rw [Journal.reserved, size_appendHole]
    rcases hhandle' with hhandle' | rfl
    · exact Nat.lt_succ_of_lt (h.lt_size handle' hhandle')
    · rw [hoffset]
      exact Nat.lt_succ_self _
  pending := by
    have hnew : (j.reserved handle j.assembler.appendHole).offset? j.handles.length
        = some j.assembler.chunk.size := by
      rw [offset?, Journal.reserved, List.getElem?_concat_length, Option.map_some, hoffset]
    have hold : j.pending.map (j.reserved handle j.assembler.appendHole).offset?
        = j.pending.map j.offset? :=
      List.map_congr_left fun m hm ↦ offset?_reserved (h.lt_length hm)
    change List.map _ (_ :: j.pending) = List.map some (_ :: j.assembler.holes)
    rw [List.map_cons, List.map_cons, hnew, hold, h.pending]
  first_le_pending := List.forall_mem_cons.mpr ⟨h.first_le, h.first_le_pending⟩

/-- The word that is filled is the one that was reserved last. -/
theorem filled {filling : Filling} (hfill : handle.fill? j.assembler filling = some a) :
    (j.filled handle a).Sound := by
  obtain ⟨ha, hsize, hholes⟩ := Handle.fill?_ok h.assembler hfill
  have hpending := h.pending
  rw [hholes, List.map_cons] at hpending
  obtain ⟨m, rest, hrest, hm, hoffsets⟩ := List.map_eq_cons_iff.mp hpending
  -- the offsets on the stack decrease, so the others stay
  have hdecreasing := h.assembler.decreasing
  rw [hholes, List.pairwise_cons] at hdecreasing
  have hothers : ∀ m' ∈ rest, j.offset? m' != some handle.offset := by
    intro m' hm'
    have hmem : j.offset? m' ∈ a.holes.map some := hoffsets ▸ List.mem_map_of_mem hm'
    obtain ⟨k, hk, hsame⟩ := List.mem_map.mp hmem
    rw [← hsame, bne_iff_ne, ne_eq, Option.some_inj]
    exact Nat.ne_of_lt (hdecreasing.1 k hk)
  have hfilter : (j.filled handle a).pending = rest := by
    rw [Journal.filled, hrest, List.filter_cons_of_neg (by simp [hm])]
    exact List.filter_eq_self.mpr hothers
  refine ⟨ha, h.first_le, h.nodup, fun handle' hhandle' ↦ ?_, ?_, ?_⟩
  · exact Nat.lt_of_lt_of_le (h.lt_size handle' hhandle') hsize
  · rw [hfilter]
    exact hoffsets
  · rw [hfilter]
    intro m' hm'
    exact h.first_le_pending m' (hrest ▸ List.mem_cons_of_mem m hm')

/-- **One action keeps the invariant.** -/
theorem step {action : Action} (hstep : j.step action = some j') : j'.Sound := by
  have ha := h.assembler
  cases action with
  | atLine line =>
    cases hstep
    exact h.append (ha.spares_atLine (p := fun _ ↦ false) line).sound rfl (Nat.le_refl _)
  | opcode op =>
    cases hstep
    exact h.append (ha.sound_opcode op) rfl (size_opcode _ op ▸ Nat.le_succ _)
  | word w =>
    cases hstep
    have hspares := ha.spares_word (p := fun _ ↦ false) w
    exact h.append hspares.sound rfl hspares.size_le
  | wide value =>
    cases hstep
    have hhigh := ha.spares_word (p := fun _ ↦ false) (Chunk.highWord value)
    have hlow := hhigh.sound.spares_word (p := fun _ ↦ false) (Chunk.lowWord value)
    exact h.append hlow.sound rfl (Nat.le_trans hhigh.size_le hlow.size_le)
  | reserve =>
    cases hstep
    exact h.reserved rfl
  | reserveCount =>
    cases hstep
    exact h.reserved rfl
  | fill n filling =>
    obtain ⟨handle, -, hmap⟩ := Option.bind_eq_some_iff.mp hstep
    obtain ⟨a, hfill, rfl⟩ := Option.map_eq_some_iff.mp hmap
    exact h.filled hfill
  | reset =>
    cases hstep
    have hnone : j.handles.drop j.handles.length = [] := List.drop_length
    refine ⟨Assembler.sound_start, Nat.le_refl _, ?_, ?_, rfl, nofun⟩
    · rw [hnone]
      exact List.nodup_nil
    · rw [hnone]
      exact nofun

end Sound

/-- **The invariant of a run.** -/
theorem sound_of_run {actions : List Action} (h : run actions = some j) : j.Sound := by
  have hstart : start.Sound := sound_start
  rw [run] at h
  generalize start = j₀ at h hstart
  induction actions generalizing j₀ with
  | nil =>
    cases h
    exact hstart
  | cons action actions ih =>
    rw [List.foldlM_cons] at h
    obtain ⟨j₁, hstep, hrest⟩ := Option.bind_eq_some_iff.mp h
    exact ih j₁ hrest (hstart.step hstep)

/-! ## Which handles are accepted -/

/-- A handle is accepted if it has the offset of the innermost reservation that is open. -/
theorem Sound.isSome_step_fill_iff (h : j.Sound) {filling : Filling} :
    (j.step (.fill n filling)).isSome
      ↔ ∃ m k, j.pending.head? = some m ∧ j.offset? m = some k ∧ j.offset? n = some k := by
  rw [Journal.step]
  cases hn : j.handles[n]? with
  | none =>
    have hnone : j.offset? n = none := by rw [offset?, hn, Option.map_none]
    simp [hnone]
  | some handle =>
    have hsome : j.offset? n = some handle.offset := by rw [offset?, hn, Option.map_some]
    rw [Option.bind_some, Option.isSome_map, Handle.isSome_fill?_iff h.assembler, h.head?_holes_iff]
    simp [hsome]

/-- **When a handle is accepted.** After any actions that are not refused,

* a handle of the procedure is accepted just if its own reservation is the innermost one that is
  open, that is, the latest one for the procedure whose word is still to be filled;
* a handle of an earlier procedure is accepted just if it has the offset of the word of that
  reservation. -/
theorem fills_iff {actions : List Action} (h : run actions = some j) (n : Nat)
    (filling : Filling) :
    (j.first ≤ n → ((j.step (.fill n filling)).isSome ↔ j.pending.head? = some n))
    ∧ (n < j.first → ((j.step (.fill n filling)).isSome
      ↔ ∃ m, j.pending.head? = some m ∧ j.offset? m = j.offset? n)) := by
  have hsound : j.Sound := sound_of_run h
  rw [hsound.isSome_step_fill_iff]
  constructor
  · intro hn
    constructor
    · rintro ⟨m, k, hm, hk, hk'⟩
      have hle := hsound.first_le_pending m (List.mem_of_head? hm)
      rw [hm, hsound.eq_of_offset? hn hle hk' hk]
    · intro hhead
      have hlt := hsound.lt_length (List.mem_of_head? hhead)
      obtain ⟨k, hk⟩ : ∃ k, j.offset? n = some k := ⟨_, offset?_of_lt hlt⟩
      exact ⟨n, k, hhead, hk, hk⟩
  · intro hn
    have hlt : n < j.handles.length := Nat.lt_of_lt_of_le hn hsound.first_le
    constructor
    · rintro ⟨m, k, hm, hk, hk'⟩
      exact ⟨m, hm, hk.trans hk'.symm⟩
    · rintro ⟨m, hm, hsame⟩
      exact ⟨m, _, hm, hsame.trans (offset?_of_lt hlt), offset?_of_lt hlt⟩

/-- Of two reservations that are open, the inner one is filled first. -/
theorem fills_innermost_first :
    ∃ j, run [.reserve, .reserveCount] = some j ∧ j.first = 0
      ∧ (j.step (.fill 1 (.word 7))).isSome ∧ ¬(j.step (.fill 0 (.word 7))).isSome := by
  have hrun : run [.reserve, .reserveCount] = some
      ((start.reserved (.value ⟨0⟩) start.assembler.appendHole).reserved (.count ⟨1⟩)
        start.assembler.appendHole.appendHole) := rfl
  refine ⟨_, hrun, rfl, ?_, ?_⟩
  · exact ((fills_iff hrun 1 (.word 7)).1 (Nat.zero_le _)).mpr rfl
  · intro hfills
    have hhead := ((fills_iff hrun 0 (.word 7)).1 (Nat.zero_le _)).mp hfills
    cases hhead

/-- A handle of a procedure that was given up is accepted in place of the one that was made for the
same offset of the next procedure. -/
theorem fills_of_earlier :
    ∃ j, run [.reserve, .reset, .reserve] = some j ∧ j.first = 1 ∧ j.pending = [1]
      ∧ (j.step (.fill 0 (.word 7))).isSome :=
  ⟨_, rfl, rfl, rfl, rfl⟩

end Journal

end Pictograph.Assembler
