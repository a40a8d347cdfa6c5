import Pictograph.Proofs.Analysis.FieldDeclarations
import Pictograph.Proofs.Analysis.OrderlyConstructs
import Pictograph.Proofs.Analysis.Passage
import Pictograph.Proofs.Code.Integers
import Pictograph.Proofs.Compilation.References
import Pictograph.Proofs.Source.Blocks

/-!
# States in which expressions are analysed

The analysis of a body gets to an expression through constructs that have not come to their end, and
the body need not be accepted. Still the variables in reach are in slots of their own there. For
local variables this is part of what an orderly analysis relies on: an analysis that asked for an
expression with its books in disorder would not be orderly, because nothing is promised about the
expression then. The fields are those that the body was started with.

## Main results

* `Reaches.exists_standing`: the books are in order in front of every expression.
* `ReachedIn.distinct`: the variables in reach there are in slots of their own.
* `ReachedIn.staysIn`: what an expression of an accepted body wrote is in the code in the end.
-/

namespace Pictograph

variable {α : Type} {s : State}

/-! ## Orderly from one state on -/

/-- What an analysis does from a state on depends on its run from there alone. -/
theorem Does.congr {m m' : Analysis α} {touches : List Touch} (h : Does m s touches)
    (hm : m' s = m s) : Does m' s touches := by
  -- `m'` is a choice between `m` and itself
  have hchoice : m' = (get >>= fun s' ↦ if s' = s then m else m' : Analysis α) := by
    funext s'
    by_cases hs : s' = s
    · rw [Analysis.bind_of_ok (m := get) rfl, if_pos hs, hs, hm]
    · rw [Analysis.bind_of_ok (m := get) rfl, if_neg hs]
  have hget : Does (get : Analysis State) s [] := .aside (.of_ok (fun _ ↦ rfl) fun _ ↦ rfl)
  rw [hchoice, ← List.nil_append touches]
  refine .bind rfl hget ?_
  rwa [if_pos rfl]

theorem Orderly.congr {m m' : Analysis α} {os ps : List Nat} (h : Orderly os ps m s)
    (hm : m' s = m s) : Orderly os ps m' s := by
  intro rest qs hs
  obtain ⟨touches, hdoes, hend⟩ := h rest qs hs
  refine ⟨touches, hdoes.congr hm, ?_⟩
  rwa [hm]

/-! ## Queries -/

variable {m : Recursion → Analysis α} {fuel n : Nat} {q : Query}

/-- An orderly analysis asks for expressions with its books in order. -/
theorem Asks.exists_standing (h : Asks (Analysis.expression fuel) m s q)
    (hm : ∀ rec : Recursion, rec.Orderly → Orderly [] [] (m rec) s)
    (hs : ∃ rest qs, Standing rest qs s) : ∃ rest qs, Standing rest qs q.state := by
  by_contra hnot
  -- with its books in disorder an expression might misfill a word
  have hrec : ((Analysis.expression fuel).failingAt q .misfilled).Orderly := by
    intro Γ token hint s'
    by_cases hq : (⟨Γ, token, hint, s'⟩ : Query) = q
    · intro rest qs hs'
      subst hq
      exact absurd ⟨rest, qs, hs'⟩ hnot
    · exact (Analysis.orderly_expression fuel Γ token hint s').congr (if_neg hq)
  obtain ⟨rest, qs, hs⟩ := hs
  obtain ⟨touches, -, hfault⟩ := hm _ hrec rest qs hs
  rw [h.eq_error .misfilled] at hfault
  exact hfault rfl

/-- **The books are in order in front of every expression** that an analysis gets to. -/
theorem Reaches.exists_standing (h : Reaches m fuel s n q)
    (hm : ∀ rec : Recursion, rec.Orderly → Orderly [] [] (m rec) s)
    (hs : ∃ rest qs, Standing rest qs s) : ∃ rest qs, Standing rest qs q.state := by
  induction h with
  | asked hq => exact hq.exists_standing hm hs
  | nested _ hq ih =>
    exact hq.exists_standing (fun _ hrec ↦ Analysis.orderly_expressionStep hrec _ _ _ _) ih

/-- **The variables in reach are in slots of their own** wherever an expression is analysed. -/
theorem ReachedIn.distinct {cat : Catalogue} {options : Options} {session : Session} {c : Class}
    {m : Member} {tokens : List Token} (h : ReachedIn cat options session c m tokens n q) :
    q.state.environment.Distinct q.state.frame.slotCount := by
  obtain ⟨-, fields, hfields, hq⟩ := h
  obtain ⟨rest, qs, hstanding⟩ := hq.exists_standing
    (fun _ hrec ↦ Analysis.orderly_body hrec .nil fun _ hv ↦ nomatch hv)
    ⟨[], [], rfl, fun _ hk ↦ (nomatch hk), .nil, fun _ hk ↦ nomatch hk⟩
  have hdeclared := hq.fieldDeclarations_eq fun rec hrec ↦ Analysis.keepsFields_body hrec _ _ _
  refine ⟨(List.nodup_append.mp hstanding.nodup).1, fun fields' hfields' ↦ ?_, fun v hv ↦ ?_⟩
  · have hslots := Environment.map_slot_stored_object hdeclared
    have hnodup : (((Environment.start fields).stored .object).map (·.slot)).Nodup := by
      cases fields with
      | none => exact List.nodup_nil
      | some s => exact Catalogue.nodup_fieldsFor hfields s rfl
    have hstored : q.state.environment.stored .object = fields'.declared := by
      rw [Environment.stored, hfields', Option.elim_some]
    rw [← hstored, hslots]
    exact hnodup
  · refine hstanding.bounds v.slot (List.mem_append_left _ (List.mem_map_of_mem ?_))
    exact Environment.mem_stored.mpr hv

/-! ## The code of an expression -/

section

variable {cat : Catalogue} {options : Options} {session session' : Session} {c : Class}
  {m : Member} {tokens : List Token} {record : Record} {t : Ty} {s' : State}

/-- What is analysed in front of an expression of an accepted body leads there, and what is analysed
behind it starts where the expression ends. -/
theorem ReachedIn.onward (h : ReachedIn cat options session c m tokens n q)
    (hcompile : compile cat options session c m tokens = (.ok record, session'))
    (hanswer : (Analysis.expression n).answer q = .ok t s') :
    ∃ fields summary ending, cat.fieldsFor c m = .ok fields
      ∧ analyse (.ofMember cat options c m) m.arguments fields session tokens = .ok summary ending
      ∧ record.code = ending.assembler.chunk
      ∧ (State.start fields session tokens).Onward q.state ∧ s'.Onward ending := by
  obtain ⟨hnative, fields, hfields, hq⟩ := h
  obtain ⟨fields', summary, ending, hfields', hbody, hcode, -⟩ :=
    analyse_of_compile hnative hcompile
  cases hfields.symm.trans hfields'
  exact ⟨fields, summary, ending, hfields, hbody, hcode, hq.onward
    (.body (Analysis.goesOnward_expression _) _ _ _) hbody hanswer⟩

/-- **What an expression of an accepted body wrote is in the code in the end.** -/
theorem ReachedIn.staysIn (h : ReachedIn cat options session c m tokens n q)
    (hcompile : compile cat options session c m tokens = (.ok record, session'))
    (hanswer : (Analysis.expression n).answer q = .ok t s') :
    s'.assembler.chunk.StaysIn record.code q.state.offset := by
  obtain ⟨fields, summary, ending, hfields, hbody, hcode, -, hfrom⟩ := h.onward hcompile hanswer
  obtain ⟨-, fields', hfields', hq⟩ := h
  cases hfields.symm.trans hfields'
  obtain ⟨rest, qs, hstanding⟩ := hq.exists_standing
    (fun _ hrec ↦ Analysis.orderly_body hrec .nil fun _ hv ↦ nomatch hv)
    ⟨[], [], rfl, fun _ hk ↦ (nomatch hk), .nil, fun _ hk ↦ nomatch hk⟩
  -- no word of the expression is reserved in the end, because it fills those that it reserves
  obtain ⟨touches, -, hend⟩ := Analysis.orderly_expression n q.setting q.token q.hint q.state
    rest qs hstanding
  have hholes : s'.assembler.holes = rest := by
    have hrun : Analysis.expression n q.setting q.token q.hint q.state = .ok t s' := hanswer
    rw [hrun] at hend
    exact hend.holes
  rw [hcode]
  exact fun k hk ↦ hfrom.code.cells_eq (by rw [hholes]; exact hstanding.below) hk

end

end Pictograph
