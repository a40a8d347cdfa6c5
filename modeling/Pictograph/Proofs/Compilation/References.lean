import Pictograph.Proofs.Analysis.Lookups
import Pictograph.Proofs.Compilation.Emitted

/-!
# References to procedures in a body

When the body of a procedure is compiled, its expressions are analysed, those of its closures
included. Where such an expression refers to a procedure, the body is accepted only if the reference
finds a member that the class of the body may use.

## Main definitions

* `Query.first`: the query for the first statement of a body.

## Main results

* `exists_found_of_reachedIn`: all references of an accepted body find members that may be used.
-/

namespace Pictograph

variable {cat : Catalogue} {options : Options} {session session' : Session} {c : Class}
  {m : Member} {tokens : List Token} {record : Record} {n : Nat} {q : Query}

/-- All expressions of a body are analysed for its class. -/
theorem ReachedIn.shares (h : ReachedIn cat options session c m tokens n q) :
    q.setting.catalogue = cat ∧ q.setting.selfType = c.selfType := by
  obtain ⟨-, fields, -, hq⟩ := h
  obtain ⟨hcatalogue, hself⟩ := hq.shares (confined_body _ _ _ _)
  exact ⟨hcatalogue, hself⟩

/-- All expressions of an accepted body are accepted. -/
theorem ReachedIn.answered (h : ReachedIn cat options session c m tokens n q)
    (hcompile : compile cat options session c m tokens = (.ok record, session')) :
    ∃ t s, (Analysis.expression n).answer q = .ok t s := by
  obtain ⟨hnative, fields, hfields, hq⟩ := h
  obtain ⟨fields', summary, s, hfields', hbody, -⟩ := analyse_of_compile hnative hcompile
  cases hfields.symm.trans hfields'
  exact hq.answered hbody

/-- What the statements of a body without arguments and captured variables ask, the body asks. -/
theorem asks_body {rec : Recursion} {Γ : Setting} {s : State}
    (h : Asks rec (fun r ↦ Analysis.bodyStatements Γ r) s q) :
    Asks rec (fun r ↦ Analysis.body Γ r [] [] 0) s q :=
  .behind rfl (.behind rfl (.behind rfl (.first h)))

/-- The query for the first statement of a body without arguments. -/
def Query.first (Γ : Setting) (fields : Option Scope) (session : Session) (token : Token)
    (rest : List Token) : Query :=
  ⟨Γ, token, none,
    { State.start fields session (token :: rest) with
      cursor := ⟨[token], rest⟩
      frame := { hasEffect := false } }⟩

/-- A body without arguments asks for its first statement. -/
theorem asks_first {rec : Recursion} {Γ : Setting} {fields : Option Scope} {session : Session}
    {token : Token} {rest : List Token} (htoken : token.asksFor .blockClose = false) :
    Asks rec (fun r ↦ Analysis.body Γ r [] [] 0) (.start fields session (token :: rest))
      (.first Γ fields session token rest) := by
  refine asks_body (.behind rfl (.first (.behind rfl ?_)))
  simp only [htoken, Bool.false_eq_true, if_false]
  exact .first (.behind rfl (.first .call))

/-- A body without arguments gets to its first statement. -/
theorem reachedIn_first {fields : Option Scope} {token : Token} {rest : List Token}
    (hnative : m.isNative = false) (harguments : m.arguments = [])
    (hfields : cat.fieldsFor c m = .ok fields) (htoken : token.asksFor .blockClose = false) :
    ReachedIn cat options session c m (token :: rest) (rest.length + 1)
      (.first (.ofMember cat options c m) fields session token rest) := by
  refine ⟨hnative, fields, hfields, .asked ?_⟩
  rw [harguments]
  exact asks_first htoken

/-- All references of an accepted body find members that the class of the body may use. -/
theorem exists_found_of_reachedIn (h : ReachedIn cat options session c m tokens n q)
    (hcompile : compile cat options session c m tokens = (.ok record, session')) :
    ∃ k l? s₁ t s', n = k + 1 ∧ q.lookup? (Analysis.expression k) q.state = .ok l? s₁
      ∧ (Analysis.expression n).answer q = .ok t s'
      ∧ ∀ l ∈ l?, ∃ p, Analysis.Found q.setting t l p := by
  obtain ⟨t, s', hanswer⟩ := h.answered hcompile
  cases n with
  | zero => cases hanswer
  | succ k =>
    obtain ⟨l?, s₁, hlookup, hfound⟩ := Analysis.exists_found hanswer
    exact ⟨k, l?, s₁, t, s', rfl, hlookup, hanswer, hfound⟩

end Pictograph
