import TreePath.Proofs.Scopes

/-!
# The value that stands for an absence

What is put into the holes of the results has no influence on anything else: there is one tree of matches for a path,
and the results are that tree with the chosen value in its holes (`evaluate_render`). No walk depends on the value
(`run_hole`), and no test of a filter does (`Outcome.satisfies_hole`).
-/

namespace TreePath

/-- A walk does not depend on the hole. -/
theorem run_hole (σ : Scope) (hole : Value) (ts : List Token) (v : Value) :
    run { σ with missing := hole } ts v = run σ ts v := run_of_scopes σ hole σ.root ts (fun _ => rfl) v

/-! ## Results -/

theorem length_renderAll (hole : Value) : ∀ ms : List Match, (Match.renderAll hole ms).length = ms.length
  | [] => rfl
  | _ :: ms => congrArg (· + 1) (length_renderAll hole ms)

/-- **What stands for an absence is rendering only.** For a document, an item, a path and a mode there is one tree of
matches, one number of absences and one list of visits such that every evaluation gives that tree with the value for
absences in its holes, that number and that list; the filters keep the same children. -/
theorem evaluate_render (mode : UnionMode) (document : Value) (item : Option Value) (p : Path) :
    (∃ (tree : List Match) (absent : Nat) (visits : List Nat), ∀ (hole : Value) (tracing : Bool),
      Config.evaluate ⟨mode, hole, tracing⟩ document item p = ⟨p, Match.renderAll hole tree, absent, visits⟩ ∧
      (Config.evaluate ⟨mode, hole, tracing⟩ document item p).results.length = tree.length) ∧
    ∀ (hole hole' : Value) (subpath : List Token) (op : Operator) (literal : Literal) (v : Value),
      kept ⟨mode, hole, document⟩ subpath op literal v = kept ⟨mode, hole', document⟩ subpath op literal v := by
  constructor
  · let o := run ⟨mode, .null, document⟩ p.tokens (item.getD document)
    refine ⟨o.entries, o.absent, o.visits, fun hole tracing => ?_⟩
    have hreport : Config.evaluate ⟨mode, hole, tracing⟩ document item p = o.report hole p :=
      congrArg (Outcome.report · hole p) (run_hole ⟨mode, .null, document⟩ hole p.tokens (item.getD document))
    rw [hreport]
    exact ⟨rfl, length_renderAll hole o.entries⟩
  · intro hole hole' subpath op literal v
    have hwalk := run_hole ⟨mode, hole', document⟩ hole subpath
    unfold kept
    apply List.filter_congr
    intro w _
    rw [hwalk w]
    exact Outcome.satisfies_hole _ hole hole' op literal

end TreePath
