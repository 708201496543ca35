import TreePath.Path.Render
import TreePath.Query.Config

/-!
# Reports

A query evaluates a path against a document and reports what it found: the rendered results, the number of absences,
and the visits of each token.
-/

namespace TreePath

structure Report where
  path : Path
  results : List Value
  absent : Nat
  visits : List Nat

/-- What a walk leaves, as a report. -/
def Outcome.report (o : Outcome) (hole : Value) (p : Path) : Report :=
  ⟨p, Match.renderAll hole o.entries, o.absent, o.visits⟩

/-- Evaluates a path: `$` stands for the document and `@` for the item, which is the document if there is none. -/
def Config.evaluate (c : Config) (document : Value) (item : Option Value) (p : Path) : Report :=
  (run (c.scope document) p.tokens (item.getD document)).report c.missing p

/-- Each token of the path with the number of its visits. -/
def Report.steps (r : Report) : List (Text × Nat) :=
  r.path.tokens.zipIdx.map fun (t, i) => (t.text, r.visits.getD i 0)

/-- A report as one value. -/
def Report.toValue (r : Report) : Value :=
  .object [
    ("path", .string r.path.text),
    ("results", .list r.results),
    ("absent", .int r.absent),
    ("steps", .list (r.steps.map fun (t, n) => .object [("token", .string t), ("visits", .int n)]))]

end TreePath
