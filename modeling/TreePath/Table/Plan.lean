import TreePath.Path.Parse
import TreePath.Query.Report
import TreePath.Table.Spec

/-!
# Tables from documents

A plan is a specification whose paths are compiled. It turns a document into rows: one row, or one row per match of the
exploded path, with a cell for each column. In a cell, `$` is the document and `@` the match; nulls leave no trace.
-/

namespace TreePath

abbrev Row := List (Text × Value)

structure Plan where
  columns : List (Text × Path)
  /-- The exploded path, and whether a document without matches gives a row of its own. -/
  explode : Option (Path × Bool)

inductive PlanError
  | notObject
  | invalid (issues : List Spec.Issue)
  | column (name : Text) (e : SyntaxError)
  | explode (e : SyntaxError)
  | tooManyDigits (digits : Nat)

/-- The wording of an error; issues are reported one by one and have none. -/
def PlanError.message? : PlanError → Option Text
  | .notObject => some "Selection spec must be an object (dict)."
  | .invalid _ => none
  | .column name e => some ("Invalid path for column '" ++ name ++ "': " ++ e.message)
  | .explode e => some ("Invalid path for explode.path: " ++ e.message)
  | .tooManyDigits n => some (CompileError.tooManyDigits n).message

namespace Plan

/-! ## From specifications -/

/-- Compiles a path of a specification. -/
def compilePath (place : SyntaxError → PlanError) (text : Text) : Except PlanError Path :=
  match Path.compile text with
  | .ok p => .ok p
  | .error (.malformed e) => .error (place e)
  | .error (.tooManyDigits n) => .error (.tooManyDigits n)

def compileColumns : List (Text × Text) → Except PlanError (List (Text × Path))
  | [] => .ok []
  | (name, text) :: columns => do
    let p ← compilePath (.column name) text
    return (name, p) :: (← compileColumns columns)

def ofSpec (s : Spec) : Except PlanError Plan := do
  let columns ← compileColumns s.columns
  match s.explode with
  | none => return ⟨columns, none⟩
  | some e => return ⟨columns, some (← compilePath .explode e.path, e.rootWhenEmpty)⟩

/-- The plan of the specification that a validator reads off an object. -/
def ofValueBy (validate : Spec.Validator) : Value → Except PlanError Plan
  | .object ms => do ofSpec (← (validate ms).mapError .invalid)
  | _ => .error .notObject

def ofValue : Value → Except PlanError Plan := ofValueBy Spec.ofMembers

/-! ## Rows -/

def columnNames (p : Plan) : List Text := p.columns.map Prod.fst

/-- The results of a path that are not null. -/
def present (c : Config) (document : Value) (item : Option Value) (path : Path) : List Value :=
  (c.evaluate document item path).results.filter fun v => !v.isNull

def row (p : Plan) (c : Config) (document item : Value) : Row :=
  p.columns.map fun (name, path) => (name, cell (present c document (some item) path))

def rows (p : Plan) (c : Config) (document : Value) : List Row :=
  match p.explode with
  | none => [p.row c document document]
  | some (path, rootWhenEmpty) =>
    match present c document none path with
    | [] => if rootWhenEmpty then [p.row c document document] else []
    | items => items.map (p.row c document)

end Plan

end TreePath
