import TreePath.Path.Offer
import TreePath.Table.Plan

/-!
# Table backends

A backend makes tables: one from rows, and one from several tables. Both get the names of the columns, in the order of
the plan. Three backends are at hand: one that records what it is asked for, one that knows only the shape of its
tables, and one that makes no tables at all.
-/

namespace TreePath

inductive TableError
  | notIterable (v : Value)
  | notDocuments
  | unimplemented

def TableError.message : TableError → Text
  | .notIterable v => (Refusal.notIterable v).message
  | .notDocuments => "data must be Dict or List of documents."
  | .unimplemented => []

/-- How tables of type `τ` are made in a monad `m`. -/
structure Backend (m : Type → Type) (τ : Type) where
  table : List Row → (columns : List Text) → m τ
  concat : List τ → (columns : List Text) → m τ

namespace Plan

variable {m : Type → Type} [Monad m] {τ : Type}

/-- The table of one document. -/
def single (p : Plan) (c : Config) (b : Backend m τ) (document : Value) : m τ :=
  b.table (p.rows c document) p.columnNames

/-- The tables of several documents, put together. -/
def batch (p : Plan) (c : Config) (b : Backend m τ) (documents : List Value) : m τ := do
  b.concat (← documents.mapM (p.single c b)) p.columnNames

/-- The items of a value as documents. -/
def documents (v : Value) : Except TableError (List Value) :=
  match v.items? with
  | some vs => .ok vs
  | none => .error (.notIterable v)

/-- An object is one document, a list is several. -/
def ofData (p : Plan) (c : Config) (b : Backend m τ) : Value → Except TableError (m τ)
  | .object ms => .ok (p.single c b (.object ms))
  | .list vs => .ok (p.batch c b vs)
  | _ => .error .notDocuments

end Plan

/-! ## Recording -/

inductive Request
  | table (rows : List Row) (columns : List Text)
  | concat (tables : List Nat) (columns : List Text)

/-- Records a request; the table it makes is known by the place of the request. -/
def record (r : Request) : StateM (List Request) Nat := fun rs => (rs.length, rs ++ [r])

def Backend.recorder : Backend (StateM (List Request)) Nat where
  table rows columns := record (.table rows columns)
  concat tables columns := record (.concat tables columns)

/-! ## Shapes -/

/-- The columns of a table and its number of rows, which are numbered from zero. -/
structure Shape where
  columns : List Text
  length : Nat

def Shape.index (s : Shape) : List Nat := List.range s.length

def Shape.ofRows (rows : List Row) (columns : List Text) : Shape := ⟨columns, rows.length⟩

def Shape.concat (tables : List Shape) (columns : List Text) : Shape := ⟨columns, tables.foldr (fun t n => t.length + n) 0⟩

def Backend.shapes : Backend Id Shape where
  table := Shape.ofRows
  concat := Shape.concat

/-- The backend without an implementation. -/
def Backend.none : Backend (Except TableError) Unit where
  table _ _ := .error .unimplemented
  concat _ _ := .error .unimplemented

end TreePath
