import TreePath.Path.Basic
import TreePath.Query.Outcome
import TreePath.Value.Descent

/-!
# Walking along a path

`run σ ts v` walks along the tokens `ts` from the value `v`. A token gets the walk along the rest of the path as a
function and calls it at every value it moves to. Filters walk along their own path in the same scope and keep the
children whose condensed matches satisfy the comparison.
-/

namespace TreePath

/-- How the matches of the alternatives of a union are put together: one after the other, or each in a slot. -/
inductive UnionMode
  | flat
  | nested
  deriving DecidableEq

/-- What stays the same during a walk. -/
structure Scope where
  mode : UnionMode
  missing : Value
  root : Value

/-! ## Moving to children -/

/-- The child under a key. -/
def Value.child? (v : Value) : Key → Option Value
  | .name s => v.member? s
  | .index i => v.element? i

/-- The child that a value is the key of, or the marker `missing`: texts look into objects, integers into arrays. -/
def Value.childAt (v : Value) : Value → Value
  | .string s => (v.child? (.name s)).getD .missing
  | .number (.int i) => (v.child? (.index i)).getD .missing
  | _ => .missing

/-- Every `step`-th element, the first one after `skip` others. -/
def every {α : Type} (step : Nat) : (skip : Nat) → List α → List α
  | _, [] => []
  | 0, x :: xs => x :: every step (step - 1) xs
  | skip + 1, _ :: xs => every step skip xs

/-- A bound of a slice as a place in a list of length `n`: negative bounds count from the end. -/
def Slice.clamp (n : Nat) (i : Int) : Nat := if i < 0 then (i + n).toNat else min i.toNat n

/-- The elements of a slice. A slice whose bounds are the same before they are clamped selects nothing at all, which is
an absence and not an empty selection. -/
def Slice.pick? {α : Type} (s : Slice) (xs : List α) : Option (List α) :=
  let last := s.last.getD xs.length
  if s.first = last then none
  else some (every s.step 0 ((xs.take (clamp xs.length last)).drop (clamp xs.length s.first)))

/-! ## The walk -/

/-- Whether the matches of a filter's path, taken together, satisfy its comparison. Absences never do. -/
def Outcome.satisfies (hole : Value) (op : Operator) (literal : Literal) (o : Outcome) : Bool :=
  match condense (o.entries.filterMap (Match.present? hole)) with
  | some v => Value.satisfies op v literal.toValue
  | none => false

mutual

def Selector.run (σ : Scope) (k : Value → Outcome) : Selector → Value → Outcome
  | .child key, v =>
    match v.child? key with
    | some w => if w.isMissing then .absence else k w
    | none => .absence
  | .slice bounds, v =>
    match v.elements?.bind bounds.pick? with
    | some ws => .join (ws.map k)
    | none => .absence
  | .wildcard, v =>
    match v.children? with
    | some ws => .join (ws.map k)
    | none => .absence
  | .filter _ head tail op literal, v =>
    match v.children? with
    | some ws => .join (ws.map fun w =>
        let test := (head.run σ (run σ tail) (tail.all Token.isStep) w).visited
        test.aside ++ if test.satisfies σ.missing op literal then k w else .empty)
    | none => .absence

/-- The walk of one token; `single` says whether the rest of the path leads from every value to exactly one entry. -/
def Token.run (σ : Scope) (k : Value → Outcome) (single : Bool) : Token → Value → Outcome
  | .root, _ => k σ.root
  | .current, v => k v
  | .select s, v => s.run σ k v
  | .descend key _, v => .join ((v.descend key).map k)
  | .union first others, v =>
    match σ.mode with
    | .flat => first.run σ k v ++ runOthers σ k single others v
    | .nested => (first.run σ k v).slot (single && (Token.select first).isStep) ++ runOthers σ k single others v

/-- The further alternatives of a union. -/
def runOthers (σ : Scope) (k : Value → Outcome) (single : Bool) : List Selector → Value → Outcome
  | [], _ => .empty
  | s :: ss, v =>
    match σ.mode with
    | .flat => s.run σ k v ++ runOthers σ k single ss v
    | .nested => (s.run σ k v).slot (single && (Token.select s).isStep) ++ runOthers σ k single ss v

/-- The walk along a path. -/
def run (σ : Scope) : List Token → Value → Outcome
  | [], v => .arrive v
  | t :: ts, v => (t.run σ (run σ ts) (ts.all Token.isStep) v).visited

end

theorem run_nil (σ : Scope) (v : Value) : run σ [] v = .arrive v := rfl

theorem run_cons (σ : Scope) (t : Token) (ts : List Token) (v : Value) :
    run σ (t :: ts) v = (t.run σ (run σ ts) (ts.all Token.isStep) v).visited := rfl

/-- A filter walks along its path as any walk does, and keeps only the absences of that walk. -/
theorem run_filter (σ : Scope) (k : Value → Outcome) (source : Option Text) (head : Token) (tail : List Token)
    (op : Operator) (literal : Literal) (v : Value) :
    Selector.run σ k (.filter source head tail op literal) v =
      match v.children? with
      | some ws => .join (ws.map fun w =>
          let test := run σ (head :: tail) w
          test.aside ++ if test.satisfies σ.missing op literal then k w else .empty)
      | none => .absence := rfl

end TreePath
