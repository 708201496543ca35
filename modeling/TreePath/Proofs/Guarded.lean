import TreePath.Query.Report

/-!
# Evaluation with operations that can fail

Some operations are not defined everywhere: the element at an index, the member under a key, a slice, the comparison of
two numbers. In this second evaluation each of them stops with a `Trap` where it is not defined. They are called behind
the tests that an evaluation makes, whether an index is in range, a key is there, two values are of one ordered kind;
comparisons go on after the traps of numbers (`recover`), and nothing else does. So a test that is missed or comes too
late shows in the result.
-/

namespace TreePath.Guarded

/-- Why an operation has no result. -/
inductive Trap
  /-- The list has no element at the index. -/
  | index
  /-- The object has no member under the key. -/
  | key
  /-- The step of the slice is zero. -/
  | step
  /-- The text is no operator. -/
  | operator
  /-- The values have no order. -/
  | unordered
  /-- A NaN was met that arithmetic refuses. -/
  | arithmetic
  deriving DecidableEq

def orTrap {α : Type} (t : Trap) : Option α → Except Trap α
  | some x => .ok x
  | none => .error t

/-! ## Operations on lists and objects -/

section Lists

variable {α : Type}

/-- The element at an index; negative indices count from the end. -/
def elementAt (xs : List α) (i : Int) : Except Trap α :=
  let place := if i < 0 then i + xs.length else i
  orTrap .index (if place < 0 then none else xs[place.toNat]?)

/-- Every `step`-th element between two bounds. -/
def slice (xs : List α) (first last : Int) (step : Nat) : Except Trap (List α) :=
  if step = 0 then .error .step
  else .ok (every step 0 ((xs.take (Slice.clamp xs.length last)).drop (Slice.clamp xs.length first)))

end Lists

def memberAt (ms : List (Text × Value)) (key : Text) : Except Trap Value := orTrap .key (ms.lookup key)

def hasKey (ms : List (Text × Value)) (key : Text) : Bool := ms.any fun m => key == m.1

/-- The child under a key, or the marker `missing`: only an index in range and a key that is there are looked up. -/
def child : Value → Key → Except Trap Value
  | .object ms, .name s => if hasKey ms s then memberAt ms s else .ok .missing
  | .list xs, .index i => if -(xs.length : Int) ≤ i ∧ i < xs.length then elementAt xs i else .ok .missing
  | .tuple xs, .index i => if -(xs.length : Int) ≤ i ∧ i < xs.length then elementAt xs i else .ok .missing
  | _, _ => .ok .missing

/-- One value for a list of values, the first one of which is read only if it is the only one. -/
def condense (vs : List Value) : Except Trap (Option Value) :=
  if vs.isEmpty then .ok none
  else if vs.length = 1 then (elementAt vs 0).map some
  else .ok (some (.list vs))

/-! ## Comparison -/

/-- Whether a number is a NaN that arithmetic refuses even to compare. -/
def signals : Number → Bool
  | .decimal (.nan _ signaling _) => signaling
  | _ => false

/-- Whether a number is real in value; only these are compared with decimals. -/
def isReal : Number → Bool
  | .complex _ im => im.isZero
  | _ => true

def isDecimal : Number → Bool
  | .decimal _ => true
  | _ => false

def isComplex : Number → Bool
  | .complex .. => true
  | _ => false

def numberEqual (x y : Number) : Except Trap Bool :=
  if (signals x && isReal y) || (signals y && isReal x) then .error .arithmetic else .ok (x.equal y)

/-- The order of two numbers. A decimal has no order with a NaN, of whatever kind; other NaNs merely compare as
neither less nor greater nor equal. -/
def numberOrder (x y : Number) : Except Trap (Option Ordering) :=
  if isComplex x || isComplex y then .error .unordered
  else if (isDecimal x || isDecimal y) && (x.line?.isNone || y.line?.isNone) then .error .arithmetic
  else .ok (x.order? y)

/-- The answer no where a comparison has stopped with one of the traps. -/
def recover (traps : List Trap) : Except Trap Bool → Except Trap Bool
  | .ok b => .ok b
  | .error t => if t ∈ traps then .ok false else .error t

/-- Whether two objects have the same keys. -/
def sameKeys (ms ns : List (Text × Value)) : Bool := ms.length == ns.length && ms.all fun m => hasKey ns m.1

mutual

def equal : Value → Value → Except Trap Bool
  | .null, .null => .ok true
  | .bool a, .bool b => .ok (a == b)
  | .number x, .number y => recover [.arithmetic] (numberEqual x y)
  | .string s, .string t => .ok (s == t)
  | .list xs, .list ys => if xs.length = ys.length then equalAll xs ys else .ok false
  | .list xs, .tuple ys => if xs.length = ys.length then equalAll xs ys else .ok false
  | .tuple xs, .list ys => if xs.length = ys.length then equalAll xs ys else .ok false
  | .tuple xs, .tuple ys => if xs.length = ys.length then equalAll xs ys else .ok false
  | .object ms, .object ns => if sameKeys ms ns then equalMembers ms ns else .ok false
  | _, _ => .ok false

/-- Element by element, as far as both lists go. -/
def equalAll : List Value → List Value → Except Trap Bool
  | x :: xs, y :: ys => do if ← equal x y then equalAll xs ys else return false
  | _, _ => .ok true

/-- Member by member, each with the one under the same key in the second list. -/
def equalMembers : List (Text × Value) → List (Text × Value) → Except Trap Bool
  | [], _ => .ok true
  | (key, v) :: ms, ns => do
    let w ← memberAt ns key
    if ← equal v w then equalMembers ms ns else return false

end

/-- How two values compare; only two numbers, two texts and two truth values do. -/
def order : Value → Value → Except Trap (Option Ordering)
  | .bool a, .bool b => .ok ((Value.bool a).order? (.bool b))
  | .number x, .number y => numberOrder x y
  | .string s, .string t => .ok ((Value.string s).order? (.string t))
  | _, _ => .error .unordered

def isOrdered : Kind → Bool
  | .number => true
  | .string => true
  | .bool => true
  | _ => false

/-- Whether the order of two values is as wanted; it is asked for only if they are of one ordered kind. -/
def ordered (wanted : Option Ordering → Bool) (left right : Value) : Except Trap Bool :=
  if left.kind?.any isOrdered && left.kind? == right.kind? then
    recover [.unordered, .arithmetic] ((order left right).map wanted)
  else .ok false

/-- Compares two values with the operator of a text. -/
def compare (op : Text) (left right : Value) : Except Trap Bool := do
  match ← orTrap .operator (Operator.ofText? op) with
  | .eq => equal left right
  | .ne => return !(← equal left right)
  | .gt => ordered (fun o => o == some .gt) left right
  | .lt => ordered (fun o => o == some .lt) left right
  | .ge => ordered (fun o => o == some .gt || o == some .eq) left right
  | .le => ordered (fun o => o == some .lt || o == some .eq) left right

/-- Whether the matches of a filter's path, taken together, satisfy its comparison. -/
def satisfies (hole : Value) (op : Operator) (literal : Literal) (o : Outcome) : Except Trap Bool := do
  match ← condense (o.entries.filterMap (Match.present? hole)) with
  | some v => compare op.text v literal.toValue
  | none => return false

/-! ## The walk -/

/-- The entries as one slot; a bare slot is the first of them. -/
def slot (bare : Bool) (o : Outcome) : Except Trap Outcome :=
  if bare then (elementAt o.entries 0).map fun m => { o with entries := [m] }
  else .ok { o with entries := [.slot o.entries] }

/-- What one alternative of a union contributes. -/
def contribution (mode : UnionMode) (bare : Bool) (o : Outcome) : Except Trap Outcome :=
  match mode with
  | .flat => .ok o
  | .nested => slot bare o

/-- The walk from the member of a node under `key`, if there is one. -/
def fromMember (key : Text) (k : Value → Except Trap Outcome) : Value → Except Trap Outcome
  | .object ms => if hasKey ms key then memberAt ms key >>= k else .ok .empty
  | _ => .ok .empty

/-- The walks from the members under `key` of the nodes to be visited and of everything below them. -/
def descend (key : Text) (k : Value → Except Trap Outcome) : (todo : List Value) → Except Trap Outcome
  | [] => .ok .empty
  | v :: todo => do
    let here ← fromMember key k v
    let below ← descend key k (v.children ++ todo)
    return here ++ below
termination_by todo => Value.nodesAll todo
decreasing_by
  simp only [Value.nodesAll_append, Value.nodesAll]
  have := Value.nodesAll_children v
  omega

/-- The walks from several values. -/
def fromAll (k : Value → Except Trap Outcome) (ws : List Value) : Except Trap Outcome := (ws.mapM k).map Outcome.join

section Walk

variable (σ : Scope)

mutual

def selector (k : Value → Except Trap Outcome) : Selector → Value → Except Trap Outcome
  | .child key, v => do
    let w ← child v key
    if w.isMissing then return .absence else k w
  | .slice bounds, v =>
    match v.elements? with
    | some xs =>
      let last := bounds.last.getD xs.length
      if bounds.first = last then .ok .absence
      else slice xs bounds.first last bounds.step >>= fromAll k
    | none => .ok .absence
  | .wildcard, v =>
    match v.children? with
    | some ws => fromAll k ws
    | none => .ok .absence
  | .filter _ head tail op literal, v =>
    match v.children? with
    | some ws => fromAll (fun w => do
        let found ← token (path tail) (tail.all Token.isStep) head w
        let test := found.visited
        if ← satisfies σ.missing op literal test then return test.aside ++ (← k w) else return test.aside) ws
    | none => .ok .absence

/-- The walk of one token; `single` says whether the rest of the path makes steps only. -/
def token (k : Value → Except Trap Outcome) (single : Bool) : Token → Value → Except Trap Outcome
  | .root, _ => k σ.root
  | .current, v => k v
  | .select s, v => selector k s v
  | .descend key _, v => descend key k [v]
  | .union first others, v => do
    let o ← selector k first v
    let here ← contribution σ.mode (single && (Token.select first).isStep) o
    return here ++ (← alternatives k single others v)

/-- The further alternatives of a union. -/
def alternatives (k : Value → Except Trap Outcome) (single : Bool) : List Selector → Value → Except Trap Outcome
  | [], _ => .ok .empty
  | s :: ss, v => do
    let o ← selector k s v
    let here ← contribution σ.mode (single && (Token.select s).isStep) o
    return here ++ (← alternatives k single ss v)

/-- The walk along a path. -/
def path : List Token → Value → Except Trap Outcome
  | [], v => .ok (.arrive v)
  | t :: ts, v => (token (path ts) (ts.all Token.isStep) t v).map Outcome.visited

end

end Walk

/-- Evaluates a path: `$` stands for the document and `@` for the item, which is the document if there is none. -/
def evaluate (c : Config) (document : Value) (item : Option Value) (p : Path) : Except Trap Report :=
  (path (c.scope document) p.tokens (item.getD document)).map fun o => o.report c.missing p

end TreePath.Guarded
