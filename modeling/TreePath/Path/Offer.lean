import TreePath.Path.Display
import TreePath.Path.Parse

/-!
# Offered tokens and paths

Tokens and paths that callers put together from plain values. An offer is checked before it becomes a token or a path,
and a refusal says what was wrong with it; of several faults the first in the order of the fields is reported.
-/

namespace TreePath

/-- What a caller hands over as a token: a token, or some value that is none. -/
inductive Offer
  | token (t : Token)
  | value (v : Value)

def Offer.display : Offer → Text
  | .token t => t.display
  | .value v => v.display

/-- What a caller hands over as a path. -/
inductive Route
  | text (s : Text)
  | compiled (p : Path)
  | offers (os : List Offer)
  | value (v : Value)

inductive Refusal
  | compile (e : CompileError)
  | notText (v : Value)
  | notIterable (v : Value)
  | notToken (o : Offer)
  | key (v : Value)
  | descentKey (v : Value)
  | sliceFirst (v : Value)
  | sliceLast (v : Value)
  | sliceStep (v : Value)
  | noAlternative
  | alternative (o : Offer)
  | operator (v : Value)
  | emptySubpath
  | literal (v : Value)
  | indexOutOfRange
  | indexTooLarge
  | indexType (v : Value)
  | stepKey
  | stepIndex
  | stepDescent
  | stepUnion
  | stepOperator
  | stepSubpath

def Refusal.message : Refusal → Text
  | .compile e => e.message
  | .notText v => "path must be a string, got " ++ v.typeName
  | .notIterable v => "'" ++ v.qualifiedTypeName ++ "' object is not iterable"
  | .notToken o => "Not a path token: " ++ o.display
  | .key v => "Access key must be a string or an integer, got " ++ v.display
  | .descentKey v => "RecursiveDescent key must be a non-empty string, got " ++ v.display
  | .sliceFirst v => "Slice start must be an integer, got " ++ v.display
  | .sliceLast v => "Slice end must be an integer or OPEN_END, got " ++ v.display
  | .sliceStep v => "Slice step must be a positive integer, got " ++ v.display
  | .noAlternative => "Union needs at least one alternative."
  | .alternative o =>
    "Union alternatives must be Access, Slice, Wildcard or FilterAccess tokens, got " ++ o.display
  | .operator v => v.display ++ " is not a valid Operator"
  | .emptySubpath => "FilterAccess subpath must not be empty."
  | .literal v =>
    "Filter literal must be null, a boolean, an integer, a finite float or a string, got " ++ v.display
  | .indexOutOfRange => "tuple index out of range"
  | .indexTooLarge => "cannot fit 'int' into an index-sized integer"
  | .indexType v => "tuple indices must be integers or slices, not " ++ v.qualifiedTypeName
  | .stepKey => "key() requires a string."
  | .stepIndex => "index() requires an integer."
  | .stepDescent => "descend() requires a non-empty string."
  | .stepUnion => "union() needs at least one key."
  | .stepOperator => "where(op=...) must be one of ['>', '>=', '<', '<=', '==', '!=']."
  | .stepSubpath => "subpath must be path text, a PathBuilder or a CompiledPath."

/-! ## Paths -/

/-- The items of a value that can be gone through: elements, the keys of an object, the code points of a text. -/
def Value.items? : Value → Option (List Value)
  | .list xs => some xs
  | .tuple xs => some xs
  | .object ms => some (ms.map fun m => .string m.1)
  | .string s => some (s.map fun c => .string [c])
  | _ => none

namespace Path

def compileValue : Value → Except Refusal Path
  | .string s => (compile s).mapError .compile
  | v => .error (.notText v)

/-- The tokens that were offered, if all of them are tokens. -/
def tokensOf : List Offer → Except Refusal (List Token)
  | [] => .ok []
  | .token t :: os => (tokensOf os).map (t :: ·)
  | .value v :: _ => .error (.notToken (.value v))

def ofOffers (os : List Offer) (source : Option Text) : Except Refusal Path :=
  (tokensOf os).map fun ts => ⟨ts, source⟩

/-- A path from the items of a value. -/
def ofValue (v : Value) (source : Option Text) : Except Refusal Path :=
  match v.items? with
  | some vs => ofOffers (vs.map .value) source
  | none => .error (.notIterable v)

end Path

namespace Route

/-- A compiled path stands for itself and keeps its source; anything else is taken as a sequence of tokens, a text as
one of texts. -/
def toPath (source : Option Text) : Route → Except Refusal Path
  | .text s => Path.ofValue (.string s) source
  | .compiled p => .ok p
  | .offers os => Path.ofOffers os source
  | .value v => Path.ofValue v source

/-- As `toPath`, but a text is compiled. -/
def compile : Route → Except Refusal Path
  | .text s => (Path.compile s).mapError .compile
  | .value (.string s) => (Path.compile s).mapError .compile
  | r => r.toPath none

end Route

/-- The token at an index that is offered as a value; truth values are the indices zero and one. -/
def Path.tokenAt (p : Path) (index : Value) : Except Refusal Token :=
  let at? (i : Int) : Except Refusal Token :=
    if fitsWord i then
      match p.token? i with
      | some t => .ok t
      | none => .error .indexOutOfRange
    else .error .indexTooLarge
  match index with
  | .number (.int i) => at? i
  | .bool b => at? b.toNat
  | v => .error (.indexType v)

/-! ## Tokens -/

namespace Key

def ofValue : Value → Except Refusal Key
  | .string s => .ok (.name s)
  | .number (.int i) => .ok (.index i)
  | v => .error (.key v)

end Key

namespace Token

def childOf (key : Value) : Except Refusal Token := (Key.ofValue key).map child

def descendOf : Value → Except Refusal Token
  | .string s => if h : s ≠ [] then .ok (.descend s h) else .error (.descentKey (.string s))
  | v => .error (.descentKey v)

def sliceEnd : Value → Except Refusal (Option Int)
  | .number (.int i) => .ok (some i)
  | .openEnd => .ok none
  | v => .error (.sliceLast v)

def sliceOf (first last step : Value) : Except Refusal Token :=
  match first with
  | .number (.int i) => do
    let j ← sliceEnd last
    match step with
    | .number (.int k) =>
      if h : 0 < k then return .select (.slice ⟨i, j, k.toNat, toNat_pos h⟩) else .error (.sliceStep step)
    | _ => .error (.sliceStep step)
  | _ => .error (.sliceFirst first)

/-- The alternatives of a union, all of which have to be selectors. -/
def selectorsOf : List Offer → Except Refusal (List Selector)
  | [] => .ok []
  | .token (.select s) :: os => (selectorsOf os).map (s :: ·)
  | o :: _ => .error (.alternative o)

def unionOf (alternatives : List Offer) : Except Refusal Token :=
  match alternatives with
  | [] => .error .noAlternative
  | o :: os => do
    match ← selectorsOf (o :: os) with
    | s :: ss => return .union s ss
    | [] => .error .noAlternative

def operatorOf : Value → Except Refusal Operator
  | .string s => match Operator.ofText? s with
    | some op => .ok op
    | none => .error (.operator (.string s))
  | v => .error (.operator v)

/-- A filter over a path that may be empty, with a literal still to be checked. -/
def filterOver (op : Operator) (subpath : Path) (literal : Value) : Except Refusal Token :=
  match subpath.tokens with
  | [] => .error .emptySubpath
  | t :: ts =>
    match Literal.ofValue? literal with
    | some l => .ok (.select (.filter subpath.source t ts op l))
    | none => .error (.literal literal)

def filterOf (op : Value) (subpath : Route) (literal : Value) : Except Refusal Token := do
  filterOver (← operatorOf op) (← subpath.compile) literal

end Token

end TreePath
