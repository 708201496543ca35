import TreePath.Path.Offer

/-!
# Building paths step by step

A builder collects what is to become the tokens of a path. A step that is refused leaves the builder as it was, since
it gives back no new one.
-/

namespace TreePath

structure Builder where
  offers : List Offer

namespace Builder

def empty : Builder := ⟨[]⟩

def push (b : Builder) (t : Token) : Builder := ⟨b.offers ++ [.token t]⟩

def build (b : Builder) : Except Refusal Path := Path.ofOffers b.offers none

def root (b : Builder) : Builder := b.push .root

def current (b : Builder) : Builder := b.push .current

def wildcard (b : Builder) : Builder := b.push .wildcard

def key (b : Builder) : Value → Except Refusal Builder
  | .string s => .ok (b.push (.child (.name s)))
  | _ => .error .stepKey

def index (b : Builder) : Value → Except Refusal Builder
  | .number (.int i) => .ok (b.push (.child (.index i)))
  | _ => .error .stepIndex

def descend (b : Builder) : Value → Except Refusal Builder
  | .string s => if h : s ≠ [] then .ok (b.push (.descend s h)) else .error .stepDescent
  | _ => .error .stepDescent

/-- A slice without a last index reaches to the end. -/
def slice (b : Builder) (first last step : Value) : Except Refusal Builder :=
  (Token.sliceOf first (if last.isNull then .openEnd else last) step).map b.push

def union (b : Builder) (keys : List Value) : Except Refusal Builder :=
  match keys with
  | [] => .error .stepUnion
  | k :: ks => do
    let first ← Key.ofValue k
    let others ← ks.mapM Key.ofValue
    return b.push (.union (.child first) (others.map .child))

/-- A subpath has to be a text or a path as a whole. -/
def subpath : Route → Except Refusal Path
  | .text s => (Path.compile s).mapError .compile
  | .value (.string s) => (Path.compile s).mapError .compile
  | .compiled p => .ok p
  | _ => .error .stepSubpath

def filter (b : Builder) (route : Route) (op literal : Value) : Except Refusal Builder := do
  match op with
  | .string s =>
    match Operator.ofText? s with
    | some op => return b.push (← Token.filterOver op (← subpath route) literal)
    | none => .error .stepOperator
  | _ => .error .stepOperator

end Builder

end TreePath
