import TreePath.Query.Report

/-!
# Evaluation with shared counters

In this second evaluation absences and visits are counted while the walk is under way. There is one set of counters for
the whole evaluation: the walk along the path, the alternatives of its unions and the walks inside its filters all count
there. A visit is noted under the name of the token, whatever the token is a part of, and only if visits are asked for.
-/

namespace TreePath.Counting

/-- Where a token stands: its number in the path, behind that the number of the alternative of a union or the number in
the path of a filter, and so on inwards. -/
abbrev Address := List Nat

/-- The counters of an evaluation, for tokens with names in `ι`. Visits are counted in a trace only. -/
structure Counters (ι : Type) where
  absent : Nat
  visits : Option (ι → Nat)

/-- What is done while counters go up. -/
abbrev Counted (ι : Type) : Type → Type := StateM (Counters ι)

section Counters

variable {ι : Type}

def Counters.zero (tracing : Bool) : Counters ι := ⟨0, if tracing then some fun _ => 0 else none⟩

/-- The visits under a name. -/
def Counters.visitsOf (c : Counters ι) (n : ι) : Nat := c.visits.elim 0 fun f => f n

def visit [DecidableEq ι] (n : ι) : Counted ι Unit :=
  modify fun c => { c with visits := c.visits.map fun f m => if m = n then f m + 1 else f m }

def absence : Counted ι (List Match) := do
  modify fun c => { c with absent := c.absent + 1 }
  return [.absent]

/-- The walks from several values, one after the other. -/
def fromAll (k : Value → Counted ι (List Match)) : List Value → Counted ι (List Match)
  | [] => return []
  | w :: ws => do
    let here ← k w
    return here ++ (← fromAll k ws)

end Counters

/-- What one alternative of a union contributes to the entries. -/
def contribution (mode : UnionMode) (bare : Bool) (es : List Match) : List Match :=
  match mode with
  | .flat => es
  | .nested => if bare then es.take 1 else [.slot es]

/-- Whether the matches of a filter's path satisfy its comparison. -/
def satisfies (hole : Value) (op : Operator) (literal : Literal) (es : List Match) : Bool :=
  match condense (es.filterMap (Match.present? hole)) with
  | some v => Value.satisfies op v literal.toValue
  | none => false

section Walk

variable {ι : Type} [DecidableEq ι] (σ : Scope) (name : Address → ι)

mutual

/-- The walk of a selector at an address. -/
def selector (k : Value → Counted ι (List Match)) (a : Address) : Selector → Value → Counted ι (List Match)
  | .child key, v =>
    match v.child? key with
    | some w => if w.isMissing then absence else k w
    | none => absence
  | .slice bounds, v =>
    match v.elements?.bind bounds.pick? with
    | some ws => fromAll k ws
    | none => absence
  | .wildcard, v =>
    match v.children? with
    | some ws => fromAll k ws
    | none => absence
  | .filter _ head tail op literal, v =>
    match v.children? with
    | some ws => fromAll (fun w => do
        visit (name (a ++ [0]))
        let test ← token (path a 1 tail) (tail.all Token.isStep) (a ++ [0]) head w
        if satisfies σ.missing op literal test then k w else return []) ws
    | none => absence

/-- The walk of a token at an address; `single` says whether the rest of the path makes steps only. -/
def token (k : Value → Counted ι (List Match)) (single : Bool) (a : Address) : Token → Value → Counted ι (List Match)
  | .root, _ => k σ.root
  | .current, v => k v
  | .select s, v => selector k a s v
  | .descend key _, v => fromAll k (v.descend key)
  | .union first others, v => do
    visit (name (a ++ [0]))
    let es ← selector k (a ++ [0]) first v
    let here := contribution σ.mode (single && (Token.select first).isStep) es
    return here ++ (← alternatives k single a 1 others v)

/-- The alternatives of a union from the `i`-th on. -/
def alternatives (k : Value → Counted ι (List Match)) (single : Bool) (a : Address) (i : Nat) :
    List Selector → Value → Counted ι (List Match)
  | [], _ => return []
  | s :: ss, v => do
    visit (name (a ++ [i]))
    let es ← selector k (a ++ [i]) s v
    let here := contribution σ.mode (single && (Token.select s).isStep) es
    return here ++ (← alternatives k single a (i + 1) ss v)

/-- The walk along the path at an address, from its `i`-th token on. -/
def path (a : Address) (i : Nat) : List Token → Value → Counted ι (List Match)
  | [], v => return [Match.arrive v]
  | t :: ts, v => do
    visit (name (a ++ [i]))
    token (path a (i + 1) ts) (ts.all Token.isStep) (a ++ [i]) t v

end

end Walk

section Evaluation

variable {ι : Type} [DecidableEq ι] (name : Address → ι) (c : Config) (document : Value) (item : Option Value)
  (p : Path)

/-- The entries of an evaluation and its counters; visits are counted in a trace only. -/
def walk (tracing : Bool) : List Match × Counters ι :=
  path (c.scope document) name [] 0 p.tokens (item.getD document) (.zero tracing)

/-- The results; visits are counted if the configuration asks for a trace. -/
def evaluate : List Value := Match.renderAll c.missing (walk name c document item p c.tracing).1

/-- What a trace reports. -/
structure Trace where
  results : List Value
  absent : Nat
  steps : List (Text × Nat)

/-- A trace: the results, the absences, and each token of the path with the visits that were noted under its name. -/
def trace : Trace :=
  let w := walk name c document item p true
  ⟨Match.renderAll c.missing w.1, w.2.absent, p.tokens.zipIdx.map fun x => (x.1.text, w.2.visitsOf (name [x.2]))⟩

end Evaluation

end TreePath.Counting
