import TreePath.Path.Fault

/-!
# Reading paths

A recursive descent over the lexemes of a text. Each function takes the lexemes that are left and gives back what it
read together with the lexemes that are left then, which are not more; this is what makes the recursion end. A failure
points at the lexemes that were left when the first of them could not be read.
-/

namespace TreePath

namespace Parse

/-- Lexemes that are left over from `n`. -/
abbrev Rest (n : Nat) := { ls : List Placed // ls.length ≤ n }

inductive Failure
  /-- The first of the lexemes left, or their end, is at fault. -/
  | fault (fault : Fault) (left : List Placed)
  | tooManyDigits (digits : Nat)

def Failure.expected (what : Expectation) (left : List Placed) : Failure :=
  .fault (.expected what (left.head?.map Placed.lexeme)) left

/-- The number of digits up to which integers are read. -/
def digitLimit : Nat := 4300

/-- The value of a numeral that has to be an integer; `left` are the lexemes it starts. -/
def integer (n : Numeral) (left : List Placed) : Except Failure Int :=
  if !n.isInteger then .error (.fault (.notInteger n) left)
  else if digitLimit < n.whole.length then .error (.tooManyDigits n.whole.length)
  else .ok n.integer

def optionalInteger : (ls : List Placed) → Except Failure (Option Int × Rest ls.length)
  | ⟨.number n, p⟩ :: ls => do
    let i ← integer n (⟨.number n, p⟩ :: ls)
    return (some i, ⟨ls, by simp⟩)
  | ls => .ok (none, ⟨ls, Nat.le_refl _⟩)

/-- The step of a slice. -/
def positive (n : Numeral) (left : List Placed) : Except Failure { k : Nat // 0 < k } := do
  let i ← integer n left
  if h : 0 < i then return ⟨i.toNat, toNat_pos h⟩ else .error (.fault .stepNotPositive left)

/-- A slice behind its first colon. -/
def sliceFrom (first : Option Int) (ls : List Placed) : Except Failure (Slice × Rest ls.length) := do
  let (last, ⟨ls, h⟩) ← optionalInteger ls
  match ls, h with
  | ⟨.colon, _⟩ :: ⟨.number n, p⟩ :: ls, h =>
    let ⟨step, step_pos⟩ ← positive n (⟨.number n, p⟩ :: ls)
    return (⟨first.getD 0, last, step, step_pos⟩, ⟨ls, by simp at h; omega⟩)
  | ⟨.colon, _⟩ :: ls, h => return (⟨first.getD 0, last, 1, Nat.one_pos⟩, ⟨ls, by simp at h; omega⟩)
  | ls, h => return (⟨first.getD 0, last, 1, Nat.one_pos⟩, ⟨ls, h⟩)

/-- An index or a slice. -/
def position (ls : List Placed) : Except Failure (Selector × Rest ls.length) := do
  let (first, ⟨ls, h⟩) ← optionalInteger ls
  match ls, h with
  | ⟨.colon, _⟩ :: ls, h =>
    let (bounds, ⟨ls, h'⟩) ← sliceFrom first ls
    return (.slice bounds, ⟨ls, by simp at h; omega⟩)
  | ls, h =>
    match first with
    | some i => return (.child (.index i), ⟨ls, h⟩)
    | none => .error (.expected .selector ls)

/-- The literals that are written as names. -/
def namedLiterals : List (Text × Literal) :=
  [(chars ['t', 'r', 'u', 'e'], .bool true), (chars ['f', 'a', 'l', 's', 'e'], .bool false),
    (chars ['n', 'u', 'l', 'l'], .null)]

def numberLiteral (n : Numeral) (left : List Placed) : Except Failure Literal :=
  if n.isInteger then (integer n left).map .int
  else
    match (Binary64.ofNumeral n).finite? with
    | some x => .ok (.float x)
    | none => .error (.fault (.outOfRange n) left)

def literal : (ls : List Placed) → Except Failure (Literal × Rest ls.length)
  | ⟨.number n, p⟩ :: ls => do
    let l ← numberLiteral n (⟨.number n, p⟩ :: ls)
    return (l, ⟨ls, by simp⟩)
  | ⟨.string s, _⟩ :: ls => .ok (.string s, ⟨ls, by simp⟩)
  | ⟨.name c s, p⟩ :: ls =>
    match namedLiterals.lookup (c :: s) with
    | some l => .ok (l, ⟨ls, by simp⟩)
    | none => .error (.expected .literal (⟨.name c s, p⟩ :: ls))
  | ls => .error (.expected .literal ls)

/-- The key of a descent that is written in brackets, behind the opening one. -/
def descentKey : (ls : List Placed) → Except Failure ({ s : Text // s ≠ [] } × Rest ls.length)
  | ⟨.string s, p⟩ :: ls =>
    if h : s ≠ [] then
      match ls with
      | ⟨.rightBracket, _⟩ :: ls => .ok (⟨s, h⟩, ⟨ls, by simp; omega⟩)
      | ls => .error (.expected .descentEnd ls)
    else .error (.fault .emptyDescentKey (⟨.string s, p⟩ :: ls))
  | ls => .error (.expected .descentKey ls)

mutual

/-- A path: an anchor or a leading name, and segments; at least one token in all. -/
def path (ls : List Placed) : Except Failure ((Token × List Token) × Rest ls.length) :=
  match ls with
  | ⟨.root, _⟩ :: ls => do
    let (ts, ⟨ls, h⟩) ← segments ls
    return ((.root, ts), ⟨ls, by simp; omega⟩)
  | ⟨.current, _⟩ :: ls => do
    let (ts, ⟨ls, h⟩) ← segments ls
    return ((.current, ts), ⟨ls, by simp; omega⟩)
  | ⟨.name c s, _⟩ :: ls => do
    let (ts, ⟨ls, h⟩) ← segments ls
    return ((.child (.name (c :: s)), ts), ⟨ls, by simp; omega⟩)
  | ls => do
    let (ts, rest) ← segments ls
    match ts with
    | [] => .error (.expected .start ls)
    | t :: ts => return ((t, ts), rest)
termination_by 2 * ls.length + 1

/-- As many segments as there are: names and stars behind points, descents, and brackets. -/
def segments (ls : List Placed) : Except Failure (List Token × Rest ls.length) :=
  match ls with
  | ⟨.dot, _⟩ :: ⟨.star, _⟩ :: ls => do
    let (ts, ⟨ls, h⟩) ← segments ls
    return (.wildcard :: ts, ⟨ls, by simp; omega⟩)
  | ⟨.dot, _⟩ :: ⟨.name c s, _⟩ :: ls => do
    let (ts, ⟨ls, h⟩) ← segments ls
    return (.child (.name (c :: s)) :: ts, ⟨ls, by simp; omega⟩)
  | ⟨.dot, _⟩ :: ls => .error (.expected .nameOrStar ls)
  | ⟨.dots, _⟩ :: ⟨.name c s, _⟩ :: ls => do
    let (ts, ⟨ls, h⟩) ← segments ls
    return (.descend (c :: s) (by simp) :: ts, ⟨ls, by simp; omega⟩)
  | ⟨.dots, _⟩ :: ⟨.leftBracket, _⟩ :: ls => do
    let (⟨s, hs⟩, ⟨ls, h⟩) ← descentKey ls
    let (ts, ⟨ls, h'⟩) ← segments ls
    return (.descend s hs :: ts, ⟨ls, by simp; omega⟩)
  | ⟨.dots, _⟩ :: ls => .error (.expected .nameOrBracket ls)
  | ⟨.leftBracket, _⟩ :: ls => do
    let (s, ⟨ls, h⟩) ← selector ls
    let (ss, ⟨ls, h'⟩) ← selectors ls
    match ls, h' with
    | ⟨.rightBracket, _⟩ :: ls, h' =>
      have h' := Nat.le_of_succ_le h'
      let (ts, ⟨ls, h''⟩) ← segments ls
      let t := match ss with
        | [] => Token.select s
        | _ :: _ => Token.union s ss
      return (t :: ts, ⟨ls, by simp; omega⟩)
    | ls, _ => .error (.expected .selectorEnd ls)
  | ls => .ok ([], ⟨ls, Nat.le_refl _⟩)
termination_by 2 * ls.length

/-- The selectors that follow, each behind a comma. -/
def selectors (ls : List Placed) : Except Failure (List Selector × Rest ls.length) :=
  match ls with
  | ⟨.comma, _⟩ :: ls => do
    let (s, ⟨ls, h⟩) ← selector ls
    let (ss, ⟨ls, h'⟩) ← selectors ls
    return (s :: ss, ⟨ls, by simp; omega⟩)
  | ls => .ok ([], ⟨ls, Nat.le_refl _⟩)
termination_by 2 * ls.length

/-- One selector between brackets. -/
def selector (ls : List Placed) : Except Failure (Selector × Rest ls.length) :=
  match ls with
  | ⟨.star, _⟩ :: ls => .ok (.wildcard, ⟨ls, by simp⟩)
  | ⟨.question, _⟩ :: ⟨.leftParen, _⟩ :: ls => do
    let ((head, tail), ⟨ls, h⟩) ← path ls
    match ls, h with
    | ⟨.operator op, _⟩ :: ls, h =>
      let (l, ⟨ls, h'⟩) ← literal ls
      match ls, h' with
      | ⟨.rightParen, _⟩ :: ls, h' => return (.filter none head tail op l, ⟨ls, by simp at h h' ⊢; omega⟩)
      | ls, _ => .error (.expected .filterEnd ls)
    | ls, _ => .error (.expected .operator ls)
  | ⟨.question, _⟩ :: ls => .error (.expected .filterStart ls)
  | ⟨.string s, _⟩ :: ls => .ok (.child (.name s), ⟨ls, by simp⟩)
  | ls => position ls
termination_by 2 * ls.length

end

/-- The path that lexemes spell as a whole. -/
def whole (ls : List Placed) : Except Failure (Token × List Token) := do
  let (p, ⟨rest, _⟩) ← path ls
  match rest with
  | [] => return p
  | rest => .error (.expected .ending rest)

end Parse

/-! ## Whole texts -/

/-- The place of a failure: the position of the first lexeme left, or the end of the text. -/
def Parse.Failure.toError (text : Text) : Parse.Failure → CompileError
  | .fault f left => .malformed ⟨f, text, (left.head?.map Placed.position).getD text.length⟩
  | .tooManyDigits n => .tooManyDigits n

/-- Compiles path text. -/
def Path.compile (text : Text) : Except CompileError Path :=
  if text.isBlank then .error (.malformed ⟨.empty, text, 0⟩)
  else
    match lexemes text with
    | .error (fault, place) => .error (.malformed ⟨.lexical fault, text, place⟩)
    | .ok ls =>
      match Parse.whole ls with
      | .error failure => .error (failure.toError text)
      | .ok (t, ts) => .ok ⟨t :: ts, some text⟩

end TreePath
