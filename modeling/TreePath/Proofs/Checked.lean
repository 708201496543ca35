import TreePath.Path.Offer

/-!
# Reading with every check made

A second reader of path text. It goes through words with a cursor, where the end of the text is the last word; it
decodes quoted texts code point by code point, converts the texts of numbers, and offers what it has read to the checks
that tokens and paths of callers have to pass. What the types of `Path.compile` leave no room for can happen here and
has a name (`Defect`).
-/

namespace TreePath.Checked

/-- What can go wrong with a reader, whatever the text. -/
inductive Defect
  /-- A word or a code point behind the last one was asked for. -/
  | pastEnd
  /-- A text was to be converted that does not have the form of a number. -/
  | notNumeral (s : Text)
  | refused (r : Refusal)
  /-- The bound on the depth of the calls was reached. -/
  | endless

/-- Why a reader stops. -/
inductive Stop
  | malformed (message : Text) (position : Nat)
  | tooManyDigits (digits : Nat)
  | defect (d : Defect)

def Stop.lexical (fault : LexicalFault) (position : Nat) : Stop := .malformed fault.message position

/-! ## Words -/

inductive WordKind
  | root
  | current
  | star
  | dot
  | dots
  | leftBracket
  | rightBracket
  | leftParen
  | rightParen
  | question
  | comma
  | colon
  | operator
  | number
  | string
  | name
  | ending
  deriving DecidableEq

/-- A word of a text: its kind, its text (of a string, the text it stands for) and the place where it starts. -/
structure Word where
  kind : WordKind
  text : Text
  position : Nat

def kindOf : Lexeme → WordKind
  | .root => .root
  | .current => .current
  | .star => .star
  | .dot => .dot
  | .dots => .dots
  | .leftBracket => .leftBracket
  | .rightBracket => .rightBracket
  | .leftParen => .leftParen
  | .rightParen => .rightParen
  | .question => .question
  | .comma => .comma
  | .colon => .colon
  | .operator _ => .operator
  | .number _ => .number
  | .string _ => .string
  | .name .. => .name

def wordOf (x : Placed) : Word := ⟨kindOf x.lexeme, x.lexeme.text, x.position⟩

/-- Decodes the body of a quoted text, the first code point of which stands at `start`. A backslash is followed by a
letter only because of the way in which the body was found. -/
def unescape (start : Nat) : Text → Except Stop Text
  | [] => .ok []
  | c :: s =>
    if c = '\\' then
      match s with
      | [] => .error (.defect .pastEnd)
      | e :: s =>
        if e = 'u' then
          match hexPoint? ((s.take 4).map .plain) with
          | some x => (unescape (start + 6) (s.drop 4)).map (x :: ·)
          | none => .error (.lexical (.escape .unicode) start)
        else
          match readEscapes.lookup e with
          | some x => (unescape (start + 2) s).map (x :: ·)
          | none => .error (.lexical (.escape (.unknown e)) start)
    else (unescape (start + 1) s).map (c :: ·)
termination_by s => s.length

/-- A quoted text whose opening quote `c` stands at `position`, with the number of code points it takes of `s`. -/
def quotedWord (c : CodePoint) (s : Text) (position : Nat) : Except Stop (Word × Nat) :=
  match pieces? c false s with
  | none => .error (.lexical .unterminated position)
  | some (_, r) =>
    let body := s.take (s.length - (r.length + 1))
    let decoded := if ('\\' : CodePoint) ∈ body then unescape (position + 1) body else .ok body
    decoded.map fun t => (⟨.string, t, position⟩, body.length + 1)

/-- The word that starts with `c` at `position` and goes on in `s`, with the number of code points it takes of `s`. -/
def leadingWord (c : CodePoint) (s : Text) (position : Nat) : Except Stop (Word × Nat) :=
  if c = '\'' ∨ c = '"' then quotedWord c s position
  else
    match Lexeme.leading c s position with
    | .ok (x, n) => .ok (wordOf ⟨x, position⟩, n)
    | .error (fault, place) => .error (.lexical fault place)

/-- The words of a text whose first code point stands at `position`, without the end. -/
def wordsFrom (position : Nat) : Text → Except Stop (List Word)
  | [] => .ok []
  | c :: s =>
    if c.isBlank then wordsFrom (position + 1) s
    else
      match leadingWord c s position with
      | .error e => .error e
      | .ok (w, n) => (wordsFrom (position + 1 + n) (s.drop n)).map (w :: ·)
termination_by s => s.length

def ending (text : Text) : Word := ⟨.ending, [], text.length⟩

def words (text : Text) : Except Stop (List Word) := (wordsFrom 0 text).map (· ++ [ending text])

/-! ## The cursor -/

/-- What reads some of the words that are left. -/
abbrev Reader := StateT (List Word) (Except Stop)

section Cursor

variable {α : Type}

def peek : Reader Word := do
  match ← get with
  | [] => throw (.defect .pastEnd)
  | w :: _ => return w

/-- Takes a word; the end stays where it is. -/
def advance : Reader Word := do
  let w ← peek
  if w.kind ≠ .ending then modify List.tail
  return w

def accept (kind : WordKind) : Reader (Option Word) := do
  let w ← peek
  if w.kind = kind then some <$> advance else return none

def fail (what : Expectation) : Reader α := do
  let w ← peek
  let found : Text := if w.kind = .ending then "end of path" else w.text.display
  throw (.malformed (what.message ++ ", found " ++ found) w.position)

def expect (kind : WordKind) (what : Expectation) : Reader Word := do
  match ← accept kind with
  | some w => return w
  | none => fail what

/-- What has passed a check. -/
def offered (r : Except Refusal α) : Reader α :=
  match r with
  | .ok x => return x
  | .error e => throw (.defect (.refused e))

end Cursor

/-! ## Numbers -/

/-- Whether a text consists of digits behind an optional minus sign. -/
def isIntegerText (s : Text) : Bool :=
  let ds := (Numeral.minus s).2
  !ds.isEmpty && ds.all CodePoint.isDigit

/-- The integer that a text is converted to. -/
def toInteger (s : Text) : Reader Int :=
  match Numeral.read? s with
  | none => throw (.defect (.notNumeral s))
  | some n =>
    if !n.isInteger then throw (.defect (.notNumeral s))
    else if Parse.digitLimit < n.whole.length then throw (.tooManyDigits n.whole.length)
    else return n.integer

/-- The binary64 number that a text is converted to. -/
def toFloat (s : Text) : Reader Binary64 :=
  match Numeral.read? s with
  | none => throw (.defect (.notNumeral s))
  | some n => return .ofNumeral n

def integer : Reader Int := do
  let w ← advance
  if isIntegerText w.text then toInteger w.text
  else throw (.malformed ("Expected an integer, found " ++ w.text.display) w.position)

def optionalInteger : Reader (Option Int) := do
  if (← peek).kind = .number then some <$> integer else return none

/-- The step of a slice at its number. -/
def positive : Reader Int := do
  let w ← peek
  let k ← integer
  if k ≤ 0 then throw (.malformed "Slice step must be a positive integer" w.position) else return k

/-- The step of a slice, which is one if there is none. -/
def step : Reader Int := do
  if (← accept .colon).isSome then
    if (← peek).kind = .number then positive else return 1
  else return 1

/-- A slice behind its first colon. -/
def sliceFrom (first : Option Int) : Reader Token := do
  let last ← optionalInteger
  let k ← step
  offered (Token.sliceOf (.int (first.getD 0)) (last.elim .openEnd .int) (.int k))

/-- An index or a slice. -/
def position : Reader Token := do
  let first ← optionalInteger
  if (← accept .colon).isSome then sliceFrom first
  else
    match first with
    | some i => offered (Token.childOf (.int i))
    | none => fail .selector

/-- The value of a number that is a literal. -/
def numberLiteral (w : Word) : Reader Value :=
  if isIntegerText w.text then .int <$> toInteger w.text
  else do
    match ← toFloat w.text with
    | .finite x => return .number (.float (.finite x))
    | _ => throw (.malformed ("Number " ++ w.text.display ++ " is out of range") w.position)

/-- The value of a name that is a literal. -/
def nameLiteral (w : Word) : Reader Value :=
  match Parse.namedLiterals.lookup w.text with
  | some l => advance >>= fun _ => return l.toValue
  | none => fail .literal

def literal : Reader Value := do
  let w ← peek
  if w.kind = .number then
    let _ ← advance
    numberLiteral w
  else if w.kind = .string then
    let _ ← advance
    return .string w.text
  else if w.kind = .name then nameLiteral w
  else fail .literal

/-! ## Paths -/

/-- The key of a descent that is written in brackets, behind the opening one. -/
def bracketedKey : Reader Text := do
  let w ← expect .string .descentKey
  if w.text = [] then throw (.malformed "Recursive descent key must not be empty" w.position)
  else
    let _ ← expect .rightBracket .descentEnd
    return w.text

/-- The key of a descent. -/
def descentKey : Reader Text := do
  match ← accept .name with
  | some w => return w.text
  | none =>
    let _ ← expect .leftBracket .nameOrBracket
    bracketedKey

/-- An anchor or a leading name, if there is one. -/
def opening : Reader (List Token) := do
  if (← accept .root).isSome then return [.root]
  else if (← accept .current).isSome then return [.current]
  else
    match ← accept .name with
    | some w => return [← offered (Token.childOf (.string w.text))]
    | none => return []

/-- What stands between brackets: a selector, or a union of several. -/
def bracketsOf (first : Token) : (others : List Token) → Except Refusal Token
  | [] => .ok first
  | t :: ts => Token.unionOf ((first :: t :: ts).map .token)

/-- A filter over tokens, from the text of its operator. -/
def filterOf (operator : Text) (tokens : List Token) (literal : Value) : Except Refusal Token := do
  let op ← Token.operatorOf (.string operator)
  let subpath ← Path.ofOffers (tokens.map .token) none
  Token.filterOver op subpath literal

mutual

def path : (fuel : Nat) → Reader (List Token)
  | 0 => throw (.defect .endless)
  | fuel + 1 => do
    let opening ← opening
    let rest ← segments fuel
    if (opening ++ rest).isEmpty then fail .start else return opening ++ rest

def segments : (fuel : Nat) → Reader (List Token)
  | 0 => throw (.defect .endless)
  | fuel + 1 => do
    if (← accept .dot).isSome then
      if (← accept .star).isSome then return .wildcard :: (← segments fuel)
      else
        let w ← expect .name .nameOrStar
        let t ← offered (Token.childOf (.string w.text))
        return t :: (← segments fuel)
    else if (← accept .dots).isSome then
      let key ← descentKey
      let t ← offered (Token.descendOf (.string key))
      return t :: (← segments fuel)
    else if (← accept .leftBracket).isSome then
      let first ← selector fuel
      let others ← selectors fuel
      let _ ← expect .rightBracket .selectorEnd
      let t ← offered (bracketsOf first others)
      return t :: (← segments fuel)
    else return []

def selectors : (fuel : Nat) → Reader (List Token)
  | 0 => throw (.defect .endless)
  | fuel + 1 => do
    if (← accept .comma).isSome then
      let first ← selector fuel
      return first :: (← selectors fuel)
    else return []

def selector : (fuel : Nat) → Reader Token
  | 0 => throw (.defect .endless)
  | fuel + 1 => do
    if (← accept .star).isSome then return .wildcard
    else if (← accept .question).isSome then
      let _ ← expect .leftParen .filterStart
      let tokens ← path fuel
      let w ← expect .operator .operator
      let l ← literal
      let t ← offered (filterOf w.text tokens l)
      let _ ← expect .rightParen .filterEnd
      return t
    else
      match ← accept .string with
      | some w => offered (Token.childOf (.string w.text))
      | none => position

end

/-- A path that is all of the text. -/
def whole (text : Text) (fuel : Nat) : Reader Path := do
  let tokens ← path fuel
  let _ ← expect .ending .ending
  offered (Path.ofOffers (tokens.map .token) (some text))

/-- Compiles path text with every check made. -/
def compile (text : Text) : Except Stop Path :=
  if text.isBlank then .error (.malformed "Empty path" 0)
  else do
    let ws ← words text
    StateT.run' (whole text (2 * ws.length)) ws

end TreePath.Checked
