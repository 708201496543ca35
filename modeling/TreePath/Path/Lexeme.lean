import TreePath.Path.Basic
import TreePath.Text.Blank
import TreePath.Text.Quoted
import TreePath.Text.Word

/-!
# Lexemes

The words of path text. `Lexeme.leading` reads the lexeme at the start of a text that does not start with a blank, and
says how many code points it takes; `lexemes` reads a whole text, leaving out blanks. Two points are one lexeme, and
the longest numeral and the longest name are taken.
-/

namespace TreePath

inductive Lexeme
  | root
  | current
  | star
  | dot
  | dots
  | leftBracket
  | rightBracket
  | leftParen
  | rightParen
  | question
  | comma
  | colon
  | operator (op : Operator)
  | number (n : Numeral)
  | string (s : Text)
  | name (head : CodePoint) (tail : Text)
  deriving DecidableEq

/-- A lexeme and the position of its first code point. -/
structure Placed where
  lexeme : Lexeme
  position : Nat
  deriving DecidableEq

inductive LexicalFault
  | unterminated
  | unexpected (c : CodePoint)
  | escape (fault : EscapeFault)
  deriving DecidableEq

namespace Lexeme

/-- The text of a lexeme; of a string, the text it stands for. -/
def text : Lexeme → Text
  | .root => chars ['$']
  | .current => chars ['@']
  | .star => chars ['*']
  | .dot => chars ['.']
  | .dots => chars ['.', '.']
  | .leftBracket => chars ['[']
  | .rightBracket => chars [']']
  | .leftParen => chars ['(']
  | .rightParen => chars [')']
  | .question => chars ['?']
  | .comma => chars [',']
  | .colon => chars [':']
  | .operator op => op.text
  | .number n => n.text
  | .string s => s
  | .name c s => c :: s

/-- The lexemes of one code point that starts no other lexeme. -/
def symbols : List (CodePoint × Lexeme) :=
  [('$', .root), ('@', .current), ('*', .star), ('[', .leftBracket), (']', .rightBracket), ('(', .leftParen),
    (')', .rightParen), ('?', .question), (',', .comma), (':', .colon)]

/-- An operator that starts with `c` and goes on in `s`, with the number of code points it takes of `s`. -/
def operator? (c : CodePoint) (s : Text) : Option (Operator × Nat) :=
  let equals := s.head? == some ('=' : CodePoint)
  if c = '=' then if equals then some (.eq, 1) else none
  else if c = '!' then if equals then some (.ne, 1) else none
  else if c = '<' then if equals then some (.le, 1) else some (.lt, 0)
  else if c = '>' then if equals then some (.ge, 1) else some (.gt, 0)
  else none

/-- A quoted text whose opening quote `c` stands at `position`. -/
def quoted (c : CodePoint) (s : Text) (position : Nat) : Except (LexicalFault × Nat) (Lexeme × Nat) :=
  match pieces? c false s with
  | none => .error (.unterminated, position)
  | some (ps, _) =>
    match decode (position + 1) ps with
    | .ok t => .ok (.string t, ps.foldr (fun p k => p.width + k) 0 + 1)
    | .error (fault, place) => .error (.escape fault, place)

/-- The lexeme that starts with `c` at `position` and goes on in `s`, with the number of code points it takes of `s`. -/
def leading (c : CodePoint) (s : Text) (position : Nat) : Except (LexicalFault × Nat) (Lexeme × Nat) :=
  if c = '.' then
    if s.head? == some ('.' : CodePoint) then .ok (.dots, 1) else .ok (.dot, 0)
  else match symbols.lookup c with
  | some x => .ok (x, 0)
  | none =>
    match operator? c s with
    | some (op, n) => .ok (.operator op, n)
    | none =>
      match Numeral.leading? (c :: s) with
      | some (n, _) => .ok (.number n, n.text.length - 1)
      | none =>
        if c = '\'' ∨ c = '"' then quoted c s position
        else if c.isNameStart then
          let rest := s.takeWhile CodePoint.isNameRest
          .ok (.name c rest, rest.length)
        else .error (.unexpected c, position)

end Lexeme

/-- The lexemes of a text whose first code point stands at `position`. -/
def lexemesFrom (position : Nat) : Text → Except (LexicalFault × Nat) (List Placed)
  | [] => .ok []
  | c :: s =>
    if c.isBlank then lexemesFrom (position + 1) s
    else
      match Lexeme.leading c s position with
      | .error e => .error e
      | .ok (x, n) => (lexemesFrom (position + 1 + n) (s.drop n)).map (⟨x, position⟩ :: ·)
termination_by s => s.length

theorem lexemesFrom_nil (n : Nat) : lexemesFrom n [] = .ok [] := by rw [lexemesFrom]

theorem lexemesFrom_blank {n : Nat} {c : CodePoint} {s : Text} {ls : List Placed} (hc : c.isBlank = true)
    (hs : lexemesFrom (n + 1) s = .ok ls) : lexemesFrom n (c :: s) = .ok ls := by
  rw [lexemesFrom, if_pos hc, hs]

theorem lexemesFrom_lexeme {n k : Nat} {c : CodePoint} {s : Text} {x : Lexeme} {ls : List Placed}
    (hc : c.isBlank = false) (h : Lexeme.leading c s n = .ok (x, k))
    (hs : lexemesFrom (n + 1 + k) (s.drop k) = .ok ls) : lexemesFrom n (c :: s) = .ok (⟨x, n⟩ :: ls) := by
  have hblank : ¬ c.isBlank = true := Bool.not_eq_true _ ▸ hc
  rw [lexemesFrom, if_neg hblank, h]
  dsimp only
  rw [hs]
  rfl

def lexemes (s : Text) : Except (LexicalFault × Nat) (List Placed) := lexemesFrom 0 s

end TreePath
