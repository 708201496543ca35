import TreePath.Path.Lexeme
import TreePath.Text.Display

/-!
# Faults of path text

Why a text is no path: the causes, their wording, and the place where the text goes wrong.
-/

namespace TreePath

/-- What the grammar admits at a place where the text has something else. -/
inductive Expectation
  | start
  | nameOrStar
  | nameOrBracket
  | descentKey
  | descentEnd
  | selector
  | selectorEnd
  | filterStart
  | filterEnd
  | operator
  | literal
  | ending
  deriving DecidableEq

def Expectation.message : Expectation → Text
  | .start => "Expected '$', '@', a name or a segment"
  | .nameOrStar => "Expected a name or '*' after '.'"
  | .nameOrBracket => "Expected a name after '..'"
  | .descentKey => "Expected a quoted key after '..['"
  | .descentEnd => "Expected ']'"
  | .selector => "Expected a key, an index, a slice, '*' or a filter"
  | .selectorEnd => "Expected ']' or ','"
  | .filterStart => "Expected '(' after '?'"
  | .filterEnd => "Expected ')' to close the filter"
  | .operator => "Expected a comparison operator"
  | .literal => "Expected a number, a string, true, false or null"
  | .ending => "Unexpected trailing input"

inductive Fault
  | empty
  | lexical (fault : LexicalFault)
  /-- A lexeme, or the end of the text, where the grammar wants something else. -/
  | expected (what : Expectation) (found : Option Lexeme)
  | emptyDescentKey
  | stepNotPositive
  | notInteger (n : Numeral)
  | outOfRange (n : Numeral)
  deriving DecidableEq

def LexicalFault.message : LexicalFault → Text
  | .unterminated => "Unterminated string literal"
  | .unexpected c => "Unexpected character " ++ Text.display [c]
  | .escape .unicode => "Invalid unicode escape"
  | .escape (.unknown c) => "Invalid escape sequence '\\" ++ [c] ++ "'"

def Fault.message : Fault → Text
  | .empty => "Empty path"
  | .lexical fault => fault.message
  | .expected what none => what.message ++ ", found end of path"
  | .expected what (some found) => what.message ++ ", found " ++ found.text.display
  | .emptyDescentKey => "Recursive descent key must not be empty"
  | .stepNotPositive => "Slice step must be a positive integer"
  | .notInteger n => "Expected an integer, found " ++ n.text.display
  | .outOfRange n => "Number " ++ n.text.display ++ " is out of range"

/-- A message with the place it speaks of: an expression, and a position in the expression. -/
def located (message : Text) (expression : Option Text) (position : Option Int) : Text :=
  match expression, position with
  | none, _ => message
  | some e, none => message ++ " in " ++ e.display
  | some e, some p => message ++ " at position " ++ Text.ofInt p ++ " in " ++ e.display

/-- A fault at a position of a text. -/
structure SyntaxError where
  fault : Fault
  expression : Text
  position : Nat
  deriving DecidableEq

def SyntaxError.message (e : SyntaxError) : Text := located e.fault.message (some e.expression) (some e.position)

/-- Why a text does not compile: it is malformed, or one of its integers has more digits than are read. -/
inductive CompileError
  | malformed (e : SyntaxError)
  | tooManyDigits (digits : Nat)
  deriving DecidableEq

def CompileError.message : CompileError → Text
  | .malformed e => e.message
  | .tooManyDigits n =>
    "Exceeds the limit (4300 digits) for integer string conversion: value has " ++ Text.ofNat n ++
      " digits; use sys.set_int_max_str_digits() to increase the limit"

end TreePath
