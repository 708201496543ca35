import TreePath.Path.Basic
import TreePath.Text.Quoted
import TreePath.Text.Word

/-!
# Written paths

The canonical text of a path. A child under a name that can stand bare is written behind a point, everything else in
brackets.
-/

namespace TreePath

def Key.text : Key → Text
  | .name s => s.quoted
  | .index i => Text.ofInt i

/-- A step of one is not written. -/
def Slice.text (s : Slice) : Text :=
  Text.ofInt s.first ++ chars [':'] ++ s.last.elim [] Text.ofInt ++
    if s.step = 1 then [] else chars [':'] ++ Text.ofNat s.step

def Literal.text : Literal → Text
  | .null => chars ['n', 'u', 'l', 'l']
  | .bool true => chars ['t', 'r', 'u', 'e']
  | .bool false => chars ['f', 'a', 'l', 's', 'e']
  | .int n => Text.ofInt n
  | .float x => x.text
  | .string s => s.quoted

mutual

/-- A selector as it stands between brackets. -/
def Selector.text : Selector → Text
  | .child key => key.text
  | .slice bounds => bounds.text
  | .wildcard => chars ['*']
  | .filter _ head tail op literal =>
    chars ['?', '('] ++ head.text ++ textAll tail ++ chars [' '] ++ op.text ++ chars [' '] ++ literal.text ++
      chars [')']

def Token.text : Token → Text
  | .root => chars ['$']
  | .current => chars ['@']
  | .select (.child (.name s)) =>
    if s.isName then chars ['.'] ++ s else chars ['['] ++ s.quoted ++ chars [']']
  | .select s => chars ['['] ++ s.text ++ chars [']']
  | .descend key _ =>
    if key.isName then chars ['.', '.'] ++ key else chars ['.', '.', '['] ++ key.quoted ++ chars [']']
  | .union first others => chars ['['] ++ first.text ++ textOthers others ++ chars [']']

/-- Tokens one behind the other. -/
def textAll : List Token → Text
  | [] => []
  | t :: ts => t.text ++ textAll ts

/-- The further alternatives of a union, each behind a comma. -/
def textOthers : List Selector → Text
  | [] => []
  | s :: ss => chars [','] ++ s.text ++ textOthers ss

end

def Path.text (p : Path) : Text := textAll p.tokens

end TreePath
