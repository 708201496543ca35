import TreePath.Path.Basic
import TreePath.Value.Display

/-!
# Displayed tokens

The form in which messages show a token: its name and its fields.
-/

namespace TreePath

def Key.display : Key → Text
  | .name s => s.display
  | .index i => Text.ofInt i

def Slice.display (s : Slice) : Text :=
  "Slice(first=" ++ Text.ofInt s.first ++ ", last=" ++ s.last.elim (Text.ofString "OPEN_END") Text.ofInt ++
    ", step=" ++ Text.ofNat s.step ++ ")"

def Operator.display : Operator → Text
  | .gt => "<Operator.GT: '>'>"
  | .ge => "<Operator.GE: '>='>"
  | .lt => "<Operator.LT: '<'>"
  | .le => "<Operator.LE: '<='>"
  | .eq => "<Operator.EQ: '=='>"
  | .ne => "<Operator.NE: '!='>"

/-- A single entry in parentheses is followed by a comma. -/
def displayTuple : List Text → Text
  | [x] => chars ['('] ++ x ++ chars [',', ')']
  | xs => chars ['('] ++ Text.join (chars [',', ' ']) xs ++ chars [')']

def displaySource (source : Option Text) : Text := source.elim (Text.ofString "None") Text.display

mutual

def Selector.display : Selector → Text
  | .child key => "Access(key=" ++ key.display ++ ")"
  | .slice bounds => bounds.display
  | .wildcard => "Wildcard()"
  | .filter source head tail op literal =>
    "FilterAccess(op=" ++ op.display ++ ", subpath=CompiledPath(tokens=" ++
      displayTuple (head.display :: displayTokens tail) ++ ", source=" ++ displaySource source ++ "), literal=" ++
      literal.toValue.display ++ ")"

def Token.display : Token → Text
  | .root => "Root()"
  | .current => "CurrentItem()"
  | .select s => s.display
  | .descend key _ => "RecursiveDescent(key=" ++ key.display ++ ")"
  | .union first others =>
    "Union(alternatives=" ++ displayTuple (first.display :: displaySelectors others) ++ ")"

def displayTokens : List Token → List Text
  | [] => []
  | t :: ts => t.display :: displayTokens ts

def displaySelectors : List Selector → List Text
  | [] => []
  | s :: ss => s.display :: displaySelectors ss

end

end TreePath
