import TreePath.Value.Basic
import TreePath.Text.Display

/-!
# Displayed values

The form in which messages and log lines show a value, and the names by which messages call the types of values.
-/

namespace TreePath

namespace Number

/-- A part of a complex number: a whole number is shown without a point. -/
def partText (x : Binary64) : Text := x.textWith []

/-- A part with its sign, also when that is a plus. -/
def signedPartText (x : Binary64) : Text :=
  match partText x with
  | [] => []
  | c :: s => if c = '-' then c :: s else chars ['+'] ++ c :: s

/-- The real part is left out when it is a positive zero. -/
def complexText (re im : Binary64) : Text :=
  if re = Binary64.zero then partText im ++ chars ['j']
  else chars ['('] ++ partText re ++ signedPartText im ++ chars ['j', ')']

def display : Number → Text
  | .int n => Text.ofInt n
  | .float x => x.text
  | .decimal d => "Decimal('" ++ d.text ++ "')"
  | .complex re im => complexText re im

end Number

namespace Value

mutual

def display : Value → Text
  | .null => "None"
  | .bool b => if b then "True" else "False"
  | .number x => x.display
  | .string s => s.display
  | .list xs => chars ['['] ++ displayAll xs ++ chars [']']
  | .tuple [x] => chars ['('] ++ display x ++ chars [',', ')']
  | .tuple xs => chars ['('] ++ displayAll xs ++ chars [')']
  | .object ms => chars ['\x7b'] ++ displayMembers ms ++ chars ['\x7d']
  | .foreign name => "<opaque " ++ name ++ ">"
  | .missing => "MISSING"
  | .openEnd => "OPEN_END"

def displayAll : List Value → Text
  | [] => []
  | [x] => display x
  | x :: xs => display x ++ chars [',', ' '] ++ displayAll xs

def displayMembers : List (Text × Value) → Text
  | [] => []
  | [(k, v)] => k.display ++ chars [':', ' '] ++ display v
  | (k, v) :: ms => k.display ++ chars [':', ' '] ++ display v ++ chars [',', ' '] ++ displayMembers ms

end

/-- The plain name of a type. -/
def typeName : Value → Text
  | .null => "NoneType"
  | .bool _ => "bool"
  | .number (.int _) => "int"
  | .number (.float _) => "float"
  | .number (.decimal _) => "Decimal"
  | .number (.complex ..) => "complex"
  | .string _ => "str"
  | .list _ => "list"
  | .tuple _ => "tuple"
  | .object _ => "dict"
  | .foreign _ => "Opaque"
  | .missing => "_Missing"
  | .openEnd => "_OpenEnd"

/-- The name of a type with that of the library it belongs to, if it belongs to one. -/
def qualifiedTypeName : Value → Text
  | .number (.decimal _) => "decimal.Decimal"
  | v => v.typeName

end Value

end TreePath
