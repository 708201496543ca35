import TreePath.Text.Blank
import TreePath.Value.Basic

/-!
# Table specifications

A specification names the columns of a table, each with the text of its path, and may ask for one row per match of a
further path. It has checks of its own (`columnsFault?`, `explodePathFault?`).

A validator reads specifications off plain objects: it looks up the fields, makes the checks, and reports everything
that is wrong, field by field. Which values it takes for truth values is its own affair; `ofMembers`, the validator at
hand, takes some texts and numbers for them.
-/

namespace TreePath

/-- One row per match of a path; `rootWhenEmpty` asks for a row of the document itself when there is no match. -/
structure Explode where
  path : Text
  rootWhenEmpty : Bool

structure Spec where
  columns : List (Text × Text)
  explode : Option Explode

namespace Spec

inductive Cause
  | missing
  | notObject
  | notText
  | notFields
  | notBool
  | unreadableBool
  | illFormedText
  | noColumns
  | emptyColumnName
  | blankExplodePath
  deriving DecidableEq

/-- Something wrong at a place of a specification. The texts of a place are well-formed. -/
structure Issue where
  place : List Text
  cause : Cause

namespace Cause

def code : Cause → Text
  | .missing => "missing"
  | .notObject => "dict_type"
  | .notText => "string_type"
  | .notFields => "model_type"
  | .notBool => "bool_type"
  | .unreadableBool => "bool_parsing"
  | .illFormedText => "string_unicode"
  | .noColumns => "value_error"
  | .emptyColumnName => "value_error"
  | .blankExplodePath => "value_error"

def message? : Cause → Option Text
  | .noColumns => some "Value error, columns must be a non-empty object"
  | .emptyColumnName => some "Value error, column names must be non-empty strings"
  | .blankExplodePath => some "Value error, explode.path must be a non-empty string"
  | _ => none

end Cause

/-! ## Checks -/

/-- What is wrong with the columns of a specification, if anything is. -/
def columnsFault? (columns : List (Text × Text)) : Option Cause :=
  if columns.isEmpty then some .noColumns
  else if columns.any fun c => c.1.isEmpty then some .emptyColumnName
  else none

/-- What is wrong with the path of an explosion, if anything is. -/
def explodePathFault? (path : Text) : Option Cause := if path.isBlank then some .blankExplodePath else none

/-! ## Validators -/

/-- A specification off the members of an object, or what is wrong with them. -/
abbrev Validator := List (Text × Value) → Except (List Issue) Spec

/-- The value of a field. -/
def field? (members : List (Text × Value)) (name : Text) : Option Value := members.lookup name

/-! ### Columns -/

/-- The columns of the members that have a text, and the names of the members that have none. -/
def columnTexts : List (Text × Value) → List (Text × Text) × List Text
  | [] => ([], [])
  | (name, .string s) :: ms => ((name, s) :: (columnTexts ms).1, (columnTexts ms).2)
  | (name, _) :: ms => ((columnTexts ms).1, name :: (columnTexts ms).2)

def readColumns : Option Value → Except (List Issue) (List (Text × Text))
  | none => .error [⟨["columns"], .missing⟩]
  | some (.object ms) =>
    match columnTexts ms with
    | (columns, []) =>
      match columnsFault? columns with
      | some cause => .error [⟨["columns"], cause⟩]
      | none => .ok columns
    | (_, names) => .error (names.map fun name => ⟨["columns", name.wellFormed], .notText⟩)
  | some _ => .error [⟨["columns"], .notObject⟩]

/-! ### Truth values -/

/-- An ASCII letter in lower case. -/
def lowerPoint (c : CodePoint) : CodePoint := if 65 ≤ c.val ∧ c.val ≤ 90 then CodePoint.ofNat (c.val + 32) else c

/-- The texts that stand for a truth value, in any case. -/
def boolTexts : List (Text × Bool) :=
  [("0", false), ("off", false), ("f", false), ("false", false), ("n", false), ("no", false),
    ("1", true), ("on", true), ("t", true), ("true", true), ("y", true), ("yes", true)]

/-- Among the whole numbers of a word, zero and one stand for truth values. -/
def boolOfWhole (whole : Int) : Except Cause Bool :=
  if whole = 0 then .ok false else if whole = 1 then .ok true else .error .unreadableBool

/-- An integer beyond a word is no candidate for a truth value. -/
def boolOfInt (n : Int) : Except Cause Bool := if fitsWord n then boolOfWhole n else .error .notBool

/-- The value of a binary64 number that is whole and less than `2 ^ 63` in size. -/
def wholeNumber? (x : Binary64.Finite) : Option Int :=
  let (n, d) := Binary64.fraction x.rank
  if n % d = 0 ∧ n / d < Nat.pow 2 63 then some (if x.negative then -(n / d : Nat) else (n / d : Nat)) else none

def boolOfFloat (x : Binary64) : Except Cause Bool :=
  match x.finite?.bind wholeNumber? with
  | some n => boolOfWhole n
  | none => .error .notBool

def readBool : Value → Except Cause Bool
  | .bool b => .ok b
  | .string s =>
    if s.isWellFormed then
      match boolTexts.lookup (s.map lowerPoint) with
      | some b => .ok b
      | none => .error .unreadableBool
    else .error .illFormedText
  | .number (.int n) => boolOfInt n
  | .number (.float x) => boolOfFloat x
  | .number (.decimal (.finite negative c e)) => boolOfFloat (Binary64.nearest negative c e)
  | _ => .error .notBool

/-! ### Explosion -/

def readExplodePath : Option Value → Except Cause Text
  | none => .error .missing
  | some (.string s) =>
    match explodePathFault? s with
    | some cause => .error cause
    | none => .ok s
  | some _ => .error .notText

def readExplodeRoot : Option Value → Except Cause Bool
  | none => .ok true
  | some v => readBool v

def readExplode : Option Value → Except (List Issue) (Option Explode)
  | none => .ok none
  | some .null => .ok none
  | some (.object ms) =>
    let issue (field : Text) (cause : Cause) : Issue := ⟨["explode", field], cause⟩
    match readExplodePath (field? ms "path"), readExplodeRoot (field? ms "emit_root_when_empty") with
    | .ok path, .ok root => .ok (some ⟨path, root⟩)
    | .error c, .ok _ => .error [issue "path" c]
    | .ok _, .error c => .error [issue "emit_root_when_empty" c]
    | .error c, .error d => .error [issue "path" c, issue "emit_root_when_empty" d]
  | some _ => .error [⟨["explode"], .notFields⟩]

/-- The validator at hand. Members of other names do not count. -/
def ofMembers : Validator := fun ms =>
  match readColumns (field? ms "columns"), readExplode (field? ms "explode") with
  | .ok columns, .ok explode => .ok ⟨columns, explode⟩
  | .error is, .ok _ => .error is
  | .ok _, .error is => .error is
  | .error is, .error js => .error (is ++ js)

end Spec

end TreePath
