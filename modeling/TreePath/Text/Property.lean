import TreePath.Text.Basic

/-!
# Properties of code points

A property of code points is given by the increasing list of the code points at which it changes: it fails below the
first, holds from the first up to the second, and so on.
-/

namespace TreePath

/-- Whether a property holds at `n`; `held` says whether it held before the first change listed. -/
def holdsAt (n : Nat) : (held : Bool) → (changes : List Nat) → Bool
  | held, [] => held
  | held, c :: changes => if n < c then held else holdsAt n (!held) changes

/-- The start of the run of `n`, for a property that holds at `n`. -/
def runStart? (n : Nat) : List Nat → Option Nat
  | a :: b :: changes => if n < a then none else if n < b then some a else runStart? n changes
  | _ => none

end TreePath
