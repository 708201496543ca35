import TreePath.Text.Basic

/-!
# Quoted texts

The quoted form of a text inside a path. `quoted` writes it in single quotes. To read a quoted text, its body is split
off up to the closing quote (`pieces?`): a backslash and the code point behind it are one piece, so an escaped quote
does not close. Then the pieces are decoded (`decode`).
-/

namespace TreePath

/-! ## Writing -/

/-- The escapes that `quoted` writes: the code point and the letter behind the backslash. -/
def writtenEscapes : List (CodePoint × CodePoint) :=
  [('\\', '\\'), ('\'', '\''), ('\n', 'n'), ('\r', 'r'), ('\t', 't')]

def quotedPoint (c : CodePoint) : Text :=
  match writtenEscapes.lookup c with
  | some e => chars ['\\'] ++ [e]
  | none => [c]

def Text.quoted (s : Text) : Text := chars ['\''] ++ s.flatMap quotedPoint ++ chars ['\'']

/-! ## Reading -/

/-- One code point of the body of a quoted text, or a backslash with the code point behind it. -/
inductive Piece
  | plain (c : CodePoint)
  | escape (c : CodePoint)
  deriving DecidableEq

/-- The number of code points of a piece. -/
def Piece.width : Piece → Nat
  | .plain _ => 1
  | .escape _ => 2

/-- The pieces before the closing quote `q`, if there is one, and what follows it; `escaping` says whether a backslash
stands in front. -/
def pieces? (q : CodePoint) : (escaping : Bool) → Text → Option (List Piece × Text)
  | _, [] => none
  | true, c :: s => (pieces? q false s).map fun (ps, r) => (.escape c :: ps, r)
  | false, c :: s =>
    if c = q then some ([], s)
    else if c = '\\' then pieces? q true s
    else (pieces? q false s).map fun (ps, r) => (.plain c :: ps, r)

/-- The letters that may stand behind a backslash, and what they stand for. -/
def readEscapes : List (CodePoint × CodePoint) :=
  [('n', '\n'), ('t', '\t'), ('r', '\r'), ('b', '\x08'), ('f', '\x0c'), ('/', '/'), ('\\', '\\'), ('\'', '\''),
    ('"', '"')]

inductive EscapeFault
  /-- Fewer than four hexadecimal digits behind the letter `u`. -/
  | unicode
  | unknown (c : CodePoint)
  deriving DecidableEq

/-- The value of an ASCII hexadecimal digit. -/
def hexDigit? (c : CodePoint) : Option Nat :=
  if 48 ≤ c.val ∧ c.val ≤ 57 then some (c.val - 48)
  else if 65 ≤ c.val ∧ c.val ≤ 70 then some (c.val - 55)
  else if 97 ≤ c.val ∧ c.val ≤ 102 then some (c.val - 87)
  else none

/-- The code point that four hexadecimal digits in front of `ps` stand for. -/
def hexPoint? : (ps : List Piece) → Option CodePoint
  | .plain a :: .plain b :: .plain c :: .plain d :: _ => do
    let a ← hexDigit? a
    let b ← hexDigit? b
    let c ← hexDigit? c
    let d ← hexDigit? d
    return CodePoint.ofNat (((a * 16 + b) * 16 + c) * 16 + d)
  | _ => none

/-- The text that pieces stand for. A fault comes with the place of its backslash, the first piece being at `start`. -/
def decode (start : Nat) : List Piece → Except (EscapeFault × Nat) Text
  | [] => .ok []
  | .plain c :: ps => (decode (start + 1) ps).map (c :: ·)
  | .escape e :: ps =>
    if e = 'u' then
      match hexPoint? ps with
      | some x => (decode (start + 6) (ps.drop 4)).map (x :: ·)
      | none => .error (.unicode, start)
    else
      match readEscapes.lookup e with
      | some x => (decode (start + 2) ps).map (x :: ·)
      | none => .error (.unknown e, start)
termination_by ps => ps.length

/-! ## Reading what is written -/

/-- The piece that is written for a code point. -/
def writtenPiece (c : CodePoint) : Piece :=
  match writtenEscapes.lookup c with
  | some e => .escape e
  | none => .plain c

/-- A written escape is read as what it was written for. -/
theorem lookup_readEscapes {c e : CodePoint} (h : writtenEscapes.lookup c = some e) :
    e ≠ 'u' ∧ readEscapes.lookup e = some c := by
  simp only [writtenEscapes, List.lookup_cons] at h
  repeat' split at h
  all_goals simp_all
  all_goals subst h; decide

/-- What is written as it stands neither closes a quoted text nor escapes. -/
theorem lookup_writtenEscapes {c : CodePoint} (h : writtenEscapes.lookup c = none) : c ≠ '\'' ∧ c ≠ '\\' := by
  constructor <;> (rintro rfl; exact absurd h (by decide))

theorem pieces?_quotedPoint (c : CodePoint) (s : Text) :
    pieces? '\'' false (quotedPoint c ++ s) =
      (pieces? '\'' false s).map fun (ps, r) => (writtenPiece c :: ps, r) := by
  unfold quotedPoint writtenPiece
  split <;> rename_i h
  · rfl
  · simp [pieces?, lookup_writtenEscapes h]

/-- The body of a written text is split off as a whole, whatever follows its quote. -/
theorem pieces?_quoted (s r : Text) :
    pieces? '\'' false (s.flatMap quotedPoint ++ chars ['\''] ++ r) = some (s.map writtenPiece, r) := by
  induction s with
  | nil => rfl
  | cons c s ih =>
    rw [List.flatMap_cons, List.append_assoc, List.append_assoc, pieces?_quotedPoint, ← List.append_assoc, ih]
    rfl

theorem decode_writtenPiece (n : Nat) (c : CodePoint) (ps : List Piece) :
    decode n (writtenPiece c :: ps) = (decode (n + (writtenPiece c).width) ps).map (c :: ·) := by
  unfold writtenPiece
  split
  · rename_i e h
    obtain ⟨hu, hr⟩ := lookup_readEscapes h
    simp [decode, hu, hr, Piece.width]
  · simp [decode, Piece.width]

/-- Decoding gives back what was written. -/
theorem decode_map_writtenPiece (n : Nat) (s : Text) : decode n (s.map writtenPiece) = .ok s := by
  induction s generalizing n with
  | nil => simp [decode]
  | cons c s ih => rw [List.map_cons, decode_writtenPiece, ih]; rfl

end TreePath
