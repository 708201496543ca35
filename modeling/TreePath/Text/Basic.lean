/-!
# Texts

A text is a list of Unicode code points. Surrogates count as code points, so a text may hold half of a pair; lengths
and positions count code points, and the order is the one of the code points.
-/

namespace TreePath

/-- A Unicode code point, surrogates included. -/
abbrev CodePoint := Fin 0x110000

abbrev Text := List CodePoint

theorem char_toNat_lt (c : Char) : c.toNat < 0x110000 := by
  have h := c.valid
  unfold Char.toNat
  rcases h with h | h <;> omega

def CodePoint.ofChar (c : Char) : CodePoint := ⟨c.toNat, char_toNat_lt c⟩

instance : Coe Char CodePoint := ⟨CodePoint.ofChar⟩

/-- A number below `0x110000` as a code point; larger ones wrap. -/
def CodePoint.ofNat (n : Nat) : CodePoint := Fin.ofNat 0x110000 n

/-- Half of a pair, which encodes nothing on its own. -/
def CodePoint.isSurrogate (c : CodePoint) : Bool := 0xD800 ≤ c.val && c.val ≤ 0xDFFF

/-- The text of a few characters. -/
def chars (cs : List Char) : Text := cs.map CodePoint.ofChar

def Text.ofString (s : String) : Text := chars s.toList

instance : Coe String Text := ⟨Text.ofString⟩

/-- The pieces with a separator between each two. -/
def Text.join (separator : Text) (pieces : List Text) : Text := separator.intercalate pieces

/-! ## Decimal digits of a number -/

/-- The decimal digits of `n`, most significant first, put in front of `acc`. -/
def digitsOnto (n : Nat) (acc : List Nat) : List Nat :=
  if n < 10 then n :: acc else digitsOnto (n / 10) (n % 10 :: acc)
termination_by n

/-- The decimal digits of `n`, most significant first; zero has one digit. -/
def decimalDigits (n : Nat) : List Nat := digitsOnto n []

/-- The number that a list of decimal digits stands for. -/
def ofDecimalDigits (ds : List Nat) : Nat := ds.foldl (fun n d => 10 * n + d) 0

theorem foldl_digitsOnto (n : Nat) (acc : List Nat) :
    (digitsOnto n acc).foldl (fun n d => 10 * n + d) 0 = acc.foldl (fun n d => 10 * n + d) n := by
  fun_induction digitsOnto n acc with
  | case1 => simp
  | case2 n acc h ih => rw [ih, List.foldl_cons, Nat.div_add_mod]

theorem ofDecimalDigits_decimalDigits (n : Nat) : ofDecimalDigits (decimalDigits n) = n := foldl_digitsOnto n []

theorem mem_digitsOnto {n d : Nat} {acc : List Nat} (h : d ∈ digitsOnto n acc) : d < 10 ∨ d ∈ acc := by
  fun_induction digitsOnto n acc with
  | case1 n acc hn => rcases List.mem_cons.1 h with rfl | h <;> simp_all
  | case2 n acc hn ih =>
    rcases ih h with h | h
    · exact Or.inl h
    · rcases List.mem_cons.1 h with rfl | h
      · exact Or.inl (Nat.mod_lt _ (by decide))
      · exact Or.inr h

theorem lt_of_mem_decimalDigits {n d : Nat} (h : d ∈ decimalDigits n) : d < 10 := by
  rcases mem_digitsOnto h with h | h
  · exact h
  · cases h

/-- The code point of an ASCII digit. -/
def digitPoint (d : Nat) : CodePoint := CodePoint.ofNat (48 + d)

namespace Text

def ofNat (n : Nat) : Text := (decimalDigits n).map digitPoint

/-- A minus sign for what is negative, and nothing otherwise. -/
def sign (negative : Bool) : Text := if negative then chars ['-'] else []

def ofInt (n : Int) : Text := sign (n < 0) ++ ofNat n.natAbs

/-- Whether no half of a pair is in the text. -/
def isWellFormed (s : Text) : Bool := s.all fun c => !c.isSurrogate

/-- The text with three replacement characters for each half of a pair, one for each byte that it would take. -/
def wellFormed (s : Text) : Text :=
  s.flatMap fun c => if c.isSurrogate then List.replicate 3 (CodePoint.ofNat 0xFFFD) else [c]

/-- Lexicographic order by code point. -/
def lt : Text → Text → Bool
  | [], [] => false
  | [], _ :: _ => true
  | _ :: _, [] => false
  | a :: s, b :: t => a < b || (a == b && lt s t)

end Text

end TreePath
