import TreePath.Proofs.Derivation
import TreePath.Proofs.Placing

/-!
# Keys in the notation of JSON

A JSON string is written as a sequence of parts between double quotes (`JsonPart`): a code point as it stands, a short
escape, an escape of four hexadecimal digits, or two such escapes that make a pair of surrogates. Every text without
surrogates has such a spelling, in most cases many, and nothing else has one (`JsonPart.spells_iff_isWellFormed`).

A key in brackets that is spelled like this is read part by part. A pair is read as its two surrogates and not as the
code point that it stands for; all other parts are read as what they stand for (`compile_literal_iff`).
-/

namespace TreePath

/-! ## Spellings -/

/-- A hexadecimal digit; from ten on, it is a letter in one of two cases. -/
structure HexDigit where
  value : Fin 16
  upper : Bool

def HexDigit.point (d : HexDigit) : CodePoint :=
  if d.value.val < 10 then CodePoint.ofNat (48 + d.value.val)
  else if d.upper then CodePoint.ofNat (55 + d.value.val)
  else CodePoint.ofNat (87 + d.value.val)

/-- Four hexadecimal digits, the most significant first. -/
structure HexUnit where
  first : HexDigit
  second : HexDigit
  third : HexDigit
  fourth : HexDigit

namespace HexUnit

def text (u : HexUnit) : Text := [u.first.point, u.second.point, u.third.point, u.fourth.point]

def value (u : HexUnit) : Nat :=
  0x1000 * u.first.value.val + 0x100 * u.second.value.val + 0x10 * u.third.value.val + u.fourth.value.val

end HexUnit

/-- The code points that have an escape of two code points. -/
inductive ShortEscape
  | quotationMark
  | backslash
  | slash
  | backspace
  | formFeed
  | lineFeed
  | carriageReturn
  | tab

namespace ShortEscape

/-- What stands behind the backslash. -/
def letter : ShortEscape → CodePoint
  | .quotationMark => '"'
  | .backslash => '\\'
  | .slash => '/'
  | .backspace => 'b'
  | .formFeed => 'f'
  | .lineFeed => 'n'
  | .carriageReturn => 'r'
  | .tab => 't'

def value : ShortEscape → CodePoint
  | .quotationMark => CodePoint.ofNat 0x22
  | .backslash => CodePoint.ofNat 0x5C
  | .slash => CodePoint.ofNat 0x2F
  | .backspace => CodePoint.ofNat 0x8
  | .formFeed => CodePoint.ofNat 0xC
  | .lineFeed => CodePoint.ofNat 0xA
  | .carriageReturn => CodePoint.ofNat 0xD
  | .tab => CodePoint.ofNat 0x9

end ShortEscape

/-- One code point of a JSON string as it may be spelled. -/
inductive JsonPart
  /-- A code point that stands for itself. -/
  | plain (c : CodePoint) (printed : 0x20 ≤ c.val) (noQuote : c ≠ '"') (noBackslash : c ≠ '\\')
    (scalar : c.isSurrogate = false)
  | short (e : ShortEscape)
  | unit (u : HexUnit) (scalar : u.value < 0xD800 ∨ 0xDFFF < u.value)
  | pair (high low : HexUnit) (isHigh : 0xD800 ≤ high.value ∧ high.value ≤ 0xDBFF)
    (isLow : 0xDC00 ≤ low.value ∧ low.value ≤ 0xDFFF)

namespace JsonPart

def text : JsonPart → Text
  | .plain c _ _ _ _ => [c]
  | .short e => chars ['\\'] ++ [e.letter]
  | .unit u _ => chars ['\\', 'u'] ++ u.text
  | .pair high low _ _ => chars ['\\', 'u'] ++ high.text ++ chars ['\\', 'u'] ++ low.text

/-- The code point that a part stands for. -/
def value : JsonPart → CodePoint
  | .plain c _ _ _ _ => c
  | .short e => e.value
  | .unit u _ => CodePoint.ofNat u.value
  | .pair high low _ _ => CodePoint.ofNat (0x10000 + (high.value - 0xD800) * 0x400 + (low.value - 0xDC00))

def isPair : JsonPart → Bool
  | .pair _ _ _ _ => true
  | _ => false

/-- The parts between double quotes. -/
def literal (parts : List JsonPart) : Text := chars ['"'] ++ parts.flatMap text ++ chars ['"']

end JsonPart

/-! ## What has a spelling -/

theorem HexUnit.value_lt (u : HexUnit) : u.value < 0x10000 := by
  obtain ⟨a, b, c, d⟩ := u
  have ha := a.value.isLt
  have hb := b.value.isLt
  have hc := c.value.isLt
  have hd := d.value.isLt
  show 0x1000 * a.value.val + 0x100 * b.value.val + 0x10 * c.value.val + d.value.val < 0x10000
  omega

/-- The unit of a number, in small letters. -/
def HexUnit.ofNat (n : Nat) : HexUnit :=
  ⟨⟨Fin.ofNat 16 (n / 0x1000), false⟩, ⟨Fin.ofNat 16 (n / 0x100), false⟩, ⟨Fin.ofNat 16 (n / 0x10), false⟩,
    ⟨Fin.ofNat 16 n, false⟩⟩

theorem HexUnit.value_ofNat {n : Nat} (h : n < 0x10000) : (ofNat n).value = n := by
  show 0x1000 * (n / 0x1000 % 16) + 0x100 * (n / 0x100 % 16) + 0x10 * (n / 0x10 % 16) + n % 16 = n
  omega

theorem CodePoint.val_ofNat {n : Nat} (h : n < 0x110000) : (CodePoint.ofNat n).val = n := Nat.mod_eq_of_lt h

theorem CodePoint.isSurrogate_eq_false {c : CodePoint} : c.isSurrogate = false ↔ c.val < 0xD800 ∨ 0xDFFF < c.val := by
  simp only [isSurrogate, Bool.and_eq_false_iff, decide_eq_false_iff_not, Nat.not_le]

namespace JsonPart

/-- Parts stand for no surrogates. -/
theorem isSurrogate_value (part : JsonPart) : part.value.isSurrogate = false := by
  cases part with
  | plain c _ _ _ scalar => exact scalar
  | short e => cases e <;> rfl
  | unit u scalar =>
    have hlt := u.value_lt
    rw [CodePoint.isSurrogate_eq_false, value, CodePoint.val_ofNat (by omega)]
    exact scalar
  | pair high low isHigh isLow =>
    rw [CodePoint.isSurrogate_eq_false, value, CodePoint.val_ofNat (by omega)]
    omega

/-- A code point that is no surrogate can be escaped. -/
theorem exists_value_eq {c : CodePoint} (h : c.isSurrogate = false) : ∃ part : JsonPart, part.value = c := by
  rw [CodePoint.isSurrogate_eq_false] at h
  have hlt : c.val < 0x110000 := c.isLt
  by_cases hunit : c.val < 0x10000
  · refine ⟨.unit (.ofNat c.val) (by rw [HexUnit.value_ofNat hunit]; exact h), Fin.ext ?_⟩
    rw [value, HexUnit.value_ofNat hunit, CodePoint.val_ofNat hlt]
  · have hhigh : (HexUnit.ofNat (0xD800 + (c.val - 0x10000) / 0x400)).value = 0xD800 + (c.val - 0x10000) / 0x400 :=
      HexUnit.value_ofNat (by omega)
    have hlow : (HexUnit.ofNat (0xDC00 + (c.val - 0x10000) % 0x400)).value = 0xDC00 + (c.val - 0x10000) % 0x400 :=
      HexUnit.value_ofNat (by omega)
    refine ⟨.pair _ _ (by rw [hhigh]; omega) (by rw [hlow]; omega), Fin.ext ?_⟩
    rw [value, hhigh, hlow, CodePoint.val_ofNat (by omega)]
    omega

/-- The texts that have a spelling are those without surrogates. -/
theorem spells_iff_isWellFormed (s : Text) :
    (∃ parts : List JsonPart, parts.map value = s) ↔ s.isWellFormed = true := by
  constructor
  · rintro ⟨parts, rfl⟩
    refine List.all_eq_true.2 fun c hc => ?_
    obtain ⟨part, _, rfl⟩ := List.mem_map.1 hc
    rw [part.isSurrogate_value]
    rfl
  · intro h
    induction s with
    | nil => exact ⟨[], rfl⟩
    | cons c s ih =>
      obtain ⟨hc, hs⟩ := Bool.and_eq_true_iff.1 (List.all_cons.symm.trans h)
      obtain ⟨part, rfl⟩ := exists_value_eq (c := c) (by simpa using hc)
      obtain ⟨parts, rfl⟩ := ih hs
      exact ⟨part :: parts, rfl⟩

end JsonPart

/-! ## Pieces of a spelling -/

theorem HexDigit.hexDigit?_point (d : HexDigit) : hexDigit? d.point = some d.value.val := by
  obtain ⟨value, upper⟩ := d
  revert value upper
  decide

theorem HexDigit.point_isOpen (d : HexDigit) : (Piece.plain d.point).IsOpen '"' := by
  have hpoint : ∀ (value : Fin 16) (upper : Bool),
      (HexDigit.mk value upper).point ≠ '"' ∧ (HexDigit.mk value upper).point ≠ '\\' := by decide
  exact hpoint d.value d.upper

theorem ShortEscape.lookup_letter (e : ShortEscape) : e.letter ≠ 'u' ∧ readEscapes.lookup e.letter = some e.value := by
  cases e <;> decide

namespace HexUnit

def pieces (u : HexUnit) : List Piece := u.text.map .plain

theorem isOpen_of_mem_pieces {u : HexUnit} {p : Piece} (h : p ∈ u.pieces) : p.IsOpen '"' := by
  obtain ⟨c, hc, rfl⟩ := List.mem_map.1 h
  simp only [text, List.mem_cons, List.not_mem_nil, or_false] at hc
  rcases hc with rfl | rfl | rfl | rfl
  · exact u.first.point_isOpen
  · exact u.second.point_isOpen
  · exact u.third.point_isOpen
  · exact u.fourth.point_isOpen

/-- Four digits are read as their value. -/
theorem hexPoint?_pieces (u : HexUnit) (ps : List Piece) :
    hexPoint? (u.pieces ++ ps) = some (CodePoint.ofNat u.value) := by
  obtain ⟨a, b, c, d⟩ := u
  have hvalue : ((a.value.val * 16 + b.value.val) * 16 + c.value.val) * 16 + d.value.val =
      (HexUnit.mk a b c d).value := by
    show _ = 0x1000 * a.value.val + 0x100 * b.value.val + 0x10 * c.value.val + d.value.val
    omega
  show hexPoint? (.plain a.point :: .plain b.point :: .plain c.point :: .plain d.point :: ps) = _
  simp only [hexPoint?, HexDigit.hexDigit?_point, Option.bind_eq_bind, Option.bind_some, hvalue]
  rfl

theorem decode_pieces (u : HexUnit) (n : Nat) (ps : List Piece) :
    decode n (.escape 'u' :: (u.pieces ++ ps)) = (decode (n + 6) ps).map (CodePoint.ofNat u.value :: ·) := by
  rw [decode, if_pos rfl, u.hexPoint?_pieces ps]
  rfl

end HexUnit

namespace JsonPart

def pieces : JsonPart → List Piece
  | .plain c _ _ _ _ => [.plain c]
  | .short e => [.escape e.letter]
  | .unit u _ => .escape 'u' :: u.pieces
  | .pair high low _ _ => .escape 'u' :: high.pieces ++ .escape 'u' :: low.pieces

theorem source_pieces (part : JsonPart) : Piece.source part.pieces = part.text := by
  cases part <;> rfl

theorem isOpen_of_mem_pieces {part : JsonPart} {p : Piece} (h : p ∈ part.pieces) : p.IsOpen '"' := by
  cases part with
  | plain c _ noQuote noBackslash _ =>
    cases List.mem_singleton.1 h
    exact ⟨noQuote, noBackslash⟩
  | short e =>
    cases List.mem_singleton.1 h
    trivial
  | unit u _ =>
    rcases List.mem_cons.1 h with rfl | h
    · trivial
    · exact HexUnit.isOpen_of_mem_pieces h
  | pair high low _ _ =>
    rcases List.mem_append.1 h with h | h
    · rcases List.mem_cons.1 h with rfl | h
      · trivial
      · exact HexUnit.isOpen_of_mem_pieces h
    · rcases List.mem_cons.1 h with rfl | h
      · trivial
      · exact HexUnit.isOpen_of_mem_pieces h

/-! ## Reading a spelling -/

/-- The code points that a part is read as; of a pair, the two surrogates. -/
def read : JsonPart → Text
  | .pair high low _ _ => [CodePoint.ofNat high.value, CodePoint.ofNat low.value]
  | part => [part.value]

theorem decode_pieces (part : JsonPart) (n : Nat) (ps : List Piece) :
    ∃ m, decode n (part.pieces ++ ps) = (decode m ps).map (part.read ++ ·) := by
  cases part with
  | plain c _ _ _ _ =>
    refine ⟨n + 1, ?_⟩
    show decode n (.plain c :: ps) = _
    rw [decode]
    rfl
  | short e =>
    obtain ⟨hletter, hlookup⟩ := e.lookup_letter
    refine ⟨n + 2, ?_⟩
    show decode n (.escape e.letter :: ps) = _
    rw [decode, if_neg hletter, hlookup]
    rfl
  | unit u _ => exact ⟨n + 6, u.decode_pieces n ps⟩
  | pair high low _ _ =>
    refine ⟨n + 6 + 6, ?_⟩
    rw [pieces, List.append_assoc, List.cons_append, List.cons_append, high.decode_pieces, low.decode_pieces]
    cases decode (n + 6 + 6) ps <;> rfl

/-- All parts are read, one after the other. -/
theorem decode_flatMap_pieces : ∀ (parts : List JsonPart) (n : Nat),
    decode n (parts.flatMap pieces) = .ok (parts.flatMap read)
  | [], n => by rw [List.flatMap_nil, decode]; rfl
  | part :: parts, n => by
    obtain ⟨m, hm⟩ := part.decode_pieces n (parts.flatMap pieces)
    rw [List.flatMap_cons, hm, decode_flatMap_pieces parts m]
    rfl

theorem source_flatMap_pieces (parts : List JsonPart) :
    Piece.source (parts.flatMap pieces) = parts.flatMap text := by
  rw [Piece.source, List.flatMap_assoc]
  exact congrArg (parts.flatMap ·) (funext source_pieces)

end JsonPart

theorem leading_eq_doubleQuoted (s : Text) (n : Nat) : Lexeme.leading '"' s n = Lexeme.quoted '"' s n := rfl

/-- A spelling is one lexeme, whatever follows it. -/
theorem Lexes.literal (parts : List JsonPart) {r : Text} {xs : List Lexeme} (hr : Lexes r xs) :
    Lexes (JsonPart.literal parts ++ r) (.string (parts.flatMap JsonPart.read) :: xs) := by
  show Lexes (CodePoint.ofChar '"' :: ((parts.flatMap JsonPart.text ++ chars ['"']) ++ r)) _
  refine Lexes.lexeme _ (by decide) (fun n => ?_) hr
  have hopen : ∀ p ∈ parts.flatMap JsonPart.pieces, p.IsOpen '"' := by
    intro p hp
    obtain ⟨part, _, hpart⟩ := List.mem_flatMap.1 hp
    exact JsonPart.isOpen_of_mem_pieces hpart
  have hpieces : pieces? '"' false (parts.flatMap JsonPart.text ++ (chars ['"'] ++ r)) =
      some (parts.flatMap JsonPart.pieces, r) := by
    rw [← JsonPart.source_flatMap_pieces]
    exact pieces?_source (by decide) hopen r
  rw [leading_eq_doubleQuoted, Lexeme.quoted, List.append_assoc, hpieces]
  dsimp only
  rw [JsonPart.decode_flatMap_pieces]
  dsimp only
  rw [Piece.width_eq_length, JsonPart.source_flatMap_pieces, List.length_append]
  rfl

/-- A spelled key in brackets is read part by part. -/
theorem compile_literal (parts : List JsonPart) :
    Path.compile (chars ['$', '['] ++ (JsonPart.literal parts ++ chars [']'])) =
      .ok ⟨[.root, .child (.name (parts.flatMap JsonPart.read))],
        some (chars ['$', '['] ++ (JsonPart.literal parts ++ chars [']']))⟩ := by
  have hclose : Lexes (chars [']']) [.rightBracket] := Lexes.symbol (by decide) Lexes.nil
  have hlexes : Lexes (chars ['$', '['] ++ (JsonPart.literal parts ++ chars [']'])) (.root :: .leftBracket :: _) :=
    Lexes.symbol (by decide) (Lexes.symbol (by decide) (Lexes.literal parts hclose))
  obtain ⟨ls, hlex, hls⟩ := hlexes 0
  exact compile_of_derivation hlex (t := .opened .root [.brackets (.key _) []]) hls.symm

/-! ## Pairs -/

namespace JsonPart

theorem length_read (part : JsonPart) : part.read.length = if part.isPair then 2 else 1 := by
  cases part <;> rfl

theorem read_of_not_isPair {part : JsonPart} (h : part.isPair = false) : part.read = [part.value] := by
  cases part with
  | pair => cases h
  | _ => rfl

/-- A text is longer by one code point for each pair that was read. -/
theorem length_flatMap_read (parts : List JsonPart) :
    (parts.flatMap read).length = parts.length + parts.countP isPair := by
  induction parts with
  | nil => rfl
  | cons part parts ih =>
    rw [List.flatMap_cons, List.length_append, ih, length_read, List.countP_cons, List.length_cons]
    split <;> omega

theorem flatMap_read_eq_iff (parts : List JsonPart) :
    parts.flatMap read = parts.map value ↔ ∀ part ∈ parts, part.isPair = false := by
  constructor
  · intro h part hpart
    have hlength := congrArg List.length h
    rw [length_flatMap_read, List.length_map] at hlength
    have hcount : parts.countP isPair = 0 := by omega
    simpa using List.countP_eq_zero.1 hcount part hpart
  · intro h
    induction parts with
    | nil => rfl
    | cons part parts ih =>
      obtain ⟨hpart, hparts⟩ := List.forall_mem_cons.1 h
      rw [List.flatMap_cons, read_of_not_isPair hpart, ih hparts]
      rfl

end JsonPart

/-- **A key that is spelled as a JSON string** compiles to the root and one child, whatever the spelling. The key of the
child is what the spelling stands for if and only if no pair of surrogates is in the spelling; a pair is read as two
code points. The texts that have a spelling are those without surrogates. -/
theorem compile_literal_iff (parts : List JsonPart) :
    Path.compile (chars ['$', '['] ++ (JsonPart.literal parts ++ chars [']'])) =
        .ok ⟨[.root, .child (.name (parts.flatMap JsonPart.read))],
          some (chars ['$', '['] ++ (JsonPart.literal parts ++ chars [']']))⟩ ∧
      ((∃ source, Path.compile (chars ['$', '['] ++ (JsonPart.literal parts ++ chars [']'])) =
        .ok ⟨[.root, .child (.name (parts.map JsonPart.value))], source⟩) ↔ parts.any JsonPart.isPair = false) ∧
      ∀ s : Text, (∃ spelling : List JsonPart, spelling.map JsonPart.value = s) ↔ s.isWellFormed = true := by
  refine ⟨compile_literal parts, ?_, JsonPart.spells_iff_isWellFormed⟩
  rw [List.any_eq_false, compile_literal]
  constructor
  · rintro ⟨source, h⟩
    have hkey : parts.flatMap JsonPart.read = parts.map JsonPart.value := by
      simp only [Except.ok.injEq, Path.mk.injEq, List.cons.injEq, Token.child, Token.select.injEq,
        Selector.child.injEq, Key.name.injEq] at h
      exact h.1.2.1
    exact fun part hpart => by simpa using (JsonPart.flatMap_read_eq_iff parts).1 hkey part hpart
  · intro h
    have hread := (JsonPart.flatMap_read_eq_iff parts).2 fun part hpart => by simpa using h part hpart
    rw [hread]
    exact ⟨_, rfl⟩

/-- The spelling of U+1F600 as a pair. -/
def JsonPart.grinningFace : JsonPart :=
  .pair ⟨⟨13, false⟩, ⟨8, false⟩, ⟨3, false⟩, ⟨13, false⟩⟩ ⟨⟨13, false⟩, ⟨14, false⟩, ⟨0, false⟩, ⟨0, false⟩⟩
    (by decide) (by decide)

/-- A pair is read as two surrogates. -/
theorem compile_surrogate_pair :
    JsonPart.literal [.grinningFace] =
        chars ['"', '\\', 'u', 'd', '8', '3', 'd', '\\', 'u', 'd', 'e', '0', '0', '"'] ∧
      JsonPart.grinningFace.value = CodePoint.ofNat 0x1F600 ∧
      Path.compile (chars ['$', '['] ++ (JsonPart.literal [.grinningFace] ++ chars [']'])) =
        .ok ⟨[.root, .child (.name [CodePoint.ofNat 0xD83D, CodePoint.ofNat 0xDE00])],
          some (chars ['$', '['] ++ (JsonPart.literal [.grinningFace] ++ chars [']']))⟩ :=
  ⟨by decide, by decide, compile_literal [.grinningFace]⟩

end TreePath
