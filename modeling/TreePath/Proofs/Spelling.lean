import TreePath.Path.Render
import TreePath.Proofs.Lexing

/-!
# The lexemes of a written path

`Token.spelling` says which lexemes a token is written in. The text of any path has these lexemes and no others
(`lexes_textAll`): whatever stands next to a fragment cannot prolong it. This holds for every path, also for those
that do not compile back.
-/

namespace TreePath

/-! ## Spelling -/

/-- The lexeme of a text that can stand bare. -/
def nameLexeme? : Text → Option Lexeme
  | [] => none
  | c :: s => if Text.isName (c :: s) then some (.name c s) else none

def Key.lexeme : Key → Lexeme
  | .name s => .string s
  | .index i => .number (.ofInt i)

def Slice.spelling (s : Slice) : List Lexeme :=
  .number (.ofInt s.first) :: .colon :: (s.last.map fun i => Lexeme.number (.ofInt i)).toList ++
    if s.step = 1 then [] else [.colon, .number (.ofInt s.step)]

def Literal.lexeme : Literal → Lexeme
  | .null => .name 'n' (chars ['u', 'l', 'l'])
  | .bool true => .name 't' (chars ['r', 'u', 'e'])
  | .bool false => .name 'f' (chars ['a', 'l', 's', 'e'])
  | .int n => .number (.ofInt n)
  | .float x => .number x.numeral
  | .string s => .string s

mutual

def Selector.spelling : Selector → List Lexeme
  | .child key => [key.lexeme]
  | .slice bounds => bounds.spelling
  | .wildcard => [.star]
  | .filter _ head tail op literal =>
    .question :: .leftParen :: (head.spelling ++ spellingAll tail) ++ [.operator op, literal.lexeme, .rightParen]

def Token.spelling : Token → List Lexeme
  | .root => [.root]
  | .current => [.current]
  | .select (.child (.name s)) =>
    match nameLexeme? s with
    | some x => [.dot, x]
    | none => [.leftBracket, .string s, .rightBracket]
  | .select s => .leftBracket :: s.spelling ++ [.rightBracket]
  | .descend key _ =>
    match nameLexeme? key with
    | some x => [.dots, x]
    | none => [.dots, .leftBracket, .string key, .rightBracket]
  | .union first others => .leftBracket :: first.spelling ++ spellingOthers others ++ [.rightBracket]

/-- Tokens one behind the other. -/
def spellingAll : List Token → List Lexeme
  | [] => []
  | t :: ts => t.spelling ++ spellingAll ts

/-- The further alternatives of a union, each behind a comma. -/
def spellingOthers : List Selector → List Lexeme
  | [] => []
  | s :: ss => .comma :: s.spelling ++ spellingOthers ss

end

/-- A selector stands between brackets, unless it is a key, which may stand bare. -/
theorem Token.select_cases (s : Selector) : (∃ key, s = .child (.name key)) ∨
    ((Token.select s).text = chars ['['] ++ s.text ++ chars [']'] ∧
      (Token.select s).spelling = .leftBracket :: s.spelling ++ [.rightBracket]) := by
  cases s with
  | child key =>
    cases key with
    | name key => exact Or.inl ⟨key, rfl⟩
    | index i => exact Or.inr ⟨by rw [Token.text]; simp, by rw [Token.spelling]; simp⟩
  | slice bounds => exact Or.inr ⟨by rw [Token.text]; simp, by rw [Token.spelling]; simp⟩
  | wildcard => exact Or.inr ⟨by rw [Token.text]; simp, by rw [Token.spelling]; simp⟩
  | filter source head tail op literal => exact Or.inr ⟨by rw [Token.text]; simp, by rw [Token.spelling]; simp⟩

/-! ## Neighbours -/

/-- The text goes on behind an entry between brackets. -/
def EndsEntry (r : Text) : Prop := r.head? = some (',' : CodePoint) ∨ r.head? = some (']' : CodePoint)

theorem EndsEntry.endsNumeral {r : Text} (h : EndsEntry r) : EndsNumeral r := by
  intro c hc
  rcases h with h | h
  · cases hc.symm.trans h
    decide
  · cases hc.symm.trans h
    decide

theorem endsNumeral_cons {c : CodePoint} (r : Text) (h : c = ':' ∨ c = ')') : EndsNumeral (c :: r) := by
  intro d hd
  cases hd
  rcases h with rfl | rfl
  · decide
  · decide

theorem endsName_cons {c : CodePoint} (r : Text) (h : c.isNameRest = false) : EndsName (c :: r) := by
  intro d hd
  cases hd
  exact h

/-- A token starts with a mark, which is no part of a name. -/
theorem Token.endsName_text (t : Token) (r : Text) : EndsName (t.text ++ r) := by
  have hbracket : ∀ s, EndsName (chars ['['] ++ s) := fun s => endsName_cons s (by decide)
  have hdot : ∀ s, EndsName (chars ['.'] ++ s) := fun s => endsName_cons s (by decide)
  unfold Token.text
  split
  · exact endsName_cons _ (by decide)
  · exact endsName_cons _ (by decide)
  · split
    · exact hdot _
    · exact hbracket _
  · exact hbracket _
  · split
    · exact hdot _
    · exact hdot _
  · exact hbracket _

theorem endsName_textAll (ts : List Token) {r : Text} (hr : EndsName r) : EndsName (textAll ts ++ r) := by
  cases ts with
  | nil => exact hr
  | cons t ts =>
    rw [textAll, List.append_assoc]
    exact t.endsName_text _

theorem endsEntry_textOthers (ss : List Selector) (r : Text) : EndsEntry (textOthers ss ++ (chars [']'] ++ r)) := by
  cases ss with
  | nil => exact Or.inr rfl
  | cons s ss => exact Or.inl rfl

/-! ## Written fragments -/

section

variable {r : Text} {xs : List Lexeme}

theorem nameLexeme?_eq_none {s : Text} (h : ¬ s.isName = true) : nameLexeme? s = none := by
  cases s with
  | nil => rfl
  | cons c s => exact if_neg h

/-- A text that can stand bare is not empty and is one lexeme. -/
theorem nameLexeme?_eq (s : Text) :
    (s.isName = true ∧ ∃ c t, s = c :: t ∧ nameLexeme? s = some (.name c t)) ∨
      (s.isName = false ∧ nameLexeme? s = none) := by
  cases s with
  | nil => exact Or.inr ⟨rfl, rfl⟩
  | cons c s =>
    by_cases h : Text.isName (c :: s) = true
    · exact Or.inl ⟨h, c, s, rfl, if_pos h⟩
    · exact Or.inr ⟨by simpa using h, if_neg h⟩

theorem Slice.lexes_text (s : Slice) (hend : EndsEntry r) (hr : Lexes r xs) :
    Lexes (s.text ++ r) (s.spelling ++ xs) := by
  have hstep : Lexes ((if s.step = 1 then [] else chars [':'] ++ Text.ofNat s.step) ++ r)
      ((if s.step = 1 then [] else [Lexeme.colon, .number (.ofInt s.step)]) ++ xs) := by
    split
    · exact hr
    · have hnumber := Lexes.integer s.step hend.endsNumeral hr
      exact Lexes.symbol (by decide) hnumber
  have hends : EndsNumeral ((if s.step = 1 then [] else chars [':'] ++ Text.ofNat s.step) ++ r) := by
    split
    · exact hend.endsNumeral
    · exact endsNumeral_cons _ (Or.inl rfl)
  have hlast : Lexes (s.last.elim [] Text.ofInt ++
      ((if s.step = 1 then [] else chars [':'] ++ Text.ofNat s.step) ++ r))
      ((s.last.map fun i => Lexeme.number (.ofInt i)).toList ++
        ((if s.step = 1 then [] else [Lexeme.colon, .number (.ofInt s.step)]) ++ xs)) := by
    cases s.last with
    | none => exact hstep
    | some i => exact Lexes.integer i hends hstep
  have hcolon : Lexes (chars [':'] ++ _) (Lexeme.colon :: _) := Lexes.symbol (by decide) hlast
  have hfirst := Lexes.integer s.first (endsNumeral_cons _ (Or.inl rfl)) hcolon
  unfold Slice.text Slice.spelling
  simp only [List.append_assoc, List.cons_append]
  exact hfirst

theorem Literal.lexes_text (l : Literal) (hend : r.head? = some (')' : CodePoint)) (hr : Lexes r xs) :
    Lexes (l.text ++ r) (l.lexeme :: xs) := by
  obtain ⟨r, rfl⟩ : ∃ r', r = (')' : CodePoint) :: r' := by
    cases r with
    | nil => cases hend
    | cons c r =>
      cases hend
      exact ⟨r, rfl⟩
  have hname := endsName_cons r (by decide : CodePoint.isNameRest (')' : CodePoint) = false)
  have hnumeral := endsNumeral_cons r (Or.inr rfl)
  cases l with
  | null => exact Lexes.name (by decide) hname hr
  | bool b =>
    cases b with
    | true => exact Lexes.name (by decide) hname hr
    | false => exact Lexes.name (by decide) hname hr
  | int n => exact Lexes.integer n hnumeral hr
  | float x =>
    have hnumber := Lexes.number x.numeral_isWritten hnumeral hr
    rw [Binary64.Finite.text_numeral] at hnumber
    exact hnumber
  | string s => exact Lexes.string s hr

/-- The key of a child or of a descent that can stand bare. -/
theorem lexes_bare {key : Text} (h : key.isName = true) (hend : EndsName r) (hr : Lexes r xs) :
    ∃ x, nameLexeme? key = some x ∧ Lexes (key ++ r) (x :: xs) ∧ (key ++ r).head? ≠ some ('.' : CodePoint) := by
  rcases nameLexeme?_eq key with ⟨_, c, s, rfl, hx⟩ | ⟨hno, _⟩
  · refine ⟨_, hx, Lexes.name h hend hr, ?_⟩
    intro hhead
    cases hhead
    rw [Text.isName, Bool.and_eq_true_iff] at h
    exact absurd h.1 (by decide)
  · exact absurd (h.symm.trans hno) (by decide)

/-- A quoted key between brackets. -/
theorem lexes_bracketed (key : Text) (hr : Lexes r xs) :
    Lexes (chars ['['] ++ (key.quoted ++ (chars [']'] ++ r))) (.leftBracket :: .string key :: .rightBracket :: xs) :=
  Lexes.symbol (by decide) (Lexes.string key (Lexes.symbol (by decide) hr))

end

/-! ## Written paths -/

mutual

theorem Selector.lexes_text : ∀ (s : Selector) {r : Text} {xs : List Lexeme}, EndsEntry r → Lexes r xs →
    Lexes (s.text ++ r) (s.spelling ++ xs)
  | .child (.name s), _, _, _, hr => Lexes.string s hr
  | .child (.index i), _, _, hend, hr => Lexes.integer i hend.endsNumeral hr
  | .slice bounds, _, _, hend, hr => bounds.lexes_text hend hr
  | .wildcard, _, _, _, hr => Lexes.symbol (by decide) hr
  | .filter source head tail op literal, r, xs, hend, hr => by
    have hclose : Lexes (chars [')'] ++ r) (.rightParen :: xs) := Lexes.symbol (by decide) hr
    have hoperator := Lexes.operator op (literal.lexes_text rfl hclose)
    have hspace := Lexes.blank (by decide : CodePoint.isBlank (' ' : CodePoint) = true) hoperator
    have hends := endsName_cons (op.text ++ (chars [' '] ++ (literal.text ++ (chars [')'] ++ r))))
      (by decide : CodePoint.isNameRest (' ' : CodePoint) = false)
    have htail := lexes_textAll tail hends hspace
    have hpath := Token.lexes_text head (endsName_textAll tail hends) htail
    have hparen : Lexes (chars ['('] ++ _) (.leftParen :: _) := Lexes.symbol (by decide) hpath
    have hquestion : Lexes (chars ['?'] ++ _) (.question :: _) := Lexes.symbol (by decide) hparen
    simp only [Selector.text, Selector.spelling, List.append_assoc, List.cons_append, List.nil_append]
    exact hquestion

theorem Token.lexes_text : ∀ (t : Token) {r : Text} {xs : List Lexeme}, EndsName r → Lexes r xs →
    Lexes (t.text ++ r) (t.spelling ++ xs)
  | .root, _, _, _, hr => Lexes.symbol (by decide) hr
  | .current, _, _, _, hr => Lexes.symbol (by decide) hr
  | .select s, r, xs, hend, hr => by
    rcases Token.select_cases s with ⟨key, rfl⟩ | ⟨htext, hspelling⟩
    · rw [Token.text, Token.spelling]
      by_cases hname : key.isName = true
      · obtain ⟨x, hx, hbare, hdot⟩ := lexes_bare hname hend hr
        rw [if_pos hname, hx, List.append_assoc]
        exact Lexes.dot hdot hbare
      · rw [if_neg hname, nameLexeme?_eq_none hname, List.append_assoc, List.append_assoc]
        exact lexes_bracketed key hr
    · have hclose : Lexes (chars [']'] ++ r) (.rightBracket :: xs) := Lexes.symbol (by decide) hr
      have hs := Selector.lexes_text s (Or.inr rfl) hclose
      have hbracket : Lexes (chars ['['] ++ _) (.leftBracket :: _) := Lexes.symbol (by decide) hs
      simp only [htext, hspelling, List.append_assoc, List.cons_append, List.nil_append]
      exact hbracket
  | .descend key _, r, xs, hend, hr => by
    rw [Token.text, Token.spelling]
    by_cases hname : key.isName = true
    · obtain ⟨x, hx, hbare, _⟩ := lexes_bare hname hend hr
      rw [if_pos hname, hx, List.append_assoc]
      exact Lexes.dots hbare
    · rw [if_neg hname, nameLexeme?_eq_none hname, List.append_assoc, List.append_assoc]
      exact Lexes.dots (lexes_bracketed key hr)
  | .union first others, r, xs, hend, hr => by
    have hothers := lexes_textOthers others hr
    have hfirst := Selector.lexes_text first (endsEntry_textOthers others r) hothers
    have hbracket : Lexes (chars ['['] ++ _) (.leftBracket :: _) := Lexes.symbol (by decide) hfirst
    simp only [Token.text, Token.spelling, List.append_assoc, List.cons_append, List.nil_append]
    exact hbracket

theorem lexes_textAll : ∀ (ts : List Token) {r : Text} {xs : List Lexeme}, EndsName r → Lexes r xs →
    Lexes (textAll ts ++ r) (spellingAll ts ++ xs)
  | [], _, _, _, hr => hr
  | t :: ts, r, xs, hend, hr => by
    rw [textAll, spellingAll, List.append_assoc, List.append_assoc]
    exact Token.lexes_text t (endsName_textAll ts hend) (lexes_textAll ts hend hr)

theorem lexes_textOthers : ∀ (ss : List Selector) {r : Text} {xs : List Lexeme}, Lexes r xs →
    Lexes (textOthers ss ++ (chars [']'] ++ r)) (spellingOthers ss ++ .rightBracket :: xs)
  | [], _, _, hr => Lexes.symbol (by decide) hr
  | s :: ss, r, xs, hr => by
    have hs := Selector.lexes_text s (endsEntry_textOthers ss r) (lexes_textOthers ss hr)
    have hcomma : Lexes (chars [','] ++ _) (.comma :: _) := Lexes.symbol (by decide) hs
    simp only [textOthers, spellingOthers, List.append_assoc, List.cons_append]
    exact hcomma

end

end TreePath
