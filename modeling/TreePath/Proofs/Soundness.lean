import TreePath.Proofs.Grammar
import TreePath.Proofs.Reading

/-!
# What is read has a derivation

What a reading function gives is what some tree stands for, and the tree's lexemes are those that were taken (`Sound`).
The proof is an induction on the number of lexemes: each of the mutual functions is sound if all of them are sound for
fewer lexemes (`segments_sound`, `selectors_sound`, `selector_sound`), and `sound` ties them together.
-/

namespace TreePath

/-! ## Leaves -/

namespace Parse

theorem integer_eq_ok {n : Numeral} {left : List Placed} {i : Int} :
    integer n left = .ok i ↔ ∃ m : IntegerNumeral, m.numeral = n ∧ m.value = i := by
  unfold integer
  constructor
  · intro h
    split at h
    · cases h
    · split at h
      · cases h
      · rename_i hi hl
        cases h
        exact ⟨⟨n, by simpa using hi, by omega⟩, rfl, rfl⟩
  · rintro ⟨m, rfl, rfl⟩
    rw [if_neg (by simp [m.isInteger]), if_neg (by have := m.short; omega)]
    rfl

theorem positive_eq_ok {n : Numeral} {left : List Placed} {k : { k : Nat // 0 < k }} :
    positive n left = .ok k ↔ ∃ m : PositiveNumeral, m.numeral = n ∧ m.value.toNat = k.val := by
  unfold positive
  rw [bind_eq_ok]
  constructor
  · rintro ⟨i, hi, h⟩
    obtain ⟨m, rfl, rfl⟩ := integer_eq_ok.1 hi
    split at h
    · rename_i hpos
      cases h
      exact ⟨⟨m, hpos⟩, rfl, rfl⟩
    · cases h
  · rintro ⟨m, rfl, hk⟩
    refine ⟨m.value, integer_eq_ok.2 ⟨m.toIntegerNumeral, rfl, rfl⟩, ?_⟩
    rw [dif_pos m.pos]
    exact congrArg Except.ok (Subtype.ext hk)

theorem numberLiteral_eq_ok {n : Numeral} {left : List Placed} {l : Literal} :
    numberLiteral n left = .ok l ↔ ∃ t : LiteralTree, t.lexeme = .number n ∧ t.literal = l := by
  unfold numberLiteral
  constructor
  · intro h
    split at h
    · obtain ⟨i, hi, rfl⟩ := map_eq_ok.1 h
      obtain ⟨m, rfl, rfl⟩ := integer_eq_ok.1 hi
      exact ⟨.integer m, rfl, rfl⟩
    · rename_i hn
      split at h
      · rename_i x hx
        cases h
        refine ⟨.float n (by simpa using hn) (by rw [hx]; rfl), rfl, ?_⟩
        simp only [LiteralTree.literal, hx, Option.get_some]
      · cases h
  · rintro ⟨t, ht, rfl⟩
    cases t with
    | integer m =>
      cases Lexeme.number.inj ht
      rw [if_pos m.isInteger, integer_eq_ok.2 ⟨m, rfl, rfl⟩]
      rfl
    | float n' hn' hfin =>
      cases Lexeme.number.inj ht
      rw [if_neg (by simp [hn'])]
      obtain ⟨x, hx⟩ := Option.isSome_iff_exists.1 hfin
      simp only [hx, LiteralTree.literal, Option.get_some]
    | string s => cases ht
    | bool b => cases b <;> cases ht
    | null => cases ht

/-- A name among the literals is one of three. -/
theorem lookup_namedLiterals {c : CodePoint} {s : Text} {l : Literal} (h : namedLiterals.lookup (c :: s) = some l) :
    ∃ t : LiteralTree, t.lexeme = .name c s ∧ t.literal = l := by
  have split_name : ∀ {d : CodePoint} {r : Text}, (c :: s == d :: r) = true → c = d ∧ s = r := fun he =>
    List.cons.inj (eq_of_beq he)
  simp only [namedLiterals, List.lookup_cons] at h
  split at h
  · rename_i he
    cases h
    obtain ⟨rfl, rfl⟩ := split_name he
    exact ⟨.bool true, rfl, rfl⟩
  · split at h
    · rename_i he
      cases h
      obtain ⟨rfl, rfl⟩ := split_name he
      exact ⟨.bool false, rfl, rfl⟩
    · split at h
      · rename_i he
        cases h
        obtain ⟨rfl, rfl⟩ := split_name he
        exact ⟨.null, rfl, rfl⟩
      · cases h

/-! ## Soundness -/

/-- What `r` gives off the lexemes `ls` is the meaning of some tree, whose lexemes are those it took. -/
def Sound {τ α : Type} (lexemes : τ → List Lexeme) (meaning : τ → α) (ls : List Placed)
    (r : Except Failure (α × List Placed)) : Prop :=
  ∀ x left, r = .ok (x, left) →
    ∃ t : τ, ls.map Placed.lexeme = lexemes t ++ left.map Placed.lexeme ∧ meaning t = x

theorem literal_sound (ls : List Placed) :
    Sound (fun t => [LiteralTree.lexeme t]) LiteralTree.literal ls (plain (literal ls)) := by
  intro l left h
  rw [plain_literal] at h
  split at h
  · obtain ⟨_, hl, he⟩ := map_eq_ok.1 h
    cases he
    obtain ⟨t, ht, rfl⟩ := numberLiteral_eq_ok.1 hl
    exact ⟨t, by simp [ht], rfl⟩
  · cases h
    exact ⟨.string _, rfl, rfl⟩
  · split at h
    · rename_i hl
      cases h
      obtain ⟨t, ht, rfl⟩ := lookup_namedLiterals hl
      exact ⟨t, by simp [ht], rfl⟩
    · cases h
  · cases h

theorem optionalInteger_sound (ls : List Placed) :
    Sound boundLexemes (Option.map IntegerNumeral.value) ls (plain (optionalInteger ls)) := by
  intro i left h
  rw [plain_optionalInteger] at h
  split at h
  · obtain ⟨_, hi, he⟩ := map_eq_ok.1 h
    cases he
    obtain ⟨n, rfl, rfl⟩ := integer_eq_ok.1 hi
    exact ⟨some n, rfl, rfl⟩
  · cases h
    exact ⟨none, rfl, rfl⟩

/-- A slice behind its first colon. -/
theorem sliceFrom_sound (first : Option IntegerNumeral) (ls : List Placed) :
    Sound (fun t : Option IntegerNumeral × Option (Option PositiveNumeral) => boundLexemes t.1 ++ stepLexemes t.2)
      (fun t => sliceOf first t.1 t.2) ls (plain (sliceFrom (first.map IntegerNumeral.value) ls)) := by
  intro bounds left h
  rw [plain_sliceFrom] at h
  obtain ⟨⟨i, mid⟩, hi, h⟩ := bind_eq_ok.1 h
  obtain ⟨last, hls, rfl⟩ := optionalInteger_sound ls i mid hi
  rw [hls]
  dsimp only at h
  split at h
  · obtain ⟨k, hk, he⟩ := map_eq_ok.1 h
    cases he
    obtain ⟨m, rfl, hm⟩ := positive_eq_ok.1 hk
    refine ⟨(last, some (some m)), ?_, ?_⟩
    · rw [List.append_assoc]
      rfl
    · obtain ⟨k, hpos⟩ := k
      cases hm
      rfl
  · cases h
    refine ⟨(last, some none), ?_, rfl⟩
    rw [List.append_assoc]
    rfl
  · cases h
    exact ⟨(last, none), by rw [List.append_assoc]; rfl, rfl⟩

theorem position_sound (ls : List Placed) :
    Sound SelectorTree.lexemes SelectorTree.selector ls (plain (position ls)) := by
  intro s left h
  rw [plain_position] at h
  obtain ⟨⟨i, mid⟩, hi, h⟩ := bind_eq_ok.1 h
  obtain ⟨first, hls, rfl⟩ := optionalInteger_sound ls i mid hi
  rw [hls]
  dsimp only at h
  split at h
  · obtain ⟨⟨bounds, left'⟩, hb, he⟩ := map_eq_ok.1 h
    cases he
    obtain ⟨⟨last, step⟩, hmid, rfl⟩ := sliceFrom_sound first _ bounds left' hb
    refine ⟨.slice first last step, ?_, rfl⟩
    simp only [List.map_cons, hmid, SelectorTree.lexemes, List.append_assoc, List.cons_append]
  · split at h
    · rename_i hfirst
      cases h
      obtain ⟨n, rfl, rfl⟩ := Option.map_eq_some_iff.1 hfirst
      exact ⟨.index n, rfl, rfl⟩
    · cases h

/-- The key of a descent in brackets, up to the closing one. -/
theorem descentKey_sound (ls : List Placed) :
    Sound (fun key : { s : Text // s ≠ [] } => [Lexeme.string key.val, .rightBracket]) id ls
      (plain (descentKey ls)) := by
  intro key left h
  rw [plain_descentKey] at h
  split at h
  · split at h
    · split at h
      · cases h
        exact ⟨_, rfl, rfl⟩
      · cases h
    · cases h
  · cases h

/-- The three functions that read repeated parts are sound for `ls`. -/
structure SoundAt (ls : List Placed) : Prop where
  segments : Sound segmentLexemes segmentTokens ls (plain (segments ls))
  selectors : Sound selectorLexemes selectorsOf ls (plain (selectors ls))
  selector : Sound SelectorTree.lexemes SelectorTree.selector ls (plain (selector ls))

theorem path_sound {ls : List Placed} (ih : ∀ ls' : List Placed, ls'.length ≤ ls.length → SoundAt ls') :
    Sound PathTree.lexemes PathTree.tokens ls (plain (path ls)) := by
  have opened : ∀ (o : Opening) (p : Nat) (ls' : List Placed), ls = ⟨o.lexeme, p⟩ :: ls' → ∀ x left,
      (plain (Parse.segments ls')).map (fun y => ((o.token, y.1), y.2)) = .ok (x, left) →
      ∃ t : PathTree, ls.map Placed.lexeme = t.lexemes ++ left.map Placed.lexeme ∧ t.tokens = x := by
    rintro o p ls' rfl x left h
    obtain ⟨⟨ts, left'⟩, hts, he⟩ := map_eq_ok.1 h
    cases he
    obtain ⟨ss, hls, rfl⟩ := (ih ls' (by simp)).segments ts left' hts
    exact ⟨.opened o ss, by rw [List.map_cons, hls]; rfl, rfl⟩
  intro x left h
  rw [plain_path] at h
  split at h
  · exact opened .root _ _ rfl x left h
  · exact opened .current _ _ rfl x left h
  · exact opened (.name _ _) _ _ rfl x left h
  · obtain ⟨⟨ts, left'⟩, hts, h⟩ := bind_eq_ok.1 h
    obtain ⟨ss, hls, rfl⟩ := (ih ls (Nat.le_refl _)).segments ts left' hts
    cases ss with
    | nil => cases h
    | cons s ss =>
      cases h
      exact ⟨.bare s ss, hls, rfl⟩

theorem segments_sound {ls : List Placed} (ih : ∀ ls' : List Placed, ls'.length < ls.length → SoundAt ls') :
    Sound segmentLexemes segmentTokens ls (plain (segments ls)) := by
  -- A segment was read, and further segments are read off the `mid` left behind it.
  have further : ∀ (s : SegmentTree) (mid : List Placed), mid.length < ls.length →
      ls.map Placed.lexeme = s.lexemes ++ mid.map Placed.lexeme → ∀ x left,
      (plain (segments mid)).map (fun y => (s.token :: y.1, y.2)) = .ok (x, left) →
      ∃ ss, ls.map Placed.lexeme = segmentLexemes ss ++ left.map Placed.lexeme ∧ segmentTokens ss = x := by
    intro s mid hlt hls x left h
    obtain ⟨⟨ts, left'⟩, hts, he⟩ := map_eq_ok.1 h
    cases he
    obtain ⟨ss, hmid, rfl⟩ := (ih mid hlt).segments ts left' hts
    exact ⟨s :: ss, by rw [hls, hmid, segmentLexemes, List.append_assoc], rfl⟩
  intro x left h
  rw [plain_segments] at h
  split at h
  · exact further .star _ (by simp only [List.length_cons]; omega) rfl x left h
  · exact further (.name _ _) _ (by simp only [List.length_cons]; omega) rfl x left h
  · cases h
  · exact further (.descent _ _) _ (by simp only [List.length_cons]; omega) rfl x left h
  · obtain ⟨⟨key, mid⟩, hkey, h⟩ := bind_eq_ok.1 h
    obtain ⟨_, hls, rfl⟩ := descentKey_sound _ key mid hkey
    have hle := length_le_of_plain hkey
    exact further (.quotedDescent _ _) mid (by simp only [List.length_cons]; omega) (by simp [hls, SegmentTree.lexemes]) x left h
  · cases h
  · rename_i ls'
    obtain ⟨⟨s, mid⟩, hs, h⟩ := bind_eq_ok.1 h
    obtain ⟨⟨ss, mid'⟩, hss, h⟩ := bind_eq_ok.1 h
    have hle := length_le_of_plain hs
    have hle' := length_le_of_plain hss
    obtain ⟨first, hls, rfl⟩ := (ih ls' (by simp)).selector s mid hs
    obtain ⟨others, hmid, rfl⟩ := (ih mid (by simp only [List.length_cons]; omega)).selectors ss mid' hss
    dsimp only at h
    split at h
    · rename_i left'
      refine further (.brackets first others) left' (by simp only [List.length_cons] at hle' ⊢; omega) ?_ x left ?_
      · simp only [List.map_cons, hls, hmid, SegmentTree.lexemes, List.append_assoc, List.cons_append,
          List.nil_append]
      · rw [← h]
        cases others <;> rfl
    · cases h
  · cases h
    exact ⟨[], rfl, rfl⟩

theorem selectors_sound {ls : List Placed} (ih : ∀ ls' : List Placed, ls'.length < ls.length → SoundAt ls') :
    Sound selectorLexemes selectorsOf ls (plain (selectors ls)) := by
  intro x left h
  rw [plain_selectors] at h
  split at h
  · rename_i ls'
    obtain ⟨⟨s, mid⟩, hs, h⟩ := bind_eq_ok.1 h
    obtain ⟨⟨ss, left'⟩, hss, he⟩ := map_eq_ok.1 h
    cases he
    have hle := length_le_of_plain hs
    obtain ⟨first, hls, rfl⟩ := (ih ls' (by simp)).selector s mid hs
    obtain ⟨others, hmid, rfl⟩ := (ih mid (by simp only [List.length_cons]; omega)).selectors ss left hss
    exact ⟨first :: others, by simp [hls, hmid, selectorLexemes], rfl⟩
  · cases h
    exact ⟨[], rfl, rfl⟩

theorem selector_sound {ls : List Placed} (ih : ∀ ls' : List Placed, ls'.length < ls.length → SoundAt ls') :
    Sound SelectorTree.lexemes SelectorTree.selector ls (plain (selector ls)) := by
  intro x left h
  rw [plain_selector] at h
  split at h
  · cases h
    exact ⟨.star, rfl, rfl⟩
  · rename_i ls'
    obtain ⟨⟨p, mid⟩, hp, h⟩ := bind_eq_ok.1 h
    -- The path inside is sound: what is left for it is shorter by the two lexemes in front of it.
    obtain ⟨path, hls, rfl⟩ := path_sound (fun l hl => ih l (by simp only [List.length_cons]; omega)) p mid hp
    dsimp only at h
    split at h
    · rename_i mid'
      obtain ⟨⟨l, mid''⟩, hl, h⟩ := bind_eq_ok.1 h
      obtain ⟨literal, hmid, rfl⟩ := literal_sound mid' l mid'' hl
      dsimp only at h
      split at h
      · cases h
        exact ⟨.filter path _ literal, by simp [hls, hmid, SelectorTree.lexemes], rfl⟩
      · cases h
    · cases h
  · cases h
  · cases h
    exact ⟨.key _, rfl, rfl⟩
  · exact position_sound ls x left h

/-- **The reading functions are sound.** -/
theorem sound (ls : List Placed) : SoundAt ls :=
  have ih : ∀ ls' : List Placed, ls'.length < ls.length → SoundAt ls' := fun ls' _ => sound ls'
  ⟨segments_sound ih, selectors_sound ih, selector_sound ih⟩
termination_by ls.length

/-- A path that takes all lexemes comes from a derivation of them. -/
theorem whole_sound {ls : List Placed} {p : Token × List Token} (h : whole ls = .ok p) :
    ∃ t : PathTree, t.lexemes = ls.map Placed.lexeme ∧ t.tokens = p := by
  rw [whole_eq] at h
  obtain ⟨⟨q, left⟩, hq, h⟩ := bind_eq_ok.1 h
  obtain ⟨t, hls, rfl⟩ := path_sound (fun ls' _ => sound ls') q left hq
  dsimp only at h
  split at h
  · cases h
    exact ⟨t, by simpa using hls.symm, rfl⟩
  · cases h

end Parse

end TreePath
