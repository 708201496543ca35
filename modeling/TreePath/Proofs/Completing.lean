import TreePath.Proofs.Soundness

/-!
# What stands before a fault can be completed

Where a reading function points at a fault, the lexemes before that place are the first lexemes of some tree
(`Completable`). The tree is made of the parts that were read, which are sound, and of the simplest lexemes that finish
what was begun: a name behind a point, a bracket behind a selector, a comparison with `null` behind the path of a
filter. As for soundness, one lemma for each function and an induction on the number of lexemes.
-/

namespace TreePath

/-! ## Failures of results that come one after the other -/

section Results

variable {ε α β : Type}

theorem map_eq_error {r : Except ε α} {f : α → β} {e : ε} : r.map f = .error e ↔ r = .error e := by
  cases r with
  | error e' => simp [Except.map]
  | ok x => simp [Except.map]

theorem bind_eq_error {r : Except ε α} {f : α → Except ε β} {e : ε} :
    r >>= f = .error e ↔ r = .error e ∨ ∃ x, r = .ok x ∧ f x = .error e := by
  cases r with
  | error e' => simp [bind, Except.bind]
  | ok x => simp [bind, Except.bind]

end Results

namespace Parse

/-- What stands before `left` in the lexemes `ls` are the first lexemes of some tree. -/
def Completes {τ : Type} (lexemes : τ → List Lexeme) (ls left : List Placed) : Prop :=
  ∃ (t : τ) (read more : List Lexeme), ls.map Placed.lexeme = read ++ left.map Placed.lexeme ∧ lexemes t = read ++ more

/-- What stands before a fault that `r` points at in the lexemes `ls` are the first lexemes of some tree. -/
def Completable {τ α : Type} (lexemes : τ → List Lexeme) (ls : List Placed) (r : Except Failure α) : Prop :=
  ∀ f left, r = .error (.fault f left) → Completes lexemes ls left

section Completes

variable {τ υ : Type} {lexemes : τ → List Lexeme} {lexemes' : υ → List Lexeme} {ls mid left : List Placed}

/-- Where nothing was read every tree will do. -/
theorem Completes.here (t : τ) : Completes lexemes ls ls := ⟨t, [], lexemes t, rfl, rfl⟩

/-- What was read behind `front` is completed by a tree that has `front` before the lexemes of another tree. -/
theorem Completes.behind (h : Completes lexemes mid left) (front : List Lexeme)
    (hls : ls.map Placed.lexeme = front ++ mid.map Placed.lexeme) (embed : τ → υ)
    (hembed : ∀ t, ∃ back, lexemes' (embed t) = front ++ lexemes t ++ back) : Completes lexemes' ls left := by
  obtain ⟨t, read, more, hmid, ht⟩ := h
  obtain ⟨back, hback⟩ := hembed t
  refine ⟨embed t, front ++ read, more ++ back, ?_, ?_⟩
  · rw [hls, hmid, List.append_assoc]
  · rw [hback, ht]
    simp only [List.append_assoc]

end Completes

/-! ## Numbers, literals and keys -/

theorem integer_fault {n : Numeral} {ls left : List Placed} {f : Fault} (h : integer n ls = .error (.fault f left)) :
    left = ls := by
  unfold integer at h
  split at h
  · cases h
    rfl
  · split at h <;> cases h

theorem positive_fault {n : Numeral} {ls left : List Placed} {f : Fault} (h : positive n ls = .error (.fault f left)) :
    left = ls := by
  unfold positive at h
  rcases bind_eq_error.1 h with h | ⟨i, _, h⟩
  · exact integer_fault h
  · split at h <;> cases h
    rfl

theorem numberLiteral_fault {n : Numeral} {ls left : List Placed} {f : Fault}
    (h : numberLiteral n ls = .error (.fault f left)) : left = ls := by
  unfold numberLiteral at h
  split at h
  · exact integer_fault (map_eq_error.1 h)
  · split at h <;> cases h
    rfl

theorem optionalInteger_fault {ls left : List Placed} {f : Fault}
    (h : plain (optionalInteger ls) = .error (.fault f left)) : left = ls := by
  rw [plain_optionalInteger] at h
  split at h
  · exact integer_fault (map_eq_error.1 h)
  · cases h

theorem literal_fault {ls left : List Placed} {f : Fault} (h : plain (literal ls) = .error (.fault f left)) :
    left = ls := by
  rw [plain_literal] at h
  split at h
  · exact numberLiteral_fault (map_eq_error.1 h)
  · cases h
  · split at h <;> cases h
    rfl
  · cases h
    rfl

/-- A slice behind its first colon. -/
theorem sliceFrom_completable (first : Option Int) (ls : List Placed) :
    Completable (fun t : Option IntegerNumeral × Option (Option PositiveNumeral) => boundLexemes t.1 ++ stepLexemes t.2)
      ls (plain (sliceFrom first ls)) := by
  intro f left h
  rw [plain_sliceFrom] at h
  rcases bind_eq_error.1 h with h | ⟨⟨i, mid⟩, hi, h⟩
  · rw [optionalInteger_fault h]
    exact .here (none, none)
  · obtain ⟨last, hls, _⟩ := optionalInteger_sound ls i mid hi
    dsimp only at h
    split at h
    · rw [positive_fault (map_eq_error.1 h)]
      refine ⟨(last, some none), boundLexemes last ++ [.colon], [], ?_, (List.append_nil _).symm⟩
      rw [hls, List.append_assoc]
      rfl
    · cases h
    · cases h

theorem position_completable (ls : List Placed) : Completable SelectorTree.lexemes ls (plain (position ls)) := by
  intro f left h
  rw [plain_position] at h
  rcases bind_eq_error.1 h with h | ⟨⟨i, mid⟩, hi, h⟩
  · rw [optionalInteger_fault h]
    exact .here .star
  · obtain ⟨first, hls, rfl⟩ := optionalInteger_sound ls i mid hi
    dsimp only at h
    split at h
    · refine (sliceFrom_completable _ _ f left (map_eq_error.1 h)).behind (boundLexemes first ++ [.colon]) ?_
        (fun t => SelectorTree.slice first t.1 t.2) fun t => ⟨[], ?_⟩
      · rw [hls, List.append_assoc]
        rfl
      · simp only [SelectorTree.lexemes, List.append_assoc, List.cons_append, List.nil_append, List.append_nil]
    · split at h
      · cases h
      · rename_i hnone
        cases h
        cases Option.map_eq_none_iff.1 hnone
        exact ⟨.star, [], _, hls, rfl⟩

/-- The key of a descent in brackets, up to the closing one. -/
theorem descentKey_completable (ls : List Placed) :
    Completable (fun key : { s : Text // s ≠ [] } => [Lexeme.string key.val, .rightBracket]) ls
      (plain (descentKey ls)) := by
  intro f left h
  have key : { s : Text // s ≠ [] } := ⟨chars ['a'], List.cons_ne_nil _ _⟩
  rw [plain_descentKey] at h
  split at h
  · split at h
    · rename_i hs
      split at h
      · cases h
      · cases h
        exact ⟨⟨_, hs⟩, [.string _], [.rightBracket], rfl, rfl⟩
    · cases h
      exact .here key
  · cases h
    exact .here key

/-! ## Paths, segments and selectors -/

/-- One segment or more. -/
def segmentsLexemes (t : SegmentTree × List SegmentTree) : List Lexeme := t.1.lexemes ++ segmentLexemes t.2

/-- The three functions that read repeated parts have completable faults in `ls`. -/
structure CompletableAt (ls : List Placed) : Prop where
  segments : Completable segmentsLexemes ls (plain (segments ls))
  selectors : Completable selectorLexemes ls (plain (selectors ls))
  selector : Completable SelectorTree.lexemes ls (plain (selector ls))

theorem path_completable {ls : List Placed} (ih : ∀ ls' : List Placed, ls'.length ≤ ls.length → CompletableAt ls') :
    Completable PathTree.lexemes ls (plain (path ls)) := by
  have opened : ∀ (o : Opening) (p : Nat) (ls' : List Placed), ls = ⟨o.lexeme, p⟩ :: ls' → ∀ f left,
      plain (Parse.segments ls') = .error (.fault f left) → Completes PathTree.lexemes ls left := by
    rintro o p ls' rfl f left h
    refine ((ih ls' (by simp)).segments f left h).behind [o.lexeme] rfl
      (fun t => PathTree.opened o (t.1 :: t.2)) fun t => ⟨[], ?_⟩
    rw [List.append_nil]
    rfl
  intro f left h
  rw [plain_path] at h
  split at h
  · exact opened .root _ _ rfl f left (map_eq_error.1 h)
  · exact opened .current _ _ rfl f left (map_eq_error.1 h)
  · exact opened (.name _ _) _ _ rfl f left (map_eq_error.1 h)
  · rcases bind_eq_error.1 h with h | ⟨⟨ts, left'⟩, _, h⟩
    · exact ((ih ls (Nat.le_refl _)).segments f left h).behind [] rfl (fun t => PathTree.bare t.1 t.2)
        fun t => ⟨[], (List.append_nil _).symm⟩
    · cases ts with
      | nil =>
        cases h
        exact .here (.opened .root [])
      | cons t ts => cases h

theorem segments_completable {ls : List Placed} (ih : ∀ ls' : List Placed, ls'.length < ls.length → CompletableAt ls') :
    Completable segmentsLexemes ls (plain (segments ls)) := by
  -- A segment was read, and the fault is in the segments behind it.
  have further : ∀ (s : SegmentTree) (mid : List Placed), mid.length < ls.length →
      ls.map Placed.lexeme = s.lexemes ++ mid.map Placed.lexeme → ∀ f left,
      plain (segments mid) = .error (.fault f left) → Completes segmentsLexemes ls left := by
    intro s mid hlt hls f left h
    exact ((ih mid hlt).segments f left h).behind s.lexemes hls (fun t => (s, t.1 :: t.2))
      fun t => ⟨[], (List.append_nil _).symm⟩
  intro f left h
  rw [plain_segments] at h
  split at h
  · exact further .star _ (by simp only [List.length_cons]; omega) rfl f left (map_eq_error.1 h)
  · exact further (.name _ _) _ (by simp only [List.length_cons]; omega) rfl f left (map_eq_error.1 h)
  · cases h
    exact ⟨(.star, []), [.dot], [.star], rfl, rfl⟩
  · exact further (.descent _ _) _ (by simp only [List.length_cons]; omega) rfl f left (map_eq_error.1 h)
  · rcases bind_eq_error.1 h with h | ⟨⟨_, mid⟩, hkey, h⟩
    · exact (descentKey_completable _ f left h).behind [.dots, .leftBracket] rfl
        (fun key => (SegmentTree.quotedDescent key.val key.property, [])) fun key => ⟨[], rfl⟩
    · obtain ⟨key, hls, rfl⟩ := descentKey_sound _ _ mid hkey
      have hle := length_le_of_plain hkey
      exact further (.quotedDescent key.val key.property) mid (by simp only [List.length_cons]; omega)
        (by simp [hls, SegmentTree.lexemes]) f left (map_eq_error.1 h)
  · cases h
    exact ⟨(.descent 'a' [], []), [.dots], [.name 'a' []], rfl, rfl⟩
  · rename_i ls'
    rcases bind_eq_error.1 h with h | ⟨⟨_, mid⟩, hs, h⟩
    · exact ((ih ls' (by simp)).selector f left h).behind [.leftBracket] rfl
        (fun s => (SegmentTree.brackets s [], [])) fun s => ⟨[.rightBracket], by
          simp [segmentsLexemes, SegmentTree.lexemes, selectorLexemes, segmentLexemes]⟩
    · obtain ⟨first, hls, rfl⟩ := (sound ls').selector _ mid hs
      have hle := length_le_of_plain hs
      rcases bind_eq_error.1 h with h | ⟨⟨_, mid'⟩, hss, h⟩
      · refine ((ih mid (by simp only [List.length_cons]; omega)).selectors f left h).behind
          (.leftBracket :: first.lexemes) (by rw [List.map_cons, hls]; rfl)
          (fun ss => (SegmentTree.brackets first ss, [])) fun ss => ⟨[.rightBracket], ?_⟩
        simp [segmentsLexemes, SegmentTree.lexemes, segmentLexemes]
      · obtain ⟨others, hmid, rfl⟩ := (sound mid).selectors _ mid' hss
        have hle' := length_le_of_plain hss
        dsimp only at h
        split at h
        · rename_i left'
          refine further (.brackets first others) left' (by simp only [List.length_cons] at hle' ⊢; omega) ?_ f left
            (map_eq_error.1 h)
          simp only [List.map_cons, hls, hmid, SegmentTree.lexemes, List.append_assoc, List.cons_append,
            List.nil_append]
        · cases h
          refine ⟨(.brackets first others, []), .leftBracket :: first.lexemes ++ selectorLexemes others, [.rightBracket],
            ?_, List.append_nil _⟩
          rw [List.map_cons, hls, hmid, List.append_assoc]
          rfl
  · cases h

theorem selectors_completable {ls : List Placed} (ih : ∀ ls' : List Placed, ls'.length < ls.length → CompletableAt ls') :
    Completable selectorLexemes ls (plain (selectors ls)) := by
  intro f left h
  rw [plain_selectors] at h
  split at h
  · rename_i ls'
    rcases bind_eq_error.1 h with h | ⟨⟨_, mid⟩, hs, h⟩
    · exact ((ih ls' (by simp)).selector f left h).behind [.comma] rfl (fun s => [s]) fun s => ⟨[], rfl⟩
    · obtain ⟨first, hls, rfl⟩ := (sound ls').selector _ mid hs
      have hle := length_le_of_plain hs
      refine ((ih mid (by simp only [List.length_cons]; omega)).selectors f left (map_eq_error.1 h)).behind
        (.comma :: first.lexemes) (by rw [List.map_cons, hls]; rfl) (fun ss => first :: ss) fun ss => ⟨[], ?_⟩
      rw [List.append_nil]
      rfl
  · cases h

theorem selector_completable {ls : List Placed} (ih : ∀ ls' : List Placed, ls'.length < ls.length → CompletableAt ls') :
    Completable SelectorTree.lexemes ls (plain (selector ls)) := by
  intro f left h
  rw [plain_selector] at h
  split at h
  · cases h
  · rename_i ls'
    rcases bind_eq_error.1 h with h | ⟨⟨_, mid⟩, hp, h⟩
    · refine (path_completable (fun l hl => ih l (by simp only [List.length_cons]; omega)) f left h).behind
        [.question, .leftParen] rfl (fun t => SelectorTree.filter t .eq .null)
        fun t => ⟨[.operator .eq, LiteralTree.null.lexeme, .rightParen], rfl⟩
    · obtain ⟨path, hls, rfl⟩ := path_sound (fun l _ => sound l) _ mid hp
      dsimp only at h
      split at h
      · rename_i op _ mid'
        rcases bind_eq_error.1 h with h | ⟨⟨_, mid''⟩, hl, h⟩
        · rw [literal_fault h]
          refine ⟨.filter path op .null, .question :: .leftParen :: path.lexemes ++ [.operator op],
            [LiteralTree.null.lexeme, .rightParen], ?_, ?_⟩
          · simp [hls]
          · simp [SelectorTree.lexemes]
        · obtain ⟨literal, hmid, rfl⟩ := literal_sound mid' _ mid'' hl
          dsimp only at h
          split at h
          · cases h
          · cases h
            refine ⟨.filter path op literal, .question :: .leftParen :: path.lexemes ++ [.operator op, literal.lexeme],
              [.rightParen], ?_, ?_⟩
            · simp [hls, hmid]
            · simp [SelectorTree.lexemes]
      · cases h
        refine ⟨.filter path .eq .null, .question :: .leftParen :: path.lexemes,
          [.operator .eq, LiteralTree.null.lexeme, .rightParen], ?_, rfl⟩
        simp [hls]
  · cases h
    exact ⟨.filter (.opened .root []) .eq .null, [.question],
      [.leftParen, .root, .operator .eq, LiteralTree.null.lexeme, .rightParen], rfl, rfl⟩
  · cases h
  · exact position_completable ls f left h

theorem completable (ls : List Placed) : CompletableAt ls :=
  have ih : ∀ ls' : List Placed, ls'.length < ls.length → CompletableAt ls' := fun ls' _ => completable ls'
  ⟨segments_completable ih, selectors_completable ih, selector_completable ih⟩
termination_by ls.length

/-- **What stands before a fault can be completed** to the lexemes of a path. -/
theorem whole_completable (ls : List Placed) : Completable PathTree.lexemes ls (whole ls) := by
  intro f left h
  rw [whole_eq] at h
  rcases bind_eq_error.1 h with h | ⟨⟨_, mid⟩, hp, h⟩
  · exact path_completable (fun ls' _ => completable ls') f left h
  · obtain ⟨t, hls, rfl⟩ := path_sound (fun ls' _ => sound ls') _ mid hp
    dsimp only at h
    split at h <;> cases h
    exact ⟨t, t.lexemes, [], hls, (List.append_nil _).symm⟩

end Parse

end TreePath
