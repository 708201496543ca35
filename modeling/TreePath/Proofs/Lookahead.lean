import TreePath.Proofs.Completing
import TreePath.Proofs.Failing

/-!
# Reading looks no further than one lexeme

A reading function that stops in front of a lexeme, or fails at it, has not looked behind it: with other lexemes behind
that one it stops or fails there in the same way (`Agrees`). So a fault at a lexeme stays whatever follows the lexeme
(`whole_of_swapped`).

Two lists that differ only behind one of their lexemes are `Swapped`. They have the same first lexeme, and behind it
they are swapped again, unless it is the one in question (`Swapped.uncons`); then what is read behind it stops too far
on to matter (`Agrees.of_within`).
-/

namespace TreePath.Parse

/-- The lists are the same up to the lexeme `x`, and go on behind it with `v` and with `v'`. -/
inductive Swapped (x : Placed) (v v' : List Placed) : List Placed → List Placed → Prop
  | here : Swapped x v v' (x :: v) (x :: v')
  | there (y : Placed) {ls ls' : List Placed} : Swapped x v v' ls ls' → Swapped x v v' (y :: ls) (y :: ls')

/-- The lists are what comes behind the first lexeme of two swapped lists. -/
def Behind (x : Placed) (v v' ls ls' : List Placed) : Prop := Swapped x v v' ls ls' ∨ (ls = v ∧ ls' = v')

/-- As far as `r` leaves the lexeme `x` or fails at it, `r'` is the same with `v'` in the place of `v`. -/
structure Agrees {α : Type} (x : Placed) (v v' : List Placed) (r r' : Except Failure (α × List Placed)) : Prop where
  ok : ∀ a left, r = .ok (a, left) → x :: v <:+ left → ∃ left', r' = .ok (a, left') ∧ Swapped x v v' left left'
  fault : ∀ f, r = .error (.fault f (x :: v)) → r' = .error (.fault f (x :: v'))

section

variable {α β : Type} {x : Placed} {v v' ls ls' : List Placed}

/-! ## Swapped lists -/

theorem Swapped.uncons (h : Swapped x v v' ls ls') :
    ∃ y m m', ls = y :: m ∧ ls' = y :: m' ∧ Behind x v v' m m' := by
  cases h with
  | here => exact ⟨x, v, v', rfl, rfl, Or.inr ⟨rfl, rfl⟩⟩
  | there y h => exact ⟨y, _, _, rfl, rfl, Or.inl h⟩

theorem Swapped.suffix (h : Swapped x v v' ls ls') : x :: v <:+ ls := by
  induction h with
  | here => exact List.suffix_refl _
  | there y _ ih => exact ih.trans (List.suffix_cons y _)

theorem not_suffix : ¬ x :: v <:+ v := fun h => by
  have hle := h.length_le
  rw [List.length_cons] at hle
  omega

/-- Nothing but the lexeme in question with what follows it is swapped with as much. -/
theorem Swapped.eq_of_here (h : Swapped x v v' (x :: v) ls') : ls' = x :: v' := by
  cases h with
  | here => rfl
  | there _ h => exact absurd h.suffix not_suffix

theorem Behind.eq_of_cons {y : Placed} {m m' : List Placed} (h : Behind x v v' m m') (he : x :: v = y :: m) :
    y :: m' = x :: v' := by
  obtain ⟨rfl, rfl⟩ := List.cons.inj he
  rcases h with h | ⟨_, rfl⟩
  · exact absurd h.suffix not_suffix
  · rfl

/-! ## Results that agree -/

/-- What is read of `v` leaves less than the lexeme `x` and what follows it. -/
theorem Agrees.of_within {r r' : Except Failure (α × List Placed)} (h : Within v r) : Agrees x v v' r r' := by
  constructor
  · intro a left hr hsuffix
    exact absurd (hsuffix.trans (Within.suffix h hr)) not_suffix
  · intro f hr
    rw [hr] at h
    exact absurd h not_suffix

/-- Nothing more is read. -/
theorem Agrees.stop (h : Swapped x v v' ls ls') (a : α) : Agrees x v v' (.ok (a, ls)) (.ok (a, ls')) := by
  constructor
  · intro b left hr _
    cases hr
    exact ⟨ls', rfl, h⟩
  · intro f hr
    cases hr

/-- The first lexeme is wrong. -/
theorem Agrees.wrong (h : Swapped x v v' ls ls') (f : Fault) :
    Agrees (α := α) x v v' (.error (.fault f ls)) (.error (.fault f ls')) := by
  constructor
  · intro a left hr
    cases hr
  · intro f' hr
    cases hr
    rw [h.eq_of_here]

theorem Agrees.expected (h : Swapped x v v' ls ls') (what : Expectation) :
    Agrees (α := α) x v v' (.error (.expected what ls)) (.error (.expected what ls')) := by
  obtain ⟨y, m, m', rfl, rfl, _⟩ := h.uncons
  exact Agrees.wrong h _

theorem Agrees.map {r r' : Except Failure (α × List Placed)} (h : Agrees x v v' r r') (g : α → β) :
    Agrees x v v' (r.map fun y => (g y.1, y.2)) (r'.map fun y => (g y.1, y.2)) := by
  constructor
  · intro b left hr hsuffix
    obtain ⟨⟨a, mid⟩, ha, he⟩ := map_eq_ok.1 hr
    cases he
    obtain ⟨mid', hr', hswapped⟩ := h.ok a mid ha hsuffix
    rw [hr']
    exact ⟨mid', rfl, hswapped⟩
  · intro f hr
    rw [h.fault f (map_eq_error.1 hr)]
    rfl

/-- What is read next agrees wherever the lexeme in question is left. -/
theorem Agrees.bind {r r' : Except Failure (α × List Placed)}
    {g g' : α × List Placed → Except Failure (β × List Placed)} (h : Agrees x v v' r r')
    (hwithin : ∀ a left, r = .ok (a, left) → Within left (g (a, left)))
    (hg : ∀ a left left', r = .ok (a, left) → Swapped x v v' left left' →
      Agrees x v v' (g (a, left)) (g' (a, left'))) : Agrees x v v' (r >>= g) (r' >>= g') := by
  constructor
  · intro b left hr hsuffix
    obtain ⟨⟨a, mid⟩, hr, hb⟩ := bind_eq_ok.1 hr
    obtain ⟨mid', hr', hswapped⟩ := h.ok a mid hr (hsuffix.trans (Within.suffix (hwithin a mid hr) hb))
    rw [hr']
    exact (hg a mid mid' hr hswapped).ok b left hb hsuffix
  · intro f hr
    rcases bind_eq_error.1 hr with hr | ⟨⟨a, mid⟩, hr, hf⟩
    · rw [h.fault f hr]
      rfl
    · have hmid := hwithin a mid hr
      rw [hf] at hmid
      obtain ⟨mid', hr', hswapped⟩ := h.ok a mid hr hmid
      rw [hr']
      exact (hg a mid mid' hr hswapped).fault f hf

/-- What is read behind the first lexeme. -/
theorem Behind.agrees {r r' : Except Failure (α × List Placed)} (h : Behind x v v' ls ls') (hwithin : Within ls r)
    (hr : Swapped x v v' ls ls' → Agrees x v v' r r') : Agrees x v v' r r' := by
  rcases h with h | ⟨rfl, rfl⟩
  · exact hr h
  · exact .of_within hwithin

/-- A function of the first lexeme that uses the lexemes for the place of a fault only. -/
def PlacesOnly (r : List Placed → Except Failure α) : Prop :=
  (∃ a, ∀ left, r left = .ok a) ∨ (∃ k, ∀ left, r left = .error (.tooManyDigits k)) ∨
    ∃ f, ∀ left, r left = .error (.fault f left)

/-- The first lexeme alone is read. -/
theorem Agrees.first {y : Placed} {m m' : List Placed} {r : List Placed → Except Failure α} (h : Behind x v v' m m')
    (hr : PlacesOnly r) (g : α → β) :
    Agrees x v v' ((r (y :: m)).map fun a => (g a, m)) ((r (y :: m')).map fun a => (g a, m')) := by
  rcases hr with ⟨a, hr⟩ | ⟨k, hr⟩ | ⟨f, hr⟩
  · rw [hr, hr]
    exact h.agrees (List.suffix_refl m) fun hm => .stop hm (g a)
  · rw [hr, hr]
    constructor
    · intro b left hk
      cases hk
    · intro f hk
      cases hk
  · rw [hr, hr]
    constructor
    · intro b left hf
      cases hf
    · intro f' hf
      obtain ⟨rfl, he⟩ := Failure.fault.inj (Except.error.inj hf)
      exact congrArg (fun left => Except.error (Failure.fault f left)) (h.eq_of_cons he.symm)

end

/-! ## Numbers and literals -/

theorem integer_placesOnly (n : Numeral) : PlacesOnly (integer n) := by
  unfold integer
  by_cases hinteger : n.isInteger
  · by_cases hlong : digitLimit < n.whole.length
    · exact Or.inr (Or.inl ⟨n.whole.length, fun _ => by simp [hinteger, hlong]⟩)
    · exact Or.inl ⟨n.integer, fun _ => by simp [hinteger, hlong]⟩
  · exact Or.inr (Or.inr ⟨.notInteger n, fun _ => by simp [hinteger]⟩)

theorem positive_placesOnly (n : Numeral) : PlacesOnly (positive n) := by
  rcases integer_placesOnly n with ⟨i, hi⟩ | ⟨k, hk⟩ | ⟨f, hf⟩
  · by_cases hpos : 0 < i
    · refine Or.inl ⟨⟨i.toNat, toNat_pos hpos⟩, fun left => ?_⟩
      unfold positive
      rw [hi]
      exact dif_pos hpos
    · refine Or.inr (Or.inr ⟨.stepNotPositive, fun left => ?_⟩)
      unfold positive
      rw [hi]
      exact dif_neg hpos
  · refine Or.inr (Or.inl ⟨k, fun left => ?_⟩)
    unfold positive
    rw [hk]
    rfl
  · refine Or.inr (Or.inr ⟨f, fun left => ?_⟩)
    unfold positive
    rw [hf]
    rfl

theorem numberLiteral_placesOnly (n : Numeral) : PlacesOnly (numberLiteral n) := by
  by_cases hinteger : n.isInteger
  · have hn : ∀ left, numberLiteral n left = (integer n left).map .int := fun left => if_pos hinteger
    rcases integer_placesOnly n with ⟨i, hi⟩ | ⟨k, hk⟩ | ⟨f, hf⟩
    · exact Or.inl ⟨.int i, fun left => by rw [hn, hi]; rfl⟩
    · exact Or.inr (Or.inl ⟨k, fun left => by rw [hn, hk]; rfl⟩)
    · exact Or.inr (Or.inr ⟨f, fun left => by rw [hn, hf]; rfl⟩)
  · cases hfinite : (Binary64.ofNumeral n).finite? with
    | some y => exact Or.inl ⟨.float y, fun left => by simp [numberLiteral, hinteger, hfinite]⟩
    | none => exact Or.inr (Or.inr ⟨.outOfRange n, fun left => by simp [numberLiteral, hinteger, hfinite]⟩)

section

variable {x : Placed} {v v' ls ls' : List Placed}

theorem optionalInteger_agrees (h : Swapped x v v' ls ls') :
    Agrees x v v' (plain (optionalInteger ls)) (plain (optionalInteger ls')) := by
  obtain ⟨⟨lx, p⟩, m, m', rfl, rfl, hm⟩ := h.uncons
  rw [plain_optionalInteger, plain_optionalInteger]
  cases lx with
  | number n => exact .first hm (integer_placesOnly n) some
  | _ => exact .stop h none

theorem sliceFrom_agrees (first : Option Int) (h : Swapped x v v' ls ls') :
    Agrees x v v' (plain (sliceFrom first ls)) (plain (sliceFrom first ls')) := by
  rw [plain_sliceFrom, plain_sliceFrom]
  refine (optionalInteger_agrees h).bind ?_ fun last left left' _ hleft => ?_
  · intro last left _
    dsimp only
    split
    · exact Within.tail _ (Within.first (fun _ => positive_within) (List.suffix_cons _ _)
        fun k => (⟨first.getD 0, last, k.val, k.property⟩ : Slice))
    · exact List.suffix_cons _ _
    · exact List.suffix_refl _
  · obtain ⟨⟨lx, p⟩, m, m', rfl, rfl, hm⟩ := hleft.uncons
    dsimp only
    cases lx with
    | colon =>
      refine hm.agrees ?_ fun hm => ?_
      · rcases m with _ | ⟨⟨ly, q⟩, k⟩
        · exact List.suffix_refl _
        · cases ly with
          | number n =>
            exact Within.first (fun _ => positive_within) (List.suffix_cons _ _)
              fun k => (⟨first.getD 0, last, k.val, k.property⟩ : Slice)
          | _ => exact List.suffix_refl _
      · obtain ⟨⟨ly, q⟩, k, k', rfl, rfl, hk⟩ := hm.uncons
        cases ly with
        | number n => exact .first hk (positive_placesOnly n) _
        | _ => exact .stop hm _
    | _ => exact .stop hleft _

theorem position_agrees (h : Swapped x v v' ls ls') :
    Agrees x v v' (plain (position ls)) (plain (position ls')) := by
  rw [plain_position, plain_position]
  refine (optionalInteger_agrees h).bind ?_ fun first left left' _ hleft => ?_
  · intro first left _
    dsimp only
    split
    · exact Within.tail _ (Within.map (sliceFrom_within _ _) fun _ => rfl)
    · split
      · exact List.suffix_refl _
      · exact List.suffix_refl _
  · obtain ⟨⟨lx, p⟩, m, m', rfl, rfl, hm⟩ := hleft.uncons
    dsimp only
    cases lx with
    | colon => exact (hm.agrees (sliceFrom_within first m) (sliceFrom_agrees first)).map _
    | _ =>
      cases first with
      | some i => exact .stop hleft _
      | none => exact .expected hleft _

theorem literal_agrees (h : Swapped x v v' ls ls') : Agrees x v v' (plain (literal ls)) (plain (literal ls')) := by
  rw [plain_literal, plain_literal]
  obtain ⟨⟨lx, p⟩, m, m', rfl, rfl, hm⟩ := h.uncons
  cases lx with
  | number n => exact .first hm (numberLiteral_placesOnly n) id
  | string s => exact hm.agrees (List.suffix_refl m) fun hm => .stop hm _
  | name c s =>
    dsimp only
    cases namedLiterals.lookup (c :: s) with
    | some l => exact hm.agrees (List.suffix_refl m) fun hm => .stop hm l
    | none => exact .expected h _
  | _ => exact .expected h _

theorem descentKey_agrees (h : Swapped x v v' ls ls') :
    Agrees x v v' (plain (descentKey ls)) (plain (descentKey ls')) := by
  rw [plain_descentKey, plain_descentKey]
  obtain ⟨⟨lx, p⟩, m, m', rfl, rfl, hm⟩ := h.uncons
  cases lx with
  | string s =>
    dsimp only
    by_cases hs : s ≠ []
    · rw [dif_pos hs, dif_pos hs]
      refine hm.agrees ?_ fun hm => ?_
      · split
        · exact List.suffix_cons _ _
        · exact List.suffix_refl _
      · obtain ⟨⟨ly, q⟩, k, k', rfl, rfl, hk⟩ := hm.uncons
        cases ly with
        | rightBracket => exact hk.agrees (List.suffix_refl k) fun hk => .stop hk _
        | _ => exact .expected hm _
    · rw [dif_neg hs, dif_neg hs]
      exact .wrong h _
  | _ => exact .expected h _

/-! ## Paths, segments and selectors -/

/-- The three functions that read repeated parts agree. -/
structure AgreesAt (x : Placed) (v v' ls ls' : List Placed) : Prop where
  segments : Agrees x v v' (plain (segments ls)) (plain (segments ls'))
  selectors : Agrees x v v' (plain (selectors ls)) (plain (selectors ls'))
  selector : Agrees x v v' (plain (selector ls)) (plain (selector ls'))

theorem Behind.agreesAt (h : Behind x v v' ls ls') (hat : Swapped x v v' ls ls' → AgreesAt x v v' ls ls') :
    AgreesAt x v v' ls ls' :=
  ⟨h.agrees (within ls).segments fun h => (hat h).segments, h.agrees (within ls).selectors fun h => (hat h).selectors,
    h.agrees (within ls).selector fun h => (hat h).selector⟩

theorem path_agrees (ih : ∀ m m' : List Placed, m.length ≤ ls.length → Swapped x v v' m m' → AgreesAt x v v' m m')
    (h : Swapped x v v' ls ls') : Agrees x v v' (plain (path ls)) (plain (path ls')) := by
  have hsegments := (ih ls ls' (Nat.le_refl _) h).segments
  rw [plain_path, plain_path]
  obtain ⟨⟨lx, p⟩, m, m', rfl, rfl, hm⟩ := h.uncons
  have hm := hm.agreesAt (ih m m' (by simp))
  cases lx with
  | root => exact hm.segments.map _
  | current => exact hm.segments.map _
  | name c s => exact hm.segments.map _
  | _ =>
    -- Where no segment is read the fault is at the start of the path, and nothing has been taken by then.
    refine hsegments.bind (fun ts left hts => ?_) fun ts left left' _ hleft => ?_
    · cases ts with
      | nil =>
        cases eq_of_segments_nil hts
        exact List.suffix_refl _
      | cons t ts => exact List.suffix_refl _
    · cases ts with
      | nil => exact .expected h _
      | cons t ts => exact .stop hleft _

theorem segments_agrees (ih : ∀ m m' : List Placed, m.length < ls.length → Swapped x v v' m m' → AgreesAt x v v' m m')
    (h : Swapped x v v' ls ls') : Agrees x v v' (plain (segments ls)) (plain (segments ls')) := by
  rw [plain_segments, plain_segments]
  obtain ⟨⟨lx, p⟩, m, m', rfl, rfl, hm⟩ := h.uncons
  cases lx with
  | dot =>
    refine hm.agrees ?_ fun hm => ?_
    · rcases m with _ | ⟨⟨ly, q⟩, k⟩
      · exact List.suffix_refl _
      · cases ly with
        | star => exact Within.tail _ (Within.map (within k).segments fun _ => rfl)
        | name c s => exact Within.tail _ (Within.map (within k).segments fun _ => rfl)
        | _ => exact List.suffix_refl _
    · obtain ⟨⟨ly, q⟩, k, k', rfl, rfl, hk⟩ := hm.uncons
      have hk := hk.agreesAt (ih k k' (by simp only [List.length_cons]; omega))
      cases ly with
      | star => exact hk.segments.map _
      | name c s => exact hk.segments.map _
      | _ => exact .expected hm _
  | dots =>
    refine hm.agrees ?_ fun hm => ?_
    · rcases m with _ | ⟨⟨ly, q⟩, k⟩
      · exact List.suffix_refl _
      · cases ly with
        | name c s => exact Within.tail _ (Within.map (within k).segments fun _ => rfl)
        | leftBracket =>
          refine Within.tail _ ((descentKey_within k).bind fun key left _ => ?_)
          exact Within.map (within left).segments fun _ => rfl
        | _ => exact List.suffix_refl _
    · obtain ⟨⟨ly, q⟩, k, k', rfl, rfl, hk⟩ := hm.uncons
      cases ly with
      | name c s => exact (hk.agreesAt (ih k k' (by simp only [List.length_cons]; omega))).segments.map _
      | leftBracket =>
        refine (hk.agrees (descentKey_within k) descentKey_agrees).bind ?_ fun key left left' hkey hleft => ?_
        · exact fun key left _ => Within.map (within left).segments fun _ => rfl
        · have hle := length_le_of_plain hkey
          exact (ih left left' (by simp only [List.length_cons]; omega) hleft).segments.map _
      | _ => exact .expected hm _
  | leftBracket =>
    refine (hm.agreesAt (ih m m' (by simp))).selector.bind (fun s left _ => ?_) fun s left left' hs hleft => ?_
    · refine (within left).selectors.bind fun ss left' _ => ?_
      dsimp only
      split
      · exact Within.tail _ (Within.map (within _).segments fun _ => rfl)
      · exact List.suffix_refl _
    · have hle := length_le_of_plain hs
      refine (ih left left' (by simp only [List.length_cons]; omega) hleft).selectors.bind (fun ss mid _ => ?_)
        fun ss mid mid' hss hmid => ?_
      · dsimp only
        split
        · exact Within.tail _ (Within.map (within _).segments fun _ => rfl)
        · exact List.suffix_refl _
      · have hle' := length_le_of_plain hss
        obtain ⟨⟨ly, q⟩, k, k', rfl, rfl, hk⟩ := hmid.uncons
        rw [List.length_cons] at hle'
        cases ly with
        | rightBracket => exact (hk.agreesAt (ih k k' (by simp only [List.length_cons]; omega))).segments.map _
        | _ => exact .expected hmid _
  | _ => exact .stop h _

theorem selectors_agrees (ih : ∀ m m' : List Placed, m.length < ls.length → Swapped x v v' m m' → AgreesAt x v v' m m')
    (h : Swapped x v v' ls ls') : Agrees x v v' (plain (selectors ls)) (plain (selectors ls')) := by
  rw [plain_selectors, plain_selectors]
  obtain ⟨⟨lx, p⟩, m, m', rfl, rfl, hm⟩ := h.uncons
  cases lx with
  | comma =>
    refine (hm.agreesAt (ih m m' (by simp))).selector.bind ?_ fun s left left' hs hleft => ?_
    · exact fun s left _ => Within.map (within left).selectors fun _ => rfl
    · have hle := length_le_of_plain hs
      exact (ih left left' (by simp only [List.length_cons]; omega) hleft).selectors.map _
  | _ => exact .stop h _

theorem comparison_agrees (p : Token × List Token) (h : Swapped x v v' ls ls') :
    Agrees x v v' (comparison p ls) (comparison p ls') := by
  obtain ⟨⟨lx, _⟩, m, m', rfl, rfl, hm⟩ := h.uncons
  unfold comparison
  cases lx with
  | operator op =>
    refine (hm.agrees (literal_within m) literal_agrees).bind (fun l left _ => ?_) fun l left left' _ hleft => ?_
    · dsimp only
      split
      · exact List.suffix_cons _ _
      · exact List.suffix_refl _
    · obtain ⟨⟨ly, _⟩, k, k', rfl, rfl, hk⟩ := hleft.uncons
      cases ly with
      | rightParen => exact hk.agrees (List.suffix_refl k) fun hk => .stop hk _
      | _ => exact .expected hleft _
  | _ => exact .expected h _

theorem selector_agrees (ih : ∀ m m' : List Placed, m.length < ls.length → Swapped x v v' m m' → AgreesAt x v v' m m')
    (h : Swapped x v v' ls ls') : Agrees x v v' (plain (selector ls)) (plain (selector ls')) := by
  have hposition := position_agrees h
  rw [plain_selector, plain_selector]
  obtain ⟨⟨lx, p⟩, m, m', rfl, rfl, hm⟩ := h.uncons
  cases lx with
  | star => exact hm.agrees (List.suffix_refl m) fun hm => .stop hm _
  | string s => exact hm.agrees (List.suffix_refl m) fun hm => .stop hm _
  | question =>
    refine hm.agrees ?_ fun hm => ?_
    · rcases m with _ | ⟨⟨ly, q⟩, k⟩
      · exact List.suffix_refl _
      · cases ly with
        | leftParen =>
          exact Within.tail _ ((path_within fun l _ => within l).bind fun p mid _ => comparison_within p mid)
        | _ => exact List.suffix_refl _
    · obtain ⟨⟨ly, q⟩, k, k', rfl, rfl, hk⟩ := hm.uncons
      cases ly with
      | leftParen =>
        have hpath := hk.agrees (path_within fun l _ => within l)
          (path_agrees fun l l' hl => ih l l' (by simp only [List.length_cons]; omega))
        exact hpath.bind (fun p mid _ => comparison_within p mid) fun p mid mid' _ hmid => comparison_agrees p hmid
      | _ => exact .expected hm _
  | _ => exact hposition

theorem agrees (ls ls' : List Placed) (h : Swapped x v v' ls ls') : AgreesAt x v v' ls ls' :=
  have ih : ∀ m m' : List Placed, m.length < ls.length → Swapped x v v' m m' → AgreesAt x v v' m m' :=
    fun m m' _ hm => agrees m m' hm
  ⟨segments_agrees ih h, selectors_agrees ih h, selector_agrees ih h⟩
termination_by ls.length

/-- **A fault at a lexeme stays whatever follows the lexeme.** -/
theorem whole_of_swapped (h : Swapped x v v' ls ls') {f : Fault} (hf : whole ls = .error (.fault f (x :: v))) :
    whole ls' = .error (.fault f (x :: v')) := by
  rw [whole_eq] at hf ⊢
  have hpath := path_agrees (fun m m' _ hm => agrees m m' hm) h
  rcases bind_eq_error.1 hf with hf | ⟨⟨p, mid⟩, hp, hf⟩
  · rw [hpath.fault f hf]
    rfl
  · dsimp only at hf
    split at hf
    · cases hf
    · obtain ⟨rfl, rfl⟩ := Failure.fault.inj (Except.error.inj hf)
      obtain ⟨left', hp', hleft⟩ := hpath.ok p _ hp (List.suffix_refl _)
      cases hleft.eq_of_here
      rw [hp']
      rfl

end

end TreePath.Parse
