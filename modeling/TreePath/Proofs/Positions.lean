import TreePath.Proofs.Lookahead

/-!
# Reading does not depend on positions

What lexemes are read as depends on the lexemes, and on their positions only for the place of a fault. So with other
positions the result is the same, and a fault is the same one at the same lexeme (`whole_relocated`).
-/

namespace TreePath

/-- The lexeme at the position that `g` gives for its own. -/
def Placed.relocated (g : Nat → Nat) (x : Placed) : Placed := ⟨x.lexeme, g x.position⟩

namespace Parse

/-- The lexemes with other positions. -/
abbrev relocated (g : Nat → Nat) (ls : List Placed) : List Placed := ls.map (Placed.relocated g)

def Failure.relocated (g : Nat → Nat) : Failure → Failure
  | .fault f left => .fault f (Parse.relocated g left)
  | .tooManyDigits n => .tooManyDigits n

/-- What is read of the lexemes with other positions, where `r` is what is read of the lexemes. -/
def carried {α : Type} (g : Nat → Nat) : Except Failure (α × List Placed) → Except Failure (α × List Placed)
  | .error e => .error (e.relocated g)
  | .ok (x, left) => .ok (x, relocated g left)

section

variable {α β : Type} {g : Nat → Nat}

theorem relocated_cons (x : Placed) (ls : List Placed) :
    relocated g (x :: ls) = ⟨x.lexeme, g x.position⟩ :: relocated g ls := rfl

theorem carried_map (r : Except Failure (α × List Placed)) (f : α → β) :
    (carried g r).map (fun y => (f y.1, y.2)) = carried g (r.map fun y => (f y.1, y.2)) := by
  cases r with
  | error e => rfl
  | ok y => rfl

theorem carried_bind {r : Except Failure (α × List Placed)}
    {k k' : α × List Placed → Except Failure (β × List Placed)}
    (h : ∀ x left, r = .ok (x, left) → k' (x, relocated g left) = carried g (k (x, left))) :
    carried g r >>= k' = carried g (r >>= k) := by
  cases r with
  | error e => rfl
  | ok y => exact h y.1 y.2 rfl

/-- The first lexeme alone is read. -/
theorem PlacesOnly.carried {r : List Placed → Except Failure α} (hr : PlacesOnly r) (f : α → β)
    (left m : List Placed) : (r (relocated g left)).map (fun x => (f x, relocated g m)) =
      Parse.carried g ((r left).map fun x => (f x, m)) := by
  rcases hr with ⟨x, hr⟩ | ⟨k, hr⟩ | ⟨e, hr⟩
  · rw [hr, hr]
    rfl
  · rw [hr, hr]
    rfl
  · rw [hr, hr]
    rfl

end

variable (g : Nat → Nat)

/-! ## Numbers and literals -/

theorem optionalInteger_relocated (ls : List Placed) :
    plain (optionalInteger (relocated g ls)) = carried g (plain (optionalInteger ls)) := by
  rw [plain_optionalInteger, plain_optionalInteger]
  rcases ls with _ | ⟨⟨lx, p⟩, ls⟩
  · rfl
  · cases lx with
    | number n => exact (integer_placesOnly n).carried some (⟨.number n, p⟩ :: ls) ls
    | _ => rfl

theorem sliceFrom_relocated (first : Option Int) (ls : List Placed) :
    plain (sliceFrom first (relocated g ls)) = carried g (plain (sliceFrom first ls)) := by
  rw [plain_sliceFrom, plain_sliceFrom, optionalInteger_relocated]
  refine carried_bind fun last left _ => ?_
  rcases left with _ | ⟨⟨lx, p⟩, ls⟩
  · rfl
  · cases lx with
    | colon =>
      rcases ls with _ | ⟨⟨ly, q⟩, ls⟩
      · rfl
      · cases ly with
        | number n => exact (positive_placesOnly n).carried _ (⟨.number n, q⟩ :: ls) ls
        | _ => rfl
    | _ => rfl

theorem position_relocated (ls : List Placed) :
    plain (position (relocated g ls)) = carried g (plain (position ls)) := by
  rw [plain_position, plain_position, optionalInteger_relocated]
  refine carried_bind fun first left _ => ?_
  rcases left with _ | ⟨⟨lx, p⟩, ls⟩
  · cases first <;> rfl
  · cases lx with
    | colon =>
      show (plain (sliceFrom first (relocated g ls))).map _ = _
      rw [sliceFrom_relocated]
      exact carried_map _ Selector.slice
    | _ => cases first <;> rfl

theorem literal_relocated (ls : List Placed) :
    plain (literal (relocated g ls)) = carried g (plain (literal ls)) := by
  rw [plain_literal, plain_literal]
  rcases ls with _ | ⟨⟨lx, p⟩, ls⟩
  · rfl
  · cases lx with
    | number n => exact (numberLiteral_placesOnly n).carried id (⟨.number n, p⟩ :: ls) ls
    | name c s =>
      rw [relocated_cons]
      dsimp only
      cases namedLiterals.lookup (c :: s) <;> rfl
    | _ => rfl

theorem descentKey_relocated (ls : List Placed) :
    plain (descentKey (relocated g ls)) = carried g (plain (descentKey ls)) := by
  rw [plain_descentKey, plain_descentKey]
  rcases ls with _ | ⟨⟨lx, p⟩, ls⟩
  · rfl
  · cases lx with
    | string s =>
      rw [relocated_cons]
      dsimp only
      split
      · rcases ls with _ | ⟨⟨ly, q⟩, ls⟩
        · rfl
        · cases ly <;> rfl
      · rfl
    | _ => rfl

/-! ## Paths, segments and selectors -/

/-- The three functions that read repeated parts do not depend on the positions of the lexemes. -/
structure RelocatesAt (ls : List Placed) : Prop where
  segments : plain (segments (relocated g ls)) = carried g (plain (segments ls))
  selectors : plain (selectors (relocated g ls)) = carried g (plain (selectors ls))
  selector : plain (selector (relocated g ls)) = carried g (plain (selector ls))

variable {g} {ls : List Placed}

theorem RelocatesAt.segments_map {α : Type} (h : RelocatesAt g ls) (f : List Token → α) :
    (plain (Parse.segments (relocated g ls))).map (fun y => (f y.1, y.2)) =
      carried g ((plain (Parse.segments ls)).map fun y => (f y.1, y.2)) := by
  rw [h.segments, carried_map]

theorem path_relocated (h : ∀ m : List Placed, m.length ≤ ls.length → RelocatesAt g m) :
    plain (path (relocated g ls)) = carried g (plain (path ls)) := by
  have hsegments := (h ls (Nat.le_refl _)).segments
  rw [plain_path, plain_path]
  rcases ls with _ | ⟨⟨lx, p⟩, ls⟩
  · show plain (segments []) >>= _ = carried g (plain (segments []) >>= _)
    rw [plain_segments]
    rfl
  · have hrest := h ls (by simp)
    cases lx with
    | root => exact hrest.segments_map _
    | current => exact hrest.segments_map _
    | name c s => exact hrest.segments_map _
    | _ =>
      show plain (segments (relocated g (_ :: ls))) >>= _ = _
      rw [hsegments]
      refine carried_bind fun ts left _ => ?_
      cases ts with
      | nil => rfl
      | cons t ts => rfl

theorem segments_relocated (h : ∀ m : List Placed, m.length < ls.length → RelocatesAt g m) :
    plain (segments (relocated g ls)) = carried g (plain (segments ls)) := by
  rw [plain_segments, plain_segments]
  rcases ls with _ | ⟨⟨lx, p⟩, ls⟩
  · rfl
  · cases lx with
    | dot =>
      rcases ls with _ | ⟨⟨ly, q⟩, ls⟩
      · rfl
      · have hrest := h ls (by simp only [List.length_cons]; omega)
        cases ly with
        | star => exact hrest.segments_map _
        | name c s => exact hrest.segments_map _
        | _ => rfl
    | dots =>
      rcases ls with _ | ⟨⟨ly, q⟩, ls⟩
      · rfl
      · cases ly with
        | name c s => exact (h ls (by simp only [List.length_cons]; omega)).segments_map _
        | leftBracket =>
          show plain (descentKey (relocated g ls)) >>= _ = _
          rw [descentKey_relocated]
          refine carried_bind fun key left hkey => ?_
          have hle := length_le_of_plain hkey
          exact (h left (by simp only [List.length_cons]; omega)).segments_map _
        | _ => rfl
    | leftBracket =>
      show plain (selector (relocated g ls)) >>= _ = _
      rw [(h ls (by simp)).selector]
      refine carried_bind fun s left hs => ?_
      have hle := length_le_of_plain hs
      have hleft := h left (by simp only [List.length_cons]; omega)
      dsimp only
      rw [hleft.selectors]
      refine carried_bind fun ss mid hss => ?_
      have hle' := length_le_of_plain hss
      rcases mid with _ | ⟨⟨ly, q⟩, ls'⟩
      · rfl
      · rw [List.length_cons] at hle'
        cases ly with
        | rightBracket => exact (h ls' (by simp only [List.length_cons]; omega)).segments_map _
        | _ => rfl
    | _ => rfl

theorem selectors_relocated (h : ∀ m : List Placed, m.length < ls.length → RelocatesAt g m) :
    plain (selectors (relocated g ls)) = carried g (plain (selectors ls)) := by
  rw [plain_selectors, plain_selectors]
  rcases ls with _ | ⟨⟨lx, p⟩, ls⟩
  · rfl
  · cases lx with
    | comma =>
      show plain (selector (relocated g ls)) >>= _ = _
      rw [(h ls (by simp)).selector]
      refine carried_bind fun s left hs => ?_
      have hle := length_le_of_plain hs
      dsimp only
      rw [(h left (by simp only [List.length_cons]; omega)).selectors]
      exact carried_map _ (s :: ·)
    | _ => rfl

theorem comparison_relocated (p : Token × List Token) (ls : List Placed) :
    comparison p (relocated g ls) = carried g (comparison p ls) := by
  rcases ls with _ | ⟨⟨lx, q⟩, ls⟩
  · rfl
  · cases lx with
    | operator op =>
      show plain (literal (relocated g ls)) >>= _ = _
      rw [literal_relocated]
      refine carried_bind fun l left _ => ?_
      rcases left with _ | ⟨⟨ly, q⟩, ls⟩
      · rfl
      · cases ly <;> rfl
    | _ => rfl

theorem selector_relocated (h : ∀ m : List Placed, m.length < ls.length → RelocatesAt g m) :
    plain (selector (relocated g ls)) = carried g (plain (selector ls)) := by
  have hposition := position_relocated g ls
  rw [plain_selector, plain_selector]
  rcases ls with _ | ⟨⟨lx, p⟩, ls⟩
  · rfl
  · cases lx with
    | question =>
      rcases ls with _ | ⟨⟨ly, q⟩, ls⟩
      · rfl
      · cases ly with
        | leftParen =>
          show plain (path (relocated g ls)) >>= _ = _
          rw [path_relocated fun m hm => h m (by simp only [List.length_cons]; omega)]
          exact carried_bind fun p left _ => comparison_relocated p left
        | _ => rfl
    | star => rfl
    | string s => rfl
    | _ => exact hposition

theorem relocatesAt (g : Nat → Nat) (ls : List Placed) : RelocatesAt g ls :=
  have h : ∀ m : List Placed, m.length < ls.length → RelocatesAt g m := fun m _ => relocatesAt g m
  ⟨segments_relocated h, selectors_relocated h, selector_relocated h⟩
termination_by ls.length

/-- **Reading does not depend on positions**: with other ones the path is the same, or the fault at the same lexeme. -/
theorem whole_relocated (g : Nat → Nat) (ls : List Placed) :
    whole (relocated g ls) = (whole ls).mapError (Failure.relocated g) := by
  rw [whole_eq, whole_eq, path_relocated fun m _ => relocatesAt g m]
  cases plain (path ls) with
  | error e => rfl
  | ok y =>
    obtain ⟨p, left⟩ := y
    cases left with
    | nil => rfl
    | cons x left => rfl

end Parse

end TreePath
