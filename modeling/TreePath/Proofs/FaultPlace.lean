import TreePath.Proofs.Completeness
import TreePath.Proofs.Lookahead

/-!
# The place of a syntax error

A syntax error points at the first lexeme that no path has in its place. Lexemes are `Viable` if those of some path
begin with them, where the end counts as a lexeme of its own (`ended`). The lexemes before the fault are viable, since
they can be completed (`whole_completable`). Together with the lexeme at fault they are not, since a fault at a lexeme
stays whatever follows it (`whole_of_swapped`), and a path is read (`whole_read`).

* `whole_fault_viable` says so of lexemes,
* `position_of_malformed` of texts.
-/

namespace TreePath

namespace Parse

/-- The lexemes are read as a path. -/
def Accepts (xs : List Lexeme) : Prop := ∃ ls p, ls.map Placed.lexeme = xs ∧ whole ls = .ok p

/-- The lexemes, and their end. -/
def ended (xs : List Lexeme) : List (Option Lexeme) := xs.map some ++ [none]

/-- Some lexemes that are read as a path begin like this. -/
def Viable (zs : List (Option Lexeme)) : Prop := ∃ ys, Accepts ys ∧ zs <+: ended ys

/-- The lexemes, at no matter which places. -/
def unplaced (xs : List Lexeme) : List Placed := xs.map fun x => ⟨x, 0⟩

@[simp]
theorem map_lexeme_unplaced (xs : List Lexeme) : (unplaced xs).map Placed.lexeme = xs := by
  rw [unplaced, List.map_map]
  exact List.map_id' xs

theorem accepts_iff {xs : List Lexeme} : Accepts xs ↔ ∃ t : PathTree, t.lexemes = xs := by
  constructor
  · rintro ⟨ls, p, rfl, h⟩
    obtain ⟨t, ht, _⟩ := whole_sound h
    exact ⟨t, ht⟩
  · rintro ⟨t, rfl⟩
    exact ⟨unplaced t.lexemes, t.tokens, map_lexeme_unplaced _, whole_read (map_lexeme_unplaced _).symm⟩

/-! ## Beginnings -/

theorem map_some_isPrefix_ended : ∀ {xs ys : List Lexeme}, xs.map some <+: ended ys ↔ xs <+: ys
  | [], ys => by simp
  | x :: xs, [] => by simp [ended]
  | x :: xs, y :: ys => by
    rw [ended, List.map_cons, List.map_cons, List.cons_append, List.cons_prefix_cons, List.cons_prefix_cons,
      Option.some_inj]
    exact and_congr_right fun _ => map_some_isPrefix_ended

theorem ended_isPrefix_ended : ∀ {xs ys : List Lexeme}, ended xs <+: ended ys ↔ xs = ys
  | [], [] => by simp
  | [], y :: ys => by simp [ended]
  | x :: xs, [] => by simp [ended]
  | x :: xs, y :: ys => by
    rw [ended, ended, List.map_cons, List.map_cons, List.cons_append, List.cons_append, List.cons_prefix_cons,
      Option.some_inj, List.cons.injEq]
    exact and_congr_right fun _ => ended_isPrefix_ended

theorem viable_map_some {xs : List Lexeme} : Viable (xs.map some) ↔ ∃ more, Accepts (xs ++ more) := by
  constructor
  · rintro ⟨_, hys, hprefix⟩
    obtain ⟨more, rfl⟩ := map_some_isPrefix_ended.1 hprefix
    exact ⟨more, hys⟩
  · rintro ⟨more, h⟩
    exact ⟨_, h, map_some_isPrefix_ended.2 (List.prefix_append _ _)⟩

theorem viable_ended {xs : List Lexeme} : Viable (ended xs) ↔ Accepts xs := by
  constructor
  · rintro ⟨_, hys, hprefix⟩
    cases ended_isPrefix_ended.1 hprefix
    exact hys
  · exact fun h => ⟨xs, h, List.prefix_refl _⟩

theorem take_ended (xs ys : List Lexeme) : (ended (xs ++ ys)).take xs.length = xs.map some := by
  rw [ended, List.map_append, List.append_assoc]
  exact List.take_left' (List.length_map _)

/-! ## Faults -/

theorem swapped_append (x : Placed) (v v' : List Placed) :
    ∀ read, Swapped x v v' (read ++ x :: v) (read ++ x :: v')
  | [] => .here
  | y :: read => .there y (swapped_append x v v' read)

/-- What stands before a fault is viable. -/
theorem viable_of_fault {read left : List Placed} {f : Fault} (h : whole (read ++ left) = .error (.fault f left)) :
    Viable ((read.map Placed.lexeme).map some) := by
  obtain ⟨t, read', more, hls, ht⟩ := whole_completable (read ++ left) f left h
  rw [List.map_append] at hls
  obtain rfl := List.append_cancel_right hls
  exact viable_map_some.2 ⟨more, accepts_iff.2 ⟨t, ht⟩⟩

/-- A lexeme at fault is in no path behind what stands before it. -/
theorem not_viable_of_fault {read v : List Placed} {x : Placed} {f : Fault}
    (h : whole (read ++ x :: v) = .error (.fault f (x :: v))) :
    ¬ Viable ((read.map Placed.lexeme ++ [x.lexeme]).map some) := by
  intro hviable
  obtain ⟨more, hmore⟩ := viable_map_some.1 hviable
  obtain ⟨t, ht⟩ := accepts_iff.1 hmore
  have hfault := whole_of_swapped (swapped_append x v (unplaced more) read) h
  have hread : whole (read ++ x :: unplaced more) = .ok t.tokens := whole_read (by simp [ht])
  cases hfault.symm.trans hread

/-- **A fault is at the first lexeme that no path has in its place**, or at the end, if all lexemes are those of the
beginning of a path and not of a path. -/
theorem whole_fault_viable {ls left : List Placed} {f : Fault} (h : whole ls = .error (.fault f left)) :
    ∃ read, ls = read ++ left ∧ Viable ((ended (ls.map Placed.lexeme)).take read.length) ∧
      ¬ Viable ((ended (ls.map Placed.lexeme)).take (read.length + 1)) := by
  obtain ⟨read, rfl⟩ : left <:+ ls := whole_within h
  refine ⟨read, rfl, ?_, ?_⟩
  · have htake := take_ended (read.map Placed.lexeme) (left.map Placed.lexeme)
    rw [List.length_map, ← List.map_append] at htake
    rw [htake]
    exact viable_of_fault h
  · cases left with
    | nil =>
      rw [List.append_nil] at h ⊢
      rw [List.take_of_length_le (by simp [ended]), viable_ended, accepts_iff]
      rintro ⟨t, ht⟩
      cases h.symm.trans (whole_read ht)
    | cons x v =>
      have htake := take_ended (read.map Placed.lexeme ++ [x.lexeme]) (v.map Placed.lexeme)
      rw [List.length_append, List.length_map, List.append_assoc] at htake
      rw [List.map_append]
      exact fun hviable => not_viable_of_fault h (htake ▸ hviable)

end Parse

/-! ## Texts -/

theorem whole_of_malformed {text : Text} {ls : List Placed} {e : SyntaxError} (hblank : text.isBlank = false)
    (hlex : lexemes text = .ok ls) (h : Path.compile text = .error (.malformed e)) :
    ∃ f left, Parse.whole ls = .error (.fault f left) ∧
      e = ⟨f, text, (left.head?.map Placed.position).getD text.length⟩ := by
  rw [Path.compile, hblank, if_neg Bool.false_ne_true, hlex] at h
  dsimp only at h
  cases hwhole : Parse.whole ls with
  | ok p =>
    rw [hwhole] at h
    cases h
  | error failure =>
    rw [hwhole] at h
    cases failure with
    | fault f left =>
      cases h
      exact ⟨f, left, rfl, rfl⟩
    | tooManyDigits k => cases h

/-- **A syntax error points at the first lexeme that cannot belong to a path.** In a text with lexemes that is not
blank it is at the `k`-th lexeme, or the end: some lexemes that are read as a path begin with those before it, and none
begin with those up to it. -/
theorem position_of_malformed {text : Text} {ls : List Placed} {e : SyntaxError} (hblank : text.isBlank = false)
    (hlex : lexemes text = .ok ls) (h : Path.compile text = .error (.malformed e)) :
    ∃ k ≤ ls.length, e.position = (ls[k]?.map Placed.position).getD text.length ∧
      Parse.Viable ((Parse.ended (ls.map Placed.lexeme)).take k) ∧
        ¬ Parse.Viable ((Parse.ended (ls.map Placed.lexeme)).take (k + 1)) := by
  obtain ⟨f, left, hwhole, rfl⟩ := whole_of_malformed hblank hlex h
  obtain ⟨read, rfl, hviable, hnot⟩ := Parse.whole_fault_viable hwhole
  refine ⟨read.length, by simp, ?_, hviable, hnot⟩
  rw [List.getElem?_append_right (Nat.le_refl _), Nat.sub_self, List.head?_eq_getElem?]

/-- Behind a comma a second one cannot stand. -/
theorem position_of_malformed_comma :
    Path.compile (chars ['$', '[', '*', ',', ' ', ',', ']']) =
        .error (.malformed ⟨.expected .selector (some .comma), chars ['$', '[', '*', ',', ' ', ',', ']'], 5⟩) ∧
      Parse.Viable ([.root, .leftBracket, .star, .comma].map some) ∧
      ¬ Parse.Viable ([.root, .leftBracket, .star, .comma, .comma].map some) := by
  have hlex : lexemes (chars ['$', '[', '*', ',', ' ', ',', ']']) = .ok [⟨.root, 0⟩, ⟨.leftBracket, 1⟩, ⟨.star, 2⟩,
      ⟨.comma, 3⟩, ⟨.comma, 5⟩, ⟨.rightBracket, 6⟩] :=
    lexemesFrom_lexeme (by decide) rfl <| lexemesFrom_lexeme (by decide) rfl <| lexemesFrom_lexeme (by decide) rfl <|
      lexemesFrom_lexeme (by decide) rfl <| lexemesFrom_blank (by decide) <| lexemesFrom_lexeme (by decide) rfl <|
        lexemesFrom_lexeme (by decide) rfl (lexemesFrom_nil _)
  have hwhole : Parse.whole [⟨.root, 0⟩, ⟨.leftBracket, 1⟩, ⟨.star, 2⟩, ⟨.comma, 3⟩, ⟨.comma, 5⟩, ⟨.rightBracket, 6⟩] =
      .error (.expected .selector [⟨.comma, 5⟩, ⟨.rightBracket, 6⟩]) := by
    simp [Parse.whole_eq, Parse.plain_path, Parse.plain_segments, Parse.plain_selector, Parse.plain_selectors,
      Parse.plain_position, Parse.plain_optionalInteger, bind, Except.bind, Except.map]
  have hcompile : Path.compile (chars ['$', '[', '*', ',', ' ', ',', ']']) =
      .error (.malformed ⟨.expected .selector (some .comma), chars ['$', '[', '*', ',', ' ', ',', ']'], 5⟩) := by
    rw [Path.compile, if_neg (by decide), hlex]
    dsimp only
    rw [hwhole]
    rfl
  obtain ⟨k, hk, hposition, hviable, hnot⟩ := position_of_malformed (by decide) hlex hcompile
  obtain rfl : k = 4 := by
    have hplaces : ∀ k ≤ 6, 5 = ([0, 1, 2, 3, 5, 6][k]?).getD 7 → k = 4 := by decide
    rw [← List.getElem?_map] at hposition
    exact hplaces k hk hposition
  exact ⟨hcompile, hviable, hnot⟩

end TreePath
