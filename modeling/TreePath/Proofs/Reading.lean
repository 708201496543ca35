import TreePath.Path.Parse

/-!
# Equations of the reading functions

A reading function carries a bound on what it leaves, which makes the recursion end and is in the way of everything
else. `plain` forgets the bound; there is one equation for each function in terms of the plain forms of the functions
that it calls (`plain_segments`, `plain_selector`, …), so the reading functions are unfolded here only.
-/

namespace TreePath

/-! ## Results that come one after the other -/

section Results

variable {ε α β : Type}

theorem map_eq_ok {r : Except ε α} {f : α → β} {y : β} : r.map f = .ok y ↔ ∃ x, r = .ok x ∧ f x = y := by
  cases r with
  | error e => simp [Except.map]
  | ok x => simp [Except.map]

theorem bind_eq_ok {r : Except ε α} {f : α → Except ε β} {y : β} :
    r >>= f = .ok y ↔ ∃ x, r = .ok x ∧ f x = .ok y := by
  cases r with
  | error e => simp [bind, Except.bind]
  | ok x => simp [bind, Except.bind]

end Results

namespace Parse

/-- What a reading function gives, without the bound on what it leaves. -/
def plain {α : Type} {n : Nat} (r : Except Failure (α × Rest n)) : Except Failure (α × List Placed) :=
  r.map fun (x, left) => (x, left.val)

theorem length_le_of_plain {α : Type} {n : Nat} {r : Except Failure (α × Rest n)} {x : α} {left : List Placed}
    (h : plain r = .ok (x, left)) : left.length ≤ n := by
  obtain ⟨⟨y, left', hle⟩, _, he⟩ := map_eq_ok.1 h
  cases he
  exact hle

/-! ## Numbers and slices -/

theorem plain_optionalInteger (ls : List Placed) : plain (optionalInteger ls) = match ls with
    | ⟨.number n, p⟩ :: ls => (integer n (⟨.number n, p⟩ :: ls)).map fun i => (some i, ls)
    | ls => .ok (none, ls) := by
  match ls with
  | [] => rfl
  | ⟨lx, p⟩ :: ls =>
    cases lx with
    | number n =>
      show plain (integer n _ >>= _) = Except.map _ (integer n _)
      cases integer n _ <;> rfl
    | _ => rfl

theorem plain_sliceFrom (first : Option Int) (ls : List Placed) : plain (sliceFrom first ls) = (do
    let (last, ls) ← plain (optionalInteger ls)
    match ls with
    | ⟨.colon, _⟩ :: ⟨.number n, p⟩ :: ls =>
      (positive n (⟨.number n, p⟩ :: ls)).map fun k => (⟨first.getD 0, last, k.val, k.property⟩, ls)
    | ⟨.colon, _⟩ :: ls => .ok (⟨first.getD 0, last, 1, Nat.one_pos⟩, ls)
    | ls => .ok (⟨first.getD 0, last, 1, Nat.one_pos⟩, ls)) := by
  unfold sliceFrom
  cases optionalInteger ls with
  | error e => rfl
  | ok x =>
    obtain ⟨last, ls, h⟩ := x
    match ls, h with
    | [], _ => rfl
    | ⟨lx, _⟩ :: ls, h =>
      cases lx with
      | colon =>
        match ls, h with
        | [], _ => rfl
        | ⟨ly, _⟩ :: ls, h =>
          cases ly with
          | number n =>
            show plain (positive n _ >>= _) = Except.map _ (positive n _)
            cases positive n _ <;> rfl
          | _ => rfl
      | _ => rfl

theorem plain_position (ls : List Placed) : plain (position ls) = (do
    let (first, ls) ← plain (optionalInteger ls)
    match ls with
    | ⟨.colon, _⟩ :: ls => (plain (sliceFrom first ls)).map fun (bounds, ls) => (.slice bounds, ls)
    | ls =>
      match first with
      | some i => .ok (.child (.index i), ls)
      | none => .error (.expected .selector ls)) := by
  unfold position
  cases optionalInteger ls with
  | error e => rfl
  | ok x =>
    obtain ⟨first, ls, h⟩ := x
    match ls, h with
    | [], _ => cases first <;> rfl
    | ⟨lx, _⟩ :: ls, h =>
      cases lx with
      | colon =>
        show plain (sliceFrom first ls >>= _) = Except.map _ (plain (sliceFrom first ls))
        cases sliceFrom first ls <;> rfl
      | _ => cases first <;> rfl

/-! ## Literals and keys -/

theorem plain_literal (ls : List Placed) : plain (literal ls) = match ls with
    | ⟨.number n, p⟩ :: ls => (numberLiteral n (⟨.number n, p⟩ :: ls)).map fun l => (l, ls)
    | ⟨.string s, _⟩ :: ls => .ok (.string s, ls)
    | ⟨.name c s, p⟩ :: ls =>
      match namedLiterals.lookup (c :: s) with
      | some l => .ok (l, ls)
      | none => .error (.expected .literal (⟨.name c s, p⟩ :: ls))
    | ls => .error (.expected .literal ls) := by
  match ls with
  | [] => rfl
  | ⟨lx, p⟩ :: ls =>
    cases lx with
    | number n =>
      show plain (numberLiteral n _ >>= _) = Except.map _ (numberLiteral n _)
      cases numberLiteral n _ <;> rfl
    | name c s =>
      dsimp only [literal]
      cases namedLiterals.lookup (c :: s) <;> rfl
    | _ => rfl

theorem plain_descentKey (ls : List Placed) : plain (descentKey ls) = match ls with
    | ⟨.string s, p⟩ :: ls =>
      if h : s ≠ [] then
        match ls with
        | ⟨.rightBracket, _⟩ :: ls => .ok (⟨s, h⟩, ls)
        | ls => .error (.expected .descentEnd ls)
      else .error (.fault .emptyDescentKey (⟨.string s, p⟩ :: ls))
    | ls => .error (.expected .descentKey ls) := by
  match ls with
  | [] => rfl
  | ⟨lx, p⟩ :: ls =>
    cases lx with
    | string s =>
      dsimp only [descentKey]
      split
      · match ls with
        | [] => rfl
        | ⟨ly, q⟩ :: ls => cases ly <;> rfl
      · rfl
    | _ => rfl

/-! ## Paths, segments and selectors -/

/-- A path that starts with a segment. -/
theorem plain_unopened (ls : List Placed) : plain (do
    let (ts, rest) ← segments ls
    match ts with
    | [] => .error (.expected .start ls)
    | t :: ts => return ((t, ts), rest)) = (do
      let (ts, left) ← plain (segments ls)
      match ts with
      | [] => .error (.expected .start ls)
      | t :: ts => .ok ((t, ts), left)) := by
  cases segments ls with
  | error e => rfl
  | ok x =>
    obtain ⟨ts, left, h⟩ := x
    cases ts <;> rfl

theorem plain_path (ls : List Placed) : plain (path ls) = match ls with
    | ⟨.root, _⟩ :: ls => (plain (segments ls)).map fun (ts, ls) => ((.root, ts), ls)
    | ⟨.current, _⟩ :: ls => (plain (segments ls)).map fun (ts, ls) => ((.current, ts), ls)
    | ⟨.name c s, _⟩ :: ls => (plain (segments ls)).map fun (ts, ls) => ((.child (.name (c :: s)), ts), ls)
    | ls => (do
      let (ts, left) ← plain (segments ls)
      match ts with
      | [] => .error (.expected .start ls)
      | t :: ts => .ok ((t, ts), left)) := by
  rw [path.eq_def]
  match ls with
  | [] => exact plain_unopened []
  | ⟨lx, p⟩ :: ls =>
    cases lx with
    | root =>
      dsimp only
      cases segments ls <;> rfl
    | current =>
      dsimp only
      cases segments ls <;> rfl
    | name c s =>
      dsimp only
      cases segments ls <;> rfl
    | _ => exact plain_unopened (_ :: ls)

theorem plain_segments (ls : List Placed) : plain (segments ls) = match ls with
    | ⟨.dot, _⟩ :: ⟨.star, _⟩ :: ls => (plain (segments ls)).map fun (ts, ls) => (.wildcard :: ts, ls)
    | ⟨.dot, _⟩ :: ⟨.name c s, _⟩ :: ls =>
      (plain (segments ls)).map fun (ts, ls) => (.child (.name (c :: s)) :: ts, ls)
    | ⟨.dot, _⟩ :: ls => .error (.expected .nameOrStar ls)
    | ⟨.dots, _⟩ :: ⟨.name c s, _⟩ :: ls =>
      (plain (segments ls)).map fun (ts, ls) => (.descend (c :: s) (List.cons_ne_nil c s) :: ts, ls)
    | ⟨.dots, _⟩ :: ⟨.leftBracket, _⟩ :: ls => do
      let (key, ls) ← plain (descentKey ls)
      (plain (segments ls)).map fun (ts, ls) => (.descend key.val key.property :: ts, ls)
    | ⟨.dots, _⟩ :: ls => .error (.expected .nameOrBracket ls)
    | ⟨.leftBracket, _⟩ :: ls => do
      let (s, ls) ← plain (selector ls)
      let (ss, ls) ← plain (selectors ls)
      match ls with
      | ⟨.rightBracket, _⟩ :: ls =>
        (plain (segments ls)).map fun (ts, ls) =>
          ((match ss with
            | [] => Token.select s
            | _ :: _ => Token.union s ss) :: ts, ls)
      | ls => .error (.expected .selectorEnd ls)
    | ls => .ok ([], ls) := by
  rw [segments.eq_def]
  match ls with
  | [] => rfl
  | ⟨lx, _⟩ :: ls =>
    cases lx with
    | dot =>
      match ls with
      | [] => rfl
      | ⟨ly, _⟩ :: ls =>
        cases ly with
        | star =>
          dsimp only
          cases segments ls <;> rfl
        | name c s =>
          dsimp only
          cases segments ls <;> rfl
        | _ => rfl
    | dots =>
      match ls with
      | [] => rfl
      | ⟨ly, _⟩ :: ls =>
        cases ly with
        | name c s =>
          dsimp only
          cases segments ls <;> rfl
        | leftBracket =>
          dsimp only
          cases descentKey ls with
          | error e => rfl
          | ok x =>
            obtain ⟨key, ls, h⟩ := x
            show plain (segments ls >>= _) = Except.map _ (plain (segments ls))
            cases segments ls <;> rfl
        | _ => rfl
    | leftBracket =>
      dsimp only
      cases selector ls with
      | error e => rfl
      | ok x =>
        obtain ⟨s, ls, h⟩ := x
        show plain (selectors ls >>= _) = (plain (selectors ls) >>= _)
        cases selectors ls with
        | error e => rfl
        | ok x =>
          obtain ⟨ss, ls, h'⟩ := x
          match ls, h' with
          | [], _ => rfl
          | ⟨ly, _⟩ :: ls, h' =>
            cases ly with
            | rightBracket =>
              show plain (segments ls >>= _) = Except.map _ (plain (segments ls))
              cases segments ls <;> rfl
            | _ => rfl
    | _ => rfl

theorem plain_selectors (ls : List Placed) : plain (selectors ls) = match ls with
    | ⟨.comma, _⟩ :: ls => do
      let (s, ls) ← plain (selector ls)
      (plain (selectors ls)).map fun (ss, ls) => (s :: ss, ls)
    | ls => .ok ([], ls) := by
  rw [selectors.eq_def]
  match ls with
  | [] => rfl
  | ⟨lx, _⟩ :: ls =>
    cases lx with
    | comma =>
      dsimp only
      cases selector ls with
      | error e => rfl
      | ok x =>
        obtain ⟨s, ls, h⟩ := x
        show plain (selectors ls >>= _) = Except.map _ (plain (selectors ls))
        cases selectors ls <;> rfl
    | _ => rfl

theorem plain_selector (ls : List Placed) : plain (selector ls) = match ls with
    | ⟨.star, _⟩ :: ls => .ok (.wildcard, ls)
    | ⟨.question, _⟩ :: ⟨.leftParen, _⟩ :: ls => do
      let (p, ls) ← plain (path ls)
      match ls with
      | ⟨.operator op, _⟩ :: ls => do
        let (l, ls) ← plain (literal ls)
        match ls with
        | ⟨.rightParen, _⟩ :: ls => .ok (.filter none p.1 p.2 op l, ls)
        | ls => .error (.expected .filterEnd ls)
      | ls => .error (.expected .operator ls)
    | ⟨.question, _⟩ :: ls => .error (.expected .filterStart ls)
    | ⟨.string s, _⟩ :: ls => .ok (.child (.name s), ls)
    | ls => plain (position ls) := by
  rw [selector.eq_def]
  match ls with
  | [] => rfl
  | ⟨lx, _⟩ :: ls =>
    cases lx with
    | question =>
      match ls with
      | [] => rfl
      | ⟨ly, _⟩ :: ls =>
        cases ly with
        | leftParen =>
          dsimp only
          cases path ls with
          | error e => rfl
          | ok x =>
            obtain ⟨⟨head, tail⟩, ls, h⟩ := x
            match ls, h with
            | [], _ => rfl
            | ⟨lz, _⟩ :: ls, h =>
              cases lz with
              | operator op =>
                show plain (literal ls >>= _) = (plain (literal ls) >>= _)
                cases literal ls with
                | error e => rfl
                | ok x =>
                  obtain ⟨l, ls, h'⟩ := x
                  match ls, h' with
                  | [], _ => rfl
                  | ⟨lw, _⟩ :: ls, h' => cases lw <;> rfl
              | _ => rfl
        | _ => rfl
    | _ => rfl

/-- What is read behind the path `p` of a filter. -/
def comparison (p : Token × List Token) (ls : List Placed) : Except Failure (Selector × List Placed) :=
  match ls with
  | ⟨.operator op, _⟩ :: ls => do
    let (l, ls) ← plain (literal ls)
    match ls with
    | ⟨.rightParen, _⟩ :: ls => .ok (.filter none p.1 p.2 op l, ls)
    | ls => .error (.expected .filterEnd ls)
  | ls => .error (.expected .operator ls)

/-- A path has to leave nothing. -/
theorem whole_eq (ls : List Placed) : whole ls = (do
    let (p, left) ← plain (path ls)
    match left with
    | [] => .ok p
    | left => .error (.expected .ending left)) := by
  unfold whole
  cases path ls with
  | error e => rfl
  | ok x =>
    obtain ⟨p, left, h⟩ := x
    match left, h with
    | [], _ => rfl
    | _ :: _, _ => rfl

end Parse

end TreePath
