import TreePath.Proofs.CheckedWords
import TreePath.Proofs.Failing

/-!
# The two readers agree

On the words of lexemes that a text has, the reader with every check made gives what the reading functions give
(`AgreesAt`, `compile_eq`). So no reader asks for a word behind the end of the text, no number is rejected for its form,
no token that is read is refused, and the bound on the depth of the calls is never reached.

The proof goes by induction on that bound; each function that is bounded agrees if all of them do for the next smaller
bound, on fewer lexemes.
-/

namespace TreePath

/-- An error as a reader reports it. -/
def CompileError.stop : CompileError → Checked.Stop
  | .malformed e => .malformed e.fault.message e.position
  | .tooManyDigits k => .tooManyDigits k

namespace Checked

open Parse (Failure plain)

/-! ## Results -/

section Results

variable {α β γ δ : Type} {text : Text}

/-- The result of a reading function as the result of a reader, where `f` turns what is read into what is offered. -/
def lift (text : Text) (f : α → β) : Except Failure (α × List Placed) → Except Stop (β × List Word)
  | .ok (x, left) => .ok (f x, wordsOf text left)
  | .error e => .error (e.toError text).stop

/-- A reader that goes on as a reading function does gives what that function gives. -/
theorem lift_bind {c : Reader β} {k : β → Reader δ} {ws : List Word} {r : Except Failure (α × List Placed)}
    {h : α × List Placed → Except Failure (γ × List Placed)} {f : α → β} {g : γ → δ} (hc : c ws = lift text f r)
    (hk : ∀ x left, r = .ok (x, left) → k (f x) (wordsOf text left) = lift text g (h (x, left))) :
    (c >>= k) ws = lift text g (r >>= h) := by
  change (c ws >>= fun p => k p.1 p.2) = _
  rw [hc]
  cases r with
  | error e => rfl
  | ok x => exact hk x.1 x.2 rfl

theorem lift_map {c : Reader β} {k : β → Reader δ} {ws : List Word} {r : Except Failure (α × List Placed)}
    {h : α × List Placed → γ × List Placed} {f : α → β} {g : γ → δ} (hc : c ws = lift text f r)
    (hk : ∀ x left, k (f x) (wordsOf text left) = lift text g (.ok (h (x, left)))) :
    (c >>= k) ws = lift text g (r.map h) := by
  change (c ws >>= fun p => k p.1 p.2) = _
  rw [hc]
  cases r with
  | error e => rfl
  | ok x => exact hk x.1 x.2

/-- What has passed a check is gone on with. -/
theorem offered_ok (x : α) (k : α → Reader β) : (offered (.ok x) >>= k) = k x := rfl

end Results

/-! ## Words of lexemes -/

/-- The numerals among the lexemes are such as can be written. -/
def Written (ls : List Placed) : Prop := ∀ n, Lexeme.number n ∈ ls.map Placed.lexeme → n.IsWritten

theorem Written.suffix {ls left : List Placed} (h : Written ls) (hsuffix : left <:+ ls) : Written left :=
  fun n hn => h n ((hsuffix.map Placed.lexeme).subset hn)

theorem Written.tail {x : Placed} {ls : List Placed} (h : Written (x :: ls)) : Written ls :=
  h.suffix (List.suffix_cons x ls)

theorem Written.head {n : Numeral} {p : Nat} {ls : List Placed} (h : Written (⟨.number n, p⟩ :: ls)) : n.IsWritten :=
  h n List.mem_cons_self

variable {text : Text}

/-- A failure names the word at hand, or the end of the text. -/
theorem fail_wordsOf {α β : Type} (what : Expectation) (f : α → β) (ls : List Placed) :
    (fail what : Reader β) (wordsOf text ls) = lift text f (.error (.expected what ls)) := by
  have hend : ∀ m : Text, m ++ (", found " : Text) ++ ("end of path" : Text) = m ++ (", found end of path" : Text) :=
    fun m => List.append_assoc m _ _
  cases ls with
  | nil => exact congrArg (fun m => Except.error (Stop.malformed m text.length)) (hend what.message)
  | cons x ls =>
    obtain ⟨lx, p⟩ := x
    cases lx <;> rfl

/-! ## Checks that are passed -/

theorem operatorOf_text (op : Operator) : Token.operatorOf (.string op.text) = .ok op := by
  cases op <;> rfl

theorem ofOffers_token (ts : List Token) (source : Option Text) :
    Path.ofOffers (ts.map .token) source = .ok ⟨ts, source⟩ := by
  have htokens : Path.tokensOf (ts.map .token) = .ok ts := by
    induction ts with
    | nil => rfl
    | cons t ts ih =>
      rw [List.map_cons, Path.tokensOf, ih]
      rfl
  rw [Path.ofOffers, htokens]
  rfl

theorem bracketsOf_select (s : Selector) (ss : List Selector) :
    bracketsOf (.select s) (ss.map .select) = .ok (match ss with
      | [] => .select s
      | _ :: _ => .union s ss) := by
  have hselectors : ∀ ss : List Selector, Token.selectorsOf ((ss.map Token.select).map .token) = .ok ss := by
    intro ss
    induction ss with
    | nil => rfl
    | cons s ss ih =>
      rw [List.map_cons, List.map_cons, Token.selectorsOf, ih]
      rfl
  cases ss with
  | nil => rfl
  | cons s' ss =>
    change Token.unionOf (((s :: s' :: ss).map .select).map .token) = _
    rw [List.map_cons, List.map_cons, Token.unionOf, ← List.map_cons, ← List.map_cons, hselectors]
    rfl

theorem sliceOf_int (i : Int) (last : Option Int) {k : Nat} (hk : 0 < k) :
    Token.sliceOf (.int i) (last.elim .openEnd .int) (.int k) = .ok (.select (.slice ⟨i, last, k, hk⟩)) := by
  have hpos : 0 < (k : Int) := Int.natCast_pos.2 hk
  cases last with
  | none => exact dif_pos hpos
  | some j => exact dif_pos hpos

theorem ofValue?_toValue (l : Literal) : Literal.ofValue? l.toValue = some l := by
  cases l <;> rfl

theorem filterOf_text (op : Operator) (head : Token) (tail : List Token) (l : Literal) :
    filterOf op.text (head :: tail) l.toValue = .ok (.select (.filter none head tail op l)) := by
  rw [filterOf, operatorOf_text, ofOffers_token]
  change Token.filterOver op ⟨head :: tail, none⟩ l.toValue = _
  rw [Token.filterOver, ofValue?_toValue]

theorem descendOf_ne {s : Text} (h : s ≠ []) : Token.descendOf (.string s) = .ok (.descend s h) := dif_pos h

/-! ## Numbers -/

/-- What has the form of an integer is an integer numeral. -/
theorem isIntegerText_text {n : Numeral} (h : n.IsWritten) : isIntegerText n.text = n.isInteger := by
  obtain ⟨negative, whole, fraction, power⟩ := n
  have hwhole : whole.all CodePoint.isDigit = true := List.all_eq_true.2 h.whole.2
  have hne : ∀ r : Text, (whole ++ r).isEmpty = false := fun r =>
    List.isEmpty_eq_false_iff.2 (List.append_ne_nil_of_left_ne_nil h.whole.1 r)
  unfold isIntegerText Numeral.text Numeral.isInteger
  simp only [List.append_assoc]
  rw [Numeral.minus_append negative h.whole]
  dsimp only
  rw [hne, List.all_append, hwhole, List.all_append]
  cases fraction with
  | some f => rfl
  | none =>
    cases power with
    | none => rfl
    | some p =>
      have hmark : p.mark.isDigit = false := by
        rcases (h.power p rfl).mark with hm | hm <;> rw [hm] <;> decide
      simp [Numeral.Power.text, hmark]

/-- **A numeral is never rejected for its form.** -/
theorem toInteger_text {n : Numeral} (h : n.IsWritten) (hinteger : n.isInteger = true) (p : Nat) (ls : List Placed) :
    toInteger n.text (wordsOf text ls) =
      lift text id ((Parse.integer n (⟨.number n, p⟩ :: ls)).map fun i => (i, ls)) := by
  unfold toInteger Parse.integer
  rw [Numeral.read?_text h]
  dsimp only
  rw [hinteger]
  by_cases hlong : Parse.digitLimit < n.whole.length
  · simp only [Bool.not_true, Bool.false_eq_true, if_false, if_pos hlong]
    rfl
  · simp only [Bool.not_true, Bool.false_eq_true, if_false, if_neg hlong]
    rfl

theorem integer_wordsOf {n : Numeral} (h : n.IsWritten) (p : Nat) (ls : List Placed) :
    integer (wordsOf text (⟨.number n, p⟩ :: ls)) =
      lift text id ((Parse.integer n (⟨.number n, p⟩ :: ls)).map fun i => (i, ls)) := by
  change (if isIntegerText n.text then toInteger n.text
    else throw (.malformed ("Expected an integer, found " ++ n.text.display) p)) (wordsOf text ls) = _
  rw [isIntegerText_text h]
  cases hinteger : n.isInteger with
  | true => exact toInteger_text h hinteger p ls
  | false =>
    unfold Parse.integer
    rw [hinteger]
    rfl

theorem optionalInteger_wordsOf {ls : List Placed} (hw : Written ls) :
    optionalInteger (wordsOf text ls) = lift text id (plain (Parse.optionalInteger ls)) := by
  rw [Parse.plain_optionalInteger]
  match ls with
  | [] => rfl
  | ⟨lx, p⟩ :: ls =>
    cases lx with
    | number n =>
      change (integer (wordsOf text (⟨.number n, p⟩ :: ls))).map _ = _
      rw [integer_wordsOf hw.head]
      dsimp only
      cases Parse.integer n (⟨.number n, p⟩ :: ls) <;> rfl
    | _ => rfl

theorem positive_wordsOf {n : Numeral} (h : n.IsWritten) (p : Nat) (ls : List Placed) :
    positive (wordsOf text (⟨.number n, p⟩ :: ls)) =
      lift text (fun k => (k.val : Int)) ((Parse.positive n (⟨.number n, p⟩ :: ls)).map fun k => (k, ls)) := by
  change (integer (wordsOf text (⟨.number n, p⟩ :: ls)) >>= fun r =>
    (if r.1 ≤ 0 then throw (.malformed "Slice step must be a positive integer" p) else pure r.1 : Reader Int) r.2) = _
  rw [integer_wordsOf h, Parse.positive]
  cases Parse.integer n (⟨.number n, p⟩ :: ls) with
  | error e => rfl
  | ok i =>
    change (if i ≤ 0 then throw (.malformed "Slice step must be a positive integer" p) else pure i : Reader Int)
      (wordsOf text ls) = lift text _ (Except.map _ (dite (0 < i) _ _))
    by_cases hi : 0 < i
    · rw [if_neg (Int.not_le.2 hi), dif_pos hi]
      exact congrArg (fun k => Except.ok (k, wordsOf text ls)) (Int.toNat_of_nonneg (Int.le_of_lt hi)).symm
    · rw [if_pos (Int.not_lt.1 hi), dif_neg hi]
      rfl

/-- The end of a slice behind its last bound. -/
theorem step_wordsOf (first : Int) (last : Option Int) (ls : List Placed) : Written ls →
    (step >>= fun k => offered (Token.sliceOf (.int first) (last.elim .openEnd .int) (.int k))) (wordsOf text ls) =
      lift text (fun bounds => Token.select (.slice bounds)) (match ls with
        | ⟨.colon, _⟩ :: ⟨.number n, p⟩ :: ls =>
          (Parse.positive n (⟨.number n, p⟩ :: ls)).map fun k => (⟨first, last, k.val, k.property⟩, ls)
        | ⟨.colon, _⟩ :: ls => .ok (⟨first, last, 1, Nat.one_pos⟩, ls)
        | ls => .ok (⟨first, last, 1, Nat.one_pos⟩, ls)) := by
  intro hw
  have hslice : ∀ {k : Nat} (hk : 0 < k) (ws : List Word),
      (offered (Token.sliceOf (.int first) (last.elim .openEnd .int) (.int k)) : Reader Token) ws =
        .ok (.select (.slice ⟨first, last, k, hk⟩), ws) := fun hk ws => by
    rw [sliceOf_int first last hk]
    rfl
  match ls with
  | [] => exact hslice Nat.one_pos _
  | ⟨lx, p⟩ :: ls =>
    cases lx with
    | colon =>
      match ls with
      | [] => exact hslice Nat.one_pos _
      | ⟨ly, q⟩ :: ls =>
        cases ly with
        | number n =>
          change (positive (wordsOf text (⟨.number n, q⟩ :: ls)) >>= fun r =>
            offered (Token.sliceOf (.int first) (last.elim .openEnd .int) (.int r.1)) r.2) = _
          rw [positive_wordsOf hw.tail.head]
          dsimp only
          cases Parse.positive n (⟨.number n, q⟩ :: ls) with
          | error e => rfl
          | ok k => exact hslice k.property _
        | _ => exact hslice Nat.one_pos _
    | _ => exact hslice Nat.one_pos _

/-- A slice behind its first colon. -/
theorem sliceFrom_wordsOf (first : Option Int) {ls : List Placed} (hw : Written ls) :
    sliceFrom first (wordsOf text ls) =
      lift text (fun bounds => Token.select (.slice bounds)) (plain (Parse.sliceFrom first ls)) := by
  rw [Parse.plain_sliceFrom]
  refine lift_bind (optionalInteger_wordsOf hw) fun last left hleft => ?_
  exact step_wordsOf (first.getD 0) last left (hw.suffix ((Parse.optionalInteger_within ls).suffix hleft))

theorem position_wordsOf {ls : List Placed} (hw : Written ls) :
    position (wordsOf text ls) = lift text Token.select (plain (Parse.position ls)) := by
  rw [Parse.plain_position]
  refine lift_bind (optionalInteger_wordsOf hw) fun first left hleft => ?_
  have hw' := hw.suffix ((Parse.optionalInteger_within ls).suffix hleft)
  match left with
  | [] =>
    cases first with
    | none => exact fail_wordsOf .selector Token.select []
    | some i => rfl
  | ⟨lx, p⟩ :: left =>
    cases lx with
    | colon =>
      change sliceFrom first (wordsOf text left) = _
      rw [sliceFrom_wordsOf first hw'.tail]
      dsimp only
      cases plain (Parse.sliceFrom first left) <;> rfl
    | _ =>
      cases first with
      | none => exact fail_wordsOf .selector Token.select (_ :: left)
      | some i => rfl

theorem literal_wordsOf {ls : List Placed} (hw : Written ls) :
    literal (wordsOf text ls) = lift text Literal.toValue (plain (Parse.literal ls)) := by
  rw [Parse.plain_literal]
  match ls with
  | [] => exact fail_wordsOf .literal Literal.toValue []
  | ⟨lx, p⟩ :: ls =>
    cases lx with
    | number n =>
      change numberLiteral (wordOf ⟨.number n, p⟩) (wordsOf text ls) = _
      have hform : isIntegerText (wordOf ⟨.number n, p⟩).text = n.isInteger := isIntegerText_text hw.head
      dsimp only
      unfold numberLiteral Parse.numberLiteral
      rw [hform]
      cases hinteger : n.isInteger with
      | true =>
        change (toInteger n.text (wordsOf text ls)).map _ = lift text _ (Except.map _ (Except.map _ _))
        rw [toInteger_text hw.head hinteger p ls]
        cases Parse.integer n (⟨.number n, p⟩ :: ls) <;> rfl
      | false =>
        have hfloat : toFloat (wordOf ⟨.number n, p⟩).text = pure (Binary64.ofNumeral n) := by
          change toFloat n.text = _
          rw [toFloat, Numeral.read?_text hw.head]
        rw [hfloat]
        cases Binary64.ofNumeral n <;> rfl
    | string s => rfl
    | name c s =>
      change nameLiteral (wordOf ⟨.name c s, p⟩) (wordsOf text (⟨.name c s, p⟩ :: ls)) = _
      have htext : (wordOf ⟨.name c s, p⟩).text = c :: s := rfl
      dsimp only
      rw [nameLiteral, htext]
      cases Parse.namedLiterals.lookup (c :: s) with
      | some l => rfl
      | none => exact fail_wordsOf .literal Literal.toValue (_ :: ls)
    | _ => exact fail_wordsOf .literal Literal.toValue (_ :: ls)

/-! ## Paths -/

theorem bracketedKey_wordsOf (ls : List Placed) :
    bracketedKey (wordsOf text ls) = lift text Subtype.val (plain (Parse.descentKey ls)) := by
  rw [Parse.plain_descentKey]
  match ls with
  | [] => exact fail_wordsOf .descentKey Subtype.val []
  | ⟨lx, p⟩ :: ls =>
    cases lx with
    | string s =>
      change (if s = [] then throw (.malformed "Recursive descent key must not be empty" p)
        else expect .rightBracket .descentEnd >>= fun _ => pure s : Reader Text) (wordsOf text ls) = _
      dsimp only
      by_cases hs : s = []
      · rw [if_pos hs, dif_neg (not_not.2 hs)]
        rfl
      · rw [if_neg hs, dif_pos hs]
        match ls with
        | [] => exact fail_wordsOf .descentEnd Subtype.val []
        | ⟨ly, q⟩ :: ls =>
          cases ly with
          | rightBracket => rfl
          | _ => exact fail_wordsOf .descentEnd Subtype.val (_ :: ls)
    | _ => exact fail_wordsOf .descentKey Subtype.val (_ :: ls)

/-- With the bound `fuel` the readers of paths and of their parts agree with the reading functions, on lexemes that are
few enough for the bound: two calls for each lexeme, and one more for a path, which may call for its segments before
anything is taken. -/
structure AgreesAt (text : Text) (fuel : Nat) : Prop where
  path : ∀ {ls}, Written ls → 2 * ls.length + 1 < fuel →
    path fuel (wordsOf text ls) = lift text (fun p => p.1 :: p.2) (plain (Parse.path ls))
  segments : ∀ {ls}, Written ls → 2 * ls.length < fuel →
    segments fuel (wordsOf text ls) = lift text id (plain (Parse.segments ls))
  selectors : ∀ {ls}, Written ls → 2 * ls.length < fuel →
    selectors fuel (wordsOf text ls) = lift text (List.map Token.select) (plain (Parse.selectors ls))
  selector : ∀ {ls}, Written ls → 2 * ls.length < fuel →
    selector fuel (wordsOf text ls) = lift text Token.select (plain (Parse.selector ls))

variable {fuel : Nat}

theorem selectors_agree (ih : AgreesAt text fuel) {ls : List Placed} (hw : Written ls)
    (hfuel : 2 * ls.length < fuel + 1) :
    selectors (fuel + 1) (wordsOf text ls) = lift text (List.map Token.select) (plain (Parse.selectors ls)) := by
  rw [Parse.plain_selectors]
  match ls with
  | [] => rfl
  | ⟨lx, p⟩ :: ls =>
    cases lx with
    | comma =>
      rw [List.length_cons] at hfuel
      change (selector fuel >>= fun s => selectors fuel >>= fun ss => pure (s :: ss)) (wordsOf text ls) = _
      refine lift_bind (ih.selector hw.tail (by omega)) fun s left hs => ?_
      have hleft := (Parse.within ls).selector.suffix hs
      have hle := hleft.length_le
      exact lift_map (ih.selectors (hw.tail.suffix hleft) (by omega)) fun ss left => rfl
    | _ => rfl

theorem selector_agree (ih : AgreesAt text fuel) {ls : List Placed} (hw : Written ls)
    (hfuel : 2 * ls.length < fuel + 1) :
    selector (fuel + 1) (wordsOf text ls) = lift text Token.select (plain (Parse.selector ls)) := by
  rw [Parse.plain_selector]
  match ls with
  | [] => exact position_wordsOf hw
  | ⟨lx, p⟩ :: ls =>
    cases lx with
    | star => rfl
    | string s => rfl
    | question =>
      match ls with
      | [] => exact fail_wordsOf .filterStart Token.select []
      | ⟨ly, q⟩ :: ls =>
        cases ly with
        | leftParen =>
          simp only [List.length_cons] at hfuel
          change (Checked.path fuel >>= fun tokens => expect .operator .operator >>= fun w => literal >>= fun l =>
            offered (filterOf w.text tokens l) >>= fun t => expect .rightParen .filterEnd >>= fun _ => pure t)
            (wordsOf text ls) = _
          refine lift_bind (ih.path hw.tail.tail (by omega)) fun path left hpath => ?_
          -- What the path leaves has to start with an operator, and what the literal leaves with the parenthesis.
          have hleft := (Parse.path_within fun ls' _ => Parse.within ls').suffix hpath
          have hw' := hw.tail.tail.suffix hleft
          match left with
          | [] => exact fail_wordsOf .operator Token.select []
          | ⟨lz, r⟩ :: left =>
            cases lz with
            | operator op =>
              change (literal >>= fun l => offered (filterOf op.text (path.1 :: path.2) l) >>= fun t =>
                expect .rightParen .filterEnd >>= fun _ => pure t) (wordsOf text left) = _
              refine lift_bind (literal_wordsOf hw'.tail) fun l left' hl => ?_
              rw [filterOf_text, offered_ok]
              match left' with
              | [] => exact fail_wordsOf .filterEnd Token.select []
              | ⟨lu, u⟩ :: left' =>
                cases lu with
                | rightParen => rfl
                | _ => exact fail_wordsOf .filterEnd Token.select (_ :: left')
            | _ => exact fail_wordsOf .operator Token.select (_ :: left)
        | _ => exact fail_wordsOf .filterStart Token.select (_ :: ls)
    | _ => exact position_wordsOf hw

theorem segments_agree (ih : AgreesAt text fuel) {ls : List Placed} (hw : Written ls)
    (hfuel : 2 * ls.length < fuel + 1) :
    segments (fuel + 1) (wordsOf text ls) = lift text id (plain (Parse.segments ls)) := by
  rw [Parse.plain_segments]
  match ls with
  | [] => rfl
  | ⟨lx, p⟩ :: ls =>
    cases lx with
    | dot =>
      match ls with
      | [] => exact fail_wordsOf .nameOrStar id []
      | ⟨ly, q⟩ :: ls =>
        simp only [List.length_cons] at hfuel
        cases ly with
        | star =>
          change (segments fuel >>= fun ts => pure (Token.wildcard :: ts)) (wordsOf text ls) = _
          exact lift_map (ih.segments hw.tail.tail (by omega)) fun ts left => rfl
        | name c s =>
          change (segments fuel >>= fun ts => pure (Token.child (.name (c :: s)) :: ts)) (wordsOf text ls) = _
          exact lift_map (ih.segments hw.tail.tail (by omega)) fun ts left => rfl
        | _ => exact fail_wordsOf .nameOrStar id (_ :: ls)
    | dots =>
      match ls with
      | [] => exact fail_wordsOf .nameOrBracket id []
      | ⟨ly, q⟩ :: ls =>
        simp only [List.length_cons] at hfuel
        cases ly with
        | name c s =>
          change (segments fuel >>= fun ts => pure (Token.descend (c :: s) (List.cons_ne_nil c s) :: ts))
            (wordsOf text ls) = _
          exact lift_map (ih.segments hw.tail.tail (by omega)) fun ts left => rfl
        | leftBracket =>
          change (bracketedKey >>= fun key => offered (Token.descendOf (.string key)) >>= fun t =>
            segments fuel >>= fun ts => pure (t :: ts)) (wordsOf text ls) = _
          refine lift_bind (bracketedKey_wordsOf ls) fun key left hkey => ?_
          have hleft := (Parse.descentKey_within ls).suffix hkey
          have hle := hleft.length_le
          rw [descendOf_ne key.property, offered_ok]
          exact lift_map (ih.segments (hw.tail.tail.suffix hleft) (by omega)) fun ts left => rfl
        | _ => exact fail_wordsOf .nameOrBracket id (_ :: ls)
    | leftBracket =>
      rw [List.length_cons] at hfuel
      change (selector fuel >>= fun first => selectors fuel >>= fun others => expect .rightBracket .selectorEnd >>=
        fun _ => offered (bracketsOf first others) >>= fun t => segments fuel >>= fun ts => pure (t :: ts))
        (wordsOf text ls) = _
      refine lift_bind (ih.selector hw.tail (by omega)) fun s mid hs => ?_
      have hmid := (Parse.within ls).selector.suffix hs
      have hle := hmid.length_le
      refine lift_bind (ih.selectors (hw.tail.suffix hmid) (by omega)) fun ss left hss => ?_
      have hleft := (Parse.within mid).selectors.suffix hss
      have hle' := hleft.length_le
      have hw' := (hw.tail.suffix hmid).suffix hleft
      -- What the selectors leave has to start with the closing bracket.
      match left with
      | [] => exact fail_wordsOf .selectorEnd id []
      | ⟨ly, q⟩ :: left =>
        cases ly with
        | rightBracket =>
          rw [List.length_cons] at hle'
          change (offered (bracketsOf (.select s) (ss.map .select)) >>= fun t =>
            segments fuel >>= fun ts => pure (t :: ts)) (wordsOf text left) = _
          rw [bracketsOf_select, offered_ok]
          exact lift_map (ih.segments hw'.tail (by omega)) fun ts left => rfl
        | _ => exact fail_wordsOf .selectorEnd id (_ :: left)
    | _ => rfl

/-- A path that starts with a segment. If there is none, the path is missed where it should have started. -/
theorem unopened_agree (ih : AgreesAt text fuel) {ls : List Placed} (hw : Written ls)
    (hfuel : 2 * ls.length + 1 < fuel + 1) (hopening : opening (wordsOf text ls) = .ok ([], wordsOf text ls)) :
    Checked.path (fuel + 1) (wordsOf text ls) = lift text (fun p => p.1 :: p.2) (do
      let (ts, left) ← plain (Parse.segments ls)
      match ts with
      | [] => .error (.expected .start ls)
      | t :: ts => .ok ((t, ts), left)) := by
  change (opening (wordsOf text ls) >>= fun r => (segments fuel >>= fun rest =>
    if (r.1 ++ rest).isEmpty then fail .start else pure (r.1 ++ rest)) r.2) = _
  rw [hopening]
  change (segments fuel >>= fun rest => if rest.isEmpty then fail .start else pure rest) (wordsOf text ls) = _
  refine lift_bind (ih.segments hw (by omega)) fun ts left hts => ?_
  cases ts with
  | nil =>
    rw [Parse.eq_of_segments_nil hts]
    exact fail_wordsOf .start _ ls
  | cons t ts => rfl

theorem path_agree (ih : AgreesAt text fuel) {ls : List Placed} (hw : Written ls)
    (hfuel : 2 * ls.length + 1 < fuel + 1) :
    Checked.path (fuel + 1) (wordsOf text ls) = lift text (fun p => p.1 :: p.2) (plain (Parse.path ls)) := by
  rw [Parse.plain_path]
  match ls with
  | [] => exact unopened_agree ih hw hfuel rfl
  | ⟨lx, p⟩ :: ls =>
    cases lx with
    | root =>
      rw [List.length_cons] at hfuel
      change (segments fuel >>= fun ts => pure (Token.root :: ts)) (wordsOf text ls) = _
      exact lift_map (ih.segments hw.tail (by omega)) fun ts left => rfl
    | current =>
      rw [List.length_cons] at hfuel
      change (segments fuel >>= fun ts => pure (Token.current :: ts)) (wordsOf text ls) = _
      exact lift_map (ih.segments hw.tail (by omega)) fun ts left => rfl
    | name c s =>
      rw [List.length_cons] at hfuel
      change (segments fuel >>= fun ts => pure (Token.child (.name (c :: s)) :: ts)) (wordsOf text ls) = _
      exact lift_map (ih.segments hw.tail (by omega)) fun ts left => rfl
    | _ => exact unopened_agree ih hw hfuel rfl

theorem agreesAt (text : Text) (fuel : Nat) : AgreesAt text fuel := by
  induction fuel with
  | zero => exact ⟨by omega, by omega, by omega, by omega⟩
  | succ fuel ih => exact ⟨path_agree ih, segments_agree ih, selectors_agree ih, selector_agree ih⟩

/-! ## Whole texts -/

theorem whole_wordsOf {ls : List Placed} (hw : Written ls) (hfuel : 2 * ls.length + 1 < fuel) :
    StateT.run' (whole text fuel) (wordsOf text ls) =
      ((Parse.whole ls).mapError fun e => (e.toError text).stop).map fun p => ⟨p.1 :: p.2, some text⟩ := by
  have hread : whole text fuel (wordsOf text ls) =
      lift text (fun p => Path.mk (p.1 :: p.2) (some text)) (plain (Parse.path ls) >>= fun x =>
        if x.2 = [] then .ok (x.1, []) else .error (.expected .ending x.2)) := by
    refine lift_bind ((agreesAt text fuel).path hw hfuel) fun p left _ => ?_
    match left with
    | [] =>
      change offered (Path.ofOffers ((p.1 :: p.2).map .token) (some text)) (wordsOf text []) = _
      rw [ofOffers_token]
      rfl
    | ⟨lx, q⟩ :: left =>
      rw [if_neg (List.cons_ne_nil _ _)]
      cases lx <;> exact fail_wordsOf .ending _ (_ :: left)
  change (whole text fuel (wordsOf text ls)).map Prod.fst = _
  rw [hread, Parse.whole_eq]
  cases plain (Parse.path ls) with
  | error e => rfl
  | ok x =>
    obtain ⟨p, left⟩ := x
    cases left <;> rfl

/-- **The reader with every check made gives what the reading functions give.** -/
theorem compile_eq (text : Text) : compile text = (Path.compile text).mapError CompileError.stop := by
  unfold compile Path.compile
  split
  · rfl
  · rw [words_eq]
    cases hlexemes : lexemes text with
    | error e => rfl
    | ok ls =>
      have hw : Written ls := fun n hn => (lexemesFrom_number hlexemes hn).1
      have hlength : 2 * ls.length + 1 < 2 * (wordsOf text ls).length := by
        rw [wordsOf, List.length_append, List.length_map, List.length_singleton]
        omega
      change StateT.run' (whole text (2 * (wordsOf text ls).length)) (wordsOf text ls) = _
      rw [whole_wordsOf hw hlength]
      dsimp only
      cases Parse.whole ls <;> rfl

end Checked

end TreePath
