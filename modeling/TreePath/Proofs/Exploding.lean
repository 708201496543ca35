import TreePath.Proofs.Concatenation
import TreePath.Proofs.Rendering
import TreePath.Table.Plan

/-!
# Exploded paths

With the standard configuration, a table has one row for each match of the exploded path that is not null, and what a
column finds at those matches, row after row, is what the exploded path and the column's path find as one path
(`rows_explode`). Matches that give no row make no difference, because a path without `$` finds at most nulls below a
null (`values_null`).

With another configuration, an absence is known to the table only by the value that stands for it: if that value is not
null, each absence among the matches of the exploded path gives a row, too (`rows_explode_flat`).
-/

namespace TreePath

/-! ## Values at the end of a walk -/

/-- The values at the end of a walk that is walked on are those of the second walks. -/
theorem filterMap_extend (k : Value → Outcome) (o : Outcome) :
    (o.extend k).filterMap Match.value? = o.values.flatMap fun w => (k w).values := by
  unfold Outcome.extend Outcome.values
  induction o.entries with
  | nil => rfl
  | cons m ms ih =>
    rw [List.flatMap_cons, List.filterMap_append, ih]
    cases m <;> rfl

theorem values_append {σ : Scope} (hσ : σ.mode = .flat) (hr : σ.root.hasMissing = false) (ps qs : List Token) {v : Value}
    (hv : v.hasMissing = false) :
    (run σ (ps ++ qs) v).values = (run σ ps v).values.flatMap fun w => (run σ qs w).values := by
  rw [Outcome.values, (run_append_extendedBy hσ hr qs ps hv).1, filterMap_extend]

theorem inside_null {w v : Value} (h : Value.Inside w v) (hv : v = .null) : w = .null := by
  cases h with
  | here => exact hv
  | deeper hw _ =>
    subst hv
    cases hw

/-- Below a null there are only nulls. -/
theorem values_null {σ : Scope} (hσ : σ.mode = .flat) {ts : List Token} (hts : ts.any Token.isRoot = false) :
    ∀ w ∈ (run σ ts .null).values, w = .null := by
  intro w hw
  have hstep : ∀ t ∈ ts, ∀ {v u : Value}, v = .null → Move.onto u ∈ t.moves σ v → u = .null := by
    intro t ht v u hv hu
    have hroot : t.isRoot = false := Bool.eq_false_iff.2 (List.any_eq_false.1 hts t ht)
    exact inside_null (Token.inside_of_mem_moves_of_not_root hroot hu) hv
  rcases entries_of_invariant hσ hstep rfl _ (Outcome.mem_values.1 hw) with h | ⟨u, rfl, h⟩
  · cases h
  · exact Match.found.inj h

/-! ## Results that are not null -/

/-- Absences are rendered as nulls, so only values are left when the nulls are gone. -/
theorem filter_renderAll_null {ms : List Match} (h : ∀ m ∈ ms, m = .absent ∨ ∃ w, m = .found w) :
    (Match.renderAll .null ms).filter (fun v => !v.isNull) = (ms.filterMap Match.value?).filter fun v => !v.isNull := by
  induction ms with
  | nil => rfl
  | cons m ms ih =>
    have ih := ih fun n hn => h n (List.mem_cons_of_mem _ hn)
    rcases h m List.mem_cons_self with rfl | ⟨w, rfl⟩
    · exact ih
    · simp only [Match.renderAll, Match.render, Match.value?, List.filterMap_cons, List.filter_cons, ih]

/-- In flat mode a walk leaves absences and values. -/
theorem absent_or_found {σ : Scope} (hσ : σ.mode = .flat) (ts : List Token) (v : Value) :
    ∀ m ∈ (run σ ts v).entries, m = .absent ∨ ∃ w, m = .found w := by
  intro m hm
  have htrue := entries_of_invariant hσ (I := fun _ => True) (fun _ _ _ _ _ _ => trivial) trivial m hm
  exact htrue.imp_right fun ⟨w, _, hw⟩ => ⟨w, hw⟩

theorem present_standard (document : Value) (item : Option Value) (p : Path) :
    Plan.present .standard document item p =
      (run (Config.standard.scope document) p.tokens (item.getD document)).values.filter fun v => !v.isNull :=
  filter_renderAll_null (absent_or_found rfl p.tokens (item.getD document))

/-- What an element that is dropped contributes is dropped as well. -/
theorem filter_flatMap_filter {α β : Type} {p : α → Bool} {q : β → Bool} {f : α → List β} {xs : List α}
    (h : ∀ x ∈ xs, p x = false → (f x).filter q = []) :
    (xs.flatMap f).filter q = (xs.filter p).flatMap fun x => (f x).filter q := by
  induction xs with
  | nil => rfl
  | cons x xs ih =>
    rw [List.flatMap_cons, List.filter_append, ih fun y hy => h y (List.mem_cons_of_mem _ hy), List.filter_cons]
    cases hx : p x with
    | true => rfl
    | false => rw [h x List.mem_cons_self hx, List.nil_append, if_neg Bool.false_ne_true]

/-- The results of a path behind a path, match by match. -/
theorem present_append {document : Value} (hdocument : document.hasMissing = false) (p q : Path)
    (hroot : q.tokens.any Token.isRoot = false) (source : Option Text) :
    Plan.present .standard document none ⟨p.tokens ++ q.tokens, source⟩ =
      (Plan.present .standard document none p).flatMap fun item => Plan.present .standard document (some item) q := by
  simp only [present_standard, Option.getD_none, Option.getD_some]
  rw [values_append rfl hdocument p.tokens q.tokens hdocument]
  apply filter_flatMap_filter
  intro w _ hw
  obtain rfl : w = .null := by cases w <;> first | rfl | cases hw
  rw [List.filter_eq_nil_iff]
  intro u hu
  rw [values_null rfl hroot u hu]
  exact Bool.false_ne_true

/-! ## Rows -/

namespace Plan

/-- The rows of some items; where there are none, the row of the document or no row. -/
def rowsOf (p : Plan) (c : Config) (document : Value) (rootWhenEmpty : Bool) : List Value → List Row
  | [] => if rootWhenEmpty then [p.row c document document] else []
  | item :: items => (item :: items).map (p.row c document)

theorem rows_eq_rowsOf {p : Plan} {path : Path} {rootWhenEmpty : Bool} (h : p.explode = some (path, rootWhenEmpty))
    (c : Config) (document : Value) :
    p.rows c document = p.rowsOf c document rootWhenEmpty (present c document none path) := by
  unfold rows
  rw [h]
  dsimp only
  cases present c document none path <;> rfl

theorem rowsOf_of_ne_nil {p : Plan} {c : Config} {document : Value} {rootWhenEmpty : Bool} {items : List Value}
    (h : items ≠ []) : p.rowsOf c document rootWhenEmpty items = items.map (p.row c document) := by
  cases items with
  | nil => exact absurd rfl h
  | cons item items => rfl

end Plan

theorem rows_of_explode {p : Plan} {c : Config} {document : Value} {path : Path} {rootWhenEmpty : Bool}
    (h : p.explode = some (path, rootWhenEmpty)) (hne : Plan.present c document none path ≠ []) :
    p.rows c document = (Plan.present c document none path).map (p.row c document) := by
  rw [Plan.rows_eq_rowsOf h, Plan.rowsOf_of_ne_nil hne]

/-- **Exploding is concatenation.** If the exploded path has matches that are not null, there is a row for each of
them, in order, whose cells come from the results of the columns' paths at that match; and row after row, the results
of a column's path without `$` are those of the exploded path with the column's path behind it. -/
theorem rows_explode (p : Plan) (document : Value) (path : Path) (rootWhenEmpty : Bool)
    (hexplode : p.explode = some (path, rootWhenEmpty)) (hdocument : document.hasMissing = false)
    (hmatch : Plan.present .standard document none path ≠ []) :
    p.rows .standard document = (Plan.present .standard document none path).map (fun item =>
      p.columns.map fun column => (column.1, cell (Plan.present .standard document (some item) column.2))) ∧
    ∀ column : Path, column.tokens.any Token.isRoot = false → ∀ source : Option Text,
      (Plan.present .standard document none path).flatMap
          (fun item => Plan.present .standard document (some item) column) =
        Plan.present .standard document none ⟨path.tokens ++ column.tokens, source⟩ :=
  ⟨rows_of_explode hexplode hmatch, fun column hroot source => (present_append hdocument path column hroot source).symm⟩

/-- The elements of a list are exploded: two objects, a null, which gives no row, and a truth value. The column has
several results at the first object, one at the second and none at the truth value; its cells are their list, the
result and a null. -/
theorem rows_explode_wildcard :
    let document : Value := .list [.object [("a", .list [.bool true, .bool false])],
      .object [("a", .list [.bool true])], .null, .bool false]
    let path : Path := ⟨[.root, .wildcard], none⟩
    let column : Path := ⟨[.child (.name "a"), .wildcard], none⟩
    let p : Plan := ⟨[("a", column)], some (path, true)⟩
    document.hasMissing = false ∧
      p.rows .standard document = [[(Text.ofString "a", .list [.bool true, .bool false])],
        [(Text.ofString "a", .bool true)], [(Text.ofString "a", .null)]] ∧
      Plan.present .standard document none ⟨[.root, .wildcard, .child (.name "a"), .wildcard], none⟩ =
        [.bool true, .bool false, .bool true] := by
  intro document path column p
  obtain ⟨hrows, happend⟩ := rows_explode p document path true rfl rfl (by rintro ⟨⟩)
  exact ⟨rfl, hrows.trans rfl, (happend column rfl none).symm.trans rfl⟩

/-! ## Absences that are exploded -/

namespace Plan

/-- The values that the exploded path finds, without the nulls; absences are no values. -/
def explodedValues (c : Config) (document : Value) (path : Path) : List Value :=
  (run (c.scope document) path.tokens document).values.filter fun v => !v.isNull

/-- The number of absences that the exploded path leaves among its matches. -/
def explodedAbsences (c : Config) (document : Value) (path : Path) : Nat :=
  (run (c.scope document) path.tokens document).entries.countP fun m => !m.isPresent

end Plan

/-- Where absences are rendered as a value that is not null, each of them is a result beside the values. -/
theorem filter_renderAll_not_null {hole : Value} (hhole : hole.isNull = false) {ms : List Match}
    (h : ∀ m ∈ ms, m = .absent ∨ ∃ w, m = .found w) :
    ((ms.filterMap Match.value?).filter fun v => !v.isNull).Sublist
        ((Match.renderAll hole ms).filter fun v => !v.isNull) ∧
      ((Match.renderAll hole ms).filter fun v => !v.isNull).length =
        ((ms.filterMap Match.value?).filter fun v => !v.isNull).length + ms.countP fun m => !m.isPresent := by
  induction ms with
  | nil => exact ⟨.slnil, rfl⟩
  | cons m ms ih =>
    obtain ⟨hsub, hlen⟩ := ih fun n hn => h n (List.mem_cons_of_mem _ hn)
    rcases h m List.mem_cons_self with rfl | ⟨w, rfl⟩
    · rw [List.countP_cons_of_pos rfl]
      simp only [Match.renderAll, Match.render, Match.value?, List.filterMap_cons, List.filter_cons, hhole]
      exact ⟨hsub.cons _, congrArg (· + 1) hlen⟩
    · rw [List.countP_cons_of_neg Bool.false_ne_true]
      simp only [Match.renderAll, Match.render, Match.value?, List.filterMap_cons, List.filter_cons]
      cases w.isNull with
      | true => exact ⟨hsub, hlen⟩
      | false =>
        refine ⟨hsub.cons_cons _, ?_⟩
        simp only [Bool.not_false, if_pos, List.length_cons, hlen]
        omega

/-- **Absences are exploded unless they are rendered as nulls.** In flat mode, if absences stand as nulls or there are
none, an exploded document gives a row for each value of the path that is not null, or its own row or no row where
there is no such value. Otherwise each absence gives a row as well, beside those of the values. -/
theorem rows_explode_flat (p : Plan) (c : Config) (document : Value) (path : Path) (rootWhenEmpty : Bool)
    (hexplode : p.explode = some (path, rootWhenEmpty)) (hmode : c.mode = .flat) :
    (c.missing.isNull = true ∨ Plan.explodedAbsences c document path = 0 →
      p.rows c document = p.rowsOf c document rootWhenEmpty (Plan.explodedValues c document path)) ∧
    (c.missing.isNull = false → Plan.explodedAbsences c document path ≠ 0 →
      (p.rows c document).length =
        (Plan.explodedValues c document path).length + Plan.explodedAbsences c document path ∧
      ((Plan.explodedValues c document path).map (p.row c document)).Sublist (p.rows c document)) := by
  have hentries := absent_or_found (σ := c.scope document) hmode path.tokens document
  rw [Plan.rows_eq_rowsOf hexplode]
  cases hnull : c.missing.isNull with
  | true =>
    refine ⟨fun _ => ?_, fun h => by cases h⟩
    have hhole : c.missing = .null := by
      cases hm : c.missing <;> first | rfl | simp [hm, Value.isNull] at hnull
    have hitems : Plan.present c document none path = Plan.explodedValues c document path := by
      have h := filter_renderAll_null hentries
      rw [← hhole] at h
      exact h
    rw [hitems]
  | false =>
    obtain ⟨hsub, hlen⟩ := filter_renderAll_not_null hnull hentries
    refine ⟨fun h => ?_, fun _ habsent => ?_⟩
    · have hnone : Plan.explodedAbsences c document path = 0 := h.resolve_left Bool.false_ne_true
      have hitems := hsub.eq_of_length (hlen.trans (congrArg (_ + ·) hnone)).symm
      exact congrArg (p.rowsOf c document rootWhenEmpty) hitems.symm
    · have hne : Plan.present c document none path ≠ [] := by
        intro h
        have h0 := (congrArg List.length h).symm.trans hlen
        exact habsent (Nat.eq_zero_of_add_eq_zero_left h0.symm)
      rw [Plan.rowsOf_of_ne_nil hne, List.length_map]
      exact ⟨hlen, hsub.map _⟩

/-- A value, a null and an absence: with nulls for absences the value alone gives a row; with a text for them the
absence gives one as well. -/
theorem rows_explode_flat_text :
    let document : Value := .list [.object [("a", .bool true)], .object [("a", .null)], .object []]
    let path : Path := ⟨[.root, .wildcard, .child (.name "a")], none⟩
    let p : Plan := ⟨[("a", ⟨[.current], none⟩)], some (path, true)⟩
    p.rows ⟨.flat, .null, false⟩ document = [[(Text.ofString "a", .bool true)]] ∧
      (p.rows ⟨.flat, .string "n/a", false⟩ document).length = 2 := by
  intro document path p
  have hnull := (rows_explode_flat p ⟨.flat, .null, false⟩ document path true rfl rfl).1 (Or.inl rfl)
  have htext := (rows_explode_flat p ⟨.flat, .string "n/a", false⟩ document path true rfl rfl).2 rfl (by decide)
  exact ⟨hnull.trans rfl, htext.1.trans rfl⟩

/-- The exploded path finds no value in an object without members, and such objects are to give no row; with a text in
the place of absences, the object gives a row, which is that of the text. -/
theorem rows_absence_exploded :
    let path : Path := ⟨[.root, .child (.name "x")], none⟩
    let p : Plan := ⟨[("a", ⟨[.current], none⟩)], some (path, false)⟩
    let c : Config := ⟨.flat, .string "n/a", false⟩
    Plan.explodedValues c (.object []) path = [] ∧
      p.rows c (.object []) = [[(Text.ofString "a", .string "n/a")]] :=
  ⟨rfl, rfl⟩

end TreePath
