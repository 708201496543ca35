import Mathlib.Data.List.Forall2
import TreePath.Proofs.Compiling
import TreePath.Proofs.Derivation
import TreePath.Proofs.Spelling
import TreePath.Table.Plan

/-!
# Which specifications make a plan

A plan is made of a value that describes a specification whose paths compile, and of nothing else; its columns are those
of the specification, in order. Otherwise an error says what is wrong: the value is no object, it does not describe a
specification (`Spec.DescribedBy`), or a path does not compile, which is reported for the first such path in the order
of `Spec.sources` (`plan_outcome`).

This holds of every validator that accepts what describes a specification, accepts nothing else, and has an issue with
the rest (`Spec.Validates`). Which values it takes for truth values is left to the validator: `truth` stands for its
choice. `Spec.ofMembers` is such a validator (`validates_ofMembers`).

One of these errors does not come from the specification's own checks. An integer that is too long to be read stops the
compilation of a path in another way than a malformed text does, and that error is handed on as it is
(`plan_long_index`).
-/

namespace TreePath

/-! ## Descriptions of specifications -/

/-- The members of an object describe an explosion: a path that passes its check and, unless it is left out, a value
for the flag, where `truth` is the truth value that a value stands for. -/
structure Explode.DescribedBy (truth : Value → Option Bool) (e : Explode) (ms : List (Text × Value)) : Prop where
  path : Spec.field? ms "path" = some (.string e.path)
  checked : Spec.explodePathFault? e.path = none
  root : (Spec.field? ms "emit_root_when_empty").elim (some true) truth = some e.rootWhenEmpty

namespace Spec

/-- A field of explosion that is left out or null, or describes an explosion. -/
def ExplodeDescribedBy (truth : Value → Option Bool) : Option Explode → Option Value → Prop
  | none, v => v = none ∨ v = some .null
  | some e, v => ∃ ms, v = some (.object ms) ∧ e.DescribedBy truth ms

/-- The members of an object describe a specification: an object of texts for the columns, which pass their checks, and
perhaps an explosion. Members of other names do not count. -/
structure DescribedBy (truth : Value → Option Bool) (s : Spec) (ms : List (Text × Value)) : Prop where
  columns : field? ms "columns" = some (.object (s.columns.map fun c => (c.1, .string c.2)))
  checked : columnsFault? s.columns = none
  explode : ExplodeDescribedBy truth s.explode (field? ms "explode")

/-- What is relied on of a validator: it finds the fields by name, takes a field that is left out as its default, makes
the checks, and has an issue with everything else. -/
structure Validates (truth : Value → Option Bool) (validate : Validator) : Prop where
  /-- A specification that is described is accepted as it is described. -/
  accepts : ∀ {s : Spec} {ms : List (Text × Value)}, s.DescribedBy truth ms → validate ms = .ok s
  /-- What is accepted has been described. -/
  describes : ∀ {s : Spec} {ms : List (Text × Value)}, validate ms = .ok s → s.DescribedBy truth ms
  /-- What is not accepted has an issue. -/
  issues : ∀ {ms : List (Text × Value)} {is : List Issue}, validate ms = .error is → is ≠ []

/-! ## A validator -/

/-- The truth value that `ofMembers` takes a value for. -/
def truth? (v : Value) : Option Bool := (readBool v).toOption

theorem columnTexts_map (columns : List (Text × Text)) :
    columnTexts (columns.map fun c => (c.1, .string c.2)) = (columns, []) := by
  induction columns with
  | nil => rfl
  | cons c columns ih => rw [List.map_cons, columnTexts, ih]

/-- If no member lacks a text, the members are the columns. -/
theorem eq_map_of_columnTexts : ∀ (ms : List (Text × Value)), (columnTexts ms).2 = [] →
    ms = (columnTexts ms).1.map fun c => (c.1, .string c.2)
  | [], _ => rfl
  | (name, v) :: ms, h => by
    cases v with
    | string s => exact congrArg ((name, Value.string s) :: ·) (eq_map_of_columnTexts ms h)
    | _ => cases h

theorem readColumns_of_described {columns : List (Text × Text)} (hchecked : columnsFault? columns = none) :
    readColumns (some (.object (columns.map fun c => (c.1, .string c.2)))) = .ok columns := by
  simp only [readColumns, columnTexts_map, hchecked]

/-- Columns are read off a description of them, and anything else has an issue. -/
theorem readColumns_cases (v : Option Value) :
    (∃ columns, readColumns v = .ok columns ∧ v = some (.object (columns.map fun c => (c.1, .string c.2))) ∧
      columnsFault? columns = none) ∨ ∃ issues, readColumns v = .error issues ∧ issues ≠ [] := by
  unfold readColumns
  split
  · exact Or.inr ⟨_, rfl, List.cons_ne_nil _ _⟩
  · rename_i ms
    split
    · rename_i columns htexts
      split
      · exact Or.inr ⟨_, rfl, List.cons_ne_nil _ _⟩
      · rename_i hchecked
        have hms := eq_map_of_columnTexts ms (by rw [htexts])
        rw [htexts] at hms
        exact Or.inl ⟨columns, rfl, by rw [hms], hchecked⟩
    · rename_i names hnames htexts
      refine Or.inr ⟨_, rfl, fun h => ?_⟩
      exact hnames (List.map_eq_nil_iff.1 h)
  · exact Or.inr ⟨_, rfl, List.cons_ne_nil _ _⟩

theorem readExplodePath_eq_ok {v : Option Value} {path : Text} :
    readExplodePath v = .ok path ↔ v = some (.string path) ∧ explodePathFault? path = none := by
  cases v with
  | none => simp [readExplodePath]
  | some v =>
    cases v with
    | string s =>
      rw [readExplodePath]
      split
      · rename_i cause hfault
        constructor
        · intro h
          cases h
        · rintro ⟨h, hnone⟩
          cases h
          cases hfault.symm.trans hnone
      · rename_i hnone
        constructor
        · intro h
          cases h
          exact ⟨rfl, hnone⟩
        · rintro ⟨h, _⟩
          cases h
          rfl
    | _ => simp [readExplodePath]

theorem readExplodeRoot_eq_ok {v : Option Value} {root : Bool} :
    readExplodeRoot v = .ok root ↔ v.elim (some true) truth? = some root := by
  cases v with
  | none => simp [readExplodeRoot]
  | some v =>
    show readBool v = .ok root ↔ truth? v = some root
    rw [truth?]
    cases readBool v <;> simp [Except.toOption]

theorem readExplode_of_described {e : Option Explode} {v : Option Value} (h : ExplodeDescribedBy truth? e v) :
    readExplode v = .ok e := by
  cases e with
  | none => rcases h with rfl | rfl <;> rfl
  | some e =>
    obtain ⟨ms, rfl, hpath, hchecked, hroot⟩ := h
    have hreadPath := readExplodePath_eq_ok.2 ⟨hpath, hchecked⟩
    have hreadRoot := readExplodeRoot_eq_ok.2 hroot
    simp only [readExplode, hreadPath, hreadRoot]

/-- An explosion is read off a description of it, and anything else has an issue. -/
theorem readExplode_cases (v : Option Value) :
    (∃ e, readExplode v = .ok e ∧ ExplodeDescribedBy truth? e v) ∨
      ∃ issues, readExplode v = .error issues ∧ issues ≠ [] := by
  unfold readExplode
  split
  · exact Or.inl ⟨none, rfl, Or.inl rfl⟩
  · exact Or.inl ⟨none, rfl, Or.inr rfl⟩
  · rename_i ms
    dsimp only
    split
    · rename_i path root hpath hroot
      obtain ⟨hfield, hchecked⟩ := readExplodePath_eq_ok.1 hpath
      exact Or.inl ⟨some ⟨path, root⟩, rfl, ms, rfl, hfield, hchecked, readExplodeRoot_eq_ok.1 hroot⟩
    · exact Or.inr ⟨_, rfl, List.cons_ne_nil _ _⟩
    · exact Or.inr ⟨_, rfl, List.cons_ne_nil _ _⟩
    · exact Or.inr ⟨_, rfl, List.cons_ne_nil _ _⟩
  · exact Or.inr ⟨_, rfl, List.cons_ne_nil _ _⟩

/-- Members describe the specification that is read off them, or have an issue. -/
theorem ofMembers_cases (ms : List (Text × Value)) :
    (∃ s, ofMembers ms = .ok s ∧ s.DescribedBy truth? ms) ∨ ∃ issues, ofMembers ms = .error issues ∧ issues ≠ [] := by
  rcases readColumns_cases (field? ms "columns") with ⟨columns, hcolumns, hfield, hchecked⟩ | ⟨is, his, hne⟩
  · rcases readExplode_cases (field? ms "explode") with ⟨e, he, hdescribed⟩ | ⟨js, hjs, hne'⟩
    · exact Or.inl ⟨⟨columns, e⟩, by simp only [ofMembers, hcolumns, he], hfield, hchecked, hdescribed⟩
    · exact Or.inr ⟨js, by simp only [ofMembers, hcolumns, hjs], hne'⟩
  · rcases readExplode_cases (field? ms "explode") with ⟨e, he, hdescribed⟩ | ⟨js, hjs, hne'⟩
    · exact Or.inr ⟨is, by simp only [ofMembers, his, he], hne⟩
    · exact Or.inr ⟨is ++ js, by simp only [ofMembers, his, hjs], fun h => hne (List.append_eq_nil_iff.1 h).1⟩

theorem validates_ofMembers : Validates truth? ofMembers where
  accepts := by
    intro s ms h
    have hcolumns := readColumns_of_described h.checked
    rw [← h.columns] at hcolumns
    have hexplode := readExplode_of_described h.explode
    simp only [ofMembers, hcolumns, hexplode]
  describes := by
    intro s ms hs
    rcases ofMembers_cases ms with ⟨s', hs', h⟩ | ⟨is, his, _⟩
    · cases hs.symm.trans hs'
      exact h
    · cases hs.symm.trans his
  issues := by
    intro ms is his
    rcases ofMembers_cases ms with ⟨s, hs, _⟩ | ⟨is', his', hne⟩
    · cases his.symm.trans hs
    · cases his.symm.trans his'
      exact hne

/-! ## The paths of a specification -/

/-- The texts of the paths in the order in which they are compiled, each with the error that a malformed text is. -/
def sources (s : Spec) : List ((SyntaxError → PlanError) × Text) :=
  (s.columns.map fun c => (PlanError.column c.1, c.2)) ++ s.explode.toList.map fun e => (PlanError.explode, e.path)

end Spec

/-- How an error of compiling a path is reported; `place` is the error that a malformed text is. -/
def PlanError.ofCompile (place : SyntaxError → PlanError) : CompileError → PlanError
  | .malformed e => place e
  | .tooManyDigits k => .tooManyDigits k

/-- `e` is the error of the first of the paths that does not compile. -/
def PlanError.OfFirst (sources : List ((SyntaxError → PlanError) × Text)) (e : PlanError) : Prop :=
  ∃ before place text behind cause, sources = before ++ (place, text) :: behind ∧
    (∀ x ∈ before, ∃ p, Path.compile x.2 = .ok p) ∧ Path.compile text = .error cause ∧ e = .ofCompile place cause

theorem PlanError.OfFirst.cons {sources : List ((SyntaxError → PlanError) × Text)} {e : PlanError}
    (h : e.OfFirst sources) {x : (SyntaxError → PlanError) × Text} (hx : ∃ p, Path.compile x.2 = .ok p) :
    e.OfFirst (x :: sources) := by
  obtain ⟨before, place, text, behind, cause, rfl, hbefore, hrest⟩ := h
  exact ⟨x :: before, place, text, behind, cause, rfl, List.forall_mem_cons.2 ⟨hx, hbefore⟩, hrest⟩

theorem PlanError.OfFirst.append {sources : List ((SyntaxError → PlanError) × Text)} {e : PlanError}
    (h : e.OfFirst sources) (more : List ((SyntaxError → PlanError) × Text)) : e.OfFirst (sources ++ more) := by
  obtain ⟨before, place, text, behind, cause, rfl, hrest⟩ := h
  exact ⟨before, place, text, behind ++ more, cause, by rw [List.append_assoc, List.cons_append], hrest⟩

/-- The plan has the columns of the specification in order, and its explosion; its paths are compiled from their
texts. -/
structure Plan.CompiledFrom (p : Plan) (s : Spec) : Prop where
  columns : List.Forall₂ (fun c x => x.1 = c.1 ∧ Path.compile c.2 = .ok x.2) s.columns p.columns
  explode : Option.Rel (fun e x => Path.compile e.path = .ok x.1 ∧ x.2 = e.rootWhenEmpty) s.explode p.explode

namespace Plan

theorem CompiledFrom.columnNames {p : Plan} {s : Spec} (h : p.CompiledFrom s) :
    p.columnNames = s.columns.map Prod.fst := by
  have hnames := h.columns.imp fun _ _ hx => hx.1.symm
  rw [← List.forall₂_map_right_iff, ← List.forall₂_map_left_iff, List.forall₂_eq_eq_eq] at hnames
  exact hnames.symm

/-- What a specification is made into: a plan, or the error of the first of its paths that does not compile. -/
def IsMadeFrom (s : Spec) : Except PlanError Plan → Prop
  | .ok p => p.CompiledFrom s
  | .error e => e.OfFirst s.sources

/-- If all its paths compile, a specification is made into a plan. -/
theorem IsMadeFrom.exists_of_compile {s : Spec} {r : Except PlanError Plan} (h : IsMadeFrom s r)
    (hcompile : ∀ x ∈ s.sources, ∃ p, Path.compile x.2 = .ok p) : ∃ p, r = .ok p ∧ p.CompiledFrom s := by
  cases r with
  | ok p => exact ⟨p, rfl, h⟩
  | error e =>
    obtain ⟨before, place, text, behind, cause, hsources, _, hcause, _⟩ := h
    obtain ⟨p, hp⟩ := hcompile (place, text) (by rw [hsources]; simp)
    cases hp.symm.trans hcause

theorem compilePath_eq (place : SyntaxError → PlanError) (text : Text) :
    compilePath place text = (Path.compile text).mapError (PlanError.ofCompile place) := by
  unfold compilePath
  cases Path.compile text with
  | ok p => rfl
  | error e => cases e <;> rfl

/-- The columns are compiled in order, up to the first one that does not compile. -/
theorem compileColumns_cases : ∀ columns : List (Text × Text),
    (∃ xs, compileColumns columns = .ok xs ∧
      List.Forall₂ (fun c x => x.1 = c.1 ∧ Path.compile c.2 = .ok x.2) columns xs) ∨
    ∃ e, compileColumns columns = .error e ∧ e.OfFirst (columns.map fun c => (PlanError.column c.1, c.2))
  | [] => Or.inl ⟨[], rfl, .nil⟩
  | (name, text) :: columns => by
    rw [compileColumns, compilePath_eq]
    cases hp : Path.compile text with
    | error cause => exact Or.inr ⟨_, rfl, [], _, _, _, cause, rfl, (fun x hx => by cases hx), hp, rfl⟩
    | ok p =>
      rcases compileColumns_cases columns with ⟨xs, hxs, hall⟩ | ⟨e, he, hfirst⟩
      · refine Or.inl ⟨(name, p) :: xs, ?_, .cons ⟨rfl, hp⟩ hall⟩
        rw [hxs]
        rfl
      · refine Or.inr ⟨e, ?_, hfirst.cons ⟨p, hp⟩⟩
        rw [he]
        rfl

theorem ofSpec_isMadeFrom (s : Spec) : IsMadeFrom s (ofSpec s) := by
  unfold ofSpec
  rcases compileColumns_cases s.columns with ⟨xs, hxs, hall⟩ | ⟨e, he, hfirst⟩
  · rw [hxs]
    have hcompiled : ∀ c ∈ s.columns, ∃ p, Path.compile c.2 = .ok p :=
      ((List.forall₂_and_left _ _).1 (hall.imp fun _ x hx => ⟨⟨x.2, hx.2⟩, hx⟩)).1
    cases he : s.explode with
    | none => exact ⟨hall, by rw [he]; exact .none⟩
    | some e =>
      dsimp only
      rw [compilePath_eq]
      cases hp : Path.compile e.path with
      | ok q => exact ⟨hall, by rw [he]; exact .some ⟨hp, rfl⟩⟩
      | error cause =>
        exact ⟨_, PlanError.explode, e.path, [], cause, by rw [Spec.sources, he]; rfl, List.forall_mem_map.2 hcompiled,
          hp, rfl⟩
  · rw [he]
    exact hfirst.append _

theorem compiledFrom_of_ofSpec {s : Spec} {p : Plan} (h : ofSpec s = .ok p) : p.CompiledFrom s := by
  have hmade := ofSpec_isMadeFrom s
  rw [h] at hmade
  exact hmade

theorem ofFirst_of_ofSpec {s : Spec} {e : PlanError} (h : ofSpec s = .error e) : e.OfFirst s.sources := by
  have hmade := ofSpec_isMadeFrom s
  rw [h] at hmade
  exact hmade

section Validated

variable {truth : Value → Option Bool} {validate : Spec.Validator} (hvalidate : Spec.Validates truth validate)

include hvalidate

theorem ofValueBy_of_described {s : Spec} {ms : List (Text × Value)} (h : s.DescribedBy truth ms) :
    ofValueBy validate (.object ms) = ofSpec s := by
  rw [ofValueBy, hvalidate.accepts h]
  rfl

/-- A value is no object, or an object that describes no specification, or it is read as the one that it describes. -/
theorem ofValueBy_cases (v : Value) :
    ((∀ ms, v ≠ .object ms) ∧ ofValueBy validate v = .error .notObject) ∨
    (∃ ms issues, v = .object ms ∧ validate ms = .error issues ∧ issues ≠ [] ∧
      ofValueBy validate v = .error (.invalid issues)) ∨
    ∃ ms s, v = .object ms ∧ s.DescribedBy truth ms ∧ ofValueBy validate v = ofSpec s := by
  cases v with
  | object ms =>
    cases hms : validate ms with
    | ok s =>
      have hs := hvalidate.describes hms
      exact Or.inr (Or.inr ⟨ms, s, rfl, hs, ofValueBy_of_described hvalidate hs⟩)
    | error issues =>
      refine Or.inr (Or.inl ⟨ms, issues, rfl, hms, hvalidate.issues hms, ?_⟩)
      rw [ofValueBy, hms]
      rfl
  | _ => exact Or.inl ⟨fun _ => Value.noConfusion, rfl⟩

end Validated

end Plan

/-! ## Long integers -/

theorem Parse.integer_long {n : Numeral} (hinteger : n.isInteger = true) (hlong : digitLimit < n.whole.length)
    (left : List Placed) : integer n left = .error (.tooManyDigits n.whole.length) := by
  rw [integer, hinteger, if_neg (by decide), if_pos hlong]

/-- An index that is too long to be read stops the parser. -/
theorem Parse.whole_long_index {ls : List Placed} {n : Numeral} (hinteger : n.isInteger = true)
    (hlong : digitLimit < n.whole.length)
    (hls : ls.map Placed.lexeme = [.root, .leftBracket, .number n, .rightBracket]) :
    whole ls = .error (.tooManyDigits n.whole.length) := by
  obtain ⟨⟨_, i⟩, behind, rfl, rfl, hbehind⟩ := List.map_eq_cons_iff.1 hls
  obtain ⟨⟨_, j⟩, inside, rfl, rfl, hinside⟩ := List.map_eq_cons_iff.1 hbehind
  obtain ⟨⟨_, k⟩, last, rfl, rfl, _⟩ := List.map_eq_cons_iff.1 hinside
  rw [whole_eq, plain_path]
  dsimp only
  rw [plain_segments]
  dsimp only
  rw [plain_selector]
  dsimp only
  rw [plain_position, plain_optionalInteger]
  dsimp only
  rw [integer_long hinteger hlong]
  rfl

/-- An index that is too long to be read stops the compilation. -/
theorem compile_long_index {n : Numeral} (h : n.IsWritten) (hinteger : n.isInteger = true)
    (hlong : Parse.digitLimit < n.whole.length) :
    Path.compile (chars ['$', '['] ++ (n.text ++ chars [']'])) = .error (.tooManyDigits n.whole.length) := by
  have hclose : Lexes (chars [']']) [.rightBracket] := Lexes.symbol (by decide) Lexes.nil
  have hnumber := Lexes.number h (EndsEntry.endsNumeral (Or.inr rfl)) hclose
  have hlexes : Lexes (chars ['$', '['] ++ (n.text ++ chars [']'])) [.root, .leftBracket, .number n, .rightBracket] :=
    Lexes.symbol (by decide) (Lexes.symbol (by decide) hnumber)
  obtain ⟨ls, hlex, hls⟩ := hlexes 0
  have hblank : ¬ Text.isBlank (chars ['$', '['] ++ (n.text ++ chars [']'])) = true := by
    intro hb
    cases hlex.symm.trans (lexemesFrom_of_isBlank 0 hb)
    cases hls
  rw [Path.compile, if_neg hblank, lexemes, hlex]
  dsimp only
  rw [Parse.whole_long_index hinteger hlong hls]
  rfl

/-- The numeral of as many ones. -/
def ones (k : Nat) : Numeral := ⟨false, List.replicate k '1', none, none⟩

theorem ones_isWritten {k : Nat} (h : 0 < k) : (ones k).IsWritten where
  whole := by
    refine ⟨fun hnil => ?_, fun c hc => ?_⟩
    · rw [ones, List.replicate_eq_nil_iff] at hnil
      omega
    · rw [List.eq_of_mem_replicate hc]
      decide
  fraction := fun _ h => by cases h
  power := fun _ h => by cases h

theorem Spec.describedBy_column (truth : Value → Option Bool) {name : Text} (hname : name ≠ []) (text : Text) :
    (⟨[(name, text)], none⟩ : Spec).DescribedBy truth [("columns", .object [(name, .string text)])] where
  columns := rfl
  checked := by
    obtain ⟨c, cs, rfl⟩ := List.exists_cons_of_ne_nil hname
    rfl
  explode := Or.inl rfl

/-- The plan of a specification with one column. -/
theorem Plan.ofValueBy_column {truth : Value → Option Bool} {validate : Spec.Validator}
    (hvalidate : Spec.Validates truth validate) {name : Text} (hname : name ≠ []) (text : Text) :
    ofValueBy validate (.object [("columns", .object [(name, .string text)])]) =
      ((Path.compile text).mapError (.ofCompile (.column name))).map fun p => ⟨[(name, p)], none⟩ := by
  rw [ofValueBy_of_described hvalidate (Spec.describedBy_column truth hname text), ofSpec, compileColumns,
    compilePath_eq]
  cases Path.compile text <;> rfl

/-! ## Main statement -/

/-- Whether the error says that the specification is not valid. -/
def PlanError.isOfSpec : PlanError → Bool
  | .tooManyDigits _ => false
  | _ => true

/-- Only an integer numeral that is too long to be read makes a path fail without an error of the specification. -/
theorem PlanError.OfFirst.cases {s : Spec} {e : PlanError} (h : e.OfFirst s.sources) :
    e.isOfSpec = true ∨ ∃ (k : Nat) (text : Text) (n : Numeral), e = .tooManyDigits k ∧
      Path.compile text = .error (.tooManyDigits k) ∧ n.text <:+: text ∧ n.isInteger = true ∧ n.whole.length = k ∧
      4300 < k := by
  obtain ⟨before, place, text, behind, cause, hsources, _, hcause, rfl⟩ := h
  cases cause with
  | tooManyDigits k =>
    obtain ⟨ls, n, _, _, hinfix, hinteger, hlength, hlong⟩ := numeral_of_compile hcause
    exact Or.inr ⟨k, text, n, rfl, hcause, hinfix, hinteger, hlength, hlong⟩
  | malformed f =>
    have hmem : (place, text) ∈ s.sources := by rw [hsources]; simp
    rcases List.mem_append.1 hmem with hmem | hmem
    · obtain ⟨c, _, hc⟩ := List.mem_map.1 hmem
      cases hc
      exact Or.inl rfl
    · obtain ⟨x, _, hx⟩ := List.mem_map.1 hmem
      cases hx
      exact Or.inl rfl

/-- **What a value is made into.** A value that describes a specification, and a specification itself, are made into a
plan with the columns of the specification in order, each compiled from its text, or into the error of the first path
that does not compile; a value that describes none is an error too, and if it is an object, the issues are those of the
validator. Every error is one of the specification, unless a path holds an integer that is too long to be read. -/
theorem plan_outcome {truth : Value → Option Bool} {validate : Spec.Validator}
    (hvalidate : Spec.Validates truth validate) (v : Value) :
    (∀ s, Plan.IsMadeFrom s (Plan.ofSpec s)) ∧
    ((∀ ms, v ≠ .object ms) → Plan.ofValueBy validate v = .error .notObject) ∧
    (∀ ms, v = .object ms →
      (∀ s : Spec, s.DescribedBy truth ms → Plan.IsMadeFrom s (Plan.ofValueBy validate v)) ∧
      ((¬ ∃ s : Spec, s.DescribedBy truth ms) → ∃ issues, Plan.ofValueBy validate v = .error (.invalid issues) ∧
        validate ms = .error issues ∧ issues ≠ [])) ∧
    (∀ p, Plan.ofValueBy validate v = .ok p → ∃ ms s, v = .object ms ∧ s.DescribedBy truth ms ∧ p.CompiledFrom s ∧
      p.columnNames = s.columns.map Prod.fst) ∧
    ∀ e, ((∃ s, Plan.ofSpec s = .error e) ∨ Plan.ofValueBy validate v = .error e) → e.isOfSpec = true ∨
      ∃ (k : Nat) (text : Text) (n : Numeral), e = .tooManyDigits k ∧
        Path.compile text = .error (.tooManyDigits k) ∧ n.text <:+: text ∧ n.isInteger = true ∧ n.whole.length = k ∧
        4300 < k := by
  have hcases := Plan.ofValueBy_cases hvalidate v
  refine ⟨Plan.ofSpec_isMadeFrom, ?_, ?_, ?_, ?_⟩
  · intro hv
    rcases hcases with ⟨_, hvalue⟩ | ⟨ms, _, rfl, _⟩ | ⟨ms, _, rfl, _⟩
    · exact hvalue
    · exact absurd rfl (hv ms)
    · exact absurd rfl (hv ms)
  · rintro ms rfl
    refine ⟨fun s hs => ?_, fun hnone => ?_⟩
    · rw [Plan.ofValueBy_of_described hvalidate hs]
      exact Plan.ofSpec_isMadeFrom s
    · rcases hcases with ⟨hv, _⟩ | ⟨_, issues, hms, hissues, hne, hvalue⟩ | ⟨_, s, hms, hs, _⟩
      · exact absurd rfl (hv ms)
      · cases hms
        exact ⟨issues, hvalue, hissues, hne⟩
      · cases hms
        exact absurd ⟨s, hs⟩ hnone
  · intro p hp
    rcases hcases with ⟨_, hvalue⟩ | ⟨_, _, _, _, _, hvalue⟩ | ⟨ms, s, hv, hs, hvalue⟩
    · cases hp.symm.trans hvalue
    · cases hp.symm.trans hvalue
    · have hcompiled : p.CompiledFrom s := Plan.compiledFrom_of_ofSpec (hvalue.symm.trans hp)
      exact ⟨ms, s, hv, hs, hcompiled, hcompiled.columnNames⟩
  · rintro e (⟨s, hs⟩ | he)
    · exact (Plan.ofFirst_of_ofSpec hs).cases
    · rcases hcases with ⟨_, hvalue⟩ | ⟨_, _, _, _, _, hvalue⟩ | ⟨_, s, _, _, hvalue⟩
      · cases he.symm.trans hvalue
        exact Or.inl rfl
      · cases he.symm.trans hvalue
        exact Or.inl rfl
      · exact (Plan.ofFirst_of_ofSpec (hvalue.symm.trans he)).cases

/-- One column with the path of the document, which is exploded as well. -/
theorem plan_outcome_column :
    let v : Value := .object [("columns", .object [("a", .string (chars ['$']))]),
      ("explode", .object [("path", .string (chars ['$'])), ("emit_root_when_empty", .bool false)])]
    Spec.Validates Spec.truth? Spec.ofMembers ∧
      ∃ p, Plan.ofValue v = .ok p ∧ p.CompiledFrom ⟨[("a", chars ['$'])], some ⟨chars ['$'], false⟩⟩ := by
  intro v
  have hcompile : Path.compile (chars ['$']) = .ok ⟨[.root], some (chars ['$'])⟩ :=
    compile_of_derivation (lexemesFrom_lexeme (by decide) rfl (lexemesFrom_nil _)) (t := .opened .root []) rfl
  have hmade := ((plan_outcome Spec.validates_ofMembers v).2.2.1 _ rfl).1
    ⟨[("a", chars ['$'])], some ⟨chars ['$'], false⟩⟩ ⟨rfl, rfl, _, rfl, rfl, rfl, rfl⟩
  refine ⟨Spec.validates_ofMembers, hmade.exists_of_compile fun x hx => ⟨⟨[.root], some (chars ['$'])⟩, ?_⟩⟩
  obtain rfl | rfl : x = (PlanError.column "a", chars ['$']) ∨ x = (PlanError.explode, chars ['$']) := by
    simpa [Spec.sources] using hx
  · exact hcompile
  · exact hcompile

/-- A column with an index of 4301 digits gives an error that is none of the specification. -/
theorem plan_long_index :
    Plan.ofValue (.object [("columns", .object
        [("a", .string (chars ['$', '['] ++ ((ones 4301).text ++ chars [']'])))])]) = .error (.tooManyDigits 4301) ∧
      PlanError.isOfSpec (.tooManyDigits 4301) = false := by
  have hlength : (ones 4301).whole.length = 4301 := List.length_replicate
  have hlong : Parse.digitLimit < (ones 4301).whole.length := by
    rw [hlength]
    decide
  have hcompile := compile_long_index (ones_isWritten (by decide : 0 < 4301)) rfl hlong
  refine ⟨?_, rfl⟩
  rw [Plan.ofValue, Plan.ofValueBy_column Spec.validates_ofMembers (by decide), hcompile, hlength]
  rfl

end TreePath
