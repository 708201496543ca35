import Mathlib.Algebra.GroupWithZero.Nat
import TreePath.Proofs.Moves

/-!
# Concatenated paths

In flat mode a path behind a path walks on from every value that the first one finds: the entries and the absences of
`ps ++ qs` are those of `ps`, where each present entry gives way to the walk along `qs` from it (`run_append`). An
absence stays what it is, once.
-/

namespace TreePath

/-- The value of a present entry. -/
def Match.value? : Match → Option Value
  | .found v => some v
  | _ => none

/-- The values of the present entries, in order. -/
def Outcome.values (o : Outcome) : List Value := o.entries.filterMap Match.value?

theorem Outcome.mem_values {o : Outcome} {w : Value} : w ∈ o.values ↔ .found w ∈ o.entries := by
  rw [values, List.mem_filterMap]
  constructor
  · rintro ⟨m, hm, hmw⟩
    cases m with
    | found u => rwa [← Option.some.inj hmw]
    | absent => cases hmw
    | slot ms => cases hmw
  · intro h
    exact ⟨.found w, h, rfl⟩

theorem Match.arrive_of_hasMissing {v : Value} (h : v.hasMissing = false) : Match.arrive v = .found v := by
  rw [arrive, Value.isMissing_eq_false h]
  rfl

namespace Outcome

/-- The entries of `o`, with what `k` finds in the place of each present one. -/
def extend (k : Value → Outcome) (o : Outcome) : List Match :=
  o.entries.flatMap fun m => match m.value? with
    | some w => (k w).entries
    | none => [m]

/-- The absences of `o` and those that `k` meets from each present entry. -/
def extendAbsent (k : Value → Outcome) (o : Outcome) : Nat := o.absent + (o.values.map fun w => (k w).absent).sum

/-- `o'` is `o` walked on by `k`. -/
def ExtendedBy (k : Value → Outcome) (o o' : Outcome) : Prop :=
  o'.entries = o.extend k ∧ o'.absent = o.extendAbsent k

variable {k : Value → Outcome}

theorem ExtendedBy.append {a a' b b' : Outcome} (ha : ExtendedBy k a a') (hb : ExtendedBy k b b') :
    ExtendedBy k (a ++ b) (a' ++ b') := by
  obtain ⟨he, hn⟩ := ha
  obtain ⟨he', hn'⟩ := hb
  constructor
  · rw [entries_append, he, he', extend, extend, extend, entries_append, List.flatMap_append]
  · rw [absent_append, hn, hn']
    simp only [extendAbsent, values, entries_append, absent_append, List.filterMap_append, List.map_append,
      List.sum_append]
    omega

theorem ExtendedBy.visited {a a' : Outcome} (h : ExtendedBy k a a') : ExtendedBy k a.visited a'.visited := h

/-- What follows from a move is walked on if that holds of the walk from where the move leads. -/
theorem extendedBy_run {f g : Value → Outcome} {m : Move} (h : ∀ w, m = .onto w → ExtendedBy k (f w) (g w)) :
    ExtendedBy k (m.run f) (m.run g) := by
  cases m with
  | onto w => exact h w rfl
  | lost => exact ⟨rfl, rfl⟩
  | tested n => exact ⟨rfl, rfl⟩

end Outcome

/-- One walk along `ps ++ qs`, and a walk along `ps` with walks along `qs` behind it. -/
theorem run_append_extendedBy {σ : Scope} (hσ : σ.mode = .flat) (hr : σ.root.hasMissing = false) (qs : List Token) :
    ∀ (ps : List Token) {v : Value}, v.hasMissing = false →
      Outcome.ExtendedBy (run σ qs) (run σ ps v) (run σ (ps ++ qs) v)
  | [], v, hv => by
    rw [List.nil_append, run_nil, Outcome.arrive, Match.arrive_of_hasMissing hv]
    constructor
    · exact (List.append_nil _).symm
    · exact (Nat.zero_add _).symm
  | t :: ps, v, hv => by
    rw [List.cons_append, run_cons_eq_join hσ, run_cons_eq_join hσ]
    refine Outcome.ExtendedBy.visited (Outcome.join_map_rel ⟨rfl, rfl⟩ (fun ha hb => ha.append hb) ?_)
    intro m hm
    refine Outcome.extendedBy_run fun w hw => ?_
    subst hw
    -- the induction goes on from where the move leads, which holds no marker either
    exact run_append_extendedBy hσ hr qs ps (Token.hasMissing_eq_false_of_mem_moves hm hr hv)

/-- **Concatenation.** In flat mode, from a document and an item without the marker `missing`, the entries of `ps ++ qs`
are the entries of `ps` in order, each present one replaced by the entries of `qs` from it; the absences add up. -/
theorem run_append (σ : Scope) (ps qs : List Token) (v : Value) (hσ : σ.mode = .flat)
    (hr : σ.root.hasMissing = false) (hv : v.hasMissing = false) :
    (run σ (ps ++ qs) v).entries = (run σ ps v).entries.flatMap (fun m => match m.value? with
      | some w => (run σ qs w).entries
      | none => [m]) ∧
    (run σ (ps ++ qs) v).absent =
      (run σ ps v).absent + ((run σ ps v).values.map fun w => (run σ qs w).absent).sum :=
  run_append_extendedBy hσ hr qs ps hv

/-- The first elements of the elements of a list, one of which has none. -/
theorem run_append_wildcard_index :
    let σ : Scope := ⟨.flat, .null, .null⟩
    let v : Value := .list [.null, .list [.bool true]]
    σ.mode = .flat ∧ σ.root.hasMissing = false ∧ v.hasMissing = false ∧
      (run σ ([.wildcard] ++ [.child (.index 0)]) v).entries = [.absent, .found (.bool true)] ∧
      (run σ ([.wildcard] ++ [.child (.index 0)]) v).absent = 1 := by
  intro σ v
  obtain ⟨he, hn⟩ := run_append σ [.wildcard] [.child (.index 0)] v rfl rfl rfl
  exact ⟨rfl, rfl, rfl, he.trans rfl, hn.trans rfl⟩

end TreePath
