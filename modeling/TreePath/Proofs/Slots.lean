import Mathlib.Data.List.Forall2
import TreePath.Proofs.Moves

/-!
# Slots of unions

Nested mode is flat mode with grouping: taken out of their slots, the entries of a nested walk are those of the flat
walk, and absences and visits are counted alike (`run_nested_leaves`). This holds where no union stands inside a
filter, since the test of a filter sees slots as lists.

Taking entries out of slots is `leavesAll`; the relation that the induction on the path carries is
`Outcome.GroupedFrom`. A bare slot is no list, and holds one entry since the path behind it only makes steps
(`length_entries_of_steps`).
-/

namespace TreePath

/-! ## Unions inside filters -/

mutual

/-- Whether a union stands inside the filter, at any depth; other selectors have no inside. -/
def Selector.hasUnion : Selector → Bool
  | .filter _ head tail _ _ => head.hasUnion || anyUnion tail
  | _ => false

/-- Whether a token is a union or has one inside. -/
def Token.hasUnion : Token → Bool
  | .union .. => true
  | .select s => s.hasUnion
  | _ => false

def anyUnion : List Token → Bool
  | [] => false
  | t :: ts => t.hasUnion || anyUnion ts

end

/-- Whether some filter of the token, or of an alternative of the token, has a union inside. -/
def Token.testsUnion : Token → Bool
  | .select s => s.hasUnion
  | .union first others => (first :: others).any Selector.hasUnion
  | _ => false

section Modes

variable (σ : Scope) (m : UnionMode)

mutual

theorem Selector.run_mode (k : Value → Outcome) : ∀ s : Selector, s.hasUnion = false → ∀ v : Value,
    s.run { σ with mode := m } k v = s.run σ k v
  | .child _, _, _ | .slice _, _, _ | .wildcard, _, _ => rfl
  | .filter _ head tail _ _, h, v => by
    obtain ⟨hh, ht⟩ := Bool.or_eq_false_iff.1 h
    have hw : ∀ w, run { σ with mode := m } (head :: tail) w = run σ (head :: tail) w := by
      intro w
      rw [run_cons, run_cons, Token.run_mode _ _ head hh, funext (run_mode tail ht)]
    rw [run_filter, run_filter]
    simp only [hw]

theorem Token.run_mode (k : Value → Outcome) (single : Bool) : ∀ t : Token, t.hasUnion = false → ∀ v : Value,
    t.run { σ with mode := m } k single v = t.run σ k single v
  | .root, _, _ | .current, _, _ | .descend .., _, _ => rfl
  | .select s, h, v => Selector.run_mode k s h v

/-- A path without unions is walked along in the same way in both modes. -/
theorem run_mode : ∀ ts : List Token, anyUnion ts = false → ∀ v : Value,
    run { σ with mode := m } ts v = run σ ts v
  | [], _, _ => rfl
  | t :: ts, h, v => by
    obtain ⟨ht, hts⟩ := Bool.or_eq_false_iff.1 h
    rw [run_cons, run_cons, Token.run_mode _ _ t ht, funext (run_mode ts hts)]

end

theorem Selector.moves_mode {s : Selector} (h : s.hasUnion = false) (v : Value) :
    s.moves { σ with mode := m } v = s.moves σ v := by
  cases s with
  | filter source head tail op literal =>
    rw [moves, moves, funext (TreePath.run_mode σ m (head :: tail) h)]
  | _ => rfl

end Modes

/-! ## Paths that only make steps -/

/-- A path of steps leads from every value to exactly one entry. -/
theorem length_entries_of_steps (σ : Scope) : ∀ {ts : List Token}, ts.all Token.isStep = true → ∀ v : Value,
    (run σ ts v).entries.length = 1
  | [], _, _ => rfl
  | t :: ts, h, v => by
    obtain ⟨ht, hts⟩ := Bool.and_eq_true_iff.1 (List.all_cons.symm.trans h)
    have ih := length_entries_of_steps σ hts
    rw [run_cons, Outcome.entries_visited]
    match t, ht with
    | .root, _ => exact ih σ.root
    | .current, _ => exact ih v
    | .select (.child key), _ =>
      simp only [Token.run, Selector.run]
      split
      · split
        · rfl
        · exact ih _
      · rfl

/-- An alternative that makes a step, as the rest of the path does, leads to exactly one entry. -/
theorem length_entries_alternative (σ : Scope) {ts : List Token} {s : Selector}
    (h : (ts.all Token.isStep && (Token.select s).isStep) = true) (v : Value) :
    (s.run σ (run σ ts) v).entries.length = 1 := by
  have hall : (Token.select s :: ts).all Token.isStep = true := by rw [List.all_cons, Bool.and_comm]; exact h
  exact length_entries_of_steps σ hall v

/-! ## Entries out of their slots -/

mutual

/-- The entries of a slot, and of the slots inside it, in order; any other entry stands for itself. -/
def Match.leaves : Match → List Match
  | .found v => [.found v]
  | .absent => [.absent]
  | .slot ms => leavesAll ms

def leavesAll : List Match → List Match
  | [] => []
  | m :: ms => m.leaves ++ leavesAll ms

end

theorem leavesAll_append (ms ns : List Match) : leavesAll (ms ++ ns) = leavesAll ms ++ leavesAll ns := by
  induction ms with
  | nil => rfl
  | cons m ms ih => rw [List.cons_append, leavesAll, leavesAll, ih, List.append_assoc]

namespace Outcome

/-- `o'` is `o` with its entries taken out of their slots. -/
def GroupedFrom (o o' : Outcome) : Prop :=
  leavesAll o.entries = o'.entries ∧ o.absent = o'.absent ∧ o.visits = o'.visits

theorem GroupedFrom.append {a a' b b' : Outcome} (ha : GroupedFrom a a') (hb : GroupedFrom b b') :
    GroupedFrom (a ++ b) (a' ++ b') := by
  obtain ⟨he, hn, hv⟩ := ha
  obtain ⟨he', hn', hv'⟩ := hb
  refine ⟨?_, ?_, ?_⟩
  · rw [entries_append, entries_append, leavesAll_append, he, he']
  · rw [absent_append, absent_append, hn, hn']
  · rw [visits_append, visits_append, hv, hv']

theorem GroupedFrom.empty : GroupedFrom empty empty := ⟨rfl, rfl, rfl⟩

theorem GroupedFrom.visited {a a' : Outcome} (h : GroupedFrom a a') : GroupedFrom a.visited a'.visited :=
  ⟨h.1, h.2.1, congrArg (1 :: ·) h.2.2⟩

/-- The entries of a bare slot are one entry. -/
theorem entries_slot_bare {o : Outcome} (h : o.entries.length = 1) : (o.slot true).entries = o.entries :=
  List.take_of_length_le (Nat.le_of_eq h)

/-- Slots make no difference once the entries are out of them. -/
theorem GroupedFrom.slot {o o' : Outcome} {bare : Bool} (h : GroupedFrom o o')
    (hb : bare = true → o.entries.length = 1) : GroupedFrom (o.slot bare) o' := by
  refine ⟨?_, h.2⟩
  rw [← h.1]
  cases bare with
  | true => rw [entries_slot_bare (hb rfl)]
  | false => exact List.append_nil _

/-- What follows from a move is grouped if the walk from where it leads is. -/
theorem groupedFrom_run {f g : Value → Outcome} (h : ∀ w, GroupedFrom (f w) (g w)) (m : Move) :
    GroupedFrom (m.run f) (m.run g) := by
  cases m with
  | onto w => exact h w
  | lost => exact ⟨rfl, rfl, rfl⟩
  | tested n => exact ⟨rfl, rfl, rfl⟩

end Outcome

/-! ## The simulation -/

section Simulation

open Outcome

variable {σ : Scope}

theorem Selector.groupedFrom {s : Selector} (hs : s.hasUnion = false) {k k' : Value → Outcome}
    (hk : ∀ w, GroupedFrom (k w) (k' w)) (v : Value) :
    GroupedFrom (s.run { σ with mode := .nested } k v) (s.run { σ with mode := .flat } k' v) := by
  rw [Selector.run_eq_join, Selector.run_eq_join, Selector.moves_mode σ .nested hs,
    Selector.moves_mode σ .flat hs]
  exact join_map_rel .empty (fun ha hb => ha.append hb) fun m _ => groupedFrom_run hk m

/-- The slot of one alternative, where `ts` is the path behind the union. -/
theorem groupedFrom_slot {s : Selector} (hs : s.hasUnion = false) {ts : List Token}
    (ih : ∀ w, GroupedFrom (run { σ with mode := .nested } ts w) (run { σ with mode := .flat } ts w)) (v : Value) :
    GroupedFrom ((s.run { σ with mode := .nested } (run { σ with mode := .nested } ts) v).slot
        (ts.all Token.isStep && (Token.select s).isStep))
      (s.run { σ with mode := .flat } (run { σ with mode := .flat } ts) v) := by
  apply (Selector.groupedFrom hs ih v).slot
  intro hb
  exact length_entries_alternative { σ with mode := .nested } hb v

theorem groupedFrom_runOthers {ts : List Token}
    (ih : ∀ w, GroupedFrom (run { σ with mode := .nested } ts w) (run { σ with mode := .flat } ts w)) (v : Value) :
    ∀ ss : List Selector, ss.any Selector.hasUnion = false →
      GroupedFrom
        (runOthers { σ with mode := .nested } (run { σ with mode := .nested } ts) (ts.all Token.isStep) ss v)
        (runOthers { σ with mode := .flat } (run { σ with mode := .flat } ts) (ts.all Token.isStep) ss v)
  | [], _ => .empty
  | s :: ss, h => by
    obtain ⟨hs, hss⟩ := Bool.or_eq_false_iff.1 (List.any_cons.symm.trans h)
    exact (groupedFrom_slot hs ih v).append (groupedFrom_runOthers ih v ss hss)

/-- The nested walk groups the entries of the flat one. -/
theorem run_groupedFrom : ∀ {ts : List Token}, ts.any Token.testsUnion = false → ∀ v : Value,
    GroupedFrom (run { σ with mode := .nested } ts v) (run { σ with mode := .flat } ts v)
  | [], _, v => by
    refine ⟨?_, rfl, rfl⟩
    show leavesAll [Match.arrive v] = [Match.arrive v]
    unfold Match.arrive
    split <;> rfl
  | t :: ts, h, v => by
    obtain ⟨ht, hts⟩ := Bool.or_eq_false_iff.1 (List.any_cons.symm.trans h)
    have ih : ∀ w, GroupedFrom (run { σ with mode := .nested } ts w) (run { σ with mode := .flat } ts w) :=
      run_groupedFrom hts
    rw [run_cons, run_cons]
    apply GroupedFrom.visited
    cases t with
    | root => exact ih σ.root
    | current => exact ih v
    | select s => exact Selector.groupedFrom ht ih v
    | descend key key_ne => exact join_map_rel .empty (fun ha hb => ha.append hb) fun w _ => ih w
    | union first others =>
      obtain ⟨hf, ho⟩ := Bool.or_eq_false_iff.1 (List.any_cons.symm.trans ht)
      exact (groupedFrom_slot hf ih v).append (groupedFrom_runOthers ih v others ho)

end Simulation

/-! ## One slot for each alternative -/

/-- `m` is the slot of a walk along `ts` from `v`: its one entry if the path only makes steps, and the list of its
entries if not. -/
def Match.IsSlotOf (σ : Scope) (ts : List Token) (v : Value) (m : Match) : Prop :=
  if ts.all Token.isStep then (run σ ts v).entries = [m] else m = .slot (run σ ts v).entries

section Alternatives

variable {σ : Scope} (rest : List Token) (v : Value)

/-- An alternative leaves exactly one slot. -/
theorem exists_isSlotOf (s : Selector) : ∃ m, Match.IsSlotOf σ (.select s :: rest) v m ∧
    ((s.run σ (run σ rest) v).slot (rest.all Token.isStep && (Token.select s).isStep)).entries = [m] := by
  have he : (run σ (.select s :: rest) v).entries = (s.run σ (run σ rest) v).entries := rfl
  unfold Match.IsSlotOf
  rw [List.all_cons, Bool.and_comm]
  cases hb : rest.all Token.isStep && (Token.select s).isStep with
  | false => exact ⟨_, rfl, rfl⟩
  | true =>
    have hlen := length_entries_alternative σ hb v
    obtain ⟨m, hm⟩ := List.length_eq_one_iff.1 hlen
    exact ⟨m, he.trans hm, (Outcome.entries_slot_bare hlen).trans hm⟩

variable (hσ : σ.mode = .nested)

include hσ

theorem forall₂_runOthers (ss : List Selector) :
    List.Forall₂ (fun s m => Match.IsSlotOf σ (.select s :: rest) v m) ss
      (runOthers σ (run σ rest) (rest.all Token.isStep) ss v).entries := by
  induction ss with
  | nil => exact .nil
  | cons s ss ih =>
    obtain ⟨m, hm, he⟩ := exists_isSlotOf (σ := σ) rest v s
    rw [runOthers, hσ]
    dsimp only
    rw [Outcome.entries_append, he]
    exact .cons hm ih

/-- A union leaves one slot for each alternative, in their order. -/
theorem forall₂_run_union (first : Selector) (others : List Selector) :
    List.Forall₂ (fun s m => Match.IsSlotOf σ (.select s :: rest) v m) (first :: others)
      (run σ (.union first others :: rest) v).entries := by
  obtain ⟨m, hm, he⟩ := exists_isSlotOf (σ := σ) rest v first
  rw [run_cons, Outcome.entries_visited, Token.run, hσ]
  dsimp only
  rw [Outcome.entries_append, he]
  exact .cons hm (forall₂_runOthers rest v hσ others)

end Alternatives

/-! ## Main statement -/

/-- **Nested mode is flat mode with grouping**, for paths without a union inside a filter; and every union that a
nested walk comes to leaves one slot for each alternative. -/
theorem run_nested_leaves (σ : Scope) (ts : List Token) (v : Value) (h : ts.any Token.testsUnion = false) :
    leavesAll (run { σ with mode := .nested } ts v).entries = (run { σ with mode := .flat } ts v).entries ∧
    (run { σ with mode := .nested } ts v).absent = (run { σ with mode := .flat } ts v).absent ∧
    (run { σ with mode := .nested } ts v).visits = (run { σ with mode := .flat } ts v).visits ∧
    ∀ (first : Selector) (others : List Selector) (rest : List Token) (w : Value),
      List.Forall₂ (fun s m => Match.IsSlotOf { σ with mode := .nested } (.select s :: rest) w m) (first :: others)
        (run { σ with mode := .nested } (.union first others :: rest) w).entries := by
  obtain ⟨he, hn, hv⟩ := run_groupedFrom (σ := σ) h v
  exact ⟨he, hn, hv, fun first others rest w => forall₂_run_union rest w rfl first others⟩

/-- Two unions in a row, the second with a bare slot and a list; one of the elements has nothing to select from. -/
theorem run_nested_leaves_two_unions :
    let σ : Scope := ⟨.flat, .null, .null⟩
    let ts : List Token := [.union (.child (.index 0)) [.child (.index 1)], .union (.child (.index 0)) [.wildcard]]
    let v : Value := .list [.list [.bool true], .null]
    ts.any Token.testsUnion = false ∧
      (run { σ with mode := .nested } ts v).entries =
        [.slot [.found (.bool true), .slot [.found (.bool true)]], .slot [.absent, .slot [.absent]]] ∧
      leavesAll (run { σ with mode := .nested } ts v).entries =
        [.found (.bool true), .found (.bool true), .absent, .absent] := by
  intro σ ts v
  exact ⟨rfl, rfl, (run_nested_leaves σ ts v rfl).1.trans rfl⟩

end TreePath
