import TreePath.Proofs.Moves

/-!
# Slices by their indices

A slice leads where the index accesses `first`, `first + step`, … before `last` lead, one behind the other
(`Slice.indices`, `entries_run_slice`). Its bounds are brought into the array first; whether they are the same, and the
slice an absence, is asked before that.

What the slice picks and what the indices look up are compared without the rest of the path
(`Slice.map_some_every`). The two lead apart at one kind of element only: the marker `missing` is an element as any
other to a slice, and an absence to an index access (`entries_slice_missing`).
-/

namespace TreePath

namespace Slice

/-! ## The indices of a slice -/

/-- A bound as a place in an array of `n` elements: a negative bound is counted from the end, and then every bound is
brought between `0` and `n`. -/
def place (n : Nat) (i : Int) : Int := max 0 (min (if i < 0 then i + n else i) n)

theorem clamp_eq_place (n : Nat) (i : Int) : (clamp n i : Int) = place n i := by
  unfold clamp place
  split <;> omega

theorem clamp_le (n : Nat) (i : Int) : clamp n i ≤ n := by
  have hplace : place n i ≤ n := by
    unfold place
    omega
  have := clamp_eq_place n i
  omega

/-- The indices `i`, `i + step`, `i + 2 * step` and so on, while they are below `last`. -/
def indicesFrom (s : Slice) (last i : Int) : List Int :=
  if i < last then i :: s.indicesFrom last (i + s.step) else []
termination_by (last - i).toNat
decreasing_by
  have := s.step_pos
  omega

variable (s : Slice)

theorem indicesFrom_of_lt {last i : Int} (h : i < last) :
    s.indicesFrom last i = i :: s.indicesFrom last (i + s.step) := by
  rw [indicesFrom, if_pos h]

theorem indicesFrom_of_le {last i : Int} (h : last ≤ i) : s.indicesFrom last i = [] := by
  rw [indicesFrom, if_neg (by omega)]

/-- The indices that a slice stands for in an array of `n` elements; an open end stands for `n`. -/
def indices (n : Nat) : List Int := s.indicesFrom (place n (s.last.getD n)) (place n s.first)

/-! ## The elements of a slice -/

theorem every_eq_drop {α : Type} (step : Nat) : ∀ (skip : Nat) (xs : List α),
    every step skip xs = every step 0 (xs.drop skip)
  | 0, _ => rfl
  | _ + 1, [] => rfl
  | skip + 1, _ :: xs => every_eq_drop step skip xs

theorem elementAt?_natCast (xs : List Value) (i : Nat) : Value.elementAt? xs i = xs[i]? := by
  rw [Value.elementAt?, if_pos (by omega), Int.toNat_natCast]

/-- The elements that a slice picks from the place `i` on are those at its indices from `i` on. -/
theorem map_some_every (xs : List Value) {last : Nat} (hlast : last ≤ xs.length) (i : Nat) :
    (every s.step 0 ((xs.take last).drop i)).map some = (s.indicesFrom last i).map (Value.elementAt? xs) := by
  by_cases h : i < last
  · have hlt : i < (xs.take last).length := by
      rw [List.length_take]
      omega
    have hskip : i + 1 + (s.step - 1) = i + s.step := by
      have := s.step_pos
      omega
    have hhead : Value.elementAt? xs i = some (xs.take last)[i] := by
      rw [elementAt?_natCast, List.getElem_take, List.getElem?_eq_getElem]
    have hindices : s.indicesFrom last i = (i : Int) :: s.indicesFrom last ((i + s.step : Nat) : Int) :=
      indicesFrom_of_lt s (Int.ofNat_lt.2 h)
    rw [List.drop_eq_getElem_cons hlt, every, every_eq_drop, List.drop_drop, hskip, hindices, List.map_cons,
      List.map_cons, hhead, map_some_every xs hlast (i + s.step)]
  · rw [List.drop_eq_nil_of_le (by rw [List.length_take]; omega), indicesFrom_of_le s (by omega)]
    rfl
termination_by last - i
decreasing_by
  have := s.step_pos
  omega

/-- A slice whose bounds differ picks the elements at its indices. -/
theorem exists_pick? {xs : List Value} (h : s.first ≠ s.last.getD xs.length) :
    ∃ ws, s.pick? xs = some ws ∧ ws.map some = (s.indices xs.length).map (Value.elementAt? xs) := by
  refine ⟨_, if_neg h, ?_⟩
  rw [map_some_every s xs (clamp_le _ _), clamp_eq_place, clamp_eq_place]
  rfl

end Slice

/-! ## Walks -/

section Walks

variable (σ : Scope)

/-- The walk of a slice whose bounds differ is the join of the walks of index accesses, except that a marker `missing`
among the elements is walked on from. -/
theorem Selector.run_slice_eq_join (k : Value → Outcome) (s : Slice) {v : Value} {xs : List Value}
    (hv : v.elements? = some xs) (hne : s.first ≠ s.last.getD xs.length) :
    (Selector.slice s).run σ k v = .join ((s.indices xs.length).map fun i =>
      if (v.element? i).any Value.isMissing then k .missing else (Selector.child (.index i)).run σ k v) := by
  obtain ⟨ws, hws, helements⟩ := s.exists_pick? hne
  have hat : ∀ i : Int, (if (v.element? i).any Value.isMissing then k .missing
      else (Selector.child (.index i)).run σ k v) = (Value.elementAt? xs i).elim .absence k := by
    intro i
    have hchild : v.child? (.index i) = Value.elementAt? xs i := by
      show v.elements?.bind (Value.elementAt? · i) = _
      rw [hv, Option.bind_some]
    rw [Selector.run, hchild, Value.element?, hv, Option.bind_some]
    cases Value.elementAt? xs i with
    | none => rfl
    | some w => cases w <;> rfl
  have hmap : ws.map k = (s.indices xs.length).map fun i => (Value.elementAt? xs i).elim .absence k :=
    calc ws.map k = (ws.map some).map (fun w => w.elim .absence k) := by rw [List.map_map]; rfl
      _ = ((s.indices xs.length).map (Value.elementAt? xs)).map (fun w => w.elim .absence k) := by rw [helements]
      _ = _ := by rw [List.map_map]; rfl
  rw [Selector.run, hv, Option.bind_some, hws]
  dsimp only
  simp only [hat, hmap]

/-- A slice selects nothing from a value that is no array, or if its bounds are the same: an absence. -/
theorem Selector.run_slice_eq_absence (k : Value → Outcome) (s : Slice) {v : Value}
    (h : ∀ xs, v.elements? = some xs → s.first = s.last.getD xs.length) :
    (Selector.slice s).run σ k v = .absence := by
  rw [Selector.run]
  cases hv : v.elements? with
  | none => rfl
  | some xs =>
    have hpick : s.pick? xs = none := if_pos (h xs hv)
    rw [Option.bind_some, hpick]

/-- **A slice is the sequence of the index accesses it stands for.** From a value that is no array it finds exactly one
absence, and from an array too if its bounds are the same once an open end stands for the length. Otherwise its entries
are those of the accesses by its indices, each with the rest of the path behind it, one after the other; only where the
element at an index is the marker `missing`, they are those of the rest of the path from the marker. -/
theorem entries_run_slice (s : Slice) (rest : List Token) (v : Value) :
    (v.elements? = none → run σ (.select (.slice s) :: rest) v = Outcome.absence.visited) ∧
    ∀ xs, v.elements? = some xs →
      (s.first = s.last.getD xs.length → run σ (.select (.slice s) :: rest) v = Outcome.absence.visited) ∧
      (s.first ≠ s.last.getD xs.length →
        (run σ (.select (.slice s) :: rest) v).entries = (s.indices xs.length).flatMap fun i =>
          if (v.element? i).any Value.isMissing then (run σ rest .missing).entries
          else (run σ (.child (.index i) :: rest) v).entries) := by
  have hrun : run σ (.select (.slice s) :: rest) v = ((Selector.slice s).run σ (run σ rest) v).visited := rfl
  rw [hrun]
  refine ⟨fun hv => ?_, fun xs hv => ⟨fun heq => ?_, fun hne => ?_⟩⟩
  · rw [Selector.run_slice_eq_absence]
    rw [hv]
    rintro xs ⟨⟩
  · rw [Selector.run_slice_eq_absence]
    intro ys hys
    cases hv.symm.trans hys
    exact heq
  · rw [Selector.run_slice_eq_join σ _ s hv hne, Outcome.entries_visited, Outcome.entries_join, List.flatMap_map]
    exact congrArg (List.flatMap · _) (funext fun i => apply_ite Outcome.entries _ _ _)

end Walks

/-- Every second element from the last but two on, which are an array and a marker `missing`. -/
theorem entries_run_slice_marker :
    let s : Slice := ⟨-3, none, 2, by decide⟩
    let v : Value := .list [.null, .list [.bool true], .null, .missing]
    v.elements? = some [.null, .list [.bool true], .null, .missing] ∧ s.first ≠ s.last.getD 4 ∧ s.indices 4 = [1, 3] ∧
      (run ⟨.flat, .null, .null⟩ [.select (.slice s), .wildcard] v).entries = [.found (.bool true), .absent] := by
  intro s v
  have hindices : s.indices 4 = [1, 3] := by decide +kernel
  have hentries := ((entries_run_slice ⟨.flat, .null, .null⟩ s [.wildcard] v).2 _ rfl).2 (by decide)
  exact ⟨rfl, by decide, hindices, hentries.trans (congrArg _ hindices)⟩

/-- From a marker `missing` a slice walks on, here by two accesses that are lost; an index access is lost at once. -/
theorem entries_slice_missing :
    let s : Slice := ⟨0, some 1, 1, by decide⟩
    let rest : List Token := [.union (.child (.name "a")) [.child (.name "b")]]
    let v : Value := .list [.missing]
    s.first ≠ s.last.getD 1 ∧ s.indices 1 = [0] ∧
      (run ⟨.flat, .null, v⟩ (.select (.slice s) :: rest) v).entries = [.absent, .absent] ∧
      (s.indices 1).flatMap (fun i => (run ⟨.flat, .null, v⟩ (.child (.index i) :: rest) v).entries) = [.absent] := by
  intro s rest v
  have hindices : s.indices 1 = [0] := by decide +kernel
  exact ⟨by decide, hindices, rfl, congrArg _ hindices⟩

end TreePath
