import TreePath.Proofs.Places

/-!
# Objects with distinct keys

The keys of an object are distinct. An object is a list of members, though, and what rests on this says so: in
`Value.keysDistinct` values no object has a key twice, at any depth. There each member is the one that its key looks up
(`Value.lookup_eq_some_iff`), so that every child of a value has a key that leads to it (`Value.exists_key`).
-/

namespace TreePath.Value

/-- The keys of an object, in the order of its members; other values have none. -/
def keys : Value → List Text
  | .object ms => ms.map Prod.fst
  | _ => []

/-- Whether all objects in a value, at any depth, have distinct keys. -/
def keysDistinct (v : Value) : Bool := v.subvalues.all fun node => decide node.keys.Nodup

theorem subvalues_eq (v : Value) : v.subvalues = v :: v.children.flatMap subvalues := gather_eq _ v

/-- A test of all nodes is one of the value itself and of the nodes of each child. -/
theorem all_subvalues_iff {p : Value → Bool} {v : Value} :
    v.subvalues.all p = true ↔ p v = true ∧ ∀ w ∈ v.children, w.subvalues.all p = true := by
  rw [subvalues_eq, List.all_cons, Bool.and_eq_true, List.all_flatMap, List.all_eq_true]

theorem keysDistinct_iff {v : Value} :
    v.keysDistinct = true ↔ v.keys.Nodup ∧ ∀ w ∈ v.children, w.keysDistinct = true := by
  rw [keysDistinct, all_subvalues_iff, decide_eq_true_iff]
  rfl

theorem keysDistinct_of_mem_children {v w : Value} (h : v.keysDistinct = true) (hw : w ∈ v.children) :
    w.keysDistinct = true := (keysDistinct_iff.1 h).2 w hw

/-! ## Members and their keys -/

/-- Among distinct keys, a key looks up the member that it stands with. -/
theorem lookup_eq_some_iff {ms : List (Text × Value)} {key : Text} {v : Value} (h : (ms.map Prod.fst).Nodup) :
    ms.lookup key = some v ↔ (key, v) ∈ ms := by
  refine ⟨mem_of_lookup_eq_some, fun hmem => ?_⟩
  obtain ⟨before, behind, rfl⟩ := List.append_of_mem hmem
  refine List.lookup_eq_some_iff.2 ⟨before, behind, rfl, fun m hm => ?_⟩
  rw [List.map_append, List.map_cons] at h
  have hne : m.1 ≠ key := (List.nodup_append.1 h).2.2 m.1 (List.mem_map_of_mem hm) key List.mem_cons_self
  simpa using hne.symm

/-! ## Children and their keys -/

theorem findIdx?_eq_some {ms : List (Text × Value)} (h : (ms.map Prod.fst).Nodup) {i : Nat} (hi : i < ms.length) :
    (ms.findIdx? fun m => ms[i].1 == m.1) = some i := by
  refine List.findIdx?_eq_some_iff_getElem.2 ⟨hi, beq_self_eq_true _, fun j hji hsame => ?_⟩
  have hlength : (ms.map Prod.fst).length = ms.length := List.length_map _
  have hne := List.pairwise_iff_getElem.1 h j i (by omega) (by omega) hji
  rw [List.getElem_map, List.getElem_map] at hne
  exact hne (beq_iff_eq.1 hsame).symm

/-- Every child of a value is led to by a key, and it is the one at its position: a text, or an index that is counted
from the start. -/
theorem exists_key {v w : Value} (hkeys : v.keys.Nodup) {i : Nat} (h : v.children[i]? = some w) :
    ∃ key : Key, (∀ j, key = .index j → 0 ≤ j) ∧ v.numberedChild? key = some (w, i) := by
  have hposition : ∃ key : Key, (∀ j, key = .index j → 0 ≤ j) ∧ v.position? key = some i := by
    have hlt : i < v.children.length := (List.getElem?_eq_some_iff.1 h).1
    have hindex : ∀ xs : List Value, i < xs.length → indexPosition? xs.length i = some i := by
      intro xs hi
      rw [indexPosition?, if_pos (by omega), if_pos (by omega), Int.toNat_natCast]
    have hnonneg : ∀ j : Int, Key.index i = .index j → 0 ≤ j := by
      rintro _ ⟨⟩
      exact Int.natCast_nonneg i
    cases v with
    | list xs => exact ⟨.index i, hnonneg, hindex xs hlt⟩
    | tuple xs => exact ⟨.index i, hnonneg, hindex xs hlt⟩
    | object ms =>
      have hi : i < ms.length := by
        rwa [children, children?, Option.getD_some, List.length_map] at hlt
      exact ⟨.name ms[i].1, (fun _ hj => by cases hj), findIdx?_eq_some hkeys hi⟩
    | _ => cases h
  obtain ⟨key, hnonneg, hkey⟩ := hposition
  refine ⟨key, hnonneg, ?_⟩
  rw [numberedChild?, hkey, Option.bind_some, h]
  rfl

end TreePath.Value
