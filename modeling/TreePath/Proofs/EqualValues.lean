import Mathlib.Data.List.Perm.Subperm
import Mathlib.Logic.Relation
import TreePath.Proofs.DistinctKeys
import TreePath.Proofs.ExactOrder
import TreePath.Value.Equality

/-!
# Equality as a relation

Values are equal in one of three ways (`Value.Alike`): as one scalar, as arrays of equal elements, or as objects with as
many members, each of which has an equal one under its key. Hence equality is symmetric (`Value.equal_symm`) and
transitive (`Value.equal_trans`). A value equals itself if and only if it is *plain*, which means that it contains
neither a NaN nor an object of a foreign kind (`Value.equal_self_iff`). A plain value also equals what becomes of it
when it is *rearranged*: when members of objects change their places, and lists become tuples or tuples lists, at any
depth (`Value.equal_of_rearranged`).

Only symmetry and what rests on it need the keys of objects to be distinct: an object looks its members up in another
one, and finds all members of the other if both have as many keys (`Value.exists_equal_member`).
-/

namespace TreePath

/-- What a value without children is compared by. -/
inductive Scalar
  | null
  | bool (b : Bool)
  | number (point : WithBot (WithTop ℚ) × WithBot (WithTop ℚ))
  | string (s : Text)

namespace Value

/-- A NaN is no scalar, nor is an object of a foreign kind. -/
inductive IsScalar : Value → Scalar → Prop
  | null : IsScalar .null .null
  | bool (b : Bool) : IsScalar (.bool b) (.bool b)
  | number {x : Number} {p : WithBot (WithTop ℚ) × WithBot (WithTop ℚ)} (h : x.point? = some p) :
      IsScalar (.number x) (.number p)
  | string (s : Text) : IsScalar (.string s) (.string s)

theorem IsScalar.unique {v : Value} {s t : Scalar} (hs : v.IsScalar s) (ht : v.IsScalar t) : s = t := by
  cases hs with
  | number hp =>
    cases ht with
    | number hq => rw [Option.some.inj (hp.symm.trans hq)]
  | _ => cases ht; rfl

/-! ## The three ways to be equal -/

/-- What makes two values equal, one level deep. -/
inductive Alike : Value → Value → Prop
  | scalar {a b : Value} {s : Scalar} (ha : a.IsScalar s) (hb : b.IsScalar s) : Alike a b
  | array {a b : Value} {xs ys : List Value} (ha : a.elements? = some xs) (hb : b.elements? = some ys)
      (h : List.Forall₂ (fun x y => x.equal y = true) xs ys) : Alike a b
  | object {ms ns : List (Text × Value)} (hlength : ms.length = ns.length)
      (h : ∀ m ∈ ms, ∃ w, ns.lookup m.1 = some w ∧ m.2.equal w = true) : Alike (.object ms) (.object ns)

theorem equalAll_iff {xs ys : List Value} :
    equalAll xs ys = true ↔ List.Forall₂ (fun x y => x.equal y = true) xs ys := by
  induction xs generalizing ys with
  | nil => cases ys <;> simp [equalAll]
  | cons x xs ih => cases ys <;> simp [equalAll, ih]

theorem equalMembers_iff {ms ns : List (Text × Value)} :
    equalMembers ms ns = true ↔ ∀ m ∈ ms, ∃ w, ns.lookup m.1 = some w ∧ m.2.equal w = true := by
  induction ms with
  | nil => simp [equalMembers]
  | cons m ms ih =>
    obtain ⟨key, v⟩ := m
    rw [equalMembers, Bool.and_eq_true, ih, List.forall_mem_cons]
    refine and_congr_left' ?_
    cases ns.lookup key <;> simp

/-- Arrays are compared by their elements, whichever kind of array they are. -/
theorem equal_elements {a b : Value} {xs ys : List Value} (ha : a.elements? = some xs) (hb : b.elements? = some ys) :
    a.equal b = equalAll xs ys := by
  cases a with
  | list => cases ha; cases b <;> first | (cases hb; rfl) | cases hb
  | tuple => cases ha; cases b <;> first | (cases hb; rfl) | cases hb
  | _ => cases ha

/-- Equal values are of one kind, and alike as that kind. -/
theorem Alike.of_equal {a b : Value} (h : a.equal b = true) : Alike a b := by
  cases a with
  | null => cases b <;> first | exact .scalar .null .null | cases h
  | bool x => cases b <;> first | (cases beq_iff_eq.1 h; exact .scalar (.bool x) (.bool x)) | cases h
  | string s => cases b <;> first | (cases beq_iff_eq.1 h; exact .scalar (.string s) (.string s)) | cases h
  | number x =>
    cases b with
    | number y =>
      obtain ⟨p, hx, hy⟩ := Number.equal_iff.1 h
      exact .scalar (.number hx) (.number hy)
    | _ => cases h
  | list xs => cases b <;> first | exact .array rfl rfl (equalAll_iff.1 h) | cases h
  | tuple xs => cases b <;> first | exact .array rfl rfl (equalAll_iff.1 h) | cases h
  | object ms =>
    cases b with
    | object ns =>
      obtain ⟨hlength, hmembers⟩ := Bool.and_eq_true_iff.1 h
      exact .object (beq_iff_eq.1 hlength) (equalMembers_iff.1 hmembers)
    | _ => cases h
  | _ => cases h

theorem Alike.equal {a b : Value} (h : Alike a b) : a.equal b = true := by
  cases h with
  | scalar ha hb =>
    cases ha with
    | null => cases hb; rfl
    | bool x => cases hb; exact beq_self_eq_true x
    | string s => cases hb; exact beq_self_eq_true s
    | number hx => cases hb with | number hy => exact Number.equal_iff.2 ⟨_, hx, hy⟩
  | array ha hb hall => exact (equal_elements ha hb).trans (equalAll_iff.2 hall)
  | object hlength hmembers => exact Bool.and_eq_true_iff.2 ⟨beq_iff_eq.2 hlength, equalMembers_iff.2 hmembers⟩

/-! ## Symmetry and transitivity -/

section Members

variable {ms ns : List (Text × Value)}

/-- Of two objects with as many members, neither has a key that the other lacks if one has all keys of the other. -/
theorem keys_perm (hms : (ms.map Prod.fst).Nodup) (hlength : ms.length = ns.length)
    (hkeys : ∀ m ∈ ms, ∃ w, ns.lookup m.1 = some w) : (ms.map Prod.fst).Perm (ns.map Prod.fst) := by
  have hsubset : ms.map Prod.fst ⊆ ns.map Prod.fst := by
    intro key hkey
    obtain ⟨m, hm, rfl⟩ := List.mem_map.1 hkey
    obtain ⟨w, hw⟩ := hkeys m hm
    exact List.mem_map.2 ⟨_, mem_of_lookup_eq_some hw, rfl⟩
  refine (List.subperm_of_subset hms hsubset).perm_of_length_le ?_
  rw [List.length_map, List.length_map, hlength]

/-- Every member of the second object is the equal one of some member of the first, the one under its key. -/
theorem exists_equal_member (hms : (ms.map Prod.fst).Nodup) (hns : (ns.map Prod.fst).Nodup)
    (hlength : ms.length = ns.length) (h : ∀ m ∈ ms, ∃ w, ns.lookup m.1 = some w ∧ m.2.equal w = true) :
    ∀ n ∈ ns, ∃ v, ms.lookup n.1 = some v ∧ v.equal n.2 = true := by
  intro n hn
  have hperm := keys_perm hms hlength fun m hm => (h m hm).imp fun _ hw => hw.1
  obtain ⟨m, hm, hkey⟩ := List.mem_map.1 (hperm.mem_iff.2 (List.mem_map_of_mem hn))
  obtain ⟨w, hw, heq⟩ := h m hm
  rw [hkey, (lookup_eq_some_iff hns).2 hn] at hw
  cases hw
  exact ⟨m.2, (lookup_eq_some_iff hms).2 (hkey ▸ hm), heq⟩

end Members

theorem equal_symm {a b : Value} (ha : a.keysDistinct = true) (hb : b.keysDistinct = true) (h : a.equal b = true) :
    b.equal a = true := by
  induction a using induction_children generalizing b with
  | h a ih =>
    have hsymm : ∀ v ∈ a.children, ∀ w ∈ b.children, v.equal w = true → w.equal v = true := fun v hv w hw =>
      ih v hv (keysDistinct_of_mem_children ha hv) (keysDistinct_of_mem_children hb hw)
    refine Alike.equal ?_
    cases Alike.of_equal h with
    | scalar hsa hsb => exact .scalar hsb hsa
    | @array _ _ xs ys hxs hys hall =>
      rw [children_eq_elements hxs, children_eq_elements hys] at hsymm
      obtain ⟨hlength, hget⟩ := List.forall₂_iff_get.1 hall
      refine .array hys hxs (List.forall₂_iff_get.2 ⟨hlength.symm, fun i hy hx => ?_⟩)
      exact hsymm _ (List.get_mem xs _) _ (List.get_mem ys _) (hget i hx hy)
    | object hlength hmembers =>
      refine .object hlength.symm fun n hn => ?_
      obtain ⟨v, hv, heq⟩ :=
        exists_equal_member (keysDistinct_iff.1 ha).1 (keysDistinct_iff.1 hb).1 hlength hmembers n hn
      exact ⟨v, hv, hsymm v (mem_of_lookup hv) n.2 (List.mem_map_of_mem hn) heq⟩

theorem equal_trans {a b c : Value} (hab : a.equal b = true) (hbc : b.equal c = true) : a.equal c = true := by
  induction a using induction_children generalizing b c with
  | h a ih =>
    refine Alike.equal ?_
    cases Alike.of_equal hab with
    | scalar ha hb =>
      cases Alike.of_equal hbc with
      | scalar hb' hc => exact .scalar ha (hb.unique hb' ▸ hc)
      | array hb' => cases hb <;> cases hb'
      | object => cases hb
    | @array _ _ xs ys ha hb hxy =>
      cases Alike.of_equal hbc with
      | scalar hb' => cases hb' <;> cases hb
      | @array _ _ ys' zs hb' hc hyz =>
        cases hb.symm.trans hb'
        obtain ⟨hlength, hget⟩ := List.forall₂_iff_get.1 hxy
        obtain ⟨hlength', hget'⟩ := List.forall₂_iff_get.1 hyz
        refine .array ha hc (List.forall₂_iff_get.2 ⟨hlength.trans hlength', fun i hx hz => ?_⟩)
        have hchild : xs.get ⟨i, hx⟩ ∈ a.children := by
          rw [children_eq_elements ha]
          exact List.get_mem xs _
        exact ih _ hchild (hget i hx (hlength ▸ hx)) (hget' i (hlength ▸ hx) hz)
      | object => cases hb
    | @object ms ns hlength hmembers =>
      cases Alike.of_equal hbc with
      | scalar hb' => cases hb'
      | array hb' => cases hb'
      | object hlength' hmembers' =>
        refine .object (hlength.trans hlength') fun m hm => ?_
        obtain ⟨w, hw, hmw⟩ := hmembers m hm
        obtain ⟨u, hu, hwu⟩ := hmembers' _ (mem_of_lookup_eq_some hw)
        exact ⟨u, hu, ih m.2 (List.mem_map_of_mem hm) hmw hwu⟩

/-! ## Plain values -/

/-- Whether the value is a number that is no number. -/
def isNaN : Value → Bool
  | .number x => x.isNaN
  | _ => false

/-- Whether a value contains neither a NaN nor an object of a foreign kind, at any depth. -/
def isPlain (v : Value) : Bool := v.subvalues.all fun node => !node.isNaN && node.kind?.isSome

theorem isPlain_iff {v : Value} :
    v.isPlain = true ↔ (v.isNaN = false ∧ v.kind?.isSome = true) ∧ ∀ w ∈ v.children, w.isPlain = true := by
  rw [isPlain, all_subvalues_iff, Bool.and_eq_true, Bool.not_eq_true']
  rfl

theorem equal_number_self {x : Number} : (Value.number x).equal (.number x) = true ↔ x.isNaN = false := by
  rw [Bool.eq_false_iff, ne_eq, ← Number.point?_eq_none_iff, ← ne_eq, Option.ne_none_iff_exists']
  exact Number.equal_iff.trans (exists_congr fun p => and_self_iff)

theorem equal_object_self {ms : List (Text × Value)} (h : (ms.map Prod.fst).Nodup) :
    (Value.object ms).equal (.object ms) = true ↔ ∀ w ∈ (Value.object ms).children, w.equal w = true := by
  have hmember : ∀ m ∈ ms, (∃ w, ms.lookup m.1 = some w ∧ m.2.equal w = true) ↔ m.2.equal m.2 = true := by
    intro m hm
    rw [(lookup_eq_some_iff h).2 hm]
    simp
  have hchildren : (∀ w ∈ (Value.object ms).children, w.equal w = true) ↔ ∀ m ∈ ms, m.2.equal m.2 = true :=
    List.forall_mem_map
  rw [equal, beq_self_eq_true, Bool.true_and, equalMembers_iff, hchildren]
  exact forall₂_congr hmember

/-- One level of the test of a value against itself. -/
theorem equal_self_iff_children {v : Value} (h : v.keys.Nodup) :
    v.equal v = true ↔ (v.isNaN = false ∧ v.kind?.isSome = true) ∧ ∀ w ∈ v.children, w.equal w = true := by
  have hall : ∀ xs : List Value, equalAll xs xs = true ↔ ∀ x ∈ xs, x.equal x = true := fun xs =>
    equalAll_iff.trans List.forall₂_same
  cases v with
  | number x => simp [equal_number_self, isNaN, kind?, children, children?]
  | list xs => simp [equal, hall, isNaN, kind?, children, children?]
  | tuple xs => simp [equal, hall, isNaN, kind?, children, children?]
  | object ms => simpa [isNaN, kind?] using equal_object_self h
  | _ => simp [equal, isNaN, kind?, children, children?]

/-- **A value equals itself** if and only if it contains no NaN and nothing of a foreign kind. -/
theorem equal_self_iff {v : Value} (h : v.keysDistinct = true) : v.equal v = true ↔ v.isPlain = true := by
  induction v using induction_children with
  | h v ih =>
    obtain ⟨hkeys, hchildren⟩ := keysDistinct_iff.1 h
    rw [equal_self_iff_children hkeys, isPlain_iff]
    exact and_congr_right' (forall₂_congr fun w hw => ih w hw (hchildren w hw))

/-! ## Rearranged values -/

/-- One change: a list for a tuple or a tuple for a list, another order of members, or a change inside a child. -/
inductive Rearranges : Value → Value → Prop
  | exchange {a b : Value} {xs : List Value} (ha : a.elements? = some xs) (hb : b.elements? = some xs) :
      Rearranges a b
  | reorder {ms ns : List (Text × Value)} (h : ms.Perm ns) : Rearranges (.object ms) (.object ns)
  | element {a b v w : Value} {xs ys : List Value} (ha : a.elements? = some (xs ++ v :: ys))
      (hb : b.elements? = some (xs ++ w :: ys)) (h : Rearranges v w) : Rearranges a b
  | member {ms ns : List (Text × Value)} {key : Text} {v w : Value} (h : Rearranges v w) :
      Rearranges (.object (ms ++ (key, v) :: ns)) (.object (ms ++ (key, w) :: ns))

theorem keys_eq_nil {v : Value} {xs : List Value} (h : v.elements? = some xs) : v.keys = [] := by
  cases v <;> first | rfl | cases h

theorem keysDistinct_elements_iff {v : Value} {xs : List Value} (h : v.elements? = some xs) :
    v.keysDistinct = true ↔ ∀ x ∈ xs, x.keysDistinct = true := by
  rw [keysDistinct_iff, keys_eq_nil h, children_eq_elements h]
  exact and_iff_right List.nodup_nil

theorem children_object_append (ms ns : List (Text × Value)) (key : Text) (v : Value) :
    (Value.object (ms ++ (key, v) :: ns)).children = ms.map Prod.snd ++ v :: ns.map Prod.snd := List.map_append

theorem keys_object_append (ms ns : List (Text × Value)) (key : Text) (v : Value) :
    (Value.object (ms ++ (key, v) :: ns)).keys = ms.map Prod.fst ++ key :: ns.map Prod.fst := List.map_append

/-- Changes leave the keys distinct. -/
theorem Rearranges.keysDistinct {a b : Value} (h : Rearranges a b) (ha : a.keysDistinct = true) :
    b.keysDistinct = true := by
  induction h with
  | exchange hxs hys => exact (keysDistinct_elements_iff hys).2 ((keysDistinct_elements_iff hxs).1 ha)
  | reorder hperm =>
    obtain ⟨hkeys, hchildren⟩ := keysDistinct_iff.1 ha
    refine keysDistinct_iff.2 ⟨(hperm.map Prod.fst).nodup_iff.1 hkeys, fun w hw => ?_⟩
    exact hchildren w ((hperm.map Prod.snd).mem_iff.2 hw)
  | element hxs hys _ ih =>
    rw [keysDistinct_elements_iff hxs, List.forall_mem_append, List.forall_mem_cons] at ha
    rw [keysDistinct_elements_iff hys, List.forall_mem_append, List.forall_mem_cons]
    exact ⟨ha.1, ih ha.2.1, ha.2.2⟩
  | member _ ih =>
    rw [keysDistinct_iff, keys_object_append, children_object_append, List.forall_mem_append,
      List.forall_mem_cons] at ha ⊢
    exact ⟨ha.1, ha.2.1, ih ha.2.2.1, ha.2.2.2⟩

theorem equal_self_of_mem_children {v w : Value} (hkeys : v.keysDistinct = true) (hplain : v.isPlain = true)
    (hw : w ∈ v.children) : w.equal w = true :=
  (equal_self_iff (keysDistinct_of_mem_children hkeys hw)).2 ((isPlain_iff.1 hplain).2 w hw)

/-- A plain value equals what one change makes of it. -/
theorem Rearranges.equal {a b : Value} (h : Rearranges a b) (hkeys : a.keysDistinct = true)
    (hplain : a.isPlain = true) : a.equal b = true := by
  induction h with
  | @exchange a b xs ha hb =>
    rw [equal_elements ha hb, ← equal_elements ha ha]
    exact (equal_self_iff hkeys).2 hplain
  | @reorder ms ns hperm =>
    have hns : (ns.map Prod.fst).Nodup := (hperm.map Prod.fst).nodup_iff.1 (keysDistinct_iff.1 hkeys).1
    refine Alike.equal (.object hperm.length_eq fun m hm => ⟨m.2, ?_, ?_⟩)
    · exact (lookup_eq_some_iff hns).2 (hperm.mem_iff.1 hm)
    · exact equal_self_of_mem_children hkeys hplain (List.mem_map_of_mem hm)
  | @element a b v w xs ys ha hb _ ih =>
    have hself : ∀ x ∈ xs ++ v :: ys, x.equal x = true := fun x hx =>
      equal_self_of_mem_children hkeys hplain (children_eq_elements ha ▸ hx)
    have hv : v ∈ a.children := by
      rw [children_eq_elements ha]
      exact List.mem_append_right _ List.mem_cons_self
    have hvw := ih (keysDistinct_of_mem_children hkeys hv) ((isPlain_iff.1 hplain).2 v hv)
    rw [List.forall_mem_append, List.forall_mem_cons] at hself
    refine Alike.equal (.array ha hb ?_)
    exact List.rel_append (List.forall₂_same.2 hself.1) (.cons hvw (List.forall₂_same.2 hself.2.2))
  | @member ms ns key v w hchange ih =>
    have hnew := (keysDistinct_iff.1 (Rearranges.keysDistinct (.member hchange) hkeys)).1
    have hv : v ∈ (Value.object (ms ++ (key, v) :: ns)).children := by
      rw [children_object_append]
      exact List.mem_append_right _ List.mem_cons_self
    have hvw := ih (keysDistinct_of_mem_children hkeys hv) ((isPlain_iff.1 hplain).2 v hv)
    -- A member that is in both objects is found under its key.
    have hkept : ∀ m ∈ ms ++ (key, w) :: ns, m ∈ ms ++ (key, v) :: ns →
        ∃ u, (ms ++ (key, w) :: ns).lookup m.1 = some u ∧ m.2.equal u = true := fun m hm hold =>
      ⟨m.2, (lookup_eq_some_iff hnew).2 hm, equal_self_of_mem_children hkeys hplain (List.mem_map_of_mem hold)⟩
    refine Alike.equal (.object (by rw [List.length_append, List.length_append]; rfl) fun m hm => ?_)
    rcases List.mem_append.1 hm with hfront | hback
    · exact hkept m (List.mem_append_left _ hfront) hm
    · rcases List.mem_cons.1 hback with rfl | hback
      · exact ⟨w, (lookup_eq_some_iff hnew).2 (List.mem_append_right _ List.mem_cons_self), hvw⟩
      · exact hkept m (List.mem_append_right _ (List.mem_cons_of_mem _ hback)) hm

/-- A plain value equals what any changes make of it, and its keys stay distinct. -/
theorem equal_of_rearranged {a b : Value} (h : Relation.ReflTransGen Rearranges a b) (hkeys : a.keysDistinct = true)
    (hplain : a.isPlain = true) : a.equal b = true ∧ b.keysDistinct = true := by
  induction h with
  | refl => exact ⟨(equal_self_iff hkeys).2 hplain, hkeys⟩
  | @tail b c _ hchange ih =>
    -- That `b` is plain, too, follows from its being equal to a value, hence to itself.
    obtain ⟨hab, hb⟩ := ih
    have hbb : b.equal b = true := equal_trans (equal_symm hkeys hb hab) hab
    exact ⟨equal_trans hab (hchange.equal hb ((equal_self_iff hb).1 hbb)), hchange.keysDistinct hb⟩

/-- **Equality is a partial equivalence that the order of members does not matter to.** It is symmetric and transitive,
the values that equal themselves are the plain ones, and a plain value equals whatever it is rearranged to. -/
theorem equal_partialEquivalence {a b c : Value} (ha : a.keysDistinct = true) (hb : b.keysDistinct = true) :
    a.equal b = b.equal a ∧
    (a.equal b = true → b.equal c = true → a.equal c = true) ∧
    (a.equal a = true ↔ ∀ u ∈ a.subvalues, u.isNaN = false ∧ u.kind?.isSome = true) ∧
    ((∀ u ∈ a.subvalues, u.isNaN = false ∧ u.kind?.isSome = true) →
      ∀ d, Relation.ReflTransGen Rearranges a d → d.equal a = true ∧ a.equal d = true) := by
  have hplain : a.isPlain = true ↔ ∀ u ∈ a.subvalues, u.isNaN = false ∧ u.kind?.isSome = true := by
    simp only [isPlain, List.all_eq_true, Bool.and_eq_true, Bool.not_eq_true']
  rw [← hplain]
  refine ⟨?_, equal_trans, equal_self_iff ha, fun h d hd => ?_⟩
  · exact Bool.eq_iff_iff.2 ⟨equal_symm ha hb, equal_symm hb ha⟩
  · obtain ⟨had, hkeys⟩ := equal_of_rearranged hd ha h
    exact ⟨equal_symm ha hkeys had, had⟩

/-- The members of an object in a list change their places, and then the list becomes a tuple. -/
theorem equal_partialEquivalence_moved :
    let before : Value := .object [("a", .null), ("b", .bool true)]
    let behind : Value := .object [("b", .bool true), ("a", .null)]
    let a : Value := .object [("x", .int 1), ("y", .list [before])]
    let b : Value := .object [("x", .int 1), ("y", .tuple [behind])]
    a.keysDistinct = true ∧ b.keysDistinct = true ∧ Relation.ReflTransGen Rearranges a b ∧
      a.equal a = true ∧ a.equal b = true ∧ b.equal a = true := by
  intro before behind a b
  have hlist : Rearranges (.list [before]) (.list [behind]) :=
    @Rearranges.element _ _ _ _ [] [] rfl rfl (.reorder (.swap _ _ []))
  have hmoved : Rearranges a (.object [("x", .int 1), ("y", .list [behind])]) :=
    @Rearranges.member [("x", .int 1)] [] "y" _ _ hlist
  have hb : Rearranges (.object [("x", .int 1), ("y", .list [behind])]) b :=
    @Rearranges.member [("x", .int 1)] [] "y" _ _ (.exchange rfl rfl)
  have hplain : ∀ u ∈ a.subvalues, u.isNaN = false ∧ u.kind?.isSome = true := by decide +kernel
  have hrearranged := (Relation.ReflTransGen.single hmoved).tail hb
  obtain ⟨hsymm, _, hself, hequal⟩ := equal_partialEquivalence (a := a) (b := b) (c := a) rfl rfl
  obtain ⟨_, hab⟩ := hequal hplain b hrearranged
  exact ⟨rfl, rfl, hrearranged, hself.2 hplain, hab, hsymm ▸ hab⟩

end Value

end TreePath
