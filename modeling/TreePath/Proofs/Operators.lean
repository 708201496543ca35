import Mathlib.Data.List.Lex
import TreePath.Proofs.ExactOrder
import TreePath.Value.Order

/-!
# The six operators

There are three classes of values that are ordered: truth values, texts, and the numbers that have a place on the real
line. Each class is a scale (`Value.IsScale`): its values have places in a linear order, compare as their places do, and
are equal if and only if they have the same place. So the operators between two values of one class are those of a
linear order, although equality looks at the values and the order at the places. Between values that are not of one
class no ordering operator holds (`Value.order?_eq_none`).

`Value.satisfies_consistent` puts this together.
-/

namespace TreePath

/-! ## Texts -/

/-- The order of texts is the lexicographic order of lists. -/
theorem Text.lt_iff : ∀ {s t : Text}, s.lt t = true ↔ s < t
  | [], [] => by simp [Text.lt]
  | [], _ :: _ => by simp [Text.lt]
  | _ :: _, [] => by simp [Text.lt]
  | a :: s, b :: t => by
    simp only [Text.lt, Bool.or_eq_true, Bool.and_eq_true, decide_eq_true_eq, beq_iff_eq, List.cons_lt_cons_iff]
    rw [Text.lt_iff]

/-- A test for less, asked in both directions, tells how two points of a linear order stand. -/
theorem ite_eq_cmp {α : Type} [LinearOrder α] {less : α → α → Bool} (h : ∀ p q, less p q = true ↔ p < q) (p q : α) :
    (if less p q = true then Ordering.lt else if less q p = true then .gt else .eq) = cmp p q := by
  rcases lt_trichotomy p q with hpq | hpq | hpq
  · rw [if_pos ((h p q).2 hpq), (cmp_eq_lt_iff p q).2 hpq]
  · have hself : ¬ less q q = true := fun hlt => lt_irrefl q ((h q q).1 hlt)
    rw [hpq, if_neg hself, if_neg hself, cmp_self_eq_eq]
  · have hnot : ¬ less p q = true := fun hlt => lt_asymm hpq ((h p q).1 hlt)
    rw [if_neg hnot, if_pos ((h q p).2 hpq), (cmp_eq_gt_iff p q).2 hpq]

namespace Value

/-! ## Classes and places -/

/-- The classes of values that are ordered. -/
inductive OrderClass
  | truth
  | text
  | real
  deriving DecidableEq

/-- The class of a value: a complex number has none, nor has a NaN. -/
def orderClass? : Value → Option OrderClass
  | .bool _ => some .truth
  | .string _ => some .text
  | .number (.complex ..) => none
  | .number x => if x.isNaN then none else some .real
  | _ => none

def truthPlace? : Value → Option Bool
  | .bool b => some b
  | _ => none

def textPlace? : Value → Option Text
  | .string s => some s
  | _ => none

def realPlace? : Value → Option (WithBot (WithTop ℚ))
  | .number x => x.line?.map Extended.place
  | _ => none

/-- Values with places compare as their places, and are equal if their places are. -/
structure IsScale {α : Type} [LinearOrder α] (place? : Value → Option α) : Prop where
  order {a b : Value} {p q : α} (ha : place? a = some p) (hb : place? b = some q) : a.order? b = some (cmp p q)
  equal {a b : Value} {p q : α} (ha : place? a = some p) (hb : place? b = some q) : a.equal b = true ↔ p = q

theorem isScale_truth : IsScale truthPlace? where
  order {a b p q} ha hb := by
    cases a <;> cases ha
    cases b <;> cases hb
    cases p <;> cases q <;> rfl
  equal {a b p q} ha hb := by
    cases a <;> cases ha
    cases b <;> cases hb
    exact beq_iff_eq

theorem isScale_text : IsScale textPlace? where
  order {a b s t} ha hb := by
    cases a <;> cases ha
    cases b <;> cases hb
    exact congrArg some (ite_eq_cmp (fun _ _ => Text.lt_iff) s t)
  equal {a b s t} ha hb := by
    cases a <;> cases ha
    cases b <;> cases hb
    exact beq_iff_eq

/-- A number on the real line is the point without imaginary part at its place. -/
theorem point?_of_realPlace {x : Number} {p : WithBot (WithTop ℚ)} (h : realPlace? (.number x) = some p) :
    x.point? = some (p, (Extended.exact (.ofInt 0)).place) := by
  rw [Number.point?_eq_some_iff]
  cases x with
  | complex => cases h
  | _ => exact ⟨h, rfl⟩

theorem isScale_real : IsScale realPlace? where
  order {a b p q} ha hb := by
    cases a with
    | number x =>
      cases b with
      | number y =>
        rw [realPlace?] at ha hb
        rw [order?, Number.order?, Number.compare?_eq_cmp, ha, hb]
        rfl
      | _ => cases hb
    | _ => cases ha
  equal {a b p q} ha hb := by
    cases a with
    | number x =>
      cases b with
      | number y =>
        rw [equal, Number.equal_iff, point?_of_realPlace ha, point?_of_realPlace hb]
        simp [Prod.ext_iff, eq_comm]
      | _ => cases hb
    | _ => cases ha

/-- The numbers of the class are those with a place on the line. -/
theorem line?_isSome_iff (x : Number) : x.line?.isSome = true ↔ (Value.number x).orderClass? = some .real := by
  cases x with
  | int n => simp [Number.line?, Number.realPart?, orderClass?, Number.isNaN]
  | float x => cases x <;> simp [Number.line?, Number.realPart?, Binary64.extended?, orderClass?, Number.isNaN]
  | decimal d => cases d <;> simp [Number.line?, Number.realPart?, Decimal.extended?, orderClass?, Number.isNaN]
  | complex re im => simp [Number.line?, orderClass?]

/-- **Every class is a scale.** -/
theorem exists_scale (k : OrderClass) : ∃ (α : Type) (_ : LinearOrder α) (place? : Value → Option α),
    IsScale place? ∧ ∀ v : Value, v.orderClass? = some k → ∃ p, place? v = some p := by
  cases k with
  | truth =>
    refine ⟨Bool, inferInstance, truthPlace?, isScale_truth, fun v hv => ?_⟩
    cases v with
    | bool b => exact ⟨b, rfl⟩
    | number x => cases x <;> simp [orderClass?] at hv
    | _ => cases hv
  | text =>
    refine ⟨Text, inferInstance, textPlace?, isScale_text, fun v hv => ?_⟩
    cases v with
    | string s => exact ⟨s, rfl⟩
    | number x => cases x <;> simp [orderClass?] at hv
    | _ => cases hv
  | real =>
    refine ⟨WithBot (WithTop ℚ), inferInstance, realPlace?, isScale_real, fun v hv => ?_⟩
    cases v with
    | number x =>
      obtain ⟨p, hp⟩ := Option.isSome_iff_exists.1 ((line?_isSome_iff x).2 hv)
      exact ⟨p.place, by rw [realPlace?, hp]; rfl⟩
    | _ => cases hv

/-- Values that are not of one class have no order. -/
theorem order?_eq_none {a b : Value} (h : ¬ ∃ k, a.orderClass? = some k ∧ b.orderClass? = some k) :
    a.order? b = none := by
  cases a with
  | bool p =>
    cases b with
    | bool q => exact absurd ⟨.truth, rfl, rfl⟩ h
    | _ => rfl
  | string s =>
    cases b with
    | string t => exact absurd ⟨.text, rfl, rfl⟩ h
    | _ => rfl
  | number x =>
    cases b with
    | number y =>
      by_contra hsome
      have hplaces : x.line?.isSome = true ∧ y.line?.isSome = true := by
        rw [order?, Number.order?] at hsome
        cases hx : x.line? <;> cases hy : y.line? <;> simp_all [Number.compare?]
      exact h ⟨.real, (line?_isSome_iff x).1 hplaces.1, (line?_isSome_iff y).1 hplaces.2⟩
    | _ => rfl
  | _ => rfl

/-! ## Operators on a scale -/

namespace IsScale

variable {α : Type} [LinearOrder α] {place? : Value → Option α} {a b : Value} {p q : α}

theorem satisfies_eq_iff (h : IsScale place?) (ha : place? a = some p) (hb : place? b = some q) :
    a.satisfies .eq b = true ↔ p = q := h.equal ha hb

theorem satisfies_lt_iff (h : IsScale place?) (ha : place? a = some p) (hb : place? b = some q) :
    a.satisfies .lt b = true ↔ p < q := by
  rw [satisfies, h.order ha hb, beq_iff_eq, Option.some_inj, cmp_eq_lt_iff]

theorem satisfies_gt_iff (h : IsScale place?) (ha : place? a = some p) (hb : place? b = some q) :
    a.satisfies .gt b = true ↔ q < p := by
  rw [satisfies, h.order ha hb, beq_iff_eq, Option.some_inj, cmp_eq_gt_iff]

theorem satisfies_le_iff (h : IsScale place?) (ha : place? a = some p) (hb : place? b = some q) :
    a.satisfies .le b = true ↔ p ≤ q := by
  rw [satisfies, h.order ha hb, Bool.or_eq_true, beq_iff_eq, beq_iff_eq, Option.some_inj, Option.some_inj,
    cmp_eq_lt_iff, cmp_eq_eq_iff, le_iff_lt_or_eq]

theorem satisfies_ge_iff (h : IsScale place?) (ha : place? a = some p) (hb : place? b = some q) :
    a.satisfies .ge b = true ↔ q ≤ p := by
  rw [satisfies, h.order ha hb, Bool.or_eq_true, beq_iff_eq, beq_iff_eq, Option.some_inj, Option.some_inj,
    cmp_eq_gt_iff, cmp_eq_eq_iff, le_iff_lt_or_eq, eq_comm]

/-- One of three operators holds, and no other. -/
theorem existsUnique_operator (h : IsScale place?) (ha : place? a = some p) (hb : place? b = some q) :
    ∃! op, op ∈ [Operator.lt, .eq, .gt] ∧ a.satisfies op b = true := by
  have hlt := h.satisfies_lt_iff ha hb
  have heq := h.satisfies_eq_iff ha hb
  have hgt := h.satisfies_gt_iff ha hb
  rcases lt_trichotomy p q with hpq | hpq | hpq
  · refine ⟨.lt, ⟨by simp, hlt.2 hpq⟩, fun op hop => ?_⟩
    cases op <;> simp_all [hpq.ne, hpq.not_gt]
  · refine ⟨.eq, ⟨by simp, heq.2 hpq⟩, fun op hop => ?_⟩
    cases op <;> simp_all
  · refine ⟨.gt, ⟨by simp, hgt.2 hpq⟩, fun op hop => ?_⟩
    cases op <;> simp_all [hpq.ne', hpq.not_gt]

end IsScale

/-! ## All six operators -/

/-- The operators of the order. -/
def ordering : List Operator := [.lt, .le, .gt, .ge]

/-- **The six operators are consistent.** Between two values of one class exactly one of `<`, `==` and `>` holds, `<=`
is `<` or `==`, `>=` is `<=` the other way round, and `<` is transitive; between any other two values no ordering
operator holds; and `!=` is the negation of `==` between all values. -/
theorem satisfies_consistent (a b c : Value) :
    (∀ k, a.orderClass? = some k → b.orderClass? = some k →
      (∃! op, op ∈ [Operator.lt, .eq, .gt] ∧ a.satisfies op b = true) ∧
      (a.satisfies .le b = true ↔ a.satisfies .lt b = true ∨ a.satisfies .eq b = true) ∧
      (a.satisfies .ge b = true ↔ b.satisfies .le a = true) ∧
      (c.orderClass? = some k → a.satisfies .lt b = true → b.satisfies .lt c = true → a.satisfies .lt c = true)) ∧
    ((¬ ∃ k, a.orderClass? = some k ∧ b.orderClass? = some k) → ∀ op ∈ ordering, a.satisfies op b = false) ∧
    (a.satisfies .ne b = true ↔ ¬ a.satisfies .eq b = true) := by
  refine ⟨fun k ha hb => ?_, fun h op hop => ?_, ?_⟩
  · obtain ⟨α, _, place?, hscale, hplace⟩ := exists_scale k
    obtain ⟨p, hp⟩ := hplace a ha
    obtain ⟨q, hq⟩ := hplace b hb
    refine ⟨hscale.existsUnique_operator hp hq, ?_, ?_, fun hc hab hbc => ?_⟩
    · rw [hscale.satisfies_le_iff hp hq, hscale.satisfies_lt_iff hp hq, hscale.satisfies_eq_iff hp hq,
        le_iff_lt_or_eq]
    · rw [hscale.satisfies_ge_iff hp hq, hscale.satisfies_le_iff hq hp]
    · obtain ⟨r, hr⟩ := hplace c hc
      rw [hscale.satisfies_lt_iff hp hq] at hab
      rw [hscale.satisfies_lt_iff hq hr] at hbc
      exact (hscale.satisfies_lt_iff hp hr).2 (hab.trans hbc)
  · have hnone := order?_eq_none h
    simp only [ordering, List.mem_cons, List.not_mem_nil, or_false] at hop
    rcases hop with rfl | rfl | rfl | rfl <;> simp [satisfies, hnone]
  · simp [satisfies]

/-- A whole number, a decimal and an infinity, and a truth value beside them. -/
theorem satisfies_consistent_numbers :
    let whole : Value := .int 1
    let decimal : Value := .number (.decimal (.finite false 150 (-2)))
    let infinity : Value := .number (.float (.infinite false))
    (∃! op, op ∈ [Operator.lt, .eq, .gt] ∧ whole.satisfies op decimal = true) ∧
      whole.satisfies .lt infinity = true ∧ (Value.bool true).satisfies .le whole = false := by
  intro whole decimal infinity
  obtain ⟨hunique, _, _, htrans⟩ := (satisfies_consistent whole decimal infinity).1 .real rfl rfl
  refine ⟨hunique, htrans rfl (by decide +kernel) (by decide +kernel), ?_⟩
  refine (satisfies_consistent (.bool true) whole whole).2.1 ?_ .le (by decide)
  rintro ⟨k, ⟨⟩, ⟨⟩⟩

end Value

end TreePath
