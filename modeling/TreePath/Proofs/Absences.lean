import TreePath.Proofs.Places
import TreePath.Proofs.Tracing

/-!
# How absences are counted

An evaluation counts every absence that it meets, also those met by the filters while they test children. The absences
among the entries are counted once each, those inside slots included, and whatever is counted beyond them comes from
the tests that the filters of the path make (`absent_eq_absences_add`).

`tests` lists these tests in the order in which they are made; the tests inside the walk of a test belong to that walk
and are not listed. The relation that the induction on the path carries is `Outcome.BalancedBy`: each way of putting
walks together keeps it, be the entries joined, put into a slot or thrown away.
-/

namespace TreePath

/-! ## Tests -/

/-- The test of a child by a filter: the path of the filter, and the child it starts from. -/
structure Test where
  subpath : List Token
  child : Value

/-- The walk of a test. -/
def Test.outcome (σ : Scope) (t : Test) : Outcome := run σ t.subpath t.child

/-- The tests that a selector makes and those that follow, where `k` are the tests along the rest of the path. -/
def Selector.tests (σ : Scope) (k : Value → List Test) : Selector → Value → List Test
  | .child key, v => ((v.child? key).filter fun w => !w.isMissing).toList.flatMap k
  | .slice bounds, v => ((v.elements?.bind bounds.pick?).getD []).flatMap k
  | .wildcard, v => v.children.flatMap k
  | .filter _ head tail op literal, v => v.children.flatMap fun w =>
      ⟨head :: tail, w⟩ :: if (TreePath.run σ (head :: tail) w).satisfies σ.missing op literal then k w else []

def Token.tests (σ : Scope) (k : Value → List Test) : Token → Value → List Test
  | .root, _ => k σ.root
  | .current, v => k v
  | .select s, v => s.tests σ k v
  | .descend key _, v => (v.descend key).flatMap k
  | .union first others, v => (first :: others).flatMap fun s => s.tests σ k v

/-- The tests that the filters of a path make on a walk along the path, in order. -/
def tests (σ : Scope) : List Token → Value → List Test
  | [], _ => []
  | t :: ts, v => t.tests σ (tests σ ts) v

def Selector.isFilter : Selector → Bool
  | .filter .. => true
  | _ => false

/-- Whether the token is a filter or has one among its alternatives. -/
def Token.hasFilter : Token → Bool
  | .select s => s.isFilter
  | .union first others => (first :: others).any Selector.isFilter
  | _ => false

/-! ## The balance of a walk -/

/-- The number of absences among entries, inside slots too. -/
def absences (ms : List Match) : Nat := (leavesAll ms).countP fun m => !m.isPresent

theorem absences_append (ms ns : List Match) : absences (ms ++ ns) = absences ms + absences ns := by
  rw [absences, leavesAll_append, List.countP_append]
  rfl

theorem absences_slot (ms : List Match) : absences [.slot ms] = absences ms := by
  unfold absences
  rw [leavesAll, leavesAll, List.append_nil, Match.leaves]

/-- The absences that are counted in the walks of tests. -/
def absentIn (σ : Scope) (ts : List Test) : Nat := (ts.map fun t => (t.outcome σ).absent).sum

theorem absentIn_cons (σ : Scope) (t : Test) (ts : List Test) :
    absentIn σ (t :: ts) = (t.outcome σ).absent + absentIn σ ts := List.sum_cons

theorem absentIn_append (σ : Scope) (ts us : List Test) : absentIn σ (ts ++ us) = absentIn σ ts + absentIn σ us := by
  rw [absentIn, List.map_append, List.sum_append]
  rfl

namespace Outcome

/-- What is counted in `o` are the absences among its entries and those in the walks of the tests. -/
def BalancedBy (σ : Scope) (ts : List Test) (o : Outcome) : Prop := o.absent = absences o.entries + absentIn σ ts

namespace BalancedBy

variable {σ : Scope} {ts us : List Test} {o o' : Outcome}

theorem empty : BalancedBy σ [] .empty := rfl

theorem absence : BalancedBy σ [] .absence := rfl

theorem arrive {v : Value} (hv : v.hasMissing = false) : BalancedBy σ [] (.arrive v) := by
  rw [BalancedBy, Outcome.arrive, Match.arrive_of_hasMissing hv]
  rfl

theorem append (h : BalancedBy σ ts o) (h' : BalancedBy σ us o') : BalancedBy σ (ts ++ us) (o ++ o') := by
  unfold BalancedBy at h h' ⊢
  rw [absent_append, entries_append, absences_append, absentIn_append, h, h']
  omega

theorem join {α : Type} {k : α → Outcome} {K : α → List Test} {xs : List α} (h : ∀ x ∈ xs, BalancedBy σ (K x) (k x)) :
    BalancedBy σ (xs.flatMap K) (.join (xs.map k)) := by
  induction xs with
  | nil => exact empty
  | cons x xs ih =>
    rw [List.map_cons, join_cons, List.flatMap_cons]
    exact (h x List.mem_cons_self).append (ih fun y hy => h y (List.mem_cons_of_mem _ hy))

theorem visited (h : BalancedBy σ ts o) : BalancedBy σ ts o.visited := h

/-- The entries of a test are thrown away, and its absences stay counted. -/
theorem tested (t : Test) (h : BalancedBy σ ts o) : BalancedBy σ (t :: ts) ((t.outcome σ).aside ++ o) := by
  unfold BalancedBy at h ⊢
  rw [absent_append, entries_append, absent_aside, entries_aside, List.nil_append, absentIn_cons, h]
  omega

/-- Entries are put into a slot, one entry as it is. -/
theorem slot {bare : Bool} (h : BalancedBy σ ts o) (hb : bare = true → o.entries.length = 1) :
    BalancedBy σ ts (o.slot bare) := by
  unfold BalancedBy at h ⊢
  rw [absent_slot, h]
  cases bare with
  | true => rw [entries_slot_bare (hb rfl)]
  | false => rw [show (o.slot false).entries = [.slot o.entries] from rfl, absences_slot]

end BalancedBy

end Outcome

/-! ## Walks are balanced -/

section Walks

variable {σ : Scope}

/-- If the walks from the children are balanced, the walk of a selector is. -/
theorem Selector.run_balancedBy {k : Value → Outcome} {K : Value → List Test} (s : Selector) {v : Value}
    (hk : ∀ w ∈ v.children, Outcome.BalancedBy σ (K w) (k w)) : Outcome.BalancedBy σ (s.tests σ K v) (s.run σ k v) := by
  cases s with
  | child key =>
    simp only [tests, Selector.run]
    cases hw : v.child? key with
    | none => exact .absence
    | some w =>
      have hmem := Value.child?_mem hw
      cases hmissing : w.isMissing with
      | true => simpa [Option.filter, hmissing] using Outcome.BalancedBy.absence
      | false => simpa [Option.filter, hmissing] using hk w hmem
  | slice bounds =>
    simp only [tests, Selector.run]
    cases hws : v.elements?.bind bounds.pick? with
    | none => exact .absence
    | some ws =>
      obtain ⟨xs, hxs, hpick⟩ := Option.bind_eq_some_iff.1 hws
      refine .join fun w hw => hk w ?_
      rw [Value.children_eq_elements hxs]
      exact Slice.mem_of_pick? hpick hw
  | wildcard =>
    simp only [tests, Selector.run, Value.children] at hk ⊢
    cases hws : v.children? with
    | none => exact .absence
    | some ws =>
      rw [hws] at hk
      exact .join hk
  | filter source head tail op literal =>
    rw [run_filter]
    simp only [tests, Value.children] at hk ⊢
    cases hws : v.children? with
    | none => exact .absence
    | some ws =>
      rw [hws] at hk
      refine .join fun w hw => .tested ⟨head :: tail, w⟩ ?_
      split
      · exact hk w hw
      · exact .empty

variable (hroot : σ.root.hasMissing = false)

/-- The alternatives of a union, in either mode; `ts` is the path behind the union. -/
theorem runOthers_balancedBy {ts : List Token} {v : Value}
    (hk : ∀ w ∈ v.children, Outcome.BalancedBy σ (tests σ ts w) (run σ ts w)) (ss : List Selector) :
    Outcome.BalancedBy σ (ss.flatMap fun s => s.tests σ (tests σ ts) v)
      (runOthers σ (run σ ts) (ts.all Token.isStep) ss v) := by
  induction ss with
  | nil => exact .empty
  | cons s ss ih =>
    have hs := s.run_balancedBy hk
    rw [runOthers, List.flatMap_cons]
    cases σ.mode with
    | flat => exact hs.append ih
    | nested => exact (hs.slot fun hb => length_entries_alternative σ hb v).append ih

include hroot

/-- **Every walk is balanced by the tests of its filters.** -/
theorem run_balancedBy : ∀ (ts : List Token) {v : Value}, v.hasMissing = false →
    Outcome.BalancedBy σ (tests σ ts v) (run σ ts v)
  | [], _, hv => .arrive hv
  | t :: ts, v, hv => by
    have ih : ∀ w, Value.Inside w v → Outcome.BalancedBy σ (tests σ ts w) (run σ ts w) := fun w hw =>
      run_balancedBy ts (hw.hasMissing_eq_false hv)
    have hchildren : ∀ w ∈ v.children, Outcome.BalancedBy σ (tests σ ts w) (run σ ts w) := fun w hw =>
      ih w (.of_child hw)
    rw [run_cons]
    refine Outcome.BalancedBy.visited ?_
    cases t with
    | root => exact run_balancedBy ts hroot
    | current => exact ih v (.here v)
    | select s => exact s.run_balancedBy hchildren
    | descend key key_ne => exact .join fun w hw => ih w (Value.inside_of_mem_descend hw)
    | union first others => exact runOthers_balancedBy hchildren (first :: others)

end Walks

/-! ## Paths without filters -/

section NoFilters

variable {σ : Scope} {K : Value → List Test} (hK : ∀ v, K v = [])

include hK

theorem Selector.tests_eq_nil {s : Selector} (hs : s.isFilter = false) (v : Value) : s.tests σ K v = [] := by
  cases s with
  | child key => exact List.flatMap_eq_nil_iff.2 fun w _ => hK w
  | slice bounds => exact List.flatMap_eq_nil_iff.2 fun w _ => hK w
  | wildcard => exact List.flatMap_eq_nil_iff.2 fun w _ => hK w
  | filter source head tail op literal => cases hs

theorem Token.tests_eq_nil {t : Token} (ht : t.hasFilter = false) (v : Value) : t.tests σ K v = [] := by
  cases t with
  | root => exact hK σ.root
  | current => exact hK v
  | select s => exact Selector.tests_eq_nil hK ht v
  | descend key key_ne => exact List.flatMap_eq_nil_iff.2 fun w _ => hK w
  | union first others =>
    refine List.flatMap_eq_nil_iff.2 fun s hs => Selector.tests_eq_nil hK ?_ v
    exact Bool.eq_false_iff.2 (List.any_eq_false.1 ht s hs)

end NoFilters

/-- A path without filters makes no tests. -/
theorem tests_eq_nil (σ : Scope) : ∀ {ts : List Token}, ts.any Token.hasFilter = false → ∀ v : Value, tests σ ts v = []
  | [], _, _ => rfl
  | t :: ts, h, v => by
    obtain ⟨ht, hts⟩ := Bool.or_eq_false_iff.1 (List.any_cons.symm.trans h)
    exact Token.tests_eq_nil (tests_eq_nil σ hts) ht v

/-! ## Main statement -/

/-- **Absences are accounted for.** From a document and an item without the marker `missing`, in either mode, the number
of absences that an evaluation reports is the number of absences among its entries, slots included, and the numbers of
absences in the walks of the tests that its filters make. So it is not less than the former, and the same for a path
without filters. A counter that all walks share shows the same number. -/
theorem absent_eq_absences_add (c : Config) (document : Value) (item : Option Value) (p : Path)
    (hdocument : document.hasMissing = false) (hitem : (item.getD document).hasMissing = false) :
    let σ := c.scope document
    let start := item.getD document
    let o := run σ p.tokens start
    let r := c.evaluate document item p
    r.results = Match.renderAll c.missing o.entries ∧
    r.absent = absences o.entries + ((tests σ p.tokens start).map fun t => (run σ t.subpath t.child).absent).sum ∧
    absences o.entries ≤ r.absent ∧
    (p.tokens.any Token.hasFilter = false → tests σ p.tokens start = [] ∧ r.absent = absences o.entries) ∧
    ∀ (ι : Type) [DecidableEq ι] (name : Counting.Address → ι), Function.Injective name → ∀ tracing : Bool,
      (Counting.walk name c document item p tracing).2.absent = r.absent := by
  intro σ start o r
  have hbalance : r.absent = absences o.entries + absentIn σ (tests σ p.tokens start) :=
    run_balancedBy (σ := σ) hdocument p.tokens hitem
  refine ⟨rfl, hbalance, by omega, fun hfilter => ?_, fun ι _ name hname tracing => ?_⟩
  · have hnil : tests σ p.tokens start = [] := tests_eq_nil σ hfilter start
    rw [hnil] at hbalance
    exact ⟨hnil, hbalance⟩
  · exact (Counting.walk_eq hname c document item p tracing).2.1

/-- A union of a filter and an index in nested mode: two of the three tests meet an absence, and two absences are among
the entries, one of them in a slot. -/
theorem absent_eq_absences_add_union :
    let subpath : List Token := [.current, .child (.name "a")]
    let p : Path := ⟨[.root, .union (.filter none .current [.child (.name "a")] .eq .null) [.child (.index 0)],
      .child (.name "b")], none⟩
    let c : Config := ⟨.nested, .null, false⟩
    let document : Value := .list [.object [("a", .null)], .object [], .bool true]
    document.hasMissing = false ∧
      (run (c.scope document) p.tokens document).entries = [.slot [.absent], .absent] ∧
      tests (c.scope document) p.tokens document =
        [⟨subpath, .object [("a", .null)]⟩, ⟨subpath, .object []⟩, ⟨subpath, .bool true⟩] ∧
      (c.evaluate document none p).absent = 2 + (0 + (1 + (1 + 0))) := by
  intro subpath p c document
  obtain ⟨_, habsent, _⟩ := absent_eq_absences_add c document none p rfl rfl
  exact ⟨rfl, rfl, rfl, habsent.trans rfl⟩

end TreePath
