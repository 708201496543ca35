import TreePath.Proofs.Concatenation
import TreePath.Proofs.Counting
import TreePath.Proofs.Places
import TreePath.Query.Session

/-!
# Traces

Tracing has no influence on what an evaluation finds, and what it reports is what it should (`trace_faithful`): counting
on the way, in counters that all tokens share, gives the entries, the absences and the visits of the walk
(`Counting.path_counts`). Visits under the name of a token of the path are those of that token alone, since the tokens
inside filters and unions have names of their own. In flat mode, a token is visited once for each value that the path
in front of it finds (`getD_visits_run`).
-/

namespace TreePath

namespace Counting

variable {ι : Type}

/-! ## Counters -/

/-- Counters that have gone up by `n` absences and by the visits `d`. -/
def Counters.add (c : Counters ι) (n : Nat) (d : ι → Nat) : Counters ι :=
  ⟨c.absent + n, c.visits.map fun f m => f m + d m⟩

theorem Counters.add_zero (c : Counters ι) : c.add 0 (fun _ => 0) = c := by
  obtain ⟨n, visits⟩ := c
  cases visits <;> rfl

theorem Counters.add_add (c : Counters ι) (m n : Nat) (d e : ι → Nat) :
    (c.add m d).add n e = c.add (m + n) fun x => d x + e x := by
  obtain ⟨k, visits⟩ := c
  cases visits with
  | none => simp only [add, Nat.add_assoc, Option.map_none]
  | some f => simp only [add, Nat.add_assoc, Option.map_some]

/-- One visit. -/
def once [DecidableEq ι] (n : ι) : ι → Nat := fun m => if m = n then 1 else 0

theorem visit_apply [DecidableEq ι] (n : ι) (c : Counters ι) : visit n c = ((), c.add 0 (once n)) := by
  obtain ⟨k, visits⟩ := c
  cases visits with
  | none => rfl
  | some f =>
    have hcount : (fun m => if m = n then f m + 1 else f m) = fun m => f m + once n m := by
      funext m
      unfold once
      split <;> rfl
    exact congrArg (fun g => ((), (⟨k, some g⟩ : Counters ι))) hcount

theorem bind_apply {α β : Type} (x : Counted ι α) (f : α → Counted ι β) (c : Counters ι) :
    (x >>= f) c = f (x c).1 (x c).2 := rfl

/-! ## Addresses -/

/-- The address `p` lies inside the path at `a`. -/
def Below (a p : Address) : Prop := ∃ q, q ≠ [] ∧ p = a ++ q

theorem Below.token (a : Address) (i : Nat) : Below a (a ++ [i]) := ⟨[i], List.cons_ne_nil _ _, rfl⟩

theorem Below.append {a p : Address} (h : Below a p) (b : Address) : Below a (p ++ b) := by
  obtain ⟨q, hq, rfl⟩ := h
  exact ⟨q ++ b, fun he => hq (List.append_eq_nil_iff.1 he).1, List.append_assoc a q b⟩

/-- What lies inside a token of the path at `a` is not a token of that path. -/
theorem Below.append_ne {a p : Address} (h : Below a p) {b : Address} (hb : b ≠ []) (l : Nat) : p ++ b ≠ a ++ [l] := by
  obtain ⟨q, hq, rfl⟩ := h
  intro he
  rw [List.append_assoc] at he
  have hlen := congrArg List.length (List.append_cancel_left he)
  rw [List.length_append, List.length_singleton] at hlen
  have hq1 := List.length_pos_iff.2 hq
  have hb1 := List.length_pos_iff.2 hb
  omega

/-! ## What a counted walk does -/

/-- `x` finds the entries of `o` and counts its absences, and notes the visits `d`, all of tokens inside the path at
`a`. -/
def Notes (name : Address → ι) (a : Address) (x : Counted ι (List Match)) (o : Outcome) (d : ι → Nat) : Prop :=
  (∀ c, x c = (o.entries, c.add o.absent d)) ∧ ∀ n, d n ≠ 0 → ∃ p, Below a p ∧ n = name p

/-- As `Notes`, and the visits of the tokens of the path at `a` are those that `o` counts, from the `i`-th token on. -/
def Counts (name : Address → ι) (a : Address) (i : Nat) (x : Counted ι (List Match)) (o : Outcome) : Prop :=
  ∃ d : ι → Nat, Notes name a x o d ∧ ∀ l, d (name (a ++ [l])) = if l < i then 0 else o.visits.getD (l - i) 0

theorem Notes.visit_first [DecidableEq ι] {name : Address → ι} {a p : Address} (hp : Below a p)
    {x : Counted ι (List Match)} {o : Outcome} {d : ι → Nat} (hx : Notes name a x o d) :
    Notes name a (do visit (name p); x) o fun n => once (name p) n + d n := by
  obtain ⟨hd, hbelow⟩ := hx
  constructor
  · intro c
    rw [bind_apply, visit_apply, hd, Counters.add_add, Nat.zero_add]
  · intro n hn
    by_cases hn0 : n = name p
    · exact ⟨p, hp, hn0⟩
    · refine hbelow n fun hd0 => hn ?_
      dsimp only
      rw [hd0, once, if_neg hn0]

namespace Counts

variable {name : Address → ι} {a : Address} {i : Nat}

theorem of_no_visits {x : Counted ι (List Match)} {o : Outcome} (hx : ∀ c, x c = (o.entries, c.add o.absent fun _ => 0))
    (ho : o.visits = []) : Counts name a i x o := by
  refine ⟨fun _ => 0, ⟨hx, fun n hn => absurd rfl hn⟩, fun l => ?_⟩
  rw [ho]
  split <;> rfl

theorem nothing : Counts name a i (pure []) .empty :=
  of_no_visits (fun c => Prod.ext rfl c.add_zero.symm) rfl

theorem arrive (v : Value) : Counts name a i (pure [Match.arrive v]) (.arrive v) :=
  of_no_visits (fun c => Prod.ext rfl c.add_zero.symm) rfl

theorem absence : Counts name a i Counting.absence .absence := by
  refine of_no_visits (fun c => Prod.ext rfl ?_) rfl
  exact congrArg (fun v => (⟨c.absent + 1, v⟩ : Counters ι)) (congrArg Counters.visits c.add_zero).symm

/-- One walk after another, where `f` puts the entries of the first one together and the second one may depend on
them. -/
theorem append {x : Counted ι (List Match)} {y : List Match → Counted ι (List Match)} {o o' : Outcome}
    (f : List Match → List Match) (hx : Counts name a i x o) (hy : Counts name a i (y o.entries) o') :
    Counts name a i (do let es ← x; return f es ++ (← y es)) ({ o with entries := f o.entries } ++ o') := by
  obtain ⟨d, ⟨hd, hbelow⟩, htop⟩ := hx
  obtain ⟨e, ⟨he, hbelow'⟩, htop'⟩ := hy
  refine ⟨fun n => d n + e n, ⟨fun c => ?_, fun n hn => ?_⟩, fun l => ?_⟩
  · rw [bind_apply, hd]
    dsimp only
    rw [bind_apply, he]
    exact Prod.ext rfl (Counters.add_add c _ _ _ _)
  · by_cases hd0 : d n = 0
    · exact hbelow' n fun he0 => hn (show d n + e n = 0 by rw [hd0, he0])
    · exact hbelow n hd0
  · dsimp only
    rw [htop, htop', Outcome.visits_append, getD_sumCounts]
    split <;> rfl

theorem fromAll {k : Value → Counted ι (List Match)} {K : Value → Outcome} (hk : ∀ w, Counts name a i (k w) (K w))
    (ws : List Value) : Counts name a i (Counting.fromAll k ws) (.join (ws.map K)) := by
  induction ws with
  | nil => exact nothing
  | cons w ws ih => exact append id (hk w) ih

/-- The visit of a token of the path comes before the visits of the tokens behind it. -/
theorem visited [DecidableEq ι] (hname : Function.Injective name) {x : Counted ι (List Match)} {o : Outcome}
    (hx : Counts name a (i + 1) x o) : Counts name a i (do visit (name (a ++ [i])); x) o.visited := by
  obtain ⟨d, hd, htop⟩ := hx
  refine ⟨_, hd.visit_first (.token a i), fun l => ?_⟩
  have honce : once (name (a ++ [i])) (name (a ++ [l])) = if l = i then 1 else 0 := by
    simp only [once, hname.eq_iff, List.append_cancel_left_eq, List.cons.injEq, and_true]
  rw [honce, htop]
  rcases Nat.lt_trichotomy l i with hl | rfl | hl
  · rw [if_neg (Nat.ne_of_lt hl), if_pos (Nat.lt_succ_of_lt hl), if_pos hl]
  · rw [if_pos rfl, if_pos (Nat.lt_succ_self l), if_neg (Nat.lt_irrefl l), Nat.sub_self]
    rfl
  · obtain ⟨j, rfl⟩ := Nat.exists_eq_add_of_lt hl
    rw [if_neg (Nat.ne_of_gt hl), if_neg (Nat.not_lt.2 hl), if_neg (Nat.not_lt.2 (Nat.le_of_lt hl)), Nat.zero_add,
      show i + j + 1 - (i + 1) = j by omega, show i + j + 1 - i = j + 1 by omega]
    rfl

/-- The visit of an alternative is none of a token of the path. -/
theorem visited_inside [DecidableEq ι] (hname : Function.Injective name) {p : Address} (hp : Below a p) (j : Nat)
    {x : Counted ι (List Match)} {o : Outcome} (hx : Counts name a i x o) :
    Counts name a i (do visit (name (p ++ [j])); x) o := by
  obtain ⟨d, hd, htop⟩ := hx
  refine ⟨_, hd.visit_first (hp.append [j]), fun l => ?_⟩
  have hne : name (a ++ [l]) ≠ name (p ++ [j]) :=
    fun he => hp.append_ne (List.cons_ne_nil j []) l (hname he).symm
  rw [once, if_neg hne, htop, Nat.zero_add]

/-- A walk inside a token notes no visits of the tokens of the path. -/
theorem inside (hname : Function.Injective name) {p : Address} (hp : Below a p) {j : Nat}
    {x : Counted ι (List Match)} {o : Outcome} (hx : Counts name p j x o) :
    Counts name a i x { o with visits := [] } := by
  obtain ⟨d, ⟨hd, hbelow⟩, -⟩ := hx
  have houter : ∀ n, d n ≠ 0 → ∃ b, b ≠ [] ∧ n = name (p ++ b) := by
    intro n hn
    obtain ⟨_, ⟨b, hb, rfl⟩, hnb⟩ := hbelow n hn
    exact ⟨b, hb, hnb⟩
  refine ⟨d, ⟨hd, fun n hn => ?_⟩, fun l => ?_⟩
  · obtain ⟨b, _, rfl⟩ := houter n hn
    exact ⟨p ++ b, hp.append b, rfl⟩
  · have hd0 : d (name (a ++ [l])) = 0 := by
      by_contra hn
      obtain ⟨b, hb, he⟩ := houter _ hn
      exact hp.append_ne hb l (hname he).symm
    rw [hd0]
    split <;> rfl

/-- The test of a child by a filter at `p`, and the walk from the child if it is kept. -/
theorem tested (hname : Function.Injective name) {p : Address} (hp : Below a p) {x y : Counted ι (List Match)}
    {o o' : Outcome} (hx : Counts name p 0 x o) (hy : Counts name a i y o') (hole : Value) (op : Operator)
    (literal : Literal) :
    Counts name a i (do let test ← x; if satisfies hole op literal test then y else return [])
      (o.aside ++ if o.satisfies hole op literal then o' else .empty) := by
  have hrest : Counts name a i (if satisfies hole op literal o.entries then y else return [])
      (if o.satisfies hole op literal then o' else .empty) := by
    rw [show satisfies hole op literal o.entries = o.satisfies hole op literal from rfl]
    split
    · exact hy
    · exact nothing
  exact append (fun _ => []) (inside hname hp hx) hrest

/-- One alternative of a union, and the walks of the others. -/
theorem alternative [DecidableEq ι] (hname : Function.Injective name) {p : Address} (hp : Below a p) (j : Nat)
    {x y : Counted ι (List Match)} {o o' : Outcome} (f : List Match → List Match) (hx : Counts name a i x o)
    (hy : Counts name a i y o') :
    Counts name a i (do visit (name (p ++ [j])); let es ← x; return f es ++ (← y))
      ({ o with entries := f o.entries } ++ o') :=
  visited_inside hname hp j (append f hx hy)

end Counts

/-! ## Counted walks and walks -/

section Walk

variable [DecidableEq ι] (σ : Scope) {name : Address → ι} (hname : Function.Injective name)

include hname

mutual

theorem selector_counts {a : Address} {i : Nat} {k : Value → Counted ι (List Match)} {K : Value → Outcome}
    (hk : ∀ w, Counts name a i (k w) (K w)) {p : Address} (hp : Below a p) : ∀ (s : Selector) (v : Value),
    Counts name a i (selector σ name k p s v) (s.run σ K v)
  | .child key, v => by
    rw [selector, Selector.run]
    cases v.child? key with
    | none => exact .absence
    | some w =>
      dsimp only
      split
      · exact .absence
      · exact hk w
  | .slice bounds, v => by
    rw [selector, Selector.run]
    cases v.elements?.bind bounds.pick? with
    | none => exact .absence
    | some ws => exact .fromAll hk ws
  | .wildcard, v => by
    rw [selector, Selector.run]
    cases v.children? with
    | none => exact .absence
    | some ws => exact .fromAll hk ws
  | .filter _ head tail op literal, v => by
    rw [selector, Selector.run]
    cases v.children? with
    | none => exact .absence
    | some ws =>
      refine .fromAll (fun w => ?_) ws
      have htest : Counts name p 0 (do
          visit (name (p ++ [0]))
          token σ name (path σ name p 1 tail) (tail.all Token.isStep) (p ++ [0]) head w)
          (head.run σ (run σ tail) (tail.all Token.isStep) w).visited :=
        .visited hname (token_counts (fun u => path_counts p 1 tail u) _ (.token p 0) head w)
      exact .tested hname hp htest (hk w) σ.missing op literal

theorem token_counts {a : Address} {i : Nat} {k : Value → Counted ι (List Match)} {K : Value → Outcome}
    (hk : ∀ w, Counts name a i (k w) (K w)) (single : Bool) {p : Address} (hp : Below a p) : ∀ (t : Token) (v : Value),
    Counts name a i (token σ name k single p t v) (t.run σ K single v)
  | .root, _ => hk σ.root
  | .current, v => hk v
  | .select s, v => selector_counts hk hp s v
  | .descend key _, v => .fromAll hk (v.descend key)
  | .union first others, v => by
    rw [token, Token.run]
    have hfirst := selector_counts hk (hp.append [0]) first v
    have hothers := alternatives_counts hk single hp 1 others v
    cases σ.mode with
    | flat => exact .alternative hname hp 0 id hfirst hothers
    | nested => exact .alternative hname hp 0 _ hfirst hothers

theorem alternatives_counts {a : Address} {i : Nat} {k : Value → Counted ι (List Match)} {K : Value → Outcome}
    (hk : ∀ w, Counts name a i (k w) (K w)) (single : Bool) {p : Address} (hp : Below a p) :
    ∀ (j : Nat) (ss : List Selector) (v : Value),
    Counts name a i (alternatives σ name k single p j ss v) (runOthers σ K single ss v)
  | _, [], _ => .nothing
  | j, s :: ss, v => by
    rw [alternatives, runOthers]
    have hfirst := selector_counts hk (hp.append [j]) s v
    have hothers := alternatives_counts hk single hp (j + 1) ss v
    cases σ.mode with
    | flat => exact .alternative hname hp j id hfirst hothers
    | nested => exact .alternative hname hp j _ hfirst hothers

/-- Along every path, the counted walk does what the walk does. -/
theorem path_counts (a : Address) : ∀ (i : Nat) (ts : List Token) (v : Value),
    Counts name a i (path σ name a i ts v) (run σ ts v)
  | _, [], v => .arrive v
  | i, t :: ts, v => .visited hname (token_counts (fun w => path_counts a (i + 1) ts w) _ (.token a i) t v)

end

end Walk

/-- The entries of a counted evaluation, its absences, and the visits of each token of the path. -/
theorem walk_eq [DecidableEq ι] {name : Address → ι} (hname : Function.Injective name) (c : Config) (document : Value)
    (item : Option Value) (p : Path) (tracing : Bool) :
    let o := run (c.scope document) p.tokens (item.getD document)
    let w := walk name c document item p tracing
    w.1 = o.entries ∧ w.2.absent = o.absent ∧
      (tracing = true → ∀ i, w.2.visitsOf (name [i]) = o.visits.getD i 0) := by
  intro o w
  obtain ⟨d, ⟨hd, -⟩, htop⟩ := path_counts (c.scope document) hname [] 0 p.tokens (item.getD document)
  have hw : w = (o.entries, (Counters.zero tracing).add o.absent d) := hd _
  refine ⟨congrArg Prod.fst hw, ?_, ?_⟩
  · rw [hw]
    exact Nat.zero_add o.absent
  · rintro rfl i
    have hvisits : w.2.visitsOf (name [i]) = 0 + d (name [i]) := by
      rw [hw]
      rfl
    rw [hvisits, Nat.zero_add, ← List.nil_append [i], htop, if_neg (Nat.not_lt_zero i), Nat.sub_zero]

end Counting

/-! ## Visits and present entries -/

/-- Where the visits behind each move are as many as the present entries of another walk, they are so in total. -/
theorem getD_visits_join_moves {k k' : Value → Outcome} {i : Nat} {ms : List Move}
    (h : ∀ w, Move.onto w ∈ ms → (k w).visits.getD i 0 = (k' w).present.length) :
    (Outcome.join (ms.map (Move.run k))).visits.getD i 0 = (Outcome.join (ms.map (Move.run k'))).present.length := by
  induction ms with
  | nil => rfl
  | cons m ms ih =>
    have hm : (m.run k).visits.getD i 0 = (m.run k').present.length := by
      cases m with
      | onto w => exact h w List.mem_cons_self
      | lost => rfl
      | tested n => rfl
    simp only [List.map_cons, Outcome.join_cons, Outcome.visits_append, getD_sumCounts, Outcome.present_append,
      List.length_append]
    rw [hm, ih fun w hw => h w (List.mem_cons_of_mem _ hw)]

/-- In flat mode, a token is visited once for each present entry of the path in front of it. -/
theorem getD_visits_run {σ : Scope} (hσ : σ.mode = .flat) (hr : σ.root.hasMissing = false) :
    ∀ {ts : List Token} {i : Nat} {v : Value}, i < ts.length → v.hasMissing = false →
      (run σ ts v).visits.getD i 0 = (run σ (ts.take i) v).present.length
  | t :: ts, 0, v, _, hv => by
    rw [List.take_zero, run_nil, Outcome.arrive, Match.arrive_of_hasMissing hv, run_cons]
    rfl
  | t :: ts, i + 1, v, hi, hv => by
    rw [List.take_succ_cons, run_cons_eq_join hσ, run_cons_eq_join hσ, Outcome.present_visited]
    refine getD_visits_join_moves fun w hw => ?_
    exact getD_visits_run hσ hr (Nat.lt_of_succ_lt_succ hi) (Token.hasMissing_eq_false_of_mem_moves hw hr hv)

/-! ## Traces and evaluations -/

theorem Report.map_fst_steps (r : Report) : r.steps.map Prod.fst = r.path.tokens.map Token.text := by
  rw [steps, List.map_map]
  show r.path.tokens.zipIdx.map (Token.text ∘ Prod.fst) = _
  rw [← List.map_map, List.zipIdx_map_fst]

theorem Report.getElem?_steps (r : Report) {i : Nat} (hi : i < r.path.tokens.length) :
    r.steps[i]?.map Prod.snd = some (r.visits.getD i 0) := by
  simp only [steps, List.getElem?_map, List.getElem?_zipIdx, List.getElem?_eq_getElem hi, Option.map_some,
    Nat.zero_add]

/-- **Traces are faithful.** A trace, an evaluation that asks for one and an evaluation that does not have the same
results, and the counting evaluation has them too, with the same absences and steps. There is a step for each token of
the path, in order. Where unions are flat and the marker `missing` stands nowhere, the visits in the `i`-th step are as
many as the present entries of the walk along the first `i` tokens. -/
theorem trace_faithful {ι : Type} [DecidableEq ι] (name : Counting.Address → ι) (hname : Function.Injective name)
    (c : Config) (document : Value) (item : Option Value) (p : Path) :
    let r := c.evaluate document item p
    let start := item.getD document
    (∀ (tracing traced : Bool) (m : Metrics) (level : Option Level),
      (Session.evaluate ⟨{ c with tracing }, m, level⟩ traced document item p).1 = r) ∧
    (∀ tracing : Bool, Counting.evaluate name { c with tracing } document item p = r.results) ∧
    Counting.trace name c document item p = ⟨r.results, r.absent, r.steps⟩ ∧
    r.steps.map Prod.fst = p.tokens.map Token.text ∧
    (c.mode = .flat → document.hasMissing = false → start.hasMissing = false → ∀ i < p.tokens.length,
      r.steps[i]?.map Prod.snd = some (run (c.scope document) (p.tokens.take i) start).present.length) := by
  intro r start
  refine ⟨fun _ _ _ _ => rfl, fun tracing => ?_, ?_, ?_, fun hmode hdoc hstart i hi => ?_⟩
  · obtain ⟨hentries, -⟩ := Counting.walk_eq hname { c with tracing } document item p tracing
    exact congrArg (Match.renderAll c.missing) hentries
  · obtain ⟨hentries, habsent, hvisits⟩ := Counting.walk_eq hname c document item p true
    simp only [Counting.trace, hentries, habsent, hvisits rfl]
    rfl
  · exact r.map_fst_steps
  · rw [r.getElem?_steps hi]
    exact congrArg some (getD_visits_run hmode hdoc hi hstart)

/-- The filter visits its own tokens at all three children, which makes no difference to the visits of the others. -/
theorem trace_faithful_filter :
    let p : Path := ⟨[.root, .select (.filter none .current [.select (.child (.name "a"))] .eq .null),
      .select (.child (.name "b"))], none⟩
    let c : Config := ⟨.flat, .null, true⟩
    let document : Value := .list [.object [("a", .null), ("b", .null)], .object [("a", .null)], .object []]
    Function.Injective (id : Counting.Address → Counting.Address) ∧
      (Counting.trace id c document none p).absent = 2 ∧
      (Counting.trace id c document none p).steps.map Prod.snd = [1, 1, 2] ∧
      (run (c.scope document) (p.tokens.take 2) document).present.length = 2 := by
  intro p c document
  obtain ⟨_, _, htrace, _, hvisits⟩ := trace_faithful id Function.injective_id c document none p
  refine ⟨Function.injective_id, ?_, ?_, ?_⟩
  · rw [htrace]
    rfl
  · rw [htrace]
    rfl
  · exact (Option.some.inj (hvisits rfl rfl rfl 2 (by decide))).symm

end TreePath
