import TreePath.Path.Builder
import TreePath.Path.Render
import TreePath.Proofs.CheckedReading

/-!
# Calls on a builder

The calls that can be made on a builder, with any values for their arguments (`Call`); the path of a filter comes as a
text or from a builder of its own, on which calls were made before. A call adds a token that depends on its arguments
only, or is refused and leaves the builder as it is (`Call.apply_cases`; `Call.Adds` lists all that a call can add). So
a builder after some calls holds what the calls add that are not refused (`callAll_cases`), and the refused ones might
as well not have been made (`callAll_filter`).

Each call stands for a fragment of path text (`Call.text`).
-/

namespace TreePath

inductive Call
  | root
  | current
  | wildcard
  | key (name : Value)
  | index (place : Value)
  | descend (name : Value)
  | slice (first last step : Value)
  | union (keys : List Value)
  /-- A filter over the path of a text. -/
  | filter (subpath op literal : Value)
  /-- A filter over the path of a builder on which the calls were made. -/
  | filterBuilt (calls : List Call) (op literal : Value)

mutual

/-- What a call makes of a builder, unless it is refused. -/
def Call.apply : Call → Builder → Except Refusal Builder
  | .root, b => .ok b.root
  | .current, b => .ok b.current
  | .wildcard, b => .ok b.wildcard
  | .key name, b => b.key name
  | .index place, b => b.index place
  | .descend name, b => b.descend name
  | .slice first last step, b => b.slice first last step
  | .union keys, b => b.union keys
  | .filter subpath op literal, b => b.filter (.value subpath) op literal
  | .filterBuilt calls op literal, b => do b.filter (.compiled (← (callAll calls .empty).build)) op literal

/-- A builder after calls one after the other. -/
def callAll : List Call → Builder → Builder
  | [], b => b
  | c :: cs, b => callAll cs ((c.apply b).toOption.getD b)

end

/-- Whether a call is not refused; the builder does not matter. -/
def Call.succeeds (c : Call) : Bool := (c.apply .empty).isOk

/-! ## Text -/

/-- The text of a key, a bound or a literal. -/
def Value.written (v : Value) : Text := (Literal.ofValue? v).elim [] Literal.text

/-- The text that is given as a value. -/
def Value.given : Value → Text
  | .string s => s
  | _ => []

/-- The last bound of a slice; a slice up to the end has none. -/
def Value.writtenEnd (last : Value) : Text := if last.isNull then [] else last.written

/-- A filter over a path with the text `subpath`. -/
def filterText (subpath : Text) (op literal : Value) : Text :=
  chars ['?', '('] ++ subpath ++ chars [' '] ++ op.given ++ chars [' '] ++ literal.written ++ chars [')']

/-- A text between brackets. -/
def bracketed (s : Text) : Text := chars ['['] ++ s ++ chars [']']

mutual

/-- The text that a call stands for. -/
def Call.text : Call → Text
  | .root => chars ['$']
  | .current => chars ['@']
  | .wildcard => bracketed (chars ['*'])
  | .key name => bracketed name.written
  | .index place => bracketed place.written
  | .descend name => chars ['.', '.'] ++ bracketed name.written
  | .slice first last step =>
    bracketed (first.written ++ chars [':'] ++ last.writtenEnd ++ chars [':'] ++ step.written)
  | .union keys => bracketed (Text.join (chars [',']) (keys.map Value.written))
  | .filter subpath op literal => bracketed (filterText subpath.given op literal)
  | .filterBuilt calls op literal => bracketed (filterText (callsText calls) op literal)

/-- The texts of the calls that are not refused, one behind the other. -/
def callsText : List Call → Text
  | [] => []
  | c :: cs => (if c.succeeds then c.text else []) ++ callsText cs

end

/-! ## Order of calls -/

/-- Whether a call anchors the path. -/
def Call.isAnchor : Call → Bool
  | .root => true
  | .current => true
  | _ => false

mutual

/-- Whether the calls on the builder of a filter are in order. -/
def Call.inOrder : Call → Bool
  | .filterBuilt calls _ _ => anchorFirst calls
  | _ => true

/-- Whether anchors occur as the first call only, refused calls not counted; on the builders of filters as well. -/
def anchorFirst : List Call → Bool
  | [] => true
  | c :: cs => if c.succeeds then c.inOrder && noAnchor cs else anchorFirst cs

def noAnchor : List Call → Bool
  | [] => true
  | c :: cs => (!c.succeeds || (!c.isAnchor && c.inOrder)) && noAnchor cs

end

mutual

/-- Whether a call is no union of a single key, and has none on the builder of a filter. -/
def Call.isPlural : Call → Bool
  | .union keys => keys.length != 1
  | .filterBuilt calls _ _ => allPlural calls
  | _ => true

def allPlural : List Call → Bool
  | [] => true
  | c :: cs => (!c.succeeds || c.isPlural) && allPlural cs

end

/-! ## What calls add -/

def Key.toValue : Key → Value
  | .name s => .string s
  | .index i => .int i

mutual

/-- The token that a call adds. -/
inductive Call.Adds : Call → Token → Prop
  | root : Call.Adds .root .root
  | current : Call.Adds .current .current
  | wildcard : Call.Adds .wildcard .wildcard
  | key (s : Text) : Call.Adds (.key (.string s)) (.child (.name s))
  | index (i : Int) : Call.Adds (.index (.int i)) (.child (.index i))
  | descend (s : Text) (h : s ≠ []) : Call.Adds (.descend (.string s)) (.descend s h)
  | slice (bounds : Slice) {last : Value}
      (h : Token.sliceEnd (if last.isNull then .openEnd else last) = .ok bounds.last) :
      Call.Adds (.slice (.int bounds.first) last (.int bounds.step)) (.select (.slice bounds))
  | union (first : Key) (others : List Key) :
      Call.Adds (.union ((first :: others).map Key.toValue)) (.union (.child first) (others.map .child))
  | filter {s : Text} {source : Option Text} {head : Token} {tail : List Token} (op : Operator) (literal : Literal)
      (h : Path.compile s = .ok ⟨head :: tail, source⟩) :
      Call.Adds (.filter (.string s) (.string op.text) literal.toValue) (.select (.filter source head tail op literal))
  | filterBuilt {calls : List Call} {head : Token} {tail : List Token} (op : Operator) (literal : Literal)
      (h : AddsAll calls (head :: tail)) :
      Call.Adds (.filterBuilt calls (.string op.text) literal.toValue) (.select (.filter none head tail op literal))

/-- The tokens that the calls add that are not refused. -/
inductive AddsAll : List Call → List Token → Prop
  | nil : AddsAll [] []
  | added {c : Call} {t : Token} {cs : List Call} {ts : List Token} (hs : c.succeeds = true) (h : c.Adds t)
      (hcs : AddsAll cs ts) : AddsAll (c :: cs) (t :: ts)
  | refused {c : Call} {cs : List Call} {ts : List Token} (hs : c.succeeds = false) (hcs : AddsAll cs ts) :
      AddsAll (c :: cs) ts

end

/-! ## Arguments -/

theorem Key.ofValue_eq_ok {v : Value} {k : Key} (h : Key.ofValue v = .ok k) : v = k.toValue := by
  unfold Key.ofValue at h
  split at h
  · cases h
    rfl
  · cases h
    rfl
  · cases h

theorem Key.mapM_ofValue_eq_ok : ∀ {vs : List Value} {ks : List Key}, vs.mapM Key.ofValue = .ok ks →
    vs = ks.map Key.toValue
  | [], ks, h => by
    cases h
    rfl
  | v :: vs, ks, h => by
    rw [List.mapM_cons] at h
    obtain ⟨k, hk, h⟩ := bind_eq_ok.1 h
    obtain ⟨ks, hks, h⟩ := bind_eq_ok.1 h
    cases h
    rw [Key.ofValue_eq_ok hk, mapM_ofValue_eq_ok hks]
    rfl

theorem Operator.ofText?_eq_some {s : Text} {op : Operator} (h : Operator.ofText? s = some op) : s = op.text := by
  have htext := List.find?_some h
  exact (of_decide_eq_true htext).symm

theorem Literal.ofValue?_eq_some {v : Value} {l : Literal} (h : Literal.ofValue? v = some l) : v = l.toValue := by
  unfold Literal.ofValue? at h
  split at h <;> cases h <;> rfl

theorem Token.sliceOf_eq_ok {first last step : Value} {t : Token} (h : Token.sliceOf first last step = .ok t) :
    ∃ bounds : Slice, first = .int bounds.first ∧ Token.sliceEnd last = .ok bounds.last ∧ step = .int bounds.step ∧
      t = .select (.slice bounds) := by
  unfold Token.sliceOf at h
  split at h
  · rename_i i
    obtain ⟨j, hj, h⟩ := bind_eq_ok.1 h
    split at h
    · split at h
      · rename_i hk
        cases h
        refine ⟨_, rfl, hj, ?_, rfl⟩
        dsimp only [Value.int]
        rw [Int.toNat_of_nonneg (Int.le_of_lt hk)]
      · cases h
    · cases h
  · cases h

theorem Builder.compile_of_subpath {s : Text} {p : Path} (h : subpath (.value (.string s)) = .ok p) :
    Path.compile s = .ok p := by
  dsimp only [subpath] at h
  cases hs : Path.compile s with
  | error e =>
    rw [hs] at h
    cases h
  | ok q =>
    rw [hs] at h
    cases h
    rfl

/-- A slice is added for integers with a positive step, and refused otherwise. -/
theorem Builder.slice_cases (first last step : Value) :
    (∃ bounds : Slice, first = .int bounds.first ∧
      Token.sliceEnd (if last.isNull then .openEnd else last) = .ok bounds.last ∧ step = .int bounds.step ∧
      ∀ b : Builder, b.slice first last step = .ok (b.push (.select (.slice bounds)))) ∨
    ∃ e, ∀ b : Builder, b.slice first last step = .error e := by
  cases hslice : Token.sliceOf first (if last.isNull then .openEnd else last) step with
  | error e => exact Or.inr ⟨e, fun b => by rw [slice, hslice]; rfl⟩
  | ok t =>
    obtain ⟨bounds, hfirst, hlast, hstep, rfl⟩ := Token.sliceOf_eq_ok hslice
    exact Or.inl ⟨bounds, hfirst, hlast, hstep, fun b => by rw [slice, hslice]; rfl⟩

/-- A union is added for one key or more, and refused otherwise. -/
theorem Builder.union_cases (keys : List Value) :
    (∃ (first : Key) (others : List Key), keys = (first :: others).map Key.toValue ∧
      ∀ b : Builder, b.union keys = .ok (b.push (.union (.child first) (others.map .child)))) ∨
    ∃ e, ∀ b : Builder, b.union keys = .error e := by
  cases keys with
  | nil => exact Or.inr ⟨_, fun _ => rfl⟩
  | cons k ks =>
    cases hk : Key.ofValue k with
    | error e => exact Or.inr ⟨e, fun b => by rw [union, hk]; rfl⟩
    | ok first =>
      cases hks : ks.mapM Key.ofValue with
      | error e => exact Or.inr ⟨e, fun b => by rw [union, hk, hks]; rfl⟩
      | ok others =>
        refine Or.inl ⟨first, others, ?_, fun b => by rw [union, hk, hks]; rfl⟩
        rw [Key.ofValue_eq_ok hk, Key.mapM_ofValue_eq_ok hks]
        rfl

/-- A filter is added for an operator, a subpath that is not empty and a literal, and refused otherwise. -/
theorem Builder.filter_cases (route : Route) (op literal : Value) :
    (∃ (o : Operator) (p : Path) (head : Token) (tail : List Token) (l : Literal), op = .string o.text ∧
      subpath route = .ok p ∧ p.tokens = head :: tail ∧ literal = l.toValue ∧
      ∀ b : Builder, b.filter route op literal = .ok (b.push (.select (.filter p.source head tail o l)))) ∨
    ∃ e, ∀ b : Builder, b.filter route op literal = .error e := by
  cases op with
  | string s =>
    cases ho : Operator.ofText? s with
    | none => exact Or.inr ⟨_, fun b => by rw [filter, ho]⟩
    | some o =>
      cases hp : subpath route with
      | error e => exact Or.inr ⟨e, fun b => by rw [filter, ho, hp]; rfl⟩
      | ok p =>
        have hfilter : ∀ b : Builder, b.filter route (.string s) literal =
            (Token.filterOver o p literal >>= fun t => .ok (b.push t)) := by
          intro b
          rw [filter, ho, hp]
          rfl
        cases htokens : p.tokens with
        | nil =>
          have hover : Token.filterOver o p literal = .error .emptySubpath := by rw [Token.filterOver, htokens]
          exact Or.inr ⟨_, fun b => by rw [hfilter, hover]; rfl⟩
        | cons head tail =>
          cases hl : Literal.ofValue? literal with
          | none =>
            have hover : Token.filterOver o p literal = .error (.literal literal) := by
              rw [Token.filterOver, htokens, hl]
            exact Or.inr ⟨_, fun b => by rw [hfilter, hover]; rfl⟩
          | some l =>
            have hover : Token.filterOver o p literal = .ok (.select (.filter p.source head tail o l)) := by
              rw [Token.filterOver, htokens, hl]
            have hop : Value.string s = .string o.text := by rw [Operator.ofText?_eq_some ho]
            exact Or.inl ⟨o, p, head, tail, l, hop, rfl, htokens, Literal.ofValue?_eq_some hl,
              fun b => by rw [hfilter, hover]; rfl⟩
  | _ => exact Or.inr ⟨_, fun _ => rfl⟩

/-! ## Calls that are made -/

theorem build_of_callAll {cs : List Call} {ts : List Token} (h : ∀ b, callAll cs b = ⟨b.offers ++ ts.map .token⟩) :
    (callAll cs .empty).build = .ok ⟨ts, none⟩ := by
  rw [h]
  exact Checked.ofOffers_token ts none

theorem apply_filterBuilt {cs : List Call} {p : Path} (h : (callAll cs .empty).build = .ok p) (op literal : Value)
    (b : Builder) : (Call.filterBuilt cs op literal).apply b = b.filter (.compiled p) op literal := by
  rw [Call.apply, h]
  rfl

mutual

/-- **What a call does**: it adds a token, or it is refused, whatever the builder. -/
theorem Call.apply_cases : ∀ c : Call, (∃ t, c.Adds t ∧ ∀ b, c.apply b = .ok (b.push t)) ∨
    ∃ e, ∀ b, c.apply b = .error e
  | .root => Or.inl ⟨_, .root, fun _ => rfl⟩
  | .current => Or.inl ⟨_, .current, fun _ => rfl⟩
  | .wildcard => Or.inl ⟨_, .wildcard, fun _ => rfl⟩
  | .key name => by
    cases name with
    | string s => exact Or.inl ⟨_, .key s, fun _ => rfl⟩
    | _ => exact Or.inr ⟨_, fun _ => rfl⟩
  | .index place => by
    cases place with
    | number x =>
      cases x with
      | int i => exact Or.inl ⟨_, .index i, fun _ => rfl⟩
      | _ => exact Or.inr ⟨_, fun _ => rfl⟩
    | _ => exact Or.inr ⟨_, fun _ => rfl⟩
  | .descend name => by
    cases name with
    | string s =>
      by_cases h : s ≠ []
      · exact Or.inl ⟨_, .descend s h, fun _ => dif_pos h⟩
      · exact Or.inr ⟨_, fun _ => dif_neg h⟩
    | _ => exact Or.inr ⟨_, fun _ => rfl⟩
  | .slice first last step => by
    rcases Builder.slice_cases first last step with ⟨bounds, rfl, hlast, rfl, h⟩ | h
    · exact Or.inl ⟨_, .slice bounds hlast, h⟩
    · exact Or.inr h
  | .union keys => by
    rcases Builder.union_cases keys with ⟨first, others, rfl, h⟩ | h
    · exact Or.inl ⟨_, .union first others, h⟩
    · exact Or.inr h
  | .filter sub op literal => by
    rcases Builder.filter_cases (.value sub) op literal with ⟨o, p, head, tail, l, rfl, hp, htokens, rfl, h⟩ | h
    · cases sub with
      | string s =>
        have hcompile := Builder.compile_of_subpath hp
        obtain ⟨tokens, source⟩ := p
        cases htokens
        exact Or.inl ⟨_, .filter o l hcompile, h⟩
      | _ => cases hp
    · exact Or.inr h
  | .filterBuilt calls op literal => by
    obtain ⟨ts, hts, hall⟩ := callAll_cases calls
    have happly := apply_filterBuilt (build_of_callAll hall) op literal
    rcases Builder.filter_cases (.compiled ⟨ts, none⟩) op literal with
      ⟨o, p, head, tail, l, rfl, hp, htokens, rfl, h⟩ | ⟨e, h⟩
    · cases hp
      obtain rfl : ts = head :: tail := htokens
      exact Or.inl ⟨_, .filterBuilt o l hts, fun b => (happly b).trans (h b)⟩
    · exact Or.inr ⟨e, fun b => (happly b).trans (h b)⟩

/-- A builder after some calls holds what they add. -/
theorem callAll_cases : ∀ cs : List Call, ∃ ts, AddsAll cs ts ∧ ∀ b, callAll cs b = ⟨b.offers ++ ts.map .token⟩
  | [] => ⟨[], .nil, fun b => by rw [callAll, List.map_nil, List.append_nil]⟩
  | c :: cs => by
    obtain ⟨ts, hts, hall⟩ := callAll_cases cs
    rcases c.apply_cases with ⟨t, ht, happly⟩ | ⟨e, happly⟩
    · refine ⟨t :: ts, .added ?_ ht hts, fun b => ?_⟩
      · rw [Call.succeeds, happly]
        rfl
      · rw [callAll, happly, hall]
        show (⟨(b.offers ++ [.token t]) ++ ts.map .token⟩ : Builder) = _
        rw [List.append_assoc]
        rfl
    · refine ⟨ts, .refused ?_ hts, fun b => ?_⟩
      · rw [Call.succeeds, happly]
        rfl
      · rw [callAll, happly]
        exact hall b

end

/-- A call that is refused leaves the builder as it is. -/
theorem apply_of_not_succeeds {c : Call} (h : c.succeeds = false) : ∃ e, ∀ b, c.apply b = .error e := by
  rcases c.apply_cases with ⟨t, _, happly⟩ | hrefused
  · rw [Call.succeeds, happly] at h
    cases h
  · exact hrefused

/-- Calls that are refused might as well not be made. -/
theorem callAll_filter : ∀ (cs : List Call) (b : Builder), callAll (cs.filter Call.succeeds) b = callAll cs b
  | [], _ => rfl
  | c :: cs, b => by
    cases hs : c.succeeds with
    | true =>
      rw [List.filter_cons_of_pos hs, callAll, callAll]
      exact callAll_filter cs _
    | false =>
      obtain ⟨e, he⟩ := apply_of_not_succeeds hs
      rw [List.filter_cons_of_neg (by simp [hs]), callAll, he]
      exact callAll_filter cs b

/-- The path of a builder after some calls. -/
theorem build_callAll (cs : List Call) : ∃ ts, AddsAll cs ts ∧ (callAll cs .empty).build = .ok ⟨ts, none⟩ := by
  obtain ⟨ts, hts, hall⟩ := callAll_cases cs
  exact ⟨ts, hts, build_of_callAll hall⟩

end TreePath
