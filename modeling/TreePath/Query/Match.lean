import TreePath.Value.Order

/-!
# Matches

What a path finds. A match is a value, an absence where navigation failed, or a slot: the list of what one alternative
of a union found. Absences are holes; rendering puts a chosen value into every hole.
-/

namespace TreePath

inductive Match
  | found (v : Value)
  | absent
  | slot (ms : List Match)

namespace Match

/-- The match at the end of a path. The marker `missing` in a document is itself a hole. -/
def arrive (v : Value) : Match := if v.isMissing then .absent else .found v

mutual

/-- A match with `hole` in its holes. -/
def render (hole : Value) : Match → Value
  | .found v => v
  | .absent => hole
  | .slot ms => .list (renderAll hole ms)

def renderAll (hole : Value) : List Match → List Value
  | [] => []
  | m :: ms => m.render hole :: renderAll hole ms

end

/-- What a match contributes where absences do not count. -/
def present? (hole : Value) : Match → Option Value
  | .absent => none
  | m => some (m.render hole)

end Match

/-- One value for a list of values: nothing for none, the value for one, and the list for several. -/
def condense : List Value → Option Value
  | [] => none
  | [v] => some v
  | vs => some (.list vs)

/-- As `condense`, for values among which the marker `missing` stands for an absence; `missing` for none. -/
def collapse (vs : List Value) : Value := (condense (vs.filter fun v => !v.isMissing)).getD .missing

/-- The cell of a table for a list of values: `null` for none. -/
def cell (vs : List Value) : Value := (condense vs).getD .null

end TreePath
