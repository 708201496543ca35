import TreePath.Query.Run
import TreePath.Value.Display

/-!
# Configurations

How queries are evaluated: the mode of unions, what stands for an absence in the results, and whether every evaluation
is logged in full. A configuration is read from plain values; only the mode can be refused.
-/

namespace TreePath

structure Config where
  mode : UnionMode
  /-- What stands for an absence in the results. -/
  missing : Value
  tracing : Bool

def Config.standard : Config := ⟨.flat, .null, false⟩

inductive ConfigError
  | unionMode
  /-- The value cannot be looked up among the modes. -/
  | unhashable (typeName : Text)
  | signalingNaN

def ConfigError.message : ConfigError → Text
  | .unionMode => "EngineConfig.union_mode must be one of \x7b'flat','nested'\x7d."
  | .unhashable name => "unhashable type: '" ++ name ++ "'"
  | .signalingNaN => "Cannot hash a signaling NaN value"

mutual

/-- Why a value cannot be looked up in a set, if it cannot. -/
def Value.hashFault? : Value → Option ConfigError
  | .list xs => some (.unhashable (Value.list xs).typeName)
  | .object ms => some (.unhashable (Value.object ms).typeName)
  | .number (.decimal (.nan _ true _)) => some .signalingNaN
  | .tuple xs => hashFaults? xs
  | _ => none

def hashFaults? : List Value → Option ConfigError
  | [] => none
  | x :: xs => match Value.hashFault? x with
    | some e => some e
    | none => hashFaults? xs

end

def UnionMode.ofValue (v : Value) : Except ConfigError UnionMode :=
  match v with
  | .string s =>
    if s = chars ['f', 'l', 'a', 't'] then .ok .flat
    else if s = chars ['n', 'e', 's', 't', 'e', 'd'] then .ok .nested
    else .error .unionMode
  | v => .error (v.hashFault?.getD .unionMode)

/-- A configuration from plain values. -/
def Config.ofValues (mode hole tracing : Value) : Except ConfigError Config :=
  (UnionMode.ofValue mode).map fun mode => ⟨mode, hole, tracing.truthy⟩

def Config.scope (c : Config) (document : Value) : Scope := ⟨c.mode, c.missing, document⟩

end TreePath
