import TreePath.Query.Report

/-!
# Sessions

Evaluations that share a configuration. What is logged and counted about an evaluation is read off its report; neither
has an influence on the results.
-/

namespace TreePath

/-! ## Log lines -/

inductive Level
  | debug
  | info
  | warning
  deriving DecidableEq

def Level.rank : Level → Nat
  | .debug => 0
  | .info => 1
  | .warning => 2

structure LogLine where
  level : Level
  message : Text

def Report.summary (r : Report) : LogLine :=
  ⟨.debug, "Evaluated " ++ r.path.text ++ ": " ++ Text.ofNat r.results.length ++ " result(s), " ++
    Text.ofNat r.absent ++ " absent"⟩

def Report.trace (r : Report) : LogLine := ⟨.info, "Evaluation trace: " ++ r.toValue.display⟩

/-- The lines of an evaluation that are not below `level`; `traced` says whether the whole report is logged too. -/
def Report.log (level : Level) (traced : Bool) (r : Report) : List LogLine :=
  (r.summary :: if traced then [r.trace] else []).filter fun l => level.rank ≤ l.level.rank

/-! ## Metrics -/

structure Metrics where
  evaluations : Nat
  results : Nat
  absent : Nat

def Metrics.zero : Metrics := ⟨0, 0, 0⟩

def Metrics.add (m : Metrics) (r : Report) : Metrics :=
  ⟨m.evaluations + 1, m.results + r.results.length, m.absent + r.absent⟩

/-- The counters that have been touched, in alphabetic order. Absences are counted only once there is one. -/
def Metrics.counters (m : Metrics) : List (Text × Nat) :=
  if m.evaluations = 0 then []
  else (if m.absent = 0 then [] else [(Text.ofString "evaluator.absent", m.absent)]) ++
    [(Text.ofString "evaluator.evaluations", m.evaluations), (Text.ofString "evaluator.results", m.results)]

/-! ## Evaluation -/

/-- Evaluations that share one configuration and one set of counters. -/
structure Session where
  config : Config
  metrics : Metrics
  level : Option Level

/-- Evaluates a path in a session. A trace is asked for by `traced`; an evaluation that is not a trace logs its whole
report when the configuration says so. -/
def Session.evaluate (s : Session) (traced : Bool) (document : Value) (item : Option Value) (p : Path) :
    Report × List LogLine × Session :=
  let r := s.config.evaluate document item p
  let lines := s.level.elim [] fun level => r.log level (!traced && s.config.tracing)
  (r, lines, { s with metrics := s.metrics.add r })

end TreePath
