import HybroidSema.Span
import HybroidSema.Alert.Kind

/-!
# Alerts and diagnostics

An `Alert` is a problem with its positions and perhaps a hint. `Diagnostics` are the alerts of one
environment in the order they were reported; the counts are views of that list.
-/

namespace HybroidSema

/-- A reported problem: its primary position, further positions and an optional hint. -/
structure Alert where
  kind : AlertKind
  span : Span
  more : List Span := []
  note : Option String := none
deriving Repr

namespace Alert

/-- The positions, primary first. -/
def spans (a : Alert) : List Span := a.span :: a.more

/-- The stable code. -/
def code (a : Alert) : AlertCode := a.kind.code

/-- The severity. -/
def severity (a : Alert) : Severity := a.kind.severity

/-- Whether the alert is an error. -/
def isError (a : Alert) : Bool := a.severity == .error

/-- The alert on one line. -/
def render (a : Alert) : String :=
  let hint := match a.note with
    | some note => " (note: " ++ note ++ ")"
    | none => ""
  a.span.render ++ ": " ++ a.severity.name ++ "[" ++ a.code.render ++ "]: " ++ a.kind.message ++
    hint

end Alert

/-- The alerts of one environment in report order. -/
structure Diagnostics where
  alerts : List Alert := []
deriving Repr, Inhabited

namespace Diagnostics

/-- No alerts. -/
def empty : Diagnostics := {}

/-- Add an alert at the end. -/
def push (d : Diagnostics) (a : Alert) : Diagnostics := ⟨d.alerts ++ [a]⟩

/-- Add an alert at one position at the end. -/
def report (d : Diagnostics) (kind : AlertKind) (span : Span) : Diagnostics :=
  d.push { kind := kind, span := span }

/-- All alerts of `d`, then all of `e`. -/
def append (d e : Diagnostics) : Diagnostics := ⟨d.alerts ++ e.alerts⟩

/-- The errors in report order. -/
def errors (d : Diagnostics) : List Alert := d.alerts.filter Alert.isError

/-- The warnings in report order. -/
def warnings (d : Diagnostics) : List Alert := d.alerts.filter (!·.isError)

/-- The number of errors. -/
def errorCount (d : Diagnostics) : Nat := d.errors.length

/-- The number of warnings. -/
def warningCount (d : Diagnostics) : Nat := d.warnings.length

/-- Whether an error was reported. -/
def hasErrors (d : Diagnostics) : Bool := 0 < d.errorCount

/-- Whether a warning was reported. -/
def hasWarnings (d : Diagnostics) : Bool := 0 < d.warningCount

/-- The codes in report order. -/
def codes (d : Diagnostics) : List AlertCode := d.alerts.map Alert.code

/-- The number of alerts with a code. -/
def count (d : Diagnostics) (code : AlertCode) : Nat := d.codes.count code

/-- All alerts, each on a line of its own. -/
def render (d : Diagnostics) : String :=
  String.join (d.alerts.map fun a => a.render ++ "\n")

theorem errorCount_add_warningCount (d : Diagnostics) :
    d.errorCount + d.warningCount = d.alerts.length := by
  obtain ⟨alerts⟩ := d
  induction alerts with
  | nil => rfl
  | cons a rest ih =>
    cases h : a.isError <;>
      simp_all [errorCount, warningCount, errors, warnings] <;> omega

end Diagnostics

end HybroidSema
