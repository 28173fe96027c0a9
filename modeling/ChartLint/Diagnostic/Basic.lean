import ChartLint.Diagnostic.Problem
import ChartLint.Firsts
import ChartLint.Span

/-!
# Diagnostics

A diagnostic says what is wrong and where. Of several with one range and one message only the first
is kept.
-/

namespace ChartLint

structure Related where
  range : Range
  message : String
  deriving DecidableEq, Repr

structure Diagnostic where
  code : Code
  severity : Severity := code.severity
  range : Range
  message : String
  source : String
  related : List Related := []
  deriving DecidableEq, Repr

namespace Diagnostic

def defaultSource : String := "chartcfg"

def ofProblem (p : Problem) (place : Span) : Diagnostic where
  code := p.code
  range := place.range
  message := p.message
  source := defaultSource

def isError (d : Diagnostic) : Bool :=
  d.severity == .error

def render (d : Diagnostic) : String :=
  let severity := match d.severity with
    | .error => "error"
    | .warning => "warning"
    | .information => "info"
  s!"{severity}[{d.code.text}]: {d.message} (at {d.range.render})"

def key (d : Diagnostic) : Range × String :=
  (d.range, d.message)

def firsts (ds : List Diagnostic) : List Diagnostic :=
  firstOfKeys key [] ds

def finish (source : String) (ds : List Diagnostic) : List Diagnostic :=
  (firsts ds).map fun d => { d with source }

end Diagnostic
end ChartLint
