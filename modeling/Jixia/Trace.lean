/-
Runs of a call interface.

A component answers calls and changes its state; a run is a sequence of calls with
the answers they got, in order.  `Trace step start calls s` says that the calls of
the list lead from `start` to `s`.

* `Trace.exec_trace` — the run of a list of calls, computed.
-/
import Mathlib.Data.List.Basic

variable {C A S : Type*} {step : C → S → A × S} {start s : S} {trace : List (C × A)}

/-- The calls of `trace` lead from `start` to the state, with the answers it lists. -/
inductive Trace (step : C → S → A × S) (start : S) : List (C × A) → S → Prop
  | nil : Trace step start [] start
  | snoc {trace : List (C × A)} {s : S} (c : C) : Trace step start trace s →
      Trace step start (trace ++ [(c, (step c s).1)]) (step c s).2

namespace Trace

/-- Runs the calls, on a run that has come this far. -/
def exec (step : C → S → A × S) : List C → List (C × A) × S → List (C × A) × S
  | [], run => run
  | c :: rest, run => exec step rest (run.1 ++ [(c, (step c run.2).1)], (step c run.2).2)

theorem exec_extends (calls : List C) {run : List (C × A) × S}
    (ht : Trace step start run.1 run.2) :
    Trace step start (exec step calls run).1 (exec step calls run).2 := by
  induction calls generalizing run with
  | nil => exact ht
  | cons c rest ih => exact ih (ht.snoc c)

theorem exec_trace (step : C → S → A × S) (calls : List C) (start : S) :
    Trace step start (exec step calls ([], start)).1 (exec step calls ([], start)).2 :=
  exec_extends calls .nil

end Trace
