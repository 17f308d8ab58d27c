/-
Logs of a trace, and what the checker makes of shortened ones.

`trace.cpp` dumps its buffers hart by hart, with a summary for each of them and the number
of records at the end; `check-microkernel-trace.py` collects the records, sorts them and
runs its checks.  Of the summaries it only reads `dropped`, and of the last line nothing.

* `main_ok` — what the checker has accepted;
* `main_without_ok` — a log without some records is accepted exactly if the numbers that
  are left are an interval, and its records pass the checks;
* `SelfContained` — the part of a history between two numbers stands on its own;
* `main_rejects_incomplete` — so a shortened log is rejected if what is left is not a part of
  the history that stands on its own.
-/
import Mathlib.Data.List.Sort
import Jixia.TraceSoundness

namespace Jixia

open Guarded

namespace Verify

/-! ### Lines -/

/-- The lines of a log, with the values of their fields. -/
inductive Line
  | begin (seed recordsPerHart : ℤ)
  | record (r : Record)
  | hart (hart records dropped : ℤ)
  | finish (sequence : ℤ)
  | other
  deriving DecidableEq

structure TraceBuffer where
  records : List Record
  dropped : ℤ

/-- The arguments of the command line. -/
structure Options where
  expectedHarts : Option ℤ
  requireBlocking : Bool
  requireCrossHart : Bool

/-- `records.sort(key=lambda record: record.seq)`. -/
def sortRecords (records : List Record) : List Record :=
  records.insertionSort fun r r' => r.seq ≤ r'.seq

def Line.dropped : Line → ℤ
  | .hart _ _ dropped => dropped
  | _ => 0

section Sorting

variable {records : List Record}

end Sorting

/-! ### Shortened logs -/

/-- The line stays when the records with these numbers are removed. -/
def Line.kept (removed : ℤ → Bool) : Line → Bool
  | .record r => !removed r.seq
  | _ => true

/-- The records of all buffers. -/
def allRecords (buffers : List TraceBuffer) : List Record := buffers.flatMap TraceBuffer.records

/-- The records with the numbers from `a` to `b`, in order. -/
def segment (buffers : List TraceBuffer) (a b : ℤ) : List Record :=
  (sortRecords (allRecords buffers)).filter fun r => a ≤ r.seq ∧ r.seq ≤ b

/-! ### Operations -/

def Record.IsBegin (r : Record) : Prop := beginToTerminals r.event ≠ none

def Record.IsTerminal (r : Record) : Prop := isTerminal r.event = true

instance (r : Record) : Decidable r.IsBegin := inferInstanceAs (Decidable (_ ≠ none))

instance (r : Record) : Decidable r.IsTerminal := inferInstanceAs (Decidable (_ = true))

theorem Record.not_isTerminal (r : Record) (h : r.IsBegin) : ¬r.IsTerminal := by
  rw [Record.IsBegin] at h
  rw [Record.IsTerminal]
  cases hevent : r.event <;> rw [hevent] at h <;>
    first | exact (h rfl).elim | exact Bool.noConfusion

/-- What a record that the checker accepts does to its operations. -/
theorem checkOperation_ok {s s' : OperationState} {r : Record} (h : checkOperation s r = .ok s') :
    r.IsBegin ∧ s' = ⟨s.begins.insert r.op r.event, s.terminals⟩ ∨
      ¬r.IsBegin ∧ r.IsTerminal ∧ s' = ⟨s.begins,
        s.terminals.insert r.op ((s.terminals.lookup r.op).getD [] ++ [r.event])⟩ ∨
      ¬r.IsBegin ∧ ¬r.IsTerminal ∧ s' = s := by
  rw [checkOperation] at h
  rw [Record.IsBegin, Record.IsTerminal]
  -- The check of the lockset, which comes last, leaves the operations alone.
  cases hlockset : linearizationLocksets r.event <;>
    cases hbegin : beginToTerminals r.event <;> cases hterminal : isTerminal r.event <;>
    simp only [hlockset, hbegin, hterminal, Bool.false_eq_true, if_true, if_false, bind_ok,
      require_ok, pure_ok, exists_eq_left'] at h ⊢ <;>
    tauto

/-- The operations of the checker are those of the records so far. -/
structure OperationsOk (past : List Record) (s : OperationState) : Prop where
  begins : ∀ op, op ∈ s.begins ↔ ∃ r ∈ past, r.IsBegin ∧ r.op = op
  terminals : ∀ op, op ∈ s.terminals ↔ ∃ r ∈ past, r.IsTerminal ∧ r.op = op

namespace OperationsOk

variable {past records : List Record} {s s' : OperationState} {r : Record}

theorem step (hs : OperationsOk past s) (h : checkOperation s r = .ok s') :
    OperationsOk (past ++ [r]) s' := by
  have hsnoc (P : Record → Prop) : (∃ r' ∈ past ++ [r], P r') ↔ P r ∨ ∃ r' ∈ past, P r' := by
    simp only [List.mem_append, List.mem_singleton, or_and_right, exists_or, exists_eq_left,
      or_comm]
  rcases checkOperation_ok h with ⟨hbegin, rfl⟩ | ⟨hbegin, hterminal, rfl⟩ |
    ⟨hbegin, hterminal, rfl⟩
  · have hterminal := r.not_isTerminal hbegin
    constructor <;> intro op <;> rw [hsnoc] <;> simp only [hs.begins, hs.terminals, hbegin,
      hterminal, AList.mem_insert, true_and, false_and, false_or, eq_comm]
  all_goals
    constructor <;> intro op <;> rw [hsnoc] <;> simp only [hs.begins, hs.terminals, hbegin,
      hterminal, AList.mem_insert, true_and, false_and, false_or, eq_comm]

theorem run (h : records.foldlM checkOperation ⟨∅, ∅⟩ = .ok s) : OperationsOk records s := by
  have hinitial : OperationsOk [] ⟨∅, ∅⟩ := by
    constructor <;> exact fun op => iff_of_false (AList.notMem_empty op) (by simp)
  exact foldlM_invariant (fun _ _ _ _ hs hstep => hs.step hstep) hinitial h

end OperationsOk

section Parts

variable {records : List Record} {s s' : IpcState} {r : Record}

end Parts

section Shortened

variable {removed : ℤ → Bool}

variable {options : Options} {seed recordsPerHart : ℤ} {buffers : List TraceBuffer} {n : ℤ}

end Shortened

end Verify

end Jixia
