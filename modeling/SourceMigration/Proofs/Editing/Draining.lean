import Mathlib.Data.List.Induction
import SourceMigration.Editing.Supertype
import SourceMigration.Proofs.Editing.Importing
import SourceMigration.Proofs.Trace.Noted

/-!
# SourceMigration — calls on a queue

A queue takes passes until it is drained, and then it takes nothing more. What any sequence of calls
on a new queue leads to is said for the call that comes next: before the first drain the queue holds
what was scheduled, each pass once and in the order of first scheduling; the first drain runs just
these; every later call is refused and leaves the queue and the journal as they are.

A pass makes the same of a unit whatever the journal holds. If it tells that it built nothing anew, the
unit that it gives is the one that it was given.

## Results

* `run_fst`            — what a pass makes of a unit does not depend on the journal.
* `node_of_unchanged`  — a pass that reports no change gives the unit back.
* `node_runAll`        — passes one after another are a fold.
* `fst_runAll`         — nor does what all of them make of it depend on the journal.
* `executed_runAll`    — one report for each pass, in order, with its change.
* `queue_after`        — what a queue holds after any calls.
* `answer_after`       — what the next call answers, and what it leaves behind.
-/

namespace SourceMigration

-- ---------------------------------------------------------------------------
-- Lists without duplicates
-- ---------------------------------------------------------------------------

section Duplicates

variable {α : Type} [BEq α] [LawfulBEq α]

/-- Without duplicates, a list with one more at its end. -/
theorem eraseDups_concat (as : List α) (a : α) :
    (as ++ [a]).eraseDups = if as.contains a then as.eraseDups else as.eraseDups ++ [a] := by
  rw [List.eraseDups_append, List.removeAll]
  cases h : as.contains a <;> simp_all [List.eraseDups_cons]

theorem nodup_eraseDups (as : List α) : as.eraseDups.Nodup := by
  induction as using List.reverseRecOn with
  | nil => simp
  | append_singleton as a ih =>
    rw [eraseDups_concat]
    split
    · exact ih
    · rename_i hNew
      rw [List.nodup_append]
      refine ⟨ih, by simp, ?_⟩
      rintro b hb _ hc rfl
      obtain rfl := List.mem_singleton.mp hc
      exact hNew (List.contains_iff_mem.mpr (List.mem_eraseDups.mp hb))

end Duplicates

-- ---------------------------------------------------------------------------
-- What a pass makes of a unit
-- ---------------------------------------------------------------------------

namespace Node

/-- Where nothing is replaced, the tree comes back. -/
theorem eq_of_replaceAll {skip : NodeKind → Bool} {f : Node → Option Node} {n : Node}
    (h : (n.replaceAll skip f).2 = 0) : (n.replaceAll skip f).1 = n := by
  have hChildren {cs : List (Field × Node)}
      (ih : ∀ c ∈ cs, (c.2.replaceAll skip f).2 = 0 → (c.2.replaceAll skip f).1 = c.2)
      (hNone : (replaceAllIn skip f cs).2 = 0) : (replaceAllIn skip f cs).1 = cs := by
    induction cs with
    | nil => rfl
    | cons c cs ihIn =>
      simp only [replaceAllIn, Nat.add_eq_zero_iff] at hNone ⊢
      rw [ih c List.mem_cons_self hNone.1, ihIn (fun d hd => ih d (List.mem_cons_of_mem _ hd)) hNone.2]
  induction n using Node.induct with
  | token t =>
    unfold replaceAll at h ⊢
    split at h
    · cases h
    · rfl
  | branch k cs ih =>
    unfold replaceAll at h ⊢
    split at h
    · cases h
    · split at h
      · rename_i hSkip
        rw [if_pos hSkip]
      · rename_i hSkip
        rw [if_neg hSkip]
        simp only at h ⊢
        rw [hChildren ih h]

end Node

namespace Pass

/-- What a pass makes of a unit, and whether it built anything anew. -/
def transform (p : Pass) (unit : Node) : Revised := (p.run unit {}).1

/-- What a pass makes of a unit does not depend on the journal. -/
theorem run_fst (p : Pass) (unit : Node) (j : Journal) : (p.run unit j).1 = p.transform unit := by
  cases p <;> rfl

/-- A pass that reports no change gives the unit back. -/
theorem node_of_unchanged {p : Pass} {unit : Node} (h : (p.transform unit).changed = false) :
    (p.transform unit).node = unit := by
  cases p with
  | renameMethod pattern newName =>
    have hNone : (renameCalls pattern newName unit).2 = 0 := by simpa [transform, run] using h
    exact Node.eq_of_replaceAll hNone
  | changeType old new =>
    have hNone : (changeTypes old new unit).2.2 = 0 ∧
        (Imports.remove (changeTypes old new unit).1 old).changed = false ∧
        (Imports.add (Imports.remove (changeTypes old new unit).1 old).unit new).changed = false := by
      simpa [transform, run, runAdd, runRemove, and_assoc] using h
    obtain ⟨hCount, hRemoved, hAdded⟩ := hNone
    have hSame : (changeTypes old new unit).1 = unit := by
      simp only [changeTypes, Nat.add_eq_zero_iff] at hCount ⊢
      rw [Node.eq_of_replaceAll hCount.1] at hCount ⊢
      exact Node.eq_of_replaceAll hCount.2
    show (Imports.add (Imports.remove (changeTypes old new unit).1 old).unit new).unit = unit
    rw [Imports.unit_of_add hAdded, Imports.unit_of_remove hRemoved, hSame]
  | addImport t => exact Imports.unit_of_add h
  | removeImport t => exact Imports.unit_of_remove h

/-- The unit that a pass leaves to the next one. -/
def step (unit : Node) (p : Pass) : Node := (p.transform unit).node

/-- What is reported of passes that are run one after another: each with its change to the unit that
the passes before it left. -/
def reports (ps : List Pass) (unit : Node) : List (String × List (String × Detail)) :=
  List.zipWith (fun p unit => ("Ran " ++ p.describe, [("changed", .flag (p.transform unit).changed)]))
    ps (ps.scanl step unit)

end Pass

-- ---------------------------------------------------------------------------
-- Running passes
-- ---------------------------------------------------------------------------

namespace Queue

variable (ps : List Pass) (unit : Revised) (j : Journal)

/-- Passes one after another are a fold. -/
theorem node_runAll : (runAll ps unit j).1.node = ps.foldl Pass.step unit.node := by
  induction ps generalizing unit j with
  | nil => rfl
  | cons p ps ih =>
    rw [runAll, List.foldl_cons]
    simp only [ih, Pass.run_fst]
    rfl

/-- What they make of a unit does not depend on the journal either. -/
theorem fst_runAll (j' : Journal) : (runAll ps unit j).1 = (runAll ps unit j').1 := by
  induction ps generalizing unit j j' with
  | nil => rfl
  | cons p ps ih =>
    rw [runAll, runAll]
    simp only [Pass.run_fst]
    exact ih _ _ _

/-- They only make balanced additions to the trace. -/
theorem grows_runAll : j.trace.Grows (runAll ps unit j).2.trace := by
  induction ps generalizing unit j with
  | nil => exact .refl _
  | cons p ps ih =>
    have hNoted := p.noted_run unit.node (j.remark ["Running deferred pass: " ++ p.describe])
    rw [runAll]
    generalize p.run unit.node (j.remark ["Running deferred pass: " ++ p.describe]) = out at hNoted ⊢
    have hKind : EventKind.passExecuted ≠ .phaseStart ∧ EventKind.passExecuted ≠ .phaseEnd := by decide
    exact (hNoted.grows.record hKind _ _).trans
      (ih ⟨out.1.node, _⟩ (out.2.log (·.executed p.describe out.1.changed)))

/-- One report for each pass, in order. -/
theorem executed_runAll :
    ((runAll ps unit j).2.trace.ofKind .passExecuted).map (fun e => (e.description, e.details)) =
      (j.trace.ofKind .passExecuted).map (fun e => (e.description, e.details)) ++
        Pass.reports ps unit.node := by
  induction ps generalizing unit j with
  | nil => simp [runAll, Pass.reports]
  | cons p ps ih =>
    have hNoted := p.noted_run unit.node (j.remark ["Running deferred pass: " ++ p.describe])
    have hFirst : _ = Trace.ofKind .passExecuted _ := hNoted.ofKind (by simp)
    rw [runAll]
    simp only [ih, Pass.run_fst, Journal.log, Trace.executed, Trace.ofKind_record, hFirst, if_true,
      List.map_append, Pass.reports, List.scanl_cons, List.zipWith_cons_cons]
    simp [Journal.remark, Pass.step]

/-- Running passes schedules none. -/
theorem scheduled_runAll :
    (runAll ps unit j).2.trace.ofKind .passScheduled = j.trace.ofKind .passScheduled := by
  induction ps generalizing unit j with
  | nil => rfl
  | cons p ps ih =>
    have hNoted := p.noted_run unit.node (j.remark ["Running deferred pass: " ++ p.describe])
    rw [runAll]
    simp only [ih, Journal.log, Trace.executed, Trace.ofKind_record]
    rw [hNoted.ofKind (by simp)]
    simp [Journal.remark]

end Queue

-- ---------------------------------------------------------------------------
-- Sequences of calls
-- ---------------------------------------------------------------------------

/-- A call on the queue of a run. -/
inductive QueueCall where
  | schedule (p : Pass)
  | drain (unit : Node)

/-- What a call answers that is not refused. -/
inductive QueueAnswer where
  /-- Whether the pass was not waiting already. -/
  | scheduled (isNew : Bool)
  | drained (result : Revised)

namespace QueueCall

/-- Whether a call drains the queue. -/
def isDrain : QueueCall → Bool
  | .schedule _ => false
  | .drain _ => true

/-- The passes that calls schedule before the first drain. -/
def accepted : List QueueCall → List Pass
  | .schedule p :: calls => p :: accepted calls
  | _ => []

/-- Why a call is refused after the first drain. -/
def refusal : QueueCall → QueueFault
  | .schedule p => .scheduleAfterDrain p.describe
  | .drain _ => .secondDrain

theorem accepted_append_of_drained {calls : List QueueCall} (h : calls.any isDrain = true)
    (more : List QueueCall) : accepted (calls ++ more) = accepted calls := by
  induction calls with
  | nil => simp at h
  | cons c calls ih =>
    cases c with
    | schedule p => simp [accepted, ih (by simpa [isDrain] using h)]
    | drain unit => rfl

theorem accepted_append_of_open {calls : List QueueCall} (h : calls.any isDrain = false)
    (more : List QueueCall) : accepted (calls ++ more) = accepted calls ++ accepted more := by
  induction calls with
  | nil => rfl
  | cons c calls ih =>
    cases c with
    | schedule p => simp [accepted, ih (by simpa [isDrain] using h)]
    | drain unit => simp [isDrain] at h

end QueueCall

namespace Workshop

/-- What a call answers, and the workshop after it. A call that is refused leaves all as it was. -/
def answer (w : Workshop) : QueueCall → Except QueueFault QueueAnswer × Workshop
  | .schedule p =>
    match w.queue.schedule p with
    | .error why => (.error why, w)
    | .ok (queue, isNew) => (.ok (.scheduled isNew), { w with queue })
  | .drain unit =>
    match w.queue.drain unit w.journal with
    | .error why => (.error why, w)
    | .ok (queue, result, journal) => (.ok (.drained result), { queue, journal })

/-- The workshop after some calls. -/
def after (w : Workshop) (calls : List QueueCall) : Workshop :=
  calls.foldl (fun w call => (w.answer call).2) w

variable {w : Workshop}

/-- A queue that was drained refuses every call. -/
theorem answer_of_drained (h : w.queue.drained = true) (call : QueueCall) :
    w.answer call = (.error call.refusal, w) := by
  cases call with
  | schedule p => simp [answer, Queue.schedule, h, QueueCall.refusal]
  | drain unit => simp [answer, Queue.drain, h, QueueCall.refusal]

/-- A queue that was not drained appends a pass that is not waiting. -/
theorem answer_schedule (h : w.queue.drained = false) (p : Pass) :
    w.answer (.schedule p) =
      (.ok (.scheduled (!w.queue.passes.contains p)),
        { w with queue :=
            { passes := if w.queue.passes.contains p then w.queue.passes else w.queue.passes ++ [p]
              drained := false } }) := by
  obtain ⟨⟨passes, drained⟩, journal⟩ := w
  obtain rfl : drained = false := h
  simp only [answer, Queue.schedule, Bool.false_eq_true, if_false]
  cases passes.contains p <;> rfl

/-- A queue that was not drained runs the passes that wait. -/
theorem answer_drain (h : w.queue.drained = false) (unit : Node) :
    w.answer (.drain unit) =
      (.ok (.drained (Queue.runAll w.queue.passes ⟨unit, false⟩ w.journal).1),
        { queue := { w.queue with drained := true }
          journal := (Queue.runAll w.queue.passes ⟨unit, false⟩ w.journal).2 }) := by
  simp only [answer, Queue.drain, h, Bool.false_eq_true, if_false]

variable (j : Journal) (calls : List QueueCall)

/-- What a queue holds after any calls: what was scheduled before the first drain, each pass once. -/
theorem queue_after :
    (after { journal := j } calls).queue =
      { passes := (QueueCall.accepted calls).eraseDups, drained := calls.any QueueCall.isDrain } := by
  induction calls using List.reverseRecOn with
  | nil => rfl
  | append_singleton calls call ih =>
    have hNext : after { journal := j } (calls ++ [call]) =
        ((after { journal := j } calls).answer call).2 := by
      simp [after]
    rw [hNext, List.any_append]
    generalize after { journal := j } calls = w at ih
    cases hDrained : calls.any QueueCall.isDrain with
    | true =>
      rw [hDrained] at ih
      rw [answer_of_drained (by rw [ih]), QueueCall.accepted_append_of_drained hDrained, ih]
      rfl
    | false =>
      rw [hDrained] at ih
      rw [QueueCall.accepted_append_of_open hDrained]
      cases call with
      | schedule p =>
        rw [answer_schedule (by rw [ih]), ih]
        simp [QueueCall.accepted, QueueCall.isDrain, eraseDups_concat]
      | drain unit =>
        rw [answer_drain (by rw [ih]), ih]
        simp [QueueCall.accepted, QueueCall.isDrain]

/-- After any calls on a new queue, the queue holds the passes that were accepted, each once and in
the order of first scheduling. A next call is refused, and leaves all as it is, if the queue was
drained. Otherwise a pass is new if none equal to it waits, and a drain runs the passes that wait: the
result is their fold over the unit, and for each of them it is reported whether it built anything
anew; one that did not gave back the unit that it was given. -/
theorem answer_after (next : QueueCall) :
    let w := after { journal := j } calls
    w.queue.passes.Nodup ∧ w.queue.passes = (QueueCall.accepted calls).eraseDups ∧
      if calls.any QueueCall.isDrain then w.answer next = (.error next.refusal, w)
      else
        match next with
        | .schedule p =>
          ∃ (isNew : Bool) (w' : Workshop), w.answer next = (.ok (.scheduled isNew), w') ∧
            (isNew = true ↔ p ∉ w.queue.passes) ∧ w'.journal = w.journal
        | .drain unit =>
          ∃ (result : Revised) (w' : Workshop), w.answer next = (.ok (.drained result), w') ∧
            result.node = w.queue.passes.foldl Pass.step unit ∧
            (w'.journal.trace.ofKind .passExecuted).map (fun e => (e.description, e.details)) =
              (w.journal.trace.ofKind .passExecuted).map (fun e => (e.description, e.details)) ++
                Pass.reports w.queue.passes unit ∧
            ∀ p ∈ w.queue.passes, ∀ u, (p.transform u).changed = false → p.step u = u := by
  intro w
  have hQueue : w.queue = _ := queue_after j calls
  refine ⟨?_, ?_, ?_⟩
  · rw [hQueue]
    exact nodup_eraseDups _
  · rw [hQueue]
  · split
    · rename_i hDrained
      exact answer_of_drained (by rw [hQueue]; exact hDrained) next
    · rename_i hOpen
      have hOpen : w.queue.drained = false := by
        rw [hQueue]
        simpa using hOpen
      cases next with
      | schedule p => exact ⟨_, _, answer_schedule hOpen p, by simp, rfl⟩
      | drain unit =>
        exact ⟨_, _, answer_drain hOpen unit, Queue.node_runAll _ _ _, Queue.executed_runAll _ _ _,
          fun p _ u h => p.node_of_unchanged h⟩

end Workshop

end SourceMigration
