import SourceMigration.Editing.MemberTable
import SourceMigration.Editing.Pass
import SourceMigration.Proofs.Trace.Nesting

/-!
# SourceMigration — what is noted on the way

Events of one kind, in their order, and the parts of a run that neither open phases nor schedule or
run passes: a member table and a pass only note what they change.

## Results

* `Noted.grows`  — a part that only notes things is balanced.
* `Noted.ofKind` — it leaves the events about passes as they were.
* `noted_apply`  — the member table only notes things.
* `noted_run`    — and so does a pass.
-/

namespace SourceMigration

namespace Trace

-- ---------------------------------------------------------------------------
-- Events of one kind
-- ---------------------------------------------------------------------------

/-- The events of a kind, in order. -/
def ofKind (kind : EventKind) (t : Trace) : List Event :=
  t.events.toList.filter (·.kind = kind)

/-- What the events of a kind say, in order. -/
def told (kind : EventKind) (t : Trace) : List String := (t.ofKind kind).map (·.description)

section Kinds

variable (kind : EventKind) (t : Trace)

theorem ofKind_push (e : Event) (isOpen : List Nat) :
    ofKind kind ⟨t.events.push e, isOpen⟩ =
      t.ofKind kind ++ if e.kind = kind then [e] else [] := by
  simp [ofKind, List.filter_append, List.filter_cons]

theorem ofKind_record (k : EventKind) (description : String) (details : List (String × Detail)) :
    (t.record k description details).ofKind kind =
      t.ofKind kind ++
        if k = kind then [⟨k, description, t.openPhases.head?, details⟩] else [] :=
  t.ofKind_push kind _ _

variable {kind} in
theorem ofKind_start (h : .phaseStart ≠ kind) (name detail : String) :
    (t.start name detail).ofKind kind = t.ofKind kind := by
  have hPush := t.ofKind_push kind ⟨.phaseStart, name, t.openPhases.head?, [("detail", .text detail)]⟩
    (t.events.size :: t.openPhases)
  rw [if_neg h, List.append_nil] at hPush
  exact hPush

variable {kind} in
theorem ofKind_finish (h : .phaseEnd ≠ kind) : t.finish.ofKind kind = t.ofKind kind := by
  unfold finish
  split
  · rfl
  · rw [ofKind_push]
    simp [h]

end Kinds

-- ---------------------------------------------------------------------------
-- Notes
-- ---------------------------------------------------------------------------

/-- A part of a run that only notes changes of the tree and of the imports. -/
inductive Noted (t : Trace) : Trace → Prop
  | refl : Noted t t
  | record {u : Trace} (h : Noted t u) {kind : EventKind}
    (hKind : kind ∈ [EventKind.mutation, .importAction]) (description : String)
    (details : List (String × Detail)) : Noted t (u.record kind description details)

namespace Noted

variable {t u v : Trace}

theorem trans (h : Noted t u) (h' : Noted u v) : Noted t v := by
  induction h' with
  | refl => exact h
  | record _ hKind description details ih => exact .record ih hKind description details

theorem mutation (t : Trace) (node before after : String) : Noted t (t.mutation node before after) :=
  .record .refl (by simp) _ _

theorem importAction (t : Trace) (action type : String) (applied : Bool) :
    Noted t (t.importAction action type applied) :=
  .record .refl (by simp) _ _

/-- A part that only notes things is balanced. -/
theorem grows (h : Noted t u) : Grows t u := by
  induction h with
  | refl => exact .refl t
  | record _ hKind description details ih =>
    refine ih.record ⟨?_, ?_⟩ description details <;>
      · rintro rfl
        simp at hKind

/-- It leaves the events of other kinds as they were. -/
theorem ofKind (h : Noted t u) {kind : EventKind}
    (hKind : kind ∉ [EventKind.mutation, .importAction]) : u.ofKind kind = t.ofKind kind := by
  induction h with
  | refl => rfl
  | record _ hNote description details ih =>
    rw [ofKind_record, ih, if_neg, List.append_nil]
    rintro rfl
    exact hKind hNote

end Noted

end Trace

-- ---------------------------------------------------------------------------
-- Member tables and passes
-- ---------------------------------------------------------------------------

namespace MemberTable

variable (table : MemberTable)

theorem noted_survivors (inherited : Option String) (kept members : List Node) (trace : Trace) :
    trace.Noted (table.survivors inherited kept members trace).2 := by
  induction members generalizing inherited kept trace with
  | nil => exact .refl
  | cons m ms ih =>
    unfold survivors
    cases table.decide m with
    | keep => exact ih _ _ _
    | rename new => exact (Trace.Noted.mutation _ _ _ _).trans (ih _ _ _)
    | drop => exact (Trace.Noted.mutation _ _ _ _).trans (ih _ _ _)

/-- The member table only notes which methods it renames and drops. -/
theorem noted_apply (body : Node) (trace : Trace) :
    trace.Noted (table.apply body trace).2.2 := by
  unfold apply
  simp only
  split
  · exact .refl
  · exact table.noted_survivors _ _ _ _

end MemberTable

namespace Pass

theorem noted_runAdd (t : TypeName) (unit : Node) (j : Journal) :
    j.trace.Noted (runAdd t unit j).2.trace :=
  .importAction _ _ _ _

theorem noted_runRemove (t : TypeName) (unit : Node) (j : Journal) :
    j.trace.Noted (runRemove t unit j).2.trace :=
  .importAction _ _ _ _

/-- A pass only notes what it replaces, adds and removes. -/
theorem noted_run (p : Pass) (unit : Node) (j : Journal) : j.trace.Noted (p.run unit j).2.trace := by
  cases p with
  | renameMethod pattern newName =>
    simp only [run]
    split
    · exact .refl
    · exact .mutation _ _ _ _
  | changeType old new =>
    simp only [run]
    refine .trans ?_ ((noted_runRemove old _ _).trans (noted_runAdd new _ _))
    split
    · exact .refl
    · exact .mutation _ _ _ _
  | addImport t => exact noted_runAdd t unit j
  | removeImport t => exact noted_runRemove t unit j

end Pass

end SourceMigration
