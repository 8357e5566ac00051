import Mathlib.Data.List.Nodup
import SourceMigration.Trace

/-!
# SourceMigration — nesting of traces

Which phases are open at an event is read off the events alone: a phase is open from the event that
opens it up to the one that closes it. The list of open phases that a trace keeps agrees with that
after every operation, so an event always belongs to a phase that is open when it is recorded, and a
phase is closed at most once.

A part of a run that closes just the phases it opened leaves the list as it found it. A trace that
such a part made within one outermost phase is whole.

## Results

* `Consistent.push`   — one more event keeps the two views together.
* `Grows.openPhases`  — a balanced part of a run leaves the open phases as they were.
* `Grows.consistent`  — and keeps the two views together.
* `isWhole_finish`    — a phase with balanced contents is a whole trace.
-/

namespace SourceMigration

namespace Trace

-- ---------------------------------------------------------------------------
-- Phases as the events tell of them
-- ---------------------------------------------------------------------------

section Phases

variable {events : Array Event} {e : Event} {i p : Nat}

/-- The event at a position opens a phase. -/
def Opens (events : Array Event) (p : Nat) : Prop :=
  ∃ e, events[p]? = some e ∧ e.kind = .phaseStart

/-- The event at position `i` closes the phase that the event at `p` opened. -/
def Closes (events : Array Event) (i p : Nat) : Prop :=
  ∃ e, events[i]? = some e ∧ e.kind = .phaseEnd ∧ e.parent = some p

/-- A phase is open at position `i`: it was opened before, and not closed before. -/
def IsOpen (events : Array Event) (i p : Nat) : Prop :=
  p < i ∧ Opens events p ∧ ∀ j < i, ¬ Closes events j p

/-- A whole trace: one outermost phase from the first event to the last, in which every event
belongs to a phase that is open at that moment, and every phase is closed once. -/
structure IsWhole (events : Array Event) (name : String) : Prop where
  first : ∃ e, events[0]? = some e ∧ e.kind = .phaseStart ∧ e.description = name ∧ e.parent = none
  last : Closes events (events.size - 1) 0
  parents : ∀ i e, 0 < i → events[i]? = some e → ∃ p, e.parent = some p ∧ IsOpen events i p
  ended : ∀ p, Opens events p → ∃! i, Closes events i p

theorem Closes.lt (h : Closes events i p) : i < events.size := by
  obtain ⟨d, hd, -⟩ := h
  exact (Array.getElem?_eq_some_iff.mp hd).1

theorem Opens.lt (h : Opens events p) : p < events.size := by
  obtain ⟨d, hd, -⟩ := h
  exact (Array.getElem?_eq_some_iff.mp hd).1

theorem getElem?_push_some {d : Event} :
    (events.push e)[i]? = some d ↔ events[i]? = some d ∨ i = events.size ∧ d = e := by
  rw [Array.getElem?_push]
  by_cases h : i = events.size
  · subst h
    simp [eq_comm]
  · simp [h]

theorem opens_push : Opens (events.push e) p ↔
    Opens events p ∨ p = events.size ∧ e.kind = .phaseStart := by
  simp only [Opens, getElem?_push_some]
  constructor
  · rintro ⟨d, hd | ⟨rfl, rfl⟩, hKind⟩
    · exact Or.inl ⟨d, hd, hKind⟩
    · exact Or.inr ⟨rfl, hKind⟩
  · rintro (⟨d, hd, hKind⟩ | ⟨rfl, hKind⟩)
    · exact ⟨d, Or.inl hd, hKind⟩
    · exact ⟨e, Or.inr ⟨rfl, rfl⟩, hKind⟩

theorem closes_push : Closes (events.push e) i p ↔
    Closes events i p ∨ i = events.size ∧ e.kind = .phaseEnd ∧ e.parent = some p := by
  simp only [Closes, getElem?_push_some]
  constructor
  · rintro ⟨d, hd | ⟨rfl, rfl⟩, hKind⟩
    · exact Or.inl ⟨d, hd, hKind⟩
    · exact Or.inr ⟨rfl, hKind⟩
  · rintro (⟨d, hd, hKind⟩ | ⟨rfl, hKind⟩)
    · exact ⟨d, Or.inl hd, hKind⟩
    · exact ⟨e, Or.inr ⟨rfl, rfl⟩, hKind⟩

/-- What comes later does not count for what is open. -/
theorem isOpen_push_of_le (h : i ≤ events.size) :
    IsOpen (events.push e) i p ↔ IsOpen events i p := by
  simp only [IsOpen, opens_push, closes_push]
  constructor
  · rintro ⟨hp, hOpens, hClosed⟩
    refine ⟨hp, hOpens.resolve_right fun h' => by omega, fun j hj hCloses => ?_⟩
    exact hClosed j hj (Or.inl hCloses)
  · rintro ⟨hp, hOpens, hClosed⟩
    refine ⟨hp, Or.inl hOpens, fun j hj hCloses => ?_⟩
    exact hCloses.elim (hClosed j hj) fun h' => by omega

end Phases

-- ---------------------------------------------------------------------------
-- The phases that a trace keeps
-- ---------------------------------------------------------------------------

/-- The open phases of a trace are those that its events tell of, its events belong to phases that
were open, and none was closed twice. -/
structure Consistent (t : Trace) : Prop where
  mem_openPhases : ∀ p, p ∈ t.openPhases ↔ IsOpen t.events t.events.size p
  nodup : t.openPhases.Nodup
  parent : ∀ i e p, t.events[i]? = some e → e.parent = some p → IsOpen t.events i p
  once : ∀ i j p, Closes t.events i p → Closes t.events j p → i = j

section Operations

variable {t : Trace}

theorem consistent_empty : Consistent {} where
  mem_openPhases p := by simp [IsOpen]
  nodup := by simp
  parent i e p h := by simp at h
  once i j p h := absurd h.lt (by simp)

/-- One more event, which belongs to the innermost open phase, leaves a consistent trace if the open
phases are brought up to date. -/
theorem Consistent.push (h : t.Consistent) {e : Event} {isOpen : List Nat}
    (hParent : e.parent = t.openPhases.head?) (hNodup : isOpen.Nodup)
    (hOpen : ∀ p, p ∈ isOpen ↔
      (p ∈ t.openPhases ∧ ¬ (e.kind = .phaseEnd ∧ e.parent = some p)) ∨
        (p = t.events.size ∧ e.kind = .phaseStart)) :
    Consistent ⟨t.events.push e, isOpen⟩ := by
  -- what the new event belongs to is open
  have hInner {p : Nat} (hp : e.parent = some p) : IsOpen t.events t.events.size p := by
    rw [hParent] at hp
    exact (h.mem_openPhases p).mp (List.mem_of_head? hp)
  refine ⟨fun p => ?_, hNodup, fun i d p hd hp => ?_, fun i j p hi hj => ?_⟩
  · rw [hOpen, h.mem_openPhases]
    simp only [IsOpen, Array.size_push, opens_push, closes_push]
    constructor
    · rintro (⟨⟨hp, hOpens, hClosed⟩, hNot⟩ | ⟨rfl, hKind⟩)
      · refine ⟨by omega, Or.inl hOpens, ?_⟩
        rintro j hj (hCloses | ⟨-, hCloses⟩)
        · exact hClosed j hCloses.lt hCloses
        · exact hNot hCloses
      · refine ⟨by omega, Or.inr ⟨rfl, hKind⟩, ?_⟩
        rintro j hj (⟨d, hd, -, hd'⟩ | ⟨rfl, hEnd, -⟩)
        · have := (h.parent j d _ hd hd').1
          omega
        · rw [hKind] at hEnd
          cases hEnd
    · rintro ⟨hp, hOpens | ⟨rfl, hKind⟩, hClosed⟩
      · refine Or.inl ⟨⟨hOpens.lt, hOpens, fun j hj hCloses => ?_⟩, fun hCloses => ?_⟩
        · exact hClosed j (by omega) (Or.inl hCloses)
        · exact hClosed _ (Nat.lt_succ_self _) (Or.inr ⟨rfl, hCloses⟩)
      · exact Or.inr ⟨rfl, hKind⟩
  · rcases getElem?_push_some.mp hd with hd | ⟨rfl, rfl⟩
    · have hi := (Array.getElem?_eq_some_iff.mp hd).1
      exact (isOpen_push_of_le (Nat.le_of_lt hi)).mpr (h.parent i d p hd hp)
    · exact (isOpen_push_of_le (Nat.le_refl _)).mpr (hInner hp)
  · rcases closes_push.mp hi with hi | ⟨rfl, hKind, hp⟩ <;>
      rcases closes_push.mp hj with hj | ⟨rfl, hKind', hp'⟩
    · exact h.once i j p hi hj
    · exact absurd hi ((hInner hp').2.2 i hi.lt)
    · exact absurd hj ((hInner hp).2.2 j hj.lt)
    · rfl

/-- Recording an event that opens and closes nothing. -/
theorem Consistent.record (h : t.Consistent) {kind : EventKind}
    (hKind : kind ≠ .phaseStart ∧ kind ≠ .phaseEnd) (description : String)
    (details : List (String × Detail)) : (t.record kind description details).Consistent := by
  refine h.push rfl h.nodup fun p => ?_
  simp [hKind.1, hKind.2]

/-- Opening a phase. -/
theorem Consistent.start (h : t.Consistent) (name detail : String) :
    (t.start name detail).Consistent := by
  have hNew : t.events.size ∉ t.openPhases := fun hMem =>
    Nat.lt_irrefl _ ((h.mem_openPhases _).mp hMem).1
  refine h.push rfl (List.nodup_cons.mpr ⟨hNew, h.nodup⟩) fun p => ?_
  simp [or_comm]

/-- Closing the innermost open phase. -/
theorem Consistent.finish (h : t.Consistent) : t.finish.Consistent := by
  unfold Trace.finish
  split
  · exact h
  · rename_i q outer hOpen
    have hNodup := h.nodup
    rw [hOpen, List.nodup_cons] at hNodup
    refine h.push (by rw [hOpen]; rfl) hNodup.2 fun p => ?_
    rw [hOpen]
    simp only [List.mem_cons, Option.some.injEq, true_and, reduceCtorEq, and_false, or_false]
    constructor
    · intro hp
      exact ⟨Or.inr hp, fun hSame => hNodup.1 (hSame ▸ hp)⟩
    · rintro ⟨rfl | hp, hOther⟩
      · exact absurd rfl hOther
      · exact hp

end Operations

-- ---------------------------------------------------------------------------
-- Balanced parts of a run
-- ---------------------------------------------------------------------------

/-- A part of a run that closes just the phases that it opens: it records events, and has balanced
parts within phases of their own. -/
inductive Grows : Trace → Trace → Prop
  | refl (t : Trace) : Grows t t
  | record {t u : Trace} (h : Grows t u) {kind : EventKind}
    (hKind : kind ≠ .phaseStart ∧ kind ≠ .phaseEnd) (description : String)
    (details : List (String × Detail)) : Grows t (u.record kind description details)
  | phase {t u v : Trace} (h : Grows t u) (name detail : String)
    (inner : Grows (u.start name detail) v) : Grows t v.finish

namespace Grows

variable {t u v : Trace}

theorem trans (h : Grows t u) (h' : Grows u v) : Grows t v := by
  induction h' with
  | refl => exact h
  | record _ hKind description details ih => exact .record (ih h) hKind description details
  | phase _ name detail inner ih => exact .phase (ih h) name detail inner

/-- A balanced part leaves the open phases as they were. -/
theorem openPhases (h : Grows t u) : u.openPhases = t.openPhases := by
  induction h with
  | refl => rfl
  | record _ _ _ _ ih => exact ih
  | @phase t u v _ name detail _ ih hInner =>
    have hOpen : v.openPhases = u.events.size :: u.openPhases := hInner
    rw [finish, hOpen]
    exact ih

theorem consistent (h : Grows t u) (ht : t.Consistent) : u.Consistent := by
  induction h with
  | refl => exact ht
  | record _ hKind description details ih => exact (ih ht).record hKind description details
  | phase _ name detail _ ih hInner => exact (hInner ((ih ht).start name detail)).finish

/-- Closing the phase around a balanced part adds an event that belongs to it. -/
theorem events_finish {name detail : String} (h : Grows (t.start name detail) u) :
    u.finish.events = u.events.push ⟨.phaseEnd, "End Phase", some t.events.size, []⟩ := by
  have hOpen : u.openPhases = t.events.size :: t.openPhases := h.openPhases
  rw [finish, hOpen]

/-- Events that are there stay where they are. -/
theorem kept (h : Grows t u) {i : Nat} {e : Event} (he : t.events[i]? = some e) :
    u.events[i]? = some e := by
  induction h with
  | refl => exact he
  | record _ _ _ _ ih => exact getElem?_push_some.mpr (Or.inl (ih he))
  | phase _ _ _ inner ih hInner =>
    rw [inner.events_finish]
    exact getElem?_push_some.mpr (Or.inl (hInner (getElem?_push_some.mpr (Or.inl (ih he)))))

/-- Within a phase, all events that are added belong to some phase. -/
theorem added (h : Grows t u) (ht : t.openPhases ≠ []) {i : Nat} {e : Event}
    (he : u.events[i]? = some e) : t.events[i]? = some e ∨ e.parent ≠ none := by
  have hHead {u : Trace} (h : Grows t u) : u.openPhases.head? ≠ none := by
    rw [h.openPhases]
    simpa using ht
  induction h generalizing i e with
  | refl => exact Or.inl he
  | @record t u hGrows _ _ _ _ ih =>
    rcases getElem?_push_some.mp he with he | ⟨-, rfl⟩
    · exact ih ht he hHead
    · exact Or.inr (hHead hGrows)
  | @phase t u v hGrows name detail inner ih hInner =>
    rw [inner.events_finish] at he
    rcases getElem?_push_some.mp he with he | ⟨-, rfl⟩
    · have hStarted := hInner (List.cons_ne_nil _ _) he fun h => by simp [h.openPhases, start]
      refine hStarted.elim (fun hBefore => ?_) Or.inr
      rcases getElem?_push_some.mp hBefore with he | ⟨-, rfl⟩
      · exact ih ht he hHead
      · exact Or.inr (hHead hGrows)
    · exact Or.inr (by simp)

end Grows

/-- A phase with balanced contents is a whole trace. -/
theorem isWhole_finish {name detail : String} {u : Trace} (h : Grows (start {} name detail) u) :
    IsWhole u.finish.events name := by
  have hAfter : u.finish.Consistent := (h.consistent (consistent_empty.start name detail)).finish
  have hEvents : u.finish.events = u.events.push ⟨.phaseEnd, "End Phase", some 0, []⟩ :=
    h.events_finish
  have hNone : u.finish.openPhases = [] := (Grows.phase (.refl {}) name detail h).openPhases
  have hFirst : u.finish.events[0]? = some ⟨.phaseStart, name, none, [("detail", .text detail)]⟩ := by
    rw [hEvents]
    exact getElem?_push_some.mpr (Or.inl (h.kept rfl))
  refine ⟨⟨_, hFirst, rfl, rfl, rfl⟩, ?_, ?_, ?_⟩
  · rw [hEvents, Array.size_push, Nat.add_sub_cancel]
    exact closes_push.mpr (Or.inr ⟨rfl, rfl, rfl⟩)
  · intro i e hi he
    have hParent : e.parent ≠ none := by
      rw [hEvents] at he
      rcases getElem?_push_some.mp he with he | ⟨-, rfl⟩
      · refine (h.added (List.cons_ne_nil _ _) he).resolve_left fun hStart => ?_
        have hSize := (Array.getElem?_eq_some_iff.mp hStart).1
        simp only [start, events_record, Array.size_push, List.size_toArray, List.length_nil] at hSize
        omega
      · simp
    obtain ⟨p, hp⟩ := Option.ne_none_iff_exists'.mp hParent
    exact ⟨p, hp, hAfter.parent i e p he hp⟩
  · intro p hOpens
    -- no phase is open at the end, so each was closed
    have hClosed : ¬ IsOpen u.finish.events u.finish.events.size p := by
      rw [← hAfter.mem_openPhases, hNone]
      simp
    simp only [IsOpen, hOpens, hOpens.lt, true_and, not_forall, not_not] at hClosed
    obtain ⟨i, -, hi⟩ := hClosed
    exact ⟨i, hi, fun j hj => hAfter.once j i p hj hi⟩

end Trace

end SourceMigration
