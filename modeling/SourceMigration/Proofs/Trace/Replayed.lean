import Mathlib.Data.List.Induction
import SourceMigration.Trace

/-!
# SourceMigration — traces replayed as brackets

A trace comes about by calls: phases are opened and closed, and events of all kinds are recorded, in any
order. Which phase an event belongs to is decided by a list of open phases that the trace keeps for
itself and that nobody sees afterwards. It need not be seen: the events that open and close phases, read
as brackets from the first event on, give the same list back.

A trace in which some phases are still open is the beginning of one in which all are closed. What can
follow is told by the open phases: for each of them, from the innermost on, events within it and then the
event that closes it.

## Results

* `openPhases_after` — the open phases are those that are left when the events are replayed.
* `finishes_after`   — what can follow a trace makes it well nested.
* `after_replays`    — every call appends at most one event, in the innermost phase of the replay.
-/

namespace SourceMigration

namespace Trace

-- ---------------------------------------------------------------------------
-- Calls
-- ---------------------------------------------------------------------------

/-- A call that opens or closes a phase, or records an event. -/
inductive Call where
  | start (name detail : String)
  | finish
  | mutation (node before after : String)
  | scheduled (description : String)
  | executed (description : String) (changed : Bool)
  | importAction (action type : String) (applied : Bool)
  | warning (message : String)
  | inspection (subject outcome detail : String)
  deriving DecidableEq, Repr

/-- The trace after one more call. -/
def call (t : Trace) : Call → Trace
  | .start name detail => t.start name detail
  | .finish => t.finish
  | .mutation node before after => t.mutation node before after
  | .scheduled description => t.scheduled description
  | .executed description changed => t.executed description changed
  | .importAction action type applied => t.importAction action type applied
  | .warning message => t.warning message
  | .inspection subject outcome detail => t.inspection subject outcome detail

/-- The trace after some calls, from the first on. -/
def after (calls : List Call) : Trace := calls.foldl call {}

/-- The kind of event that a call asks for. -/
def Call.kind : Call → EventKind
  | .start _ _ => .phaseStart
  | .finish => .phaseEnd
  | .mutation _ _ _ => .mutation
  | .scheduled _ => .passScheduled
  | .executed _ _ => .passExecuted
  | .importAction _ _ _ => .importAction
  | .warning _ => .warning
  | .inspection _ _ _ => .inspection

-- ---------------------------------------------------------------------------
-- Replaying events
-- ---------------------------------------------------------------------------

/-- The open phases after one more event, the innermost first. A phase is named by the position of the
event that opens it, and `i` is the position of this one. -/
def bracket (i : Nat) (isOpen : List Nat) : EventKind → List Nat
  | .phaseStart => i :: isOpen
  | .phaseEnd => isOpen.tail
  | _ => isOpen

/-- The open phases after events that begin at position `i`. -/
def replayFrom (i : Nat) (isOpen : List Nat) : List Event → List Nat
  | [] => isOpen
  | e :: es => replayFrom (i + 1) (bracket i isOpen e.kind) es

/-- The phases that are open after some events, as far as the events tell. -/
def replay (es : List Event) : List Nat := replayFrom 0 [] es

/-- The events from position `i` on stand within one phase, or outside of all phases. Each of them
belongs to it, or to a phase within it, which is opened and closed again. -/
inductive Nested : Nat → Option Nat → List Event → Prop
  | nil {i : Nat} {within : Option Nat} : Nested i within []
  | event {i : Nat} {within : Option Nat} {e : Event} {es : List Event}
    (hKind : e.kind ≠ .phaseStart ∧ e.kind ≠ .phaseEnd) (hParent : e.parent = within)
    (rest : Nested (i + 1) within es) : Nested i within (e :: es)
  | phase {i : Nat} {within : Option Nat} {first last : Event} {es fs : List Event}
    (hStart : first.kind = .phaseStart) (hParent : first.parent = within)
    (inner : Nested (i + 1) (some i) es)
    (hEnd : last.kind = .phaseEnd) (hCloses : last.parent = some i)
    (rest : Nested (i + 1 + es.length + 1) within fs) :
    Nested i within (first :: es ++ last :: fs)

/-- What can follow at position `i` while some phases are open: events within the innermost of them, the
event that closes it, and what can follow then. -/
inductive Finishes : Nat → List Nat → List Event → Prop
  | outside {i : Nat} {es : List Event} (h : Nested i none es) : Finishes i [] es
  | inside {i p : Nat} {outer : List Nat} {last : Event} {es fs : List Event}
    (inner : Nested i (some p) es) (hEnd : last.kind = .phaseEnd) (hCloses : last.parent = some p)
    (rest : Finishes (i + es.length + 1) outer fs) :
    Finishes i (p :: outer) (es ++ last :: fs)

theorem replayFrom_append (i : Nat) (isOpen : List Nat) (es fs : List Event) :
    replayFrom i isOpen (es ++ fs) = replayFrom (i + es.length) (replayFrom i isOpen es) fs := by
  induction es generalizing i isOpen with
  | nil => rfl
  | cons e es ih =>
    rw [List.cons_append, replayFrom, replayFrom, ih, List.length_cons]
    congr 1
    omega

theorem replay_concat (es : List Event) (e : Event) :
    replay (es ++ [e]) = bracket es.length (replay es) e.kind := by
  rw [replay, replayFrom_append, Nat.zero_add]
  rfl

section Finishing

variable {i p : Nat} {isOpen outer : List Nat} {e : Event} {es : List Event}

/-- Where something can follow, an event of the innermost phase can come before it. -/
theorem Finishes.event (h : Finishes (i + 1) isOpen es)
    (hKind : e.kind ≠ .phaseStart ∧ e.kind ≠ .phaseEnd) (hParent : e.parent = isOpen.head?) :
    Finishes i isOpen (e :: es) := by
  cases h with
  | outside h => exact .outside (.event hKind hParent h)
  | @inside _ p outer last es fs inner hEnd hCloses rest =>
    refine .inside (.event hKind hParent inner) hEnd hCloses ?_
    rw [List.length_cons, show i + (es.length + 1) + 1 = i + 1 + es.length + 1 by omega]
    exact rest

/-- What can follow within a new phase can follow, with the event that opens it, before there is one. -/
theorem Finishes.start (h : Finishes (i + 1) (i :: isOpen) es) (hStart : e.kind = .phaseStart)
    (hParent : e.parent = isOpen.head?) : Finishes i isOpen (e :: es) := by
  cases h with
  | @inside _ _ _ last es fs inner hEnd hCloses rest =>
    cases rest with
    | outside rest => exact .outside (.phase hStart hParent inner hEnd hCloses rest)
    | @inside _ p outer last' fs gs inner' hEnd' hCloses' rest =>
      have hPhase : Nested i (some p) (e :: es ++ last :: fs) :=
        .phase hStart hParent inner hEnd hCloses inner'
      have hSplit : e :: (es ++ last :: (fs ++ last' :: gs)) = (e :: es ++ last :: fs) ++ last' :: gs := by
        simp
      rw [hSplit]
      refine .inside hPhase hEnd' hCloses' ?_
      have hLength : i + (e :: es ++ last :: fs).length = i + 1 + es.length + 1 + fs.length := by
        simp only [List.cons_append, List.length_cons, List.length_append]
        omega
      rw [hLength]
      exact rest

/-- What can follow once a phase is closed can follow, with the event that closes it, before. -/
theorem Finishes.finish (h : Finishes (i + 1) outer es) (hEnd : e.kind = .phaseEnd)
    (hCloses : e.parent = some p) : Finishes i (p :: outer) (e :: es) :=
  .inside .nil hEnd hCloses h

/-- Something can always follow: the open phases can be closed at once. -/
theorem exists_finishes (i : Nat) (isOpen : List Nat) : ∃ es, Finishes i isOpen es := by
  induction isOpen generalizing i with
  | nil => exact ⟨[], .outside .nil⟩
  | cons p outer ih =>
    obtain ⟨es, h⟩ := ih (i + 1)
    exact ⟨_, h.finish (e := ⟨.phaseEnd, "End Phase", some p, []⟩) rfl rfl⟩

end Finishing

-- ---------------------------------------------------------------------------
-- One call
-- ---------------------------------------------------------------------------

/-- What a call does to a trace: nothing, if it asks to close a phase where none is open, and else one
event of its kind is appended, which belongs to the innermost open phase. -/
theorem call_cases (t : Trace) (c : Call) :
    (c = .finish ∧ t.openPhases = [] ∧ t.call c = t) ∨
      ((c = .finish → t.openPhases ≠ []) ∧
        ∃ e : Event, e.kind = c.kind ∧ e.parent = t.openPhases.head? ∧
          t.call c = ⟨t.events.push e, bracket t.events.size t.openPhases c.kind⟩) := by
  cases c with
  | finish =>
    cases hOpen : t.openPhases with
    | nil => exact .inl ⟨rfl, rfl, finish_of_none_open hOpen⟩
    | cons p outer =>
      refine .inr ⟨fun _ => List.cons_ne_nil _ _, ⟨.phaseEnd, "End Phase", some p, []⟩, rfl, rfl, ?_⟩
      rw [call, finish, hOpen]
      rfl
  | _ => exact .inr ⟨fun hFinish => absurd hFinish (by simp), _, rfl, rfl, rfl⟩

theorem after_concat (calls : List Call) (c : Call) : after (calls ++ [c]) = (after calls).call c := by
  rw [after, List.foldl_append]
  rfl

/-- The open phases of a trace are those that are left when its events are replayed. -/
theorem openPhases_after (calls : List Call) :
    (after calls).openPhases = replay (after calls).events.toList := by
  induction calls using List.reverseRecOn with
  | nil => rfl
  | append_singleton calls c ih =>
    rw [after_concat]
    obtain ⟨-, -, hSame⟩ | ⟨-, e, hKind, -, hAfter⟩ := (after calls).call_cases c
    · rw [hSame, ih]
    · rw [hAfter, Array.toList_push, replay_concat, ← ih, hKind, Array.length_toList]

/-- A trace with what can follow it is well nested. -/
theorem finishes_after (calls : List Call) {es : List Event}
    (h : Finishes (after calls).events.size (after calls).openPhases es) :
    Nested 0 none ((after calls).events.toList ++ es) := by
  induction calls using List.reverseRecOn generalizing es with
  | nil =>
    cases h with
    | outside h => exact h
  | append_singleton calls c ih =>
    rw [after_concat] at h ⊢
    obtain ⟨-, -, hSame⟩ | ⟨hOpen, e, hKind, hParent, hAfter⟩ := (after calls).call_cases c
    · rw [hSame] at h ⊢
      exact ih h
    · rw [hAfter, Array.size_push] at h
      rw [hAfter, Array.toList_push, List.append_assoc]
      refine ih ?_
      cases c with
      | start name detail => exact h.start hKind hParent
      | finish =>
        obtain ⟨p, outer, hPhases⟩ := List.exists_cons_of_ne_nil (hOpen rfl)
        rw [hPhases] at h hParent ⊢
        exact h.finish hKind hParent
      | _ => exact h.event (by simp [hKind, Call.kind]) hParent

/-- Events are only appended. -/
theorem prefix_after (calls more : List Call) :
    (after calls).events.toList <+: (after (calls ++ more)).events.toList := by
  induction more using List.reverseRecOn with
  | nil => simp
  | append_singleton more c ih =>
    rw [← List.append_assoc, after_concat]
    obtain ⟨-, -, hSame⟩ | ⟨-, e, -, -, hAfter⟩ := (after (calls ++ more)).call_cases c
    · rw [hSame]
      exact ih
    · rw [hAfter, Array.toList_push]
      exact ih.trans (List.prefix_append _ _)

/-- An event belongs to the innermost phase that is open when the events before it are replayed. -/
theorem parent_after (calls : List Call) {i : Nat} {e : Event}
    (h : (after calls).events[i]? = some e) :
    e.parent = (replay ((after calls).events.toList.take i)).head? ∧
      (e.kind = .phaseEnd → e.parent ≠ none) := by
  induction calls using List.reverseRecOn with
  | nil => simp [after] at h
  | append_singleton calls c ih =>
    rw [after_concat] at h ⊢
    obtain ⟨-, -, hSame⟩ | ⟨hOpen, d, hKind, hParent, hAfter⟩ := (after calls).call_cases c
    · rw [hSame] at h ⊢
      exact ih h
    · rw [hAfter] at h ⊢
      simp only [Array.toList_push]
      rw [Array.getElem?_push] at h
      split at h
      · rename_i hLast
        cases h
        rw [hLast, ← Array.length_toList, List.take_left, ← openPhases_after]
        refine ⟨hParent, fun hEnd => ?_⟩
        have hFinish : c = .finish := by
          rw [hKind] at hEnd
          cases c <;> first | rfl | cases hEnd
        rw [hParent]
        simpa using hOpen hFinish
      · have hi := (Array.getElem?_eq_some_iff.mp h).1
        rw [List.take_append_of_le_length (by rw [Array.length_toList]; omega)]
        exact ih h

-- ---------------------------------------------------------------------------
-- Any calls
-- ---------------------------------------------------------------------------

/-- Whatever is called, in any order: the events that are there stay, and more are only appended. One
more call appends one event of its kind, in the innermost phase that the replay of the events leaves open,
but for a call that closes a phase where the replay leaves none open: it changes nothing. Every event
belongs to the innermost phase that is open when the events before it are replayed, and the end of a phase
to the phase that it closes. And a trace is the beginning of one that is well nested. -/
theorem after_replays (calls : List Call) :
    let t := after calls
    (∀ more, t.events.toList <+: (after (calls ++ more)).events.toList) ∧
      (∀ c, if c = .finish ∧ replay t.events.toList = [] then after (calls ++ [c]) = t
        else ∃ e : Event, e.kind = c.kind ∧ e.parent = (replay t.events.toList).head? ∧
          (after (calls ++ [c])).events = t.events.push e) ∧
      (∀ i e, t.events[i]? = some e →
        e.parent = (replay (t.events.toList.take i)).head? ∧
          (e.kind = .phaseEnd → ∃ p outer, e.parent = some p ∧
            replay (t.events.toList.take i) = p :: outer ∧
            replay (t.events.toList.take (i + 1)) = outer)) ∧
      ∃ es, Nested 0 none (t.events.toList ++ es) := by
  intro t
  refine ⟨prefix_after calls, fun c => ?_, fun i e he => ?_, ?_⟩
  · rw [after_concat, ← openPhases_after]
    obtain ⟨hFinish, hOpen, hSame⟩ | ⟨hOpen, e, hKind, hParent, hAfter⟩ := t.call_cases c
    · rw [if_pos ⟨hFinish, hOpen⟩]
      exact hSame
    · rw [if_neg fun h => hOpen h.1 h.2]
      exact ⟨e, hKind, hParent, congrArg Trace.events hAfter⟩
  · obtain ⟨hParent, hSome⟩ := parent_after calls he
    refine ⟨hParent, fun hEnd => ?_⟩
    obtain ⟨p, hp⟩ := Option.ne_none_iff_exists'.mp (hSome hEnd)
    obtain ⟨outer, hOpen⟩ : ∃ outer, replay (t.events.toList.take i) = p :: outer := by
      rw [hp] at hParent
      exact List.head?_eq_some_iff.mp hParent.symm
    refine ⟨p, outer, hp, hOpen, ?_⟩
    have hLast : t.events.toList[i]? = some e := by rw [Array.getElem?_toList, he]
    rw [List.take_add_one, hLast, Option.toList_some, replay_concat, hOpen, hEnd]
    rfl
  · obtain ⟨es, h⟩ := exists_finishes t.events.size t.openPhases
    exact ⟨es, finishes_after calls h⟩

/-- Two calls that close phases where one was opened: the second one is lost on the trace. -/
example : (after [.start "a" "", .finish, .finish, .warning "b"]).events.toList.map (·.parent) =
    [none, some 0, none] := rfl

end Trace

end SourceMigration
