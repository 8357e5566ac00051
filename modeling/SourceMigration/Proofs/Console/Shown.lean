import SourceMigration.Console.Screen
import SourceMigration.StandIn.Console.Library

/-!
# SourceMigration — what can be shown

Whether a message can be shown is a matter of its text and its level, not of what stands on the screen
already. A message that is shown leaves a verbose screen verbose and a quiet one quiet.

The library that shows marked-up texts is no part of this project. What is relied on is that a text
without a bracket has nothing marked up in it, and is shown.

## Results

* `LawfulRich`   — the library keeps to what is said of it.
* `exists_log`   — a message with a level is shown if its text can be.
* `exists_debug` — debug messages, if the texts of all of them can be or the screen is quiet.
-/

namespace SourceMigration

/-- A run of steps succeeds if each of them does. -/
theorem bind_eq_ok_iff {ε α β : Type} {x : Except ε α} {f : α → Except ε β} {b : β} :
    (x >>= f) = .ok b ↔ ∃ a, x = .ok a ∧ f a = .ok b := by
  cases x <;> simp [bind, Except.bind]

theorem mapError_eq_ok_iff {ε ε' α : Type} {x : Except ε α} {f : ε → ε'} {a : α} :
    x.mapError f = .ok a ↔ x = .ok a := by
  cases x with
  | error why => exact iff_of_false nofun nofun
  | ok b => exact ⟨fun h => congrArg _ (Except.ok.inj h), fun h => congrArg _ (Except.ok.inj h)⟩

theorem map_eq_ok_iff {ε α β : Type} {x : Except ε α} {f : α → β} {b : β} :
    x.map f = .ok b ↔ ∃ a, x = .ok a ∧ f a = b := by
  cases x <;> simp [Except.map]

/-- Marks stand between brackets. -/
class LawfulRich [Rich] : Prop where
  /-- A message without a bracket is shown. -/
  shows_plain : ∀ (level : String) {message : String}, '[' ∉ message.toList →
    ∃ ls, Rich.log level message = .ok ls

namespace StandIn

scoped instance : LawfulRich := ⟨exists_log_of_noBracket⟩

end StandIn

variable [Rich]

/-- Whether a message of a level can be shown: no mark in it is at fault. -/
def Level.Shows (level : Level) (message : String) : Prop :=
  ∃ ls, Rich.log level.title (level.mark ++ message) = .ok ls

/-- A message without a bracket is shown. -/
theorem Level.shows_of_noBracket [LawfulRich] (level : Level) {message : String}
    (h : '[' ∉ message.toList) : level.Shows message := by
  refine LawfulRich.shows_plain level.title ?_
  have hMark : '[' ∉ level.mark.toList := by cases level <;> decide
  simp [String.toList_append, hMark, h]

namespace Screen

variable {s s' : Screen} {level : Level}

theorem isVerbose_log {message : String} (h : s.log level message = .ok s') : s'.isVerbose = s.isVerbose := by
  unfold log at h
  split at h
  · rw [Except.ok.inj h]
  · obtain ⟨ls, -, rfl⟩ := map_eq_ok_iff.mp h
    rfl

/-- A message with a level is shown if its text can be. -/
theorem exists_log (message : String) (hLevel : level ≠ .debug ∨ s.isVerbose = true) :
    (∃ s', s.log level message = .ok s') ↔ level.Shows message := by
  have hShown : ¬ (level = .debug ∧ (!s.isVerbose) = true) := by
    rcases hLevel with h | h <;> simp [h]
  unfold log
  rw [if_neg hShown, Level.Shows]
  simp only [map_eq_ok_iff]
  constructor
  · rintro ⟨s', ls, hLines, -⟩
    exact ⟨ls, hLines⟩
  · rintro ⟨ls, hLines⟩
    exact ⟨_, ls, hLines, rfl⟩

/-- Debug messages are shown if the texts of all of them can be, and pass by a quiet screen. -/
theorem exists_debug {messages : List String} : (∃ s', s.debug messages = .ok s') ↔
    (s.isVerbose = true → ∀ m ∈ messages, Level.debug.Shows m) := by
  unfold debug
  induction messages generalizing s with
  | nil => simp [pure, Except.pure]
  | cons m ms ih =>
    simp only [List.foldlM_cons, bind_eq_ok_iff, List.forall_mem_cons]
    cases hVerbose : s.isVerbose with
    | false =>
      have hRest := ih (s := s)
      simp only [hVerbose, Bool.false_eq_true, false_implies, iff_true] at hRest ⊢
      obtain ⟨s', hRest⟩ := hRest
      exact ⟨s', s, log_debug_of_quiet hVerbose m, hRest⟩
    | true =>
      have hFirst := exists_log m (Or.inr hVerbose : Level.debug ≠ .debug ∨ _)
      have hNext {s₁ : Screen} (h : s.log .debug m = .ok s₁) :
          (∃ s', List.foldlM (fun s m => s.log .debug m) s₁ ms = .ok s') ↔
            ∀ m ∈ ms, Level.debug.Shows m := by
        rw [ih, isVerbose_log h, hVerbose]
        simp
      constructor
      · rintro ⟨s', s₁, hLog, hRest⟩ -
        exact ⟨hFirst.mp ⟨s₁, hLog⟩, (hNext hLog).mp ⟨s', hRest⟩⟩
      · intro hAll
        obtain ⟨hHere, hThere⟩ := hAll rfl
        obtain ⟨s₁, hLog⟩ := hFirst.mpr hHere
        obtain ⟨s', hRest⟩ := (hNext hLog).mpr hThere
        exact ⟨s', s₁, hLog, hRest⟩

end Screen

end SourceMigration
