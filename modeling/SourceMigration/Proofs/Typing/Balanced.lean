import Mathlib.Data.List.Basic
import SourceMigration.Typing.Receiver

/-!
# SourceMigration — runs with balanced parentheses

A list of arguments is flat: its elements stand in one run with the parentheses around them. What
belongs to the list is told by counting parentheses, backwards from its end to find the call that it
belongs to, and forwards from its beginning to count the arguments. Over a balanced run both counts
come back to where they were.

Going forwards, what matters of a run is how many parentheses are open after it and how many of its
commas stand outside of all parentheses.

## Results

* `beforeOpening_eq_some_iff` — going back from a parenthesis, the one that matches it is found.
* `arityFrom_open`            — going forwards, the commas outside of all parentheses are counted.
-/

namespace SourceMigration

/-- One element cannot be two signs. -/
theorem Node.isToken_unique {e : Node} {a b : String} (h : e.isToken a = true) (hNe : a ≠ b) :
    e.isToken b = false := by
  cases e with
  | branch k cs => rfl
  | token t =>
    simp only [Node.isToken, Token.spells, Bool.and_eq_true, beq_iff_eq] at h ⊢
    simp [h.1, hNe]

/-- A run in which every parenthesis has its match. -/
inductive Balanced : List Node → Prop where
  | nil : Balanced []
  | other {e : Node} {run : List Node} (hOpen : e.isToken "(" = false)
      (hClose : e.isToken ")" = false) (h : Balanced run) : Balanced (e :: run)
  | list {opening closing : Node} {inner rest : List Node} (hOpen : opening.isToken "(" = true)
      (hClose : closing.isToken ")" = true) (hInner : Balanced inner) (hRest : Balanced rest) :
      Balanced (opening :: (inner ++ closing :: rest))

theorem Balanced.append {run rest : List Node} (h : Balanced run) (h' : Balanced rest) :
    Balanced (run ++ rest) := by
  induction h with
  | nil => exact h'
  | other hOpen hClose _ ih => exact .other hOpen hClose ih
  | list hOpen hClose hInner _ _ ih =>
    simp only [List.cons_append, List.append_assoc]
    exact .list hOpen hClose hInner ih

namespace Surroundings

-- ---------------------------------------------------------------------------
-- Backwards
-- ---------------------------------------------------------------------------

theorem beforeOpening_other {depth : Nat} {e : Node} (before : List Node)
    (hOpen : e.isToken "(" = false) (hClose : e.isToken ")" = false) :
    beforeOpening? depth (e :: before) = beforeOpening? depth before := by
  simp [beforeOpening?, hOpen, hClose]

theorem beforeOpening_closing {depth : Nat} {e : Node} (before : List Node)
    (hClose : e.isToken ")" = true) :
    beforeOpening? depth (e :: before) = beforeOpening? (depth + 1) before := by
  simp [beforeOpening?, hClose]

theorem beforeOpening_opening {depth : Nat} {e : Node} (before : List Node)
    (hOpen : e.isToken "(" = true) :
    beforeOpening? (depth + 1) (e :: before) =
      if depth = 0 then some before else beforeOpening? depth before := by
  simp [beforeOpening?, hOpen, Node.isToken_unique hOpen (b := ")") (by decide)]

/-- Over a balanced run the count comes back to where it was. -/
theorem beforeOpening_balanced {run : List Node} (h : Balanced run) (depth : Nat)
    (before : List Node) :
    beforeOpening? (depth + 1) (run.reverse ++ before) = beforeOpening? (depth + 1) before := by
  induction h generalizing depth before with
  | nil => rfl
  | other hOpen hClose _ ih =>
    rw [List.reverse_cons, List.append_assoc, ih, List.singleton_append,
      beforeOpening_other before hOpen hClose]
  | @list opening closing inner rest hOpen hClose _ _ ihInner ihRest =>
    have hSplit : (opening :: (inner ++ closing :: rest)).reverse ++ before =
        rest.reverse ++ closing :: (inner.reverse ++ opening :: before) := by simp
    rw [hSplit, ihRest, beforeOpening_closing _ hClose, ihInner, beforeOpening_opening _ hOpen,
      if_neg (Nat.succ_ne_zero depth)]

/-- What is found going back stands before a parenthesis and a balanced run; from a greater depth, the
way goes on from there. -/
theorem exists_of_beforeOpening {depth : Nat} {before rest : List Node}
    (h : beforeOpening? (depth + 1) before = some rest) :
    ∃ opening inner rest', opening.isToken "(" = true ∧ Balanced inner ∧
      before = inner.reverse ++ opening :: rest' ∧
      if depth = 0 then rest' = rest else beforeOpening? depth rest' = some rest := by
  induction hLength : before.length using Nat.strongRecOn generalizing depth before with
  | ind length ih =>
    cases before with
    | nil => cases h
    | cons e before =>
      have hShorter {run : List Node} (hRun : run.length ≤ before.length) : run.length < length := by
        rw [← hLength, List.length_cons]
        omega
      cases hClose : e.isToken ")" with
      | true =>
        -- a list within the run: its beginning is found first
        rw [beforeOpening_closing _ hClose] at h
        obtain ⟨o, inner, rest₁, hOpen, hInner, rfl, hRest⟩ := ih _ (hShorter (Nat.le_refl _)) h rfl
        rw [if_neg (Nat.succ_ne_zero depth)] at hRest
        obtain ⟨o', run, rest₂, hOpen', hRun, rfl, hEnd⟩ :=
          ih _ (hShorter (by simp only [List.length_append, List.length_cons]; omega)) hRest rfl
        refine ⟨o', run ++ o :: (inner ++ [e]), rest₂, hOpen',
          hRun.append (.list hOpen hClose hInner .nil), by simp, hEnd⟩
      | false =>
        cases hOpen : e.isToken "(" with
        | true =>
          rw [beforeOpening_opening _ hOpen] at h
          refine ⟨e, [], before, hOpen, .nil, rfl, ?_⟩
          split at h
          · rename_i hDepth
            rw [if_pos hDepth]
            exact Option.some.inj h
          · rename_i hDepth
            rwa [if_neg hDepth]
        | false =>
          rw [beforeOpening_other _ hOpen hClose] at h
          obtain ⟨o, run, rest', hOpen', hRun, rfl, hEnd⟩ := ih _ (hShorter (Nat.le_refl _)) h rfl
          exact ⟨o, run ++ [e], rest', hOpen', hRun.append (.other hOpen hClose .nil), by simp, hEnd⟩

/-- Going back from a parenthesis that closes, the one that matches it is found. -/
theorem beforeOpening_eq_some_iff {before rest : List Node} :
    beforeOpening? 1 before = some rest ↔
      ∃ opening inner, opening.isToken "(" = true ∧ Balanced inner ∧
        before = inner.reverse ++ opening :: rest := by
  constructor
  · intro h
    obtain ⟨opening, inner, rest', hOpen, hInner, rfl, hRest⟩ := @exists_of_beforeOpening 0 before rest h
    rw [if_pos rfl] at hRest
    exact ⟨opening, inner, hOpen, hInner, by rw [hRest]⟩
  · rintro ⟨opening, inner, hOpen, hInner, rfl⟩
    rw [beforeOpening_balanced hInner 0, beforeOpening_opening _ hOpen, if_pos rfl]

end Surroundings

/-- Whether a point with an element before it stands at the end of a run that is listed backwards. -/
def pointed : List Node → Bool
  | dot :: _ :: _ => dot.isToken "."
  | _ => false

theorem exists_of_pointed {before : List Node} (h : pointed before = true) :
    ∃ dot e rest, before = dot :: e :: rest ∧ dot.isToken "." = true := by
  rcases before with _ | ⟨dot, _ | ⟨e, rest⟩⟩
  · cases h
  · cases h
  · exact ⟨dot, e, rest, rfl, h⟩

theorem pointed_eq_false_iff {before : List Node} :
    pointed before = false ↔ before.length ≤ 1 ∨ before.head?.any (·.isToken ".") = false := by
  rcases before with _ | ⟨dot, _ | ⟨e, rest⟩⟩ <;> simp [pointed]

namespace Surroundings

variable {s : Surroundings} {cs : List (Field × Node)} {x : String}

/-- A simple name after a point is a member of the expression before the point. -/
theorem expressionType_member {dot e : Node} {rest : List Node}
    (hName : (Node.branch (.name none) cs).simpleNameOf? = some x) (hDot : dot.isToken "." = true) :
    s.expressionType? (.branch (.name none) cs :: dot :: e :: rest) =
      (s.expressionType? (e :: rest)).bind (s.scope.fieldType? · x) := by
  simp [expressionType?, hName, hDot]

/-- A simple name after no point is a variable. -/
theorem expressionType_variable {before : List Node}
    (hName : (Node.branch (.name none) cs).simpleNameOf? = some x) (hPoint : pointed before = false) :
    s.expressionType? (.branch (.name none) cs :: before) = s.variableType? x := by
  rcases before with _ | ⟨dot, _ | ⟨e, rest⟩⟩
  · simp [expressionType?, hName]
  · simp [expressionType?, hName]
  · rw [pointed] at hPoint
    simp [expressionType?, hName, hPoint]

end Surroundings

-- ---------------------------------------------------------------------------
-- Forwards
-- ---------------------------------------------------------------------------

/-- How many parentheses are open after a run when so many are open before it, if none is closed that
was not opened. -/
def openAfter? : Nat → List Node → Option Nat
  | depth, [] => some depth
  | depth, e :: rest =>
    if e.isToken "(" then openAfter? (depth + 1) rest
    else if e.isToken ")" then if depth = 0 then none else openAfter? (depth - 1) rest
    else openAfter? depth rest

/-- How many commas of a run stand outside of all parentheses when so many are open before it. -/
def looseCommas : Nat → List Node → Nat
  | _, [] => 0
  | depth, e :: rest =>
    if e.isToken "(" then looseCommas (depth + 1) rest
    else if e.isToken ")" then looseCommas (depth - 1) rest
    else if depth = 0 ∧ e.isToken "," then looseCommas depth rest + 1
    else looseCommas depth rest

/-- How many commas of several runs stand outside of all parentheses. -/
def ownCommas (runs : List (List Node)) : Nat := runs.foldr (looseCommas 0 · + ·) 0

@[simp] theorem ownCommas_nil : ownCommas [] = 0 := rfl

theorem ownCommas_cons (run : List Node) (runs : List (List Node)) :
    ownCommas (run :: runs) = looseCommas 0 run + ownCommas runs := rfl

theorem ownCommas_eq_zero_iff {runs : List (List Node)} :
    ownCommas runs = 0 ↔ ∀ run ∈ runs, looseCommas 0 run = 0 := by
  induction runs with
  | nil => exact iff_of_true rfl nofun
  | cons run runs ih => rw [ownCommas_cons, Nat.add_eq_zero_iff, ih, List.forall_mem_cons]

section Forwards

variable {depth depth' : Nat} {run rest : List Node}

theorem openAfter_append (depth : Nat) (run rest : List Node) :
    openAfter? depth (run ++ rest) = (openAfter? depth run).bind (openAfter? · rest) := by
  induction run generalizing depth with
  | nil => rfl
  | cons e run ih =>
    simp only [List.cons_append, openAfter?, ih]
    split
    · rfl
    · split
      · split <;> rfl
      · rfl

/-- What the first element of a run does to the number of open parentheses. -/
theorem openAfter_cons {e : Node} (h : openAfter? depth (e :: run) = some depth') :
    e.isToken "(" = true ∧ openAfter? (depth + 1) run = some depth' ∨
      e.isToken "(" = false ∧ e.isToken ")" = true ∧
        (∃ d, depth = d + 1 ∧ openAfter? d run = some depth') ∨
      e.isToken "(" = false ∧ e.isToken ")" = false ∧ openAfter? depth run = some depth' := by
  cases hOpen : e.isToken "(" <;> cases hClose : e.isToken ")" <;>
    simp only [openAfter?, hOpen, hClose, if_true, if_false, Bool.false_eq_true] at h
  · exact Or.inr (Or.inr ⟨rfl, rfl, h⟩)
  · cases depth with
    | zero => simp at h
    | succ d => exact Or.inr (Or.inl ⟨rfl, rfl, d, rfl, by simpa using h⟩)
  · exact Or.inl ⟨rfl, h⟩
  · exact Or.inl ⟨rfl, h⟩

/-- With more parentheses open before a run, as many more are open after it. -/
theorem openAfter_add (h : openAfter? depth run = some depth') (more : Nat) :
    openAfter? (depth + more) run = some (depth' + more) := by
  induction run generalizing depth with
  | nil =>
    cases h
    rfl
  | cons e run ih =>
    rcases openAfter_cons h with ⟨hOpen, hRest⟩ | ⟨hOpen, hClose, d, rfl, hRest⟩ | ⟨hOpen, hClose, hRest⟩
    · simpa [openAfter?, hOpen, Nat.add_right_comm] using ih hRest
    · simpa [openAfter?, hOpen, hClose, Nat.add_right_comm] using ih hRest
    · simpa [openAfter?, hOpen, hClose] using ih hRest

namespace Surroundings

/-- Within a list, a run adds as many arguments as it has commas outside of its own parentheses. -/
theorem arityFrom_open (h : openAfter? depth run = some depth') (commas : Nat) (rest : List Node) :
    arityFrom (depth + 1) commas true (run ++ rest) =
      arityFrom (depth' + 1) (commas + looseCommas depth run) true rest := by
  induction run generalizing depth commas with
  | nil =>
    cases h
    rfl
  | cons e run ih =>
    rw [List.cons_append, arityFrom]
    rcases openAfter_cons h with ⟨hOpen, hRest⟩ | ⟨hOpen, hClose, d, rfl, hRest⟩ | ⟨hOpen, hClose, hRest⟩
    · simp [looseCommas, hOpen, ih hRest]
    · simp [looseCommas, hOpen, hClose, ih hRest]
    · by_cases hComma : depth = 0 ∧ e.isToken "," = true
      · obtain ⟨rfl, hComma⟩ := hComma
        have hOne := ih hRest (commas + 1)
        rw [Nat.add_right_comm] at hOne
        simpa [looseCommas, hOpen, hClose, hComma, Nat.add_assoc] using hOne
      · simp [looseCommas, hOpen, hClose, hComma, ih hRest]

end Surroundings

end Forwards

end SourceMigration
