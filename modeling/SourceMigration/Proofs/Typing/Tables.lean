import SourceMigration.Typing.Variables
import Mathlib.Data.List.Basic

/-!
# SourceMigration — tables in another order

What a unit declares is gathered into tables, in the order of the text. Where a key has several entries
the first or the last of them counts, so the order may matter, but only among entries of one key. A list
is therefore shuffled step by step, each step exchanging two neighbours, and what two members must not
have in common to be exchanged is said for two of them at a time.

## Results

* `shuffles_of_perm`       — where no two members clash, every rearrangement is allowed.
* `Shuffles.flatMap`       — what holds of one exchange holds of what a shuffled list gathers.
* `lasts_of_not_dispute`   — tables without a dispute can be joined in either order.
-/

namespace SourceMigration

variable {α β κ : Type}

-- ---------------------------------------------------------------------------
-- Shuffled lists
-- ---------------------------------------------------------------------------

/-- A list comes of another by exchanging neighbours that do not clash, again and again. -/
inductive Shuffles (clash : α → α → Prop) : List α → List α → Prop where
  | nil : Shuffles clash [] []
  | cons (x : α) {xs ys : List α} (h : Shuffles clash xs ys) : Shuffles clash (x :: xs) (x :: ys)
  | swap {x y : α} (h : ¬ clash x y) (xs : List α) : Shuffles clash (x :: y :: xs) (y :: x :: xs)
  | trans {xs ys zs : List α} (h : Shuffles clash xs ys) (h' : Shuffles clash ys zs) :
      Shuffles clash xs zs

/-- A relation between lists that can be told piece by piece. -/
structure Piecewise (R : List β → List β → Prop) : Prop where
  refl : ∀ xs, R xs xs
  append : ∀ {xs ys xs' ys'}, R xs ys → R xs' ys' → R (xs ++ xs') (ys ++ ys')
  trans : ∀ {xs ys zs}, R xs ys → R ys zs → R xs zs

theorem piecewise_perm : Piecewise (@List.Perm β) :=
  ⟨.refl, .append, .trans⟩

namespace Piecewise

variable {R : List β → List β → Prop}

/-- What two lists gather is told member by member. -/
theorem flatMap (hR : Piecewise R) {g h : α → List β} {xs ys : List α}
    (hEach : List.Forall₂ (fun x y => R (g x) (h y)) xs ys) : R (xs.flatMap g) (ys.flatMap h) := by
  induction hEach with
  | nil => exact hR.refl []
  | cons hHead _ ih => exact hR.append hHead ih

end Piecewise

namespace Shuffles

variable {clash : α → α → Prop} {xs ys : List α}

/-- A shuffled list has the same members. -/
theorem perm (h : Shuffles clash xs ys) : xs.Perm ys := by
  induction h with
  | nil => exact .nil
  | cons x _ ih => exact .cons x ih
  | swap _ xs => exact .swap _ _ xs
  | trans _ _ ih ih' => exact ih.trans ih'

/-- Where less clashes, more can be shuffled. -/
theorem mono {clash' : α → α → Prop} (hLess : ∀ x y, clash' x y → clash x y)
    (h : Shuffles clash xs ys) : Shuffles clash' xs ys := by
  induction h with
  | nil => exact .nil
  | cons x _ ih => exact .cons x ih
  | swap hApart xs => exact .swap (fun hClash => hApart (hLess _ _ hClash)) xs
  | trans _ _ ih ih' => exact ih.trans ih'

/-- What holds of the exchange of two members that do not clash holds of what all members gather. -/
theorem flatMap {R : List β → List β → Prop} (hR : Piecewise R) {g : α → List β}
    (hSwap : ∀ x y, ¬ clash x y → R (g x ++ g y) (g y ++ g x)) (h : Shuffles clash xs ys) :
    R (xs.flatMap g) (ys.flatMap g) := by
  induction h with
  | nil => exact hR.refl []
  | cons x _ ih => exact hR.append (hR.refl _) ih
  | @swap x y hApart xs =>
    simpa only [List.flatMap_cons, List.append_assoc] using
      hR.append (hSwap x y hApart) (hR.refl (xs.flatMap g))
  | trans _ _ ih ih' => exact hR.trans ih ih'

end Shuffles

/-- Where no two members of a list clash, it can be put into every order. -/
theorem shuffles_of_perm {clash : α → α → Prop} {xs ys : List α} (hPerm : xs.Perm ys)
    (hSymm : ∀ x y, clash x y → clash y x) (h : xs.Pairwise fun x y => ¬ clash x y) :
    Shuffles clash xs ys := by
  induction hPerm with
  | nil => exact .nil
  | cons x _ ih => exact .cons x (ih h.tail)
  | swap x y xs => exact .swap (List.rel_of_pairwise_cons h List.mem_cons_self) xs
  | trans hFirst _ ih ih' =>
    have hNext := (hFirst.pairwise_iff fun hApart hClash => hApart (hSymm _ _ hClash)).mp h
    exact (ih h).trans (ih' hNext)

-- ---------------------------------------------------------------------------
-- Tables
-- ---------------------------------------------------------------------------

variable [BEq κ] {V : α → α → Prop} {xs ys zs : List (κ × α)}

/-- Under each key, the first entries of two tables are related, or neither has one. -/
def Firsts (V : α → α → Prop) (xs ys : List (κ × α)) : Prop :=
  ∀ k, Option.Rel V (xs.lookup k) (ys.lookup k)

/-- Under each key, the last entries of two tables are related, or neither has one. -/
def Lasts (V : α → α → Prop) (xs ys : List (κ × α)) : Prop := Firsts V xs.reverse ys.reverse

theorem rel_refl (hV : ∀ v, V v v) (o : Option α) : Option.Rel V o o := by
  cases o with
  | none => exact .none
  | some v => exact .some (hV v)

theorem eq_of_rel {o o' : Option α} (h : Option.Rel Eq o o') : o = o' := by
  cases h with
  | none => rfl
  | some h => rw [h]

theorem Firsts.lookup (h : Firsts Eq xs ys) (k : κ) : xs.lookup k = ys.lookup k := eq_of_rel (h k)

theorem Lasts.lookup (h : Lasts Eq xs ys) (k : κ) : xs.reverse.lookup k = ys.reverse.lookup k :=
  eq_of_rel (h k)

theorem piecewise_firsts (hRefl : ∀ v, V v v) (hTrans : ∀ {u v w}, V u v → V v w → V u w) :
    Piecewise (@Firsts α κ _ V) where
  refl xs k := rel_refl hRefl (xs.lookup k)
  append {xs ys xs' ys'} h h' k := by
    rw [List.lookup_append, List.lookup_append]
    cases hx : xs.lookup k with
    | none =>
      cases hy : ys.lookup k with
      | none => simpa using h' k
      | some w =>
        have hk := h k
        rw [hx, hy] at hk
        cases hk
    | some v =>
      cases hy : ys.lookup k with
      | none =>
        have hk := h k
        rw [hx, hy] at hk
        cases hk
      | some w =>
        have hk := h k
        rw [hx, hy] at hk
        simpa using hk
  trans {xs ys zs} h h' k := by
    have hk := h k
    have hk' := h' k
    revert hk hk'
    cases xs.lookup k <;> cases ys.lookup k <;> cases zs.lookup k <;> intro hk hk' <;>
      cases hk <;> cases hk'
    · exact .none
    · rename_i hV hV'
      exact .some (hTrans hV hV')

theorem piecewise_lasts (hRefl : ∀ v, V v v) (hTrans : ∀ {u v w}, V u v → V v w → V u w) :
    Piecewise (@Lasts α κ _ V) where
  refl xs := (piecewise_firsts hRefl hTrans).refl xs.reverse
  append {xs ys xs' ys'} h h' := by
    rw [Lasts, List.reverse_append, List.reverse_append]
    exact (piecewise_firsts hRefl hTrans).append h' h
  trans h h' := (piecewise_firsts hRefl hTrans).trans h h'

theorem piecewise_firsts_eq : Piecewise (@Firsts α κ _ Eq) :=
  piecewise_firsts (fun _ => rfl) Eq.trans

theorem piecewise_lasts_eq : Piecewise (@Lasts α κ _ Eq) :=
  piecewise_lasts (fun _ => rfl) Eq.trans

/-- Two tables of one entry. -/
theorem lasts_single {v w : α} (h : V v w) (k : κ) : Lasts V [(k, v)] [(k, w)] := by
  intro j
  simp only [List.reverse_singleton, List.lookup_cons, List.lookup_nil]
  cases j == k with
  | true => exact .some h
  | false => exact .none

/-- Two tables can be joined in either order where the entries of one key are related. -/
theorem firsts_swap (hRefl : ∀ v, V v v)
    (h : ∀ k v w, xs.lookup k = some v → ys.lookup k = some w → V v w) :
    Firsts V (xs ++ ys) (ys ++ xs) := by
  intro k
  rw [List.lookup_append, List.lookup_append]
  cases hx : xs.lookup k with
  | none => simpa using rel_refl hRefl (ys.lookup k)
  | some v =>
    cases hy : ys.lookup k with
    | none => simpa using hRefl v
    | some w => simpa using h k v w hx hy

theorem lasts_swap (hRefl : ∀ v, V v v)
    (h : ∀ k v w, xs.reverse.lookup k = some v → ys.reverse.lookup k = some w → V w v) :
    Lasts V (xs ++ ys) (ys ++ xs) := by
  rw [Lasts, List.reverse_append, List.reverse_append]
  exact firsts_swap hRefl fun k v w hy hx => h k w v hx hy

/-- Two tables dispute a key where both have entries of it and the last ones differ. -/
def Dispute (xs ys : List (κ × α)) : Prop :=
  ∃ k ∈ xs.map Prod.fst, k ∈ ys.map Prod.fst ∧ xs.reverse.lookup k ≠ ys.reverse.lookup k

theorem Dispute.symm (h : Dispute xs ys) : Dispute ys xs := by
  obtain ⟨k, hx, hy, hNe⟩ := h
  exact ⟨k, hy, hx, hNe.symm⟩

instance [LawfulBEq κ] [DecidableEq α] (xs ys : List (κ × α)) : Decidable (Dispute xs ys) :=
  inferInstanceAs (Decidable (∃ k ∈ xs.map Prod.fst, _))

/-- Tables without a dispute can be joined in either order. -/
theorem lasts_of_not_dispute [LawfulBEq κ] (h : ¬ Dispute xs ys) : Lasts Eq (xs ++ ys) (ys ++ xs) := by
  refine lasts_swap (fun _ => rfl) fun k v w hx hy => ?_
  have hKey {zs : List (κ × α)} {u : α} (hz : zs.reverse.lookup k = some u) :
      k ∈ zs.map Prod.fst := by
    obtain ⟨p, hp, hEq⟩ := List.lookup_isSome_iff.mp (Option.isSome_of_eq_some hz)
    exact List.mem_map.mpr ⟨p, List.mem_reverse.mp hp, (beq_iff_eq.mp hEq).symm⟩
  by_contra hNe
  refine h ⟨k, hKey hx, hKey hy, ?_⟩
  rw [hx, hy]
  exact fun hEq => hNe (Option.some.inj hEq).symm

end SourceMigration
