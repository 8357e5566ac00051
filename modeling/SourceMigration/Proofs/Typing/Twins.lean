import Mathlib.Data.List.Forall2
import SourceMigration.Proofs.Tree.Context
import SourceMigration.Proofs.Tree.Parts
import SourceMigration.Proofs.Typing.Tables
import SourceMigration.Typing.Scope

/-!
# SourceMigration — trees that differ in the order of some members

Two trees are twins when they are the same but for one place, where both have the body of a type, between
the same braces, with members in one order and in another. What is read off the surface of a node is the
same for twins: whether it is a certain sign, the parts of a name, the variables that a run declares. Only
who asks for the members themselves can tell twins apart.

## Results

* `Twin.field`         — twins have twins in their fields, but for the members of a body.
* `Twin.nameParts`     — twins spell the same name.
* `Twin.declared`      — runs of twins declare the same variables.
-/

namespace SourceMigration

/-- The body of a type with its members in one order and in another. -/
structure Reordering where
  opening : Token
  old : List Node
  new : List Node
  closing : Token
  deriving Inhabited

namespace Reordering

/-- A body with some members. -/
def body (r : Reordering) (members : List Node) : Node :=
  .branch .classBody ((.opening, .token r.opening) ::
    (members.map (fun m => (.members, m)) ++ [(.closing, .token r.closing)]))

/-- The body with the members in the old order. -/
def before (r : Reordering) : Node := r.body r.old

/-- The body with the members in the new order. -/
def after (r : Reordering) : Node := r.body r.new

/-- The same with something else in the place of each member. -/
def map (f : Node → Node) (r : Reordering) : Reordering :=
  { r with old := r.old.map f, new := r.new.map f }

variable (r : Reordering)

@[simp] theorem map_id : r.map id = r := by
  simp [map]

theorem field_body (members : List Node) (f : Field) : (r.body members).field f =
    filed f [(.opening, .token r.opening)] ++ (if f = .members then members else []) ++
      filed f [(.closing, .token r.closing)] := by
  rw [body, Node.field_branch, ← List.singleton_append, filed_append, filed_append, filed_map,
    List.append_assoc]
  simp only [eq_comm]

@[simp] theorem members_body (members : List Node) : (r.body members).field .members = members := by
  rw [field_body]
  simp [filed]

end Reordering

/-- Two trees that are the same but for the order of some members. -/
inductive Twin (r : Reordering) : Node → Node → Prop where
  | same (n : Node) : Twin r n n
  | here : Twin r r.before r.after
  | within (l : Layer) {n m : Node} (h : Twin r n m) : Twin r (l.fill n) (l.fill m)

namespace Twin

variable {r : Reordering} {n m : Node} {xs ys : List Node} {f : Field}

theorem fill (c : Context) (h : Twin r n m) : Twin r (c.fill n) (c.fill m) := by
  induction c with
  | nil => exact h
  | cons l c ih => exact .within l ih

theorem forall₂_same (xs : List Node) : List.Forall₂ (Twin r) xs xs :=
  List.forall₂_same.mpr fun n _ => .same n

-- ---------------------------------------------------------------------------
-- Fields
-- ---------------------------------------------------------------------------

/-- What stands in a field of a layer whose hole is filled with one twin or the other. -/
theorem filed_layer (l : Layer) (h : Twin r n m) (f : Field) :
    List.Forall₂ (Twin r) ((l.fill n).field f) ((l.fill m).field f) := by
  simp only [Layer.fill, Layer.children, Node.field_branch, filed_append, filed_cons]
  refine List.rel_append (forall₂_same _) ?_
  split
  · exact .cons h (forall₂_same _)
  · exact forall₂_same _

/-- Twins have twins in their fields, but for the members of a body. -/
theorem field (h : Twin r n m) (hf : f ≠ .members) :
    List.Forall₂ (Twin r) (n.field f) (m.field f) := by
  cases h with
  | same => exact forall₂_same _
  | here =>
    rw [Reordering.before, Reordering.after, Reordering.field_body, Reordering.field_body, if_neg hf,
      if_neg hf]
    exact forall₂_same _
  | within l h => exact filed_layer l h f

theorem head? (h : List.Forall₂ (Twin r) xs ys) : Option.Rel (Twin r) xs.head? ys.head? := by
  cases h with
  | nil => exact .none
  | cons h _ => exact .some h

theorem getLast? (h : List.Forall₂ (Twin r) xs ys) : Option.Rel (Twin r) xs.getLast? ys.getLast? := by
  have hReverse := head? (List.forall₂_reverse_iff.mpr h)
  rwa [List.head?_reverse, List.head?_reverse] at hReverse

/-- The first nodes in a field of twins. -/
theorem first (h : Twin r n m) (hf : f ≠ .members) :
    Option.Rel (Twin r) (n.field? f) (m.field? f) := head? (h.field hf)

-- ---------------------------------------------------------------------------
-- Surfaces
-- ---------------------------------------------------------------------------

/-- Twins are one token, or two nodes of one kind. -/
theorem shape (h : Twin r n m) : (∃ t, n = .token t ∧ m = .token t) ∨
    ∃ k cs ds, n = .branch k cs ∧ m = .branch k ds := by
  cases h with
  | same =>
    cases n with
    | token t => exact .inl ⟨t, rfl, rfl⟩
    | branch k cs => exact .inr ⟨k, cs, cs, rfl, rfl⟩
  | here => exact .inr ⟨_, _, _, rfl, rfl⟩
  | within l _ => exact .inr ⟨_, _, _, rfl, rfl⟩

theorem form (h : Twin r n m) : m.form = n.form := by
  cases h <;> rfl

theorem isToken (h : Twin r n m) (text : String) : m.isToken text = n.isToken text := by
  cases h <;> rfl

theorem endsDeclarator (h : Twin r n m) :
    Variables.endsDeclarator m = Variables.endsDeclarator n := by
  cases h <;> rfl

theorem tokenAt (h : Twin r n m) (hf : f ≠ .members) : m.tokenAt? f = n.tokenAt? f := by
  have hFirst := h.first hf
  unfold Node.tokenAt?
  generalize n.field? f = x at hFirst ⊢
  generalize m.field? f = y at hFirst ⊢
  cases hFirst with
  | none => rfl
  | some hTwin => cases hTwin <;> rfl

theorem declaredName (h : Twin r n m) : m.declaredName = n.declaredName := by
  rw [Node.declaredName, Node.declaredName, h.tokenAt (by simp)]

/-- Twins spell the same name. -/
theorem nameParts (h : Twin r n m) : m.nameParts = n.nameParts := by
  have hTokens := h.field (f := .tokens) (by simp)
  unfold Node.nameParts
  generalize n.field .tokens = xs at hTokens ⊢
  generalize m.field .tokens = ys at hTokens ⊢
  induction hTokens with
  | nil => rfl
  | cons hHead _ ih =>
    rw [List.filterMap_cons, List.filterMap_cons, ih]
    cases hHead <;> rfl

theorem simpleNameOf (h : Twin r n m) : m.simpleNameOf? = n.simpleNameOf? := by
  have hParts := h.nameParts
  cases h with
  | same | here => rfl
  | within l _ =>
    rw [Layer.fill, Layer.fill] at hParts ⊢
    cases hKind : l.kind <;> rw [hKind] at hParts <;> simp only [Node.simpleNameOf?, hParts]

theorem typeHead (h : Twin r n m) : Option.Rel (Twin r) n.typeHead? m.typeHead? := by
  have hBase := h.first (f := .base) (by simp)
  cases h with
  | same => exact rel_refl .same _
  | here => exact .none
  | within l hInner =>
    have hWhole : Twin r (l.fill _) (l.fill _) := .within l hInner
    rw [Layer.fill, Layer.fill] at hBase hWhole ⊢
    cases hKind : l.kind <;> rw [hKind] at hBase hWhole <;>
      first | exact .some hWhole | exact hBase | exact .none

/-- Names that are twins have the same meaning. -/
theorem resolve (s : Scope) (h : Twin r n m) : s.resolve m = s.resolve n := by
  rw [Scope.resolve, Scope.resolve, h.nameParts]

section Option

variable {x y : Option Node} (h : Option.Rel (Twin r) x y)

include h

theorem bind_first (hf : f ≠ .members) :
    Option.Rel (Twin r) (x.bind (·.field? f)) (y.bind (·.field? f)) := by
  cases h with
  | none => exact .none
  | some h => exact h.first hf

theorem bind_typeHead : Option.Rel (Twin r) (x.bind Node.typeHead?) (y.bind Node.typeHead?) := by
  cases h with
  | none => exact .none
  | some h => exact h.typeHead

theorem bind_resolve (s : Scope) : y.bind s.resolve = x.bind s.resolve := by
  cases h with
  | none => rfl
  | some h => exact h.resolve s

theorem map_dottedName : y.map Node.dottedName = x.map Node.dottedName := by
  cases h with
  | none => rfl
  | some h => exact congrArg (some <| Text.joinDots ·) h.nameParts

end Option

/-- Runs of twins declare the same variables. -/
theorem declared (s : Scope) (h : List.Forall₂ (Twin r) xs ys) :
    Variables.declared s.resolve ys = Variables.declared s.resolve xs := by
  have hFrom : ∀ previous previous' : Option Node, Option.Rel (Twin r) previous previous' →
      Variables.declaredFrom s.resolve previous' ys = Variables.declaredFrom s.resolve previous xs := by
    induction h with
    | nil => exact fun _ _ _ => rfl
    | @cons type type' _ _ hType hRest ih =>
      intro previous previous' hPrevious
      cases hRest with
      | nil => rfl
      | @cons next next' rest rest' hNext hRest =>
        have hLater := ih (some type) (some type') (.some hType)
        have hPoint : previous'.any (·.isToken ".") = previous.any (·.isToken ".") := by
          cases hPrevious with
          | none => rfl
          | some h => exact h.isToken "."
        have hEnd : (rest'.head?.any fun e => !Variables.endsDeclarator e) =
            rest.head?.any fun e => !Variables.endsDeclarator e := by
          cases hRest with
          | nil => rfl
          | cons h _ => exact congrArg (!·) h.endsDeclarator
        have hHead := hType.typeHead
        rw [Variables.declaredFrom, Variables.declaredFrom, hLater, hPoint, hEnd, hNext.simpleNameOf]
        generalize type.typeHead? = x at hHead ⊢
        generalize type'.typeHead? = y at hHead ⊢
        cases hHead with
        | none => rfl
        | some hSame => simp only [Option.bind_eq_bind, Option.bind_some, hSame.resolve s]
  exact hFrom none none .none

end Twin

end SourceMigration
