import SourceMigration.Proofs.Typing.Annotated

/-!
# SourceMigration — the elements of a statement

Among the elements of a statement, calls get their methods from left to right. What is attached to one
of them is told by what stands before it, with the methods attached so far, and by what stands after it.

## Results

* `ofCalls_cons`      — the elements of a statement become what they become one after another.
* `exists_of_ofCalls` — what is attached to an element, told by what stands before and after it.
-/

namespace SourceMigration

/-- The name that a call spells. -/
def Node.calleeName (n : Node) : String := ((n.tokenAt? .callee).map Token.text).getD ""

namespace Surroundings

variable {s : Surroundings}

/-- The method of a call, told by the elements before its name, backwards, and those after it. -/
def methodAt? (s : Surroundings) (before : List Node) (call : Node) (after : List Node) :
    Option MethodType :=
  (s.receiverType? before).bind fun owner => s.calledMethod? call.calleeName owner after

end Surroundings

namespace Attribution

variable {s : Surroundings}

/-- What becomes of an element between those before it, backwards, and those after it. -/
def attach (s : Surroundings) (before : List Node) (e : Node) (after : List Node) : Node :=
  match e with
  | .branch (.call none) cs => .branch (.call (s.methodAt? before e after)) cs
  | e => e

/-- Only calls get something attached. -/
theorem attach_self {e : Node} (h : ∀ cs, e ≠ .branch (.call none) cs) (before after : List Node) :
    attach s before e after = e := by
  unfold attach
  split
  · exact absurd rfl (h _)
  · rfl

theorem ofCalls_cons (before : List Node) (f : Field) (e : Node) (rest : List (Field × Node)) :
    (ofCalls s before ((f, e) :: rest)).value =
      (f, attach s before e (rest.map Prod.snd)) ::
        (ofCalls s (attach s before e (rest.map Prod.snd) :: before) rest).value := by
  rw [ofCalls.eq_def]
  simp only
  split
  · rename_i cs
    have hCallee : (((Node.branch (.call none) cs).tokenAt? .callee).map Token.text).getD "" =
        (Node.branch (.call none) cs).calleeName := rfl
    split
    · rename_i hNone
      simp only [attach, Surroundings.methodAt?, hNone, Option.bind_none]
    · rename_i owner hOwner
      rw [hCallee]
      split
      · rename_i m hMethod
        simp only [attach, Surroundings.methodAt?, hOwner, Option.bind_some, hMethod]
      · rename_i hMethod
        simp only [attach, Surroundings.methodAt?, hOwner, Option.bind_some, hMethod]
  · rename_i hOther
    rw [attach_self hOther]

theorem called_attach (before : List Node) (f : Field) (e : Node) (after : List Node) :
    Called (f, e) (f, attach s before e after) := by
  unfold attach
  split
  · cases s.methodAt? before _ after with
    | none => exact .same _
    | some m => exact .attached f m _
  · exact .same _

/-- What is attached to an element, told by what stands before and after it. -/
theorem exists_of_ofCalls {before : List Node} {cs front back : List (Field × Node)} {f : Field}
    {e' : Node} (h : (ofCalls s before cs).value = front ++ (f, e') :: back) :
    ∃ cs₁ e cs₂, cs = cs₁ ++ (f, e) :: cs₂ ∧ List.Forall₂ Called cs₁ front ∧
      List.Forall₂ Called cs₂ back ∧
      e' = attach s ((front.map Prod.snd).reverse ++ before) e (cs₂.map Prod.snd) := by
  induction cs generalizing before front with
  | nil => simp [ofCalls] at h
  | cons c cs ih =>
    obtain ⟨g, e⟩ := c
    rw [ofCalls_cons] at h
    cases front with
    | nil =>
      obtain ⟨hHead, rfl⟩ := List.cons.inj h
      obtain ⟨rfl, rfl⟩ := Prod.mk.inj hHead
      exact ⟨[], e, cs, rfl, .nil, called_ofCalls s _ cs, rfl⟩
    | cons d front =>
      obtain ⟨rfl, hTail⟩ := List.cons.inj h
      obtain ⟨cs₁, e₁, cs₂, rfl, hFront, hBack, hEq⟩ := ih hTail
      refine ⟨(g, e) :: cs₁, e₁, cs₂, rfl, .cons (called_attach before g e _) hFront, hBack, ?_⟩
      rw [hEq]
      simp

end Attribution

end SourceMigration
