import SourceMigration.Editing.Pass
import SourceMigration.Proofs.Tree.Leaves

/-!
# SourceMigration — passes over names and calls

A call is renamed, a name is respelled and a method type is retyped, each by itself. These are the
three edits of names and calls that the passes are made of.

## Results

* `editsLeaves_rename`, `editsLeaves_name`, `editsLeaves_method` — they are such edits.
-/

namespace SourceMigration

namespace Node

theorem withLeading_nameOf (type : Option TypeName) (ts : List Token) (l : String) :
    (nameOf type ts).withLeading l = nameOf type (ts.modifyHead (Token.withLeading l)) := by
  cases ts <;> rfl

/-- The trivia before a name are no part of it. -/
@[simp] theorem nameParts_withLeading (type : Option TypeName) (ts : List Token) (l : String) :
    ((nameOf type ts).withLeading l).nameParts = (nameOf type ts).nameParts := by
  rw [withLeading_nameOf, nameParts_nameOf, nameParts_nameOf]
  cases ts <;> rfl

/-- A new name stands after whatever trivia it is given. -/
theorem withLeading_ofDotted (dotted l l' : String) (type : Option TypeName) :
    (ofDotted dotted l type).withLeading l' = ofDotted dotted l' type := by
  unfold ofDotted Text.splitDots
  obtain ⟨p, ps, hParts⟩ := List.exists_cons_of_ne_nil (Text.splitChars_ne_nil '.' dotted.toList)
  rw [hParts]
  cases ps <;> rfl

theorem wellFormed_call (m : Option MethodType) (t : Token) :
    (Node.branch (.call m) [(.callee, .token t)]).WellFormed := by
  refine .branch ?_ (by simpa using .token t)
  exact .single (s := ⟨.callee, .one, [.token]⟩) (by simp) (by simp [form]) (.refl [])

theorem wellFormed_ofDotted (dotted l : String) (type : Option TypeName) :
    (ofDotted dotted l type).WellFormed := wellFormed_nameOf type _

end Node

namespace Pass

variable (pattern : MethodPattern) (newName : String) (old new : TypeName)

theorem onlyLeaves_rename : Node.OnlyLeaves (renameCall? pattern newName) where
  token _ := rfl
  branch k _ hk := by cases k <;> first | rfl | cases hk

theorem onlyLeaves_name : Node.OnlyLeaves (changeName? old new) where
  token _ := rfl
  branch k _ hk := by cases k <;> first | rfl | cases hk

theorem onlyLeaves_method : Node.OnlyLeaves (changeMethod? old new) where
  token _ := rfl
  branch k _ hk := by cases k <;> first | rfl | cases hk

/-- A call after the renaming. -/
def renamedCall (n : Node) : Node := (renameCall? pattern newName n).getD n

/-- A name after the change of a type. -/
def retypedName (n : Node) : Node := (changeName? old new n).getD n

/-- A call after the change of a type. -/
def retypedCall (n : Node) : Node := (changeMethod? old new n).getD n

/-- A method of the new name, where the pattern selects it. -/
def renamedMethod (m : MethodType) : MethodType :=
  if pattern.selects (some m) then { m with name := newName } else m

/-- A method with the new type in place of the old one. -/
def retypedMethod (m : MethodType) : MethodType :=
  { m with
    declaring := if m.declaring = old then new else m.declaring
    returns := if m.returns = some old then some new else m.returns }

/-- A call is one token and a method; renaming it changes both where the pattern selects it. -/
theorem renamedCall_call (m : Option MethodType) (t : Token) :
    renamedCall pattern newName (.branch (.call m) [(.callee, .token t)]) =
      .branch (.call (m.map (renamedMethod pattern newName)))
        [(.callee, .token (if pattern.selects m then t.withText newName else t))] := by
  unfold renamedCall renameCall?
  by_cases hSelects : pattern.selects m = true
  · cases m with
    | none => cases hSelects
    | some m =>
      simp [hSelects, Node.relabelled?, Node.tokenAt?, Node.field?, filed_cons, Node.setField,
        replaceFirst_cons, renamedMethod]
  · cases m with
    | none => simp [MethodPattern.selects]
    | some m => simp [hSelects, renamedMethod]

theorem retypedCall_call (m : Option MethodType) (cs : List (Field × Node)) :
    retypedCall old new (.branch (.call m) cs) =
      .branch (.call (m.map (retypedMethod old new))) cs := by
  cases m with
  | none => rfl
  | some m =>
    by_cases hOld : m.declaring = old ∨ m.returns = some old
    · simp [retypedCall, changeMethod?, hOld, retypedMethod]
    · obtain ⟨hDeclaring, hReturns⟩ := not_or.mp hOld
      simp [retypedCall, changeMethod?, hDeclaring, hReturns, retypedMethod]

theorem retypedName_name (t : Option TypeName) (cs : List (Field × Node)) :
    retypedName old new (.branch (.name t) cs) =
      if t = some old then
        Node.ofDotted (if (Node.branch (.name t) cs).nameParts.length > 1 then new.text else new.simple)
          (Node.branch (.name t) cs).leading (some new)
      else .branch (.name t) cs := by
  unfold retypedName changeName?
  cases t with
  | none => rfl
  | some t =>
    by_cases hOld : t = old
    · simp [hOld]
    · simp [hOld]

@[simp] theorem renamedCall_name (t : Option TypeName) (cs : List (Field × Node)) :
    renamedCall pattern newName (.branch (.name t) cs) = .branch (.name t) cs := rfl

@[simp] theorem retypedCall_name (t : Option TypeName) (cs : List (Field × Node)) :
    retypedCall old new (.branch (.name t) cs) = .branch (.name t) cs := rfl

@[simp] theorem retypedName_call (m : Option MethodType) (cs : List (Field × Node)) :
    retypedName old new (.branch (.call m) cs) = .branch (.call m) cs := rfl

/-- A name or a call, as it stands in a well-formed tree. -/
theorem exists_of_leaf {k : NodeKind} {cs : List (Field × Node)} (hk : k.isLeaf = true)
    (h : (Node.branch k cs).WellFormed) :
    (∃ t ts, Node.branch k cs = Node.nameOf t ts) ∨
      ∃ m t, Node.branch k cs = .branch (.call m) [(.callee, .token t)] := by
  cases k with
  | name t =>
    obtain ⟨ts, rfl⟩ := h.exists_tokens
    exact Or.inl ⟨t, ts, rfl⟩
  | call m =>
    obtain ⟨t, rfl⟩ := h.exists_callee
    exact Or.inr ⟨m, t, rfl⟩
  | _ => cases hk

theorem editsLeaves_rename : Node.EditsLeaves (renamedCall pattern newName) where
  form {k cs} hk := by
    cases k with
    | name _ => rfl
    | call m =>
      simp only [renamedCall, renameCall?, Node.relabelled?]
      split
      · cases (Node.branch (.call m) cs).tokenAt? .callee <;> rfl
      · rfl
    | _ => cases hk
  wellFormed {k cs} hk h := by
    rcases exists_of_leaf hk h with ⟨t, ts, hEq⟩ | ⟨m, t, hEq⟩
    · rw [hEq]
      exact Node.wellFormed_nameOf t ts
    · rw [hEq, renamedCall_call]
      exact Node.wellFormed_call _ _
  leading {k cs} hk h l := by
    rcases exists_of_leaf hk h with ⟨t, ts, hEq⟩ | ⟨m, t, hEq⟩
    · rw [hEq, Node.withLeading_nameOf]
      exact ⟨l, (Node.withLeading_nameOf t ts l).symm⟩
    · rw [hEq, renamedCall_call, Node.withLeading_branch, Node.withLeadingIn_cons]
      refine ⟨l, ?_⟩
      show renamedCall _ _ (.branch (.call m) [(.callee, .token (t.withLeading l))]) = _
      rw [renamedCall_call]
      cases pattern.selects m <;> rfl

theorem editsLeaves_method : Node.EditsLeaves (retypedCall old new) where
  form {k cs} hk := by
    cases k with
    | name _ => rfl
    | call m => rw [retypedCall_call]; rfl
    | _ => cases hk
  wellFormed {k cs} hk h := by
    rcases exists_of_leaf hk h with ⟨t, ts, hEq⟩ | ⟨m, t, hEq⟩
    · rw [hEq]
      exact Node.wellFormed_nameOf t ts
    · rw [hEq, retypedCall_call]
      exact Node.wellFormed_call _ _
  leading {k cs} hk h l := by
    rcases exists_of_leaf hk h with ⟨t, ts, hEq⟩ | ⟨m, t, hEq⟩
    · rw [hEq, Node.withLeading_nameOf]
      exact ⟨l, (Node.withLeading_nameOf t ts l).symm⟩
    · rw [hEq, retypedCall_call, Node.withLeading_branch, retypedCall_call]
      exact ⟨l, rfl⟩

theorem editsLeaves_name : Node.EditsLeaves (retypedName old new) where
  form {k cs} hk := by
    cases k with
    | name t =>
      rw [retypedName_name]
      split <;> rfl
    | call m => rfl
    | _ => cases hk
  wellFormed {k cs} hk h := by
    rcases exists_of_leaf hk h with ⟨t, ts, hEq⟩ | ⟨m, t, hEq⟩
    · rw [hEq, Node.nameOf, retypedName_name]
      split
      · exact Node.wellFormed_ofDotted _ _ _
      · exact Node.wellFormed_nameOf t ts
    · rw [hEq]
      exact Node.wellFormed_call m t
  leading {k cs} hk h l := by
    rcases exists_of_leaf hk h with ⟨t, ts, hEq⟩ | ⟨m, t, hEq⟩
    · have hParts := Node.nameParts_withLeading t ts l
      rw [Node.withLeading_nameOf] at hParts
      rw [hEq, Node.withLeading_nameOf]
      unfold Node.nameOf at hParts ⊢
      rw [retypedName_name, retypedName_name, hParts]
      split
      · exact ⟨_, (Node.withLeading_ofDotted _ _ _ _).symm⟩
      · exact ⟨l, (Node.withLeading_nameOf t ts l).symm⟩
    · rw [hEq]
      exact ⟨l, rfl⟩

end Pass

end SourceMigration
