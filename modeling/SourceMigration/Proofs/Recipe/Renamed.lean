import SourceMigration.Proofs.Editing.Passes
import SourceMigration.Proofs.Editing.Patterns
import SourceMigration.Proofs.Recipe.Migrated
import SourceMigration.Proofs.Tree.Recast

/-!
# SourceMigration — calls under a new name

A renaming goes through the whole tree, but all it does is done at single calls: where the method of a
call has the declaring type, the name and, unless any number will do, the number of arguments that the
pattern asks for, the token of the call is respelled and the method gets the new name. Calls that denote
no method stay, like everything else. A call so renamed is not selected again, if the name is another.

## Results

* `renames_exactly` — all that a renaming does to a tree and to the journal.
-/

namespace SourceMigration

-- ---------------------------------------------------------------------------
-- Patterns
-- ---------------------------------------------------------------------------

namespace MethodPattern

/-- The methods that a pattern selects: those of its type and its name, and with as many arguments as
it asks for. -/
def Selects (p : MethodPattern) (m : MethodType) : Prop :=
  m.declaring = p.declaring ∧ m.name = p.name ∧ (p.arity = none ∨ p.arity = some m.arity)

instance (p : MethodPattern) (m : MethodType) : Decidable (p.Selects m) :=
  inferInstanceAs (Decidable (_ ∧ _ ∧ _))

theorem selects_iff (p : MethodPattern) (m : MethodType) :
    p.selects (some m) = true ↔ p.Selects m := by
  cases hArity : p.arity with
  | none => simp [selects, Selects, hArity]
  | some n => simp [selects, Selects, hArity, and_assoc]

/-- Whether a node is a call of a method that a pattern selects. -/
def picks (p : MethodPattern) : Node → Bool
  | .branch (.call (some m)) _ => decide (p.Selects m)
  | _ => false

end MethodPattern

-- ---------------------------------------------------------------------------
-- Calls
-- ---------------------------------------------------------------------------

namespace Pass

variable {pattern : MethodPattern} {newName : String} {n m : Node}

/-- What a renaming makes of a name or a call. -/
inductive Renamed (pattern : MethodPattern) (newName : String) : Node → Node → Prop where
  | name (t : Option TypeName) (cs : List (Field × Node)) :
      Renamed pattern newName (.branch (.name t) cs) (.branch (.name t) cs)
  | unattributed (cs : List (Field × Node)) :
      Renamed pattern newName (.branch (.call none) cs) (.branch (.call none) cs)
  | other {m : MethodType} (h : ¬ pattern.Selects m) (cs : List (Field × Node)) :
      Renamed pattern newName (.branch (.call (some m)) cs) (.branch (.call (some m)) cs)
  /-- Of the token only the spelling is another, and of the method only the name. -/
  | selected {m : MethodType} (h : pattern.Selects m) (t : Token) :
      Renamed pattern newName (.branch (.call (some m)) [(.callee, .token t)])
        (.branch (.call (some { m with name := newName })) [(.callee, .token (t.withText newName))])

theorem renamed_of_leaf {k : NodeKind} {cs : List (Field × Node)} (hk : k.isLeaf = true)
    (h : (Node.branch k cs).WellFormed) :
    Renamed pattern newName (.branch k cs) (renamedCall pattern newName (.branch k cs)) := by
  rcases exists_of_leaf hk h with ⟨t, ts, hEq⟩ | ⟨m, t, hEq⟩
  · rw [hEq]
    exact .name t _
  · rw [hEq, renamedCall_call]
    cases m with
    | none => exact .unattributed _
    | some m =>
      by_cases hSelects : pattern.Selects m
      · have hOne := (pattern.selects_iff m).mpr hSelects
        simp only [Option.map_some, renamedMethod, hOne, if_true]
        exact .selected hSelects t
      · have hNone := mt (pattern.selects_iff m).mp hSelects
        simp only [Option.map_some, renamedMethod, hNone]
        exact .other hSelects _

/-- A call is renamed if the pattern picks it. -/
theorem isSome_renameCall (h : n.WellFormed) :
    (renameCall? pattern newName n).isSome = pattern.picks n := by
  cases n with
  | token t => rfl
  | branch k cs =>
    cases k with
    | call method =>
      obtain ⟨t, rfl⟩ := h.exists_callee
      cases method with
      | none => rfl
      | some m =>
        by_cases hSelects : pattern.Selects m
        · simp [renameCall?, MethodPattern.picks, (pattern.selects_iff m).mpr hSelects, hSelects,
            Node.relabelled?, Node.tokenAt?, Node.field?, filed_cons]
        · simp [renameCall?, MethodPattern.picks, mt (pattern.selects_iff m).mp hSelects, hSelects]
    | _ => rfl

/-- What has been renamed is not picked again, if the new name is another. -/
theorem not_picks_of_renamed (hOther : newName ≠ pattern.name) (h : Renamed pattern newName n m) :
    pattern.picks m = false := by
  cases h with
  | name | unattributed => rfl
  | other hNot => simpa [MethodPattern.picks] using hNot
  | selected hSelects t => simp [MethodPattern.picks, MethodPattern.Selects, hOther]

-- ---------------------------------------------------------------------------
-- Trees
-- ---------------------------------------------------------------------------

/-- What a renaming makes of a tree, and how many calls it counts. -/
theorem renameCalls_eq (h : n.WellFormed) : renameCalls pattern newName n =
    (n.mapLeaves (renamedCall pattern newName), n.walk.countP pattern.picks) := by
  refine Prod.ext (Node.replaceAll_visited (onlyLeaves_rename pattern newName) h fun _ _ _ => rfl) ?_
  refine (Node.count_replaceAll (onlyLeaves_rename pattern newName) h fun _ _ _ => rfl).trans ?_
  refine List.countP_congr fun m hm => ?_
  rw [isSome_renameCall (h.walk m hm)]

/-- Where no call is picked, the tree stays as it is. -/
theorem mapLeaves_of_not_picked (h : n.WellFormed) (hNone : ∀ m ∈ n.walk, pattern.picks m = false) :
    n.mapLeaves (renamedCall pattern newName) = n := by
  have hRun : (n.replaceAll (fun _ => false) (renameCall? pattern newName)).1 =
      n.mapLeaves (renamedCall pattern newName) :=
    Node.replaceAll_visited (onlyLeaves_rename pattern newName) h fun _ _ _ => rfl
  refine hRun.symm.trans (Node.replaceAll_eq_self fun m hm => ?_)
  rw [← Option.not_isSome_iff_eq_none, isSome_renameCall (h.walk m hm), hNone m hm]
  simp

/-- No call of a renamed tree is picked, if the new name is another. -/
theorem not_picked_of_recast (hOther : newName ≠ pattern.name)
    (h : n.Recast (Renamed pattern newName) m) (hFine : m.WellFormed) :
    ∀ x ∈ m.walk, pattern.picks x = false := by
  refine h.forall_walk (fun t => rfl) (fun k cs hk => ?_) (fun a b hRenamed => ?_) hFine
  · cases k <;> first | rfl | cases hk
  · refine ⟨not_picks_of_renamed hOther hRenamed, ?_⟩
    cases hRenamed <;> exact ⟨_, _, rfl, rfl⟩

/-- A renaming changes the calls that its pattern selects and nothing else, counts them, and leaves
nothing to itself to do again, if the new name is another. -/
theorem renames_exactly {unit : Node} (hFine : unit.WellFormed) {source : String}
    (hPattern : MethodPattern.parse? source = some pattern) (newName : String) (j : Journal) :
    pattern.source = source ∧ pattern.Written ∧
      ∃ (result : Node) (count : Nat),
        unit.Recast (Renamed pattern newName) result ∧
        count = unit.walk.countP pattern.picks ∧
        (renameMethod pattern newName).run unit j = (⟨result, count != 0⟩,
          if count = 0 then j
          else j.log (·.mutation "MethodInvocation" source (newName ++ " (x" ++ toString count ++ ")"))) ∧
        (newName ≠ pattern.name → ∀ j' : Journal,
          (renameMethod pattern newName).run result j' = (⟨result, false⟩, j')) := by
  obtain ⟨hSource, hWritten⟩ := MethodPattern.written_of_parse hPattern
  have hRecast : unit.Recast (Renamed pattern newName)
      (unit.mapLeaves (renamedCall pattern newName)) :=
    Node.recast_mapLeaves hFine fun _ _ hk h => renamed_of_leaf hk h
  refine ⟨hSource, hWritten, _, _, hRecast, rfl, ?_, fun hOther j' => ?_⟩
  · simp only [run, renameCalls_eq hFine, hSource, timesMade]
  · have hResult : (unit.mapLeaves (renamedCall pattern newName)).WellFormed :=
      Node.wellFormed_mapLeaves (editsLeaves_rename pattern newName) hFine
    have hNone := not_picked_of_recast hOther hRecast hResult
    have hCount : (unit.mapLeaves (renamedCall pattern newName)).walk.countP pattern.picks = 0 :=
      List.countP_eq_zero.mpr fun x hx => by simp [hNone x hx]
    simp only [run, renameCalls_eq hResult, mapLeaves_of_not_picked hResult hNone, hCount]
    rfl

open Draft in
/-- Calls of one name: on a string in a method, in a function and in a nested class, and on what is not
known. -/
def trimming : Sample := .ofDraft (node "program" [
  classOf "A" none (braced "class_body" [
    methodOf voidType "f" [parameterOf (typeWord "String") "a", parameterOf (typeWord "U" " ") "b"]
      (braced "block" [
        asStatement (callOn (word "a" " ") "trim" []),
        asStatement (callOn (word "b" " ") "trim" []),
        asStatement (callOf "g" [functionOf (callOn (word "a" " ") "trim" [])] " "),
        asStatement (node "object_creation_expression" [sign "new" " ", under "type" (typeWord "B" " "),
          under "arguments" (argumentsOf []), braced "class_body" [
            methodOf voidType "h" [] (braced "block" [
              asStatement (callOn (word "a" " ") "trim" []),
              asStatement (callOf "trim" [] " ")])]])])])]) "\n"

/-- The text with the calls on the string renamed. -/
def stripping : String :=
  "class A \x7b void f(String a, U b) \x7b a.strip(); b.trim(); g(() -> a.strip()); " ++
    "new B() \x7b void h() \x7b a.strip(); trim(); \x7d \x7d; \x7d \x7d\n"

/-- The pattern of the calls on the string. -/
def trimPattern : MethodPattern :=
  ⟨"java.lang.String  trim( )", ⟨"java.lang.String"⟩, "trim", some 0⟩

set_option maxRecDepth 100000 in
theorem renames_exactly_trimming : ∃ unit result,
    trimming.resolved? ⟨defaultStubs⟩ = some unit ∧ unit.WellFormed ∧
    MethodPattern.parse? "java.lang.String  trim( )" = some trimPattern ∧
    unit.Recast (Renamed trimPattern "strip") result ∧ result.text = stripping ∧
    (renameMethod trimPattern "strip").run unit {} = (⟨result, true⟩, Journal.log {}
      (·.mutation "MethodInvocation" "java.lang.String  trim( )" "strip (x3)")) ∧
    (renameMethod trimPattern "strip").run result {} = (⟨result, false⟩, {}) := by
  have hPattern : MethodPattern.parse? "java.lang.String  trim( )" = some trimPattern := by
    decide +kernel
  have hSome : ((trimming.resolved? ⟨defaultStubs⟩).map fun unit =>
      (((renameMethod trimPattern "strip").run unit {}).1.node.text,
        unit.walk.countP trimPattern.picks)) = some (stripping, 3) := by
    decide +kernel
  obtain ⟨unit, hUnit, hSome⟩ := Option.map_eq_some_iff.mp hSome
  obtain ⟨hText, hThree⟩ := Prod.mk.inj hSome
  have hFine := (Sample.wellFormed_of_resolved (by decide +kernel) hUnit).1
  obtain ⟨-, -, result, count, hRecast, hCount, hRun, hAgain⟩ :=
    renames_exactly hFine hPattern "strip" {}
  rw [hThree] at hCount
  subst hCount
  rw [hRun] at hText
  exact ⟨unit, result, hUnit, hFine, hPattern, hRecast, hText, hRun, hAgain (by decide) {}⟩

end Pass

end SourceMigration
