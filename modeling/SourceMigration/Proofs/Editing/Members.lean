import Mathlib.Data.List.TakeWhile
import SourceMigration.Editing.MemberTable
import SourceMigration.Proofs.Tree.Leaves

/-!
# SourceMigration — what the member table leaves of a body

The table goes through the members with the survivors so far and the blanks it still has to hand
on. What comes out does not depend on the way there: the survivors are the members with their
outcomes, in order, and only if the very first member is dropped does the first survivor stand
after other blanks.

## Results

* `survivors_eq`      — the survivors are the outcomes of the members.
* `apply_body`        — applying the table to a body settles its members and nothing else.
* `settled_members`   — what is left of the members are well-formed members.
-/

namespace SourceMigration

namespace Text

theorem isBlank_of_mem_leadingBlankChars {cs : List Char} :
    ∀ c ∈ leadingBlankChars cs, isBlank c = true := fun _ hc => List.mem_takeWhile_imp hc

/-- Other blanks before a text do not change what comes after its blanks. -/
theorem dropBlank_respaced (l m : String) :
    dropBlank (leadingBlank l ++ dropBlank m) = dropBlank m := by
  unfold dropBlank leadingBlank
  rw [String.toList_append, String.toList_ofList, String.toList_ofList]
  congr 1
  unfold dropBlankChars
  rw [List.dropWhile_append_of_pos isBlank_of_mem_leadingBlankChars]
  induction m.toList with
  | nil => rfl
  | cons c cs ih =>
    by_cases hc : isBlank c = true
    · rw [List.dropWhile_cons_of_pos hc, ih]
    · rw [List.dropWhile_cons_of_neg hc, List.dropWhile_cons_of_neg hc]

/-- Blanks before a text without any are its blanks. -/
theorem leadingBlank_respaced (l m : String) :
    leadingBlank (leadingBlank l ++ dropBlank m) = leadingBlank l := by
  unfold leadingBlank dropBlank
  rw [String.toList_append, String.toList_ofList, String.toList_ofList]
  congr 1
  conv_lhs => rw [leadingBlankChars]
  rw [List.takeWhile_append_of_pos isBlank_of_mem_leadingBlankChars, dropBlankChars]
  have hRest : (m.toList.dropWhile isBlank).takeWhile isBlank = [] := by
    cases hDrop : m.toList.dropWhile isBlank with
    | nil => rfl
    | cons c cs =>
      have hHead := List.head?_dropWhile_not isBlank m.toList
      rw [hDrop] at hHead
      exact List.takeWhile_cons_of_neg (by simpa using hHead)
  rw [hRest, List.append_nil]

end Text

/-- A part of a run that notes nothing but changes of methods. -/
inductive Trace.NotesMethods (t : Trace) : Trace → Prop
  | refl : NotesMethods t t
  | method {u : Trace} (h : NotesMethods t u) (before after : String) :
      NotesMethods t (u.mutation "MethodDeclaration" before after)

theorem Trace.NotesMethods.trans {t u v : Trace} (h : NotesMethods t u) (h' : NotesMethods u v) :
    NotesMethods t v := by
  induction h' with
  | refl => exact h
  | method _ before after ih => exact .method ih before after

namespace MemberTable

variable (table : MemberTable)

/-- What is left of a member, if anything is. -/
def outcome (m : Node) : Option Node :=
  match table.decide m with
  | .keep => some m
  | .rename new => some ((m.relabelled? new).getD m)
  | .drop => none

/-- The blanks before a member that is dropped. -/
def handedOn? (m : Node) : Option String :=
  if table.decide m = .drop then some (Text.leadingBlank m.leading) else none

/-- The first of some survivors after the blanks handed on to it, if any are. -/
def adopt : Option String → List Node → List Node
  | none, ns => ns
  | some blanks, ns =>
    ns.modifyHead fun s => s.withLeading (blanks ++ Text.dropBlank s.leading)

/-- What is left of the members of a body. -/
def settled (ms : List Node) : List Node :=
  adopt (ms.head?.bind table.handedOn?) (ms.filterMap table.outcome)

theorem outcome_eq_none_iff {m : Node} : table.outcome m = none ↔ table.decide m = .drop := by
  unfold outcome
  cases table.decide m <;> simp

/-- Once a member has survived, nothing is handed on any more. -/
theorem survivors_of_kept (inherited : Option String) {kept : List Node} (hKept : kept ≠ [])
    (ms : List Node) (trace : Trace) :
    (table.survivors inherited kept ms trace).1 = kept ++ ms.filterMap table.outcome := by
  induction ms generalizing inherited kept trace with
  | nil => simp [survivors]
  | cons m ms ih =>
    obtain ⟨k, ks, rfl⟩ := List.exists_cons_of_ne_nil hKept
    rw [survivors]
    cases hDecide : table.decide m with
    | keep =>
      simp only
      rw [ih inherited (by simp)]
      simp [outcome, hDecide]
    | rename new =>
      simp only
      rw [ih inherited (by simp)]
      simp [outcome, hDecide]
    | drop =>
      simp only [List.isEmpty_cons, Bool.false_eq_true, if_false]
      rw [ih inherited (by simp)]
      simp [outcome, hDecide]

/-- Before a member has survived, the first blanks of all are handed on. -/
theorem survivors_of_none (inherited : Option String) (ms : List Node) (trace : Trace) :
    (table.survivors inherited [] ms trace).1 =
      adopt (inherited <|> ms.head?.bind table.handedOn?) (ms.filterMap table.outcome) := by
  induction ms generalizing inherited trace with
  | nil => cases inherited <;> rfl
  | cons m ms ih =>
    rw [survivors]
    cases hDecide : table.decide m with
    | keep =>
      simp only [List.nil_append]
      rw [table.survivors_of_kept inherited (by simp)]
      cases inherited <;> simp [adopt, outcome, handedOn?, hDecide]
    | rename new =>
      simp only [List.nil_append]
      rw [table.survivors_of_kept inherited (by simp)]
      cases inherited <;> simp [adopt, outcome, handedOn?, hDecide]
    | drop =>
      simp only [List.isEmpty_nil, if_true]
      rw [ih]
      cases inherited <;> simp [outcome, handedOn?, hDecide]

/-- The survivors are the outcomes of the members. -/
theorem survivors_eq (ms : List Node) (trace : Trace) :
    (table.survivors none [] ms trace).1 = table.settled ms := by
  rw [survivors_of_none]
  rfl

/-- The trace is written, never read. -/
theorem apply_trace (body : Node) (trace trace' : Trace) :
    (table.apply body trace).1 = (table.apply body trace').1 := by
  unfold apply
  simp only
  split
  · rfl
  · simp only [table.survivors_eq]

theorem notesMethods_survivors (inherited : Option String) (kept members : List Node)
    (trace : Trace) :
    trace.NotesMethods (table.survivors inherited kept members trace).2 := by
  induction members generalizing inherited kept trace with
  | nil => exact .refl
  | cons m ms ih =>
    unfold survivors
    cases table.decide m with
    | keep => exact ih _ _ _
    | rename new => exact (Trace.NotesMethods.refl.method _ _).trans (ih _ _ _)
    | drop => exact (Trace.NotesMethods.refl.method _ _).trans (ih _ _ _)

/-- Applying the table notes nothing but changes of methods. -/
theorem notesMethods_apply (body : Node) (trace : Trace) :
    trace.NotesMethods (table.apply body trace).2.2 := by
  unfold apply
  simp only
  split
  · exact .refl
  · exact table.notesMethods_survivors _ _ _ _

/-- Members that are all kept are left as they are. -/
theorem settled_of_keep {ms : List Node} (h : ∀ m ∈ ms, table.decide m = .keep) :
    table.settled ms = ms := by
  have hOutcomes : ms.filterMap table.outcome = ms := by
    rw [List.filterMap_congr (g := some) fun m hm => by rw [outcome, h m hm]]
    exact List.filterMap_some
  have hHead : ms.head?.bind table.handedOn? = none := by
    cases ms with
    | nil => rfl
    | cons m ms => simp [handedOn?, h m List.mem_cons_self]
  rw [settled, hHead, hOutcomes]
  rfl

/-- Applying the table to a body settles its members and changes nothing else. -/
theorem apply_bodyOf (opening closing : Token) (ms : List Node) (trace : Trace) :
    (table.apply (Node.bodyOf opening ms closing) trace).1 =
      Node.bodyOf opening (table.settled ms) closing := by
  rw [apply, Node.members_bodyOf]
  simp only
  split
  · rename_i hAll
    have hKeep : ∀ m ∈ ms, table.decide m = .keep := by simpa using hAll
    rw [table.settled_of_keep hKeep]
  · have hOpening : (Node.bodyOf opening ms closing).children.filter (fun c => c.1 = .opening) =
        [(.opening, .token opening)] := by
      simp [Node.bodyOf, Node.children, List.filter_map]
    have hClosing : (Node.bodyOf opening ms closing).children.filter (fun c => c.1 = .closing) =
        [(.closing, .token closing)] := by
      simp [Node.bodyOf, Node.children, List.filter_map]
    rw [hOpening, hClosing]
    simp only [table.survivors_eq, Node.bodyOf, List.singleton_append]
    rfl

/-- Applying the table to the body of a class settles the members of the class. -/
theorem apply_body (p : ClassParts) (trace : Trace) :
    (table.apply p.body trace).1 = { p with members := table.settled p.members }.body :=
  table.apply_bodyOf p.opening p.closing p.members trace

/-- Only methods are dropped or renamed. -/
theorem exists_method_of_decide {m : Node} (h : table.decide m ≠ .keep) :
    ∃ cs, m = .branch .method cs := by
  unfold decide at h
  split at h
  · exact ⟨_, rfl⟩
  · exact absurd rfl h

/-- What is left of a renamed method: another spelling of its name, and all else. -/
theorem outcome_of_rename {m : Node} {new : String} (hFine : m.WellFormed)
    (h : table.decide m = .rename new) : ∃ front t back,
      m = .branch .method (front ++ (.name, .token t) :: back) ∧
      filed .name (front ++ (.name, .token t) :: back) = [.token t] ∧
      table.outcome m =
        some (.branch .method (front ++ (.name, .token (t.withText new)) :: back)) := by
  obtain ⟨cs, rfl⟩ := table.exists_method_of_decide (by rw [h]; simp)
  obtain ⟨t, ht⟩ := hFine.exists_filed_token (f := .name) (by simp [NodeKind.slots])
  obtain ⟨front, back, rfl, hReplace⟩ := exists_split_of_filed ht
  refine ⟨front, t, back, rfl, ht, ?_⟩
  rw [outcome, h]
  simp [Node.relabelled?, Node.tokenAt?, Node.field?, ht, Node.setField, hReplace]

/-- An outcome is a member as before. -/
theorem outcome_member {m n : Node} (h : table.outcome m = some n)
    (hm : m.form ∈ memberForms ∧ m.WellFormed) : n.form ∈ memberForms ∧ n.WellFormed := by
  cases hDecide : table.decide m with
  | keep =>
    rw [outcome, hDecide] at h
    exact Option.some.inj h ▸ hm
  | drop =>
    rw [outcome, hDecide] at h
    cases h
  | rename new =>
    obtain ⟨front, t, back, rfl, -, hOutcome⟩ := table.outcome_of_rename hm.2 hDecide
    obtain rfl := Option.some.inj (hOutcome.symm.trans h)
    refine ⟨by simp [Node.form, NodeKind.form, memberForms], .branch ?_ ?_⟩
    · simpa [tag, Node.form] using hm.2.fills
    · intro c hc
      simp only [List.mem_append, List.mem_cons] at hc
      rcases hc with hc | rfl | hc
      · exact hm.2.child (List.mem_append_left _ hc)
      · exact .token _
      · exact hm.2.child (List.mem_append_right _ (List.mem_cons_of_mem _ hc))

/-- What is left of some members is the outcome of one of them, perhaps after other blanks. -/
theorem exists_outcome_of_settled {ms : List Node} {n : Node} (h : n ∈ table.settled ms) :
    ∃ m ∈ ms, ∃ s l, table.outcome m = some s ∧ n = s.withLeading l := by
  have hSome : ∀ s ∈ ms.filterMap table.outcome, ∀ l,
      ∃ m ∈ ms, ∃ s' l', table.outcome m = some s' ∧ s.withLeading l = s'.withLeading l' := by
    intro s hs l
    obtain ⟨m, hm, hOutcome⟩ := List.mem_filterMap.mp hs
    exact ⟨m, hm, s, l, hOutcome, rfl⟩
  unfold settled at h
  generalize ms.filterMap table.outcome = ns at hSome h
  have hSame {s : Node} (hs : s ∈ ns) :
      ∃ m ∈ ms, ∃ s' l, table.outcome m = some s' ∧ s = s'.withLeading l := by
    obtain ⟨l, hl⟩ := s.exists_withLeading_eq_self
    obtain ⟨m, hm, s', l', hOutcome, hEq⟩ := hSome s hs l
    exact ⟨m, hm, s', l', hOutcome, hl.symm.trans hEq⟩
  cases hBlanks : ms.head?.bind table.handedOn? with
  | none =>
    rw [hBlanks] at h
    exact hSame h
  | some blanks =>
    rw [hBlanks] at h
    cases ns with
    | nil => cases h
    | cons s ns =>
      rcases List.mem_cons.mp h with rfl | h
      · exact hSome s List.mem_cons_self _
      · exact hSame (List.mem_cons_of_mem _ h)

/-- The name of a method is that of the only token in its field. -/
theorem declaredName_respelled {front back : List (Field × Node)} {t : Token}
    (h : filed .name (front ++ (.name, .token t) :: back) = [.token t]) (u : Token) :
    (Node.branch .method (front ++ (.name, .token u) :: back)).declaredName = u.text := by
  have hFront : filed .name front = [] := by
    have hLength := congrArg List.length h
    simp only [filed_append, filed_cons, if_true, List.length_append, List.length_cons,
      List.length_nil] at hLength
    exact List.length_eq_zero_iff.mp (by omega)
  simp [Node.declaredName, Node.tokenAt?, Node.field?, filed_cons, hFront]

variable {table} in
/-- A method that is left of some members has been kept under its name or has got its name. -/
theorem exists_decision_of_settled {ms : List Node}
    (h : ∀ m ∈ ms, m.form ∈ memberForms ∧ m.WellFormed) {n : Node} (hn : n ∈ table.settled ms)
    (hForm : n.form = .method) :
    ∃ m ∈ ms, m.form = .method ∧
      (table.decide m = .keep ∧ n.declaredName = m.declaredName ∨
        table.decide m = .rename n.declaredName) := by
  obtain ⟨m, hm, s, l, hOutcome, rfl⟩ := table.exists_outcome_of_settled hn
  rw [Node.form_withLeading] at hForm
  rw [Node.declaredName_withLeading]
  refine ⟨m, hm, ?_⟩
  cases hDecide : table.decide m with
  | keep =>
    rw [outcome, hDecide] at hOutcome
    obtain rfl := Option.some.inj hOutcome
    exact ⟨hForm, Or.inl ⟨rfl, rfl⟩⟩
  | drop =>
    rw [outcome, hDecide] at hOutcome
    cases hOutcome
  | rename new =>
    obtain ⟨front, t, back, rfl, hName, hRenamed⟩ := table.outcome_of_rename (h m hm).2 hDecide
    obtain rfl := Option.some.inj (hRenamed.symm.trans hOutcome)
    have hNew := declaredName_respelled hName (t.withText new)
    exact ⟨rfl, Or.inr (congrArg MemberDecision.rename hNew.symm)⟩

/-- What is left of the members are members. -/
theorem settled_members {ms : List Node} (h : ∀ m ∈ ms, m.form ∈ memberForms ∧ m.WellFormed) :
    ∀ m ∈ table.settled ms, m.form ∈ memberForms ∧ m.WellFormed := by
  intro n hn
  obtain ⟨m, hm, s, l, hOutcome, rfl⟩ := table.exists_outcome_of_settled hn
  obtain ⟨hForm, hFine⟩ := table.outcome_member hOutcome (h m hm)
  exact ⟨by simpa using hForm, hFine.withLeading l⟩

/-- The name of a method does not depend on what else is in it. -/
theorem declaredName_descends {g : Node → Node} (hg : Descends g) {cs : List (Field × Node)}
    (h : (Node.branch .method cs).WellFormed) :
    (g (.branch .method cs)).declaredName = (Node.branch .method cs).declaredName := by
  obtain ⟨t, ht⟩ := h.exists_filed_token (f := .name) (by simp [NodeKind.slots])
  rw [hg.branch .method cs rfl (by simp)]
  simp [Node.declaredName, Node.tokenAt?, Node.field?, filed_map_snd, ht, hg.token]

/-- A decision depends on the name of a method and on whether its body has statements, not on what
they are. -/
theorem decide_descends {g : Node → Node} (hg : Descends g) {m : Node} (h : m.WellFormed) :
    table.decide (g m) = table.decide m := by
  by_cases hForm : m.form = .method
  · obtain ⟨cs, rfl⟩ := Node.exists_children (k := .method) rfl hForm
    have hName := declaredName_descends hg h
    have hBody : hasEmptyBody (g (.branch .method cs)) = hasEmptyBody (.branch .method cs) := by
      obtain ⟨hAdmits, hForms⟩ :=
        h.fieldwise.2 ⟨.body, .optional, [.block]⟩ (by simp [NodeKind.slots])
      obtain ⟨body, hBody⟩ := exists_of_admits_optional hAdmits
      rw [hg.branch .method cs rfl (by simp)]
      simp only [hasEmptyBody, Node.field?, Node.field_branch, filed_map_snd, hBody]
      cases body with
      | none => rfl
      | some b =>
        have hBlock : b.form ∈ [Form.block] := (hForms b (by simp [hBody])).1
        obtain ⟨bs, rfl⟩ := Node.exists_children (k := .block) rfl (List.mem_singleton.mp hBlock)
        simp [hg.branch .block bs rfl (by simp), filed_map_snd]
    rw [hg.branch .method cs rfl (by simp)] at hName hBody ⊢
    simp only [decide, hName, hBody]
  · have hKeep {n : Node} (hn : n.form ≠ .method) : table.decide n = .keep := by
      by_contra hNot
      obtain ⟨cs, rfl⟩ := table.exists_method_of_decide hNot
      exact hn rfl
    rw [hKeep hForm, hKeep (by rw [hg.form]; exact hForm)]

end MemberTable

end SourceMigration
