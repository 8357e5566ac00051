import SourceMigration.Parsing.TreeBuilder
import SourceMigration.Proofs.Tree.Fresh
import SourceMigration.Proofs.Typing.Balanced

/-!
# SourceMigration — runs as the conversion makes them

The conversion makes runs of nodes and files them under the fields of a node. What is asked of the tree in
the end is asked of every run on the way: its nodes are sturdy and denote nothing, each is of a form that
may stand there, and behind each call stands a list of arguments.

## Results

* `Run.append`         — runs are put together.
* `solid_branch`       — runs that fill the slots of a node make a solid node.
-/

namespace SourceMigration

open TreeBuilder (fileUnder)

-- ---------------------------------------------------------------------------
-- Calls with arguments
-- ---------------------------------------------------------------------------

/-- Right behind every call of a run stands what counts as a list of arguments. -/
def Argued (isList : List Node → Prop) (run : List Node) : Prop :=
  ∀ front m ds back, run = front ++ .branch (.call m) ds :: back → ∃ list, isList list ∧ list <+: back

section Calls

variable {isList : List Node → Prop} {run rest : List Node}

theorem argued_of_forms (h : ∀ e ∈ run, e.form ≠ .call) : Argued isList run := by
  rintro front m ds back rfl
  exact absurd rfl (h (.branch (.call m) ds) (by simp))

theorem Argued.append (h : Argued isList run) (h' : Argued isList rest) : Argued isList (run ++ rest) := by
  intro front m ds back hEq
  rcases List.append_eq_append_iff.mp hEq with ⟨mid, rfl, hRest⟩ | ⟨mid, hRun, hMid⟩
  · exact h' mid m ds back hRest
  · cases mid with
    | nil => exact h' [] m ds back hMid.symm
    | cons e mid =>
      obtain ⟨rfl, rfl⟩ := List.cons.inj hMid
      obtain ⟨list, hList, hPrefix⟩ := h front m ds mid hRun
      exact ⟨list, hList, hPrefix.trans (List.prefix_append _ _)⟩

/-- A call with its list of arguments. -/
theorem argued_call {m : Option MethodType} {ds : List (Field × Node)} (hList : isList rest)
    (h : Argued isList rest) : Argued isList (.branch (.call m) ds :: rest) := by
  intro front m' ds' back hEq
  cases front with
  | nil =>
    obtain ⟨-, rfl⟩ := List.cons.inj hEq
    exact ⟨rest, hList, List.prefix_refl _⟩
  | cons e front =>
    obtain ⟨-, rfl⟩ := List.cons.inj hEq
    exact h front m' ds' back rfl

end Calls

/-- In the runs of a tree, right behind every call stands what counts as a list of arguments. -/
inductive Node.Argued (isList : List Node → Prop) : Node → Prop where
  | token (t : Token) : Argued isList (.token t)
  | branch {k : NodeKind} {cs : List (Field × Node)}
      (hCalls : SourceMigration.Argued isList (cs.map Prod.snd)) (hChildren : ∀ c ∈ cs, Argued isList c.2) :
      Argued isList (.branch k cs)

theorem Node.Argued.child {isList : List Node → Prop} {k : NodeKind} {cs : List (Field × Node)}
    (h : Argued isList (.branch k cs)) {c : Field × Node} (hc : c ∈ cs) : c.2.Argued isList := by
  cases h with
  | branch _ hChildren => exact hChildren c hc

-- ---------------------------------------------------------------------------
-- Solid nodes and runs
-- ---------------------------------------------------------------------------

/-- What the conversion makes. -/
structure Node.Solid (isList : List Node → Prop) (n : Node) : Prop where
  sturdy : n.Sturdy
  bare : n.Bare
  argued : n.Argued isList

/-- What the conversion puts one after another. -/
structure Run (isList : List Node → Prop) (forms : List Form) (run : List Node) : Prop where
  solid : ∀ e ∈ run, e.Solid isList
  forms : ∀ e ∈ run, e.form ∈ forms
  argued : Argued isList run

section Solid

variable {isList : List Node → Prop} {forms forms' : List Form} {run rest : List Node}

theorem solid_token (t : Token) : (Node.token t).Solid isList := ⟨.token t, .token t, .token t⟩

/-- A node is solid if its children are and fill its slots. -/
theorem solid_branch {k : NodeKind} {cs : List (Field × Node)} (hk : k.form ≠ .name) (hBare : k.isBare = true)
    (hFills : Fills k.slots (cs.map tag) []) (hIntact : k.Intact cs)
    (hArgued : Argued isList (cs.map Prod.snd))
    (hChildren : ∀ c ∈ cs, c.2.Solid isList) : (Node.branch k cs).Solid isList where
  sturdy := .plain hk hFills hIntact fun c hc => (hChildren c hc).sturdy
  bare := .branch hBare fun c hc => (hChildren c hc).bare
  argued := .branch hArgued fun c hc => (hChildren c hc).argued

/-- A chain of tokens is a solid name. -/
theorem solid_name {ts : List Token} (h : Chain ts) : (Node.nameOf none ts).Solid isList where
  sturdy := Node.sturdy_nameOf h (by simp)
  bare := .branch rfl fun c hc => by
    obtain ⟨t, -, rfl⟩ := List.mem_map.mp hc
    exact .token t
  argued := by
    refine .branch (argued_of_forms fun e he => ?_) fun c hc => ?_
    · obtain ⟨c, hc, rfl⟩ := List.mem_map.mp he
      obtain ⟨t, -, rfl⟩ := List.mem_map.mp hc
      simp [Node.form]
    · obtain ⟨t, -, rfl⟩ := List.mem_map.mp hc
      exact .token t

theorem run_nil : Run isList forms [] := ⟨by simp, by simp, argued_of_forms (by simp)⟩

theorem Run.append (h : Run isList forms run) (h' : Run isList forms rest) :
    Run isList forms (run ++ rest) where
  solid := List.forall_mem_append.mpr ⟨h.solid, h'.solid⟩
  forms := List.forall_mem_append.mpr ⟨h.forms, h'.forms⟩
  argued := h.argued.append h'.argued

/-- A run of one node that is no call. -/
theorem run_single {e : Node} (h : e.Solid isList) (hForm : e.form ∈ forms) (hCall : e.form ≠ .call) :
    Run isList forms [e] :=
  ⟨by simpa using h, by simpa using hForm, argued_of_forms (by simpa using hCall)⟩

/-- Some nodes that are no calls. -/
theorem run_of_forall (h : ∀ e ∈ run, e.Solid isList ∧ e.form ∈ forms) (hCall : Form.call ∉ forms) :
    Run isList forms run :=
  ⟨fun e he => (h e he).1, fun e he => (h e he).2,
    argued_of_forms fun e he hEq => hCall (hEq ▸ (h e he).2)⟩

-- ---------------------------------------------------------------------------
-- Runs under fields
-- ---------------------------------------------------------------------------

theorem map_snd_fileUnder (f : Field) (run : List Node) : (fileUnder f run).map Prod.snd = run := by
  simp [fileUnder, Function.comp_def]

theorem tokensOf_append (cs ds : List (Field × Node)) :
    Node.tokensOf (cs ++ ds) = Node.tokensOf cs ++ Node.tokensOf ds := by
  simp [Node.tokensOf_eq]

theorem tokensOf_fileUnder (f : Field) (run : List Node) :
    Node.tokensOf (fileUnder f run) = run.flatMap Node.tokens := by
  simp [Node.tokensOf_eq, fileUnder, List.flatMap_map]

theorem filed_fileUnder (f g : Field) (run : List Node) :
    filed f (fileUnder g run) = if g = f then run else [] := filed_map f g run

theorem tags_fileUnder (hForms : ∀ e ∈ run, e.form ∈ forms) (f : Field) :
    ∀ t ∈ (fileUnder f run).map tag, t.1 = f ∧ t.2 ∈ forms := by
  intro t ht
  obtain ⟨c, hc, rfl⟩ := List.mem_map.mp ht
  obtain ⟨e, he, rfl⟩ := List.mem_map.mp hc
  exact ⟨rfl, hForms e he⟩

/-- A run stands in a slot that takes any number. -/
theorem Run.fills {s : Slot} {ss : List Slot} (h : Run isList s.forms run) (hMany : s.multiplicity = .many) :
    Fills (s :: ss) ((fileUnder s.field run).map tag) ss := by
  have hAll : Fills (s :: ss) _ (s :: ss) := fills_many hMany (tags_fileUnder h.forms s.field)
  simpa using hAll.append (.skip (by simp [hMany]) (.refl ss))

theorem fills_one {s : Slot} {ss : List Slot} {e : Node} (hForm : e.form ∈ s.forms)
    (hOne : s.multiplicity ≠ .many) : Fills (s :: ss) ((fileUnder s.field [e]).map tag) ss :=
  .single hOne hForm (.refl ss)

/-- At most one node stands in a slot that may stay empty. -/
theorem fills_optional {s : Slot} {ss : List Slot} {o : Option Node} (hForm : ∀ e ∈ o, e.form ∈ s.forms)
    (hOptional : s.multiplicity = .optional) : Fills (s :: ss) ((fileUnder s.field o.toList).map tag) ss := by
  cases o with
  | none => exact .skip (by simp [hOptional]) (.refl ss)
  | some e => exact fills_one (hForm e rfl) (by simp [hOptional])

theorem solid_fileUnder (h : ∀ e ∈ run, e.Solid isList) (f : Field) :
    ∀ c ∈ fileUnder f run, c.2.Solid isList := by
  intro c hc
  obtain ⟨e, he, rfl⟩ := List.mem_map.mp hc
  exact h e he

end Solid

end SourceMigration
