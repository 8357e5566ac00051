import Mathlib.Data.List.Forall2
import SourceMigration.Proofs.Parsing.Elements

/-!
# SourceMigration — lists of arguments

A list of arguments becomes a run: the parentheses, and between them what the arguments become, with a comma
between each two. What an argument becomes closes all parentheses that it opens, and begins neither with a
comma nor with a parenthesis that closes the list. So the arguments can be told apart in the run, but for
commas of their own.

## Results

* `exists_of_isList` — what the list becomes behind the name of a call.
-/

namespace SourceMigration

/-- The arguments in a list of arguments. -/
def Concrete.arguments (n : Concrete) : List Concrete := n.parts.filter (·.info.isNamed)

/-- Runs with a comma between each two. -/
inductive Parted : List (List Node) → List Node → Prop where
  | last (run : List Node) : Parted [run] run
  | cons (run : List Node) {runs : List (List Node)} {comma : Node} {rest : List Node}
      (hComma : comma.isToken "," = true) (h : Parted runs rest) : Parted (run :: runs) (run ++ comma :: rest)

/-- A run that stands for one argument. -/
structure IsArgument (run : List Node) : Prop where
  ne_nil : run ≠ []
  level : openAfter? 0 run = some 0
  front : ∀ e ∈ run.head?, e.isToken "," = false

namespace TreeBuilder

variable {source : List Char} {root n c : Concrete} {ns : List Concrete}

/-- The elements that a node becomes somewhere in the text. -/
def Becomes (source : List Char) (n : Concrete) (es : List Node) : Prop :=
  ∃ offset stop, elements source n offset = some (es, stop)

/-- What some nodes become, each by itself. -/
def EachBecomes (source : List Char) (root : Concrete) : List Concrete → List (List Node) → Prop :=
  List.Forall₂ fun c run => Becomes source c run ∧ ∃ ts, Elements source root c run ts

theorem EachBecomes.append_inv {ms : List Concrete} {runs : List (List Node)}
    (h : EachBecomes source root (ns ++ ms) runs) :
    ∃ us vs, runs = us ++ vs ∧ EachBecomes source root ns us ∧ EachBecomes source root ms vs := by
  induction ns generalizing runs with
  | nil => exact ⟨[], runs, rfl, .nil, h⟩
  | cons c cs ih =>
    obtain ⟨run, others, hRun, hOthers, rfl⟩ := List.forall₂_cons_left_iff.mp h
    obtain ⟨us, vs, rfl, hUs, hVs⟩ := ih hOthers
    exact ⟨run :: us, vs, rfl, .cons hRun hUs, hVs⟩

theorem reads_each (h : ∀ c ∈ ns, Converts source root c) :
    Reads source (elementsOf source ns) (ns.flatMap Concrete.lexemes) fun es _ =>
      ∃ runs, es = runs.flatten ∧ EachBecomes source root ns runs := by
  induction ns with
  | nil =>
    rw [elementsOf]
    exact reads_pure ⟨[], rfl, .nil⟩
  | cons c cs ih =>
    rw [elementsOf, List.flatMap_cons]
    refine (h c List.mem_cons_self).elements.made.bind fun es ts hes =>
      (ih fun d hd => h d (List.mem_cons_of_mem _ hd)).bind_pure fun fs us hfs => ?_
    obtain ⟨hes, offset, stop, -, hMade⟩ := hes
    obtain ⟨runs, rfl, hRuns⟩ := hfs
    exact ⟨es :: runs, by rw [List.flatten_cons], .cons ⟨⟨offset, stop, hMade⟩, ts, hes⟩ hRuns⟩

/-- What an argument becomes. -/
theorem isArgument_of_elements {es : List Node} {ts : List Token} (hn : n.Regular)
    (hNamed : n.info.isNamed = true) (h : Elements source root n es ts) : IsArgument es := by
  -- a rule is named by a word, so the node is no sign
  have hNot (sign : String) (hSign : sign ∈ signs) : n.type ≠ sign := by
    rintro rfl
    rw [hn.isNamed_eq (of_mem_signs hSign).2] at hNamed
    cases hNamed
  refine ⟨h.ne_nil, h.level ?_, h.front (hNot "," (by simp [signs]))⟩
  simp [hNot "(" (by simp [signs]), hNot ")" (by simp [signs])]

/-- A sign of a list becomes one. -/
theorem exists_sign {es : List Node} {ts : List Token} (hType : n.type ∈ Concrete.listSigns)
    (h : Elements source root n es ts) : ∃ e, es = [e] ∧ e.isToken n.type = true := by
  obtain ⟨t, rfl, ht⟩ := h.sign hType
  exact ⟨_, rfl, spells_of_isSign ht⟩

/-- Arguments with commas become runs with commas, and there is one run for each argument. -/
theorem exists_parted (hRegular : ∀ c ∈ ns, c.Regular) (hCommas : Concrete.alternates ns = true)
    {runs : List (List Node)} (h : EachBecomes source root ns runs) :
    ∃ arguments, Parted arguments runs.flatten ∧
      List.Forall₂ (Becomes source) (ns.filter (·.info.isNamed)) arguments ∧
      ∀ a ∈ arguments, IsArgument a := by
  induction ns using Concrete.alternates.induct generalizing runs with
  | case1 argument =>
    obtain ⟨run, others, ⟨hMade, ts, hRun⟩, hNil, rfl⟩ := List.forall₂_cons_left_iff.mp h
    obtain rfl := List.forall₂_nil_left_iff.mp hNil
    have hNamed : argument.info.isNamed = true := hCommas
    refine ⟨[run], by simpa using Parted.last run, by simpa [hNamed] using hMade, ?_⟩
    simpa using isArgument_of_elements (hRegular argument (by simp)) hNamed hRun
  | case2 argument comma rest ih =>
    obtain ⟨run, _, ⟨hMade, ts, hRun⟩, hMore, rfl⟩ := List.forall₂_cons_left_iff.mp h
    obtain ⟨es, others, ⟨-, us, hComma⟩, hOthers, rfl⟩ := List.forall₂_cons_left_iff.mp hMore
    simp only [Concrete.alternates, Bool.and_eq_true, beq_iff_eq] at hCommas
    obtain ⟨⟨hNamed, hType⟩, hRest⟩ := hCommas
    obtain ⟨e, rfl, he⟩ := exists_sign (by simp [hType, Concrete.listSigns]) hComma
    obtain ⟨arguments, hParted, hEach, hArguments⟩ :=
      ih (fun c hc => hRegular c (by simp [hc])) hRest hOthers
    have hSign : comma.info.isNamed = false :=
      (hRegular comma (by simp)).isNamed_eq (of_mem_signs (by simp [hType, signs])).2
    refine ⟨run :: arguments, ?_, ?_, ?_⟩
    · simpa using Parted.cons run (hType ▸ he) hParted
    · simpa [hNamed, hSign] using ⟨hMade, hEach⟩
    · have hFirst := isArgument_of_elements (hRegular argument (by simp)) hNamed hRun
      exact List.forall_mem_cons.mpr ⟨hFirst, hArguments⟩
  | case3 => cases hCommas

/-- What a list of arguments becomes: parentheses, and between them nothing or what the arguments become, with
commas. -/
theorem exists_of_isList (hRegular : ∀ m ∈ root.inside, m.Regular) {list : List Node}
    (h : IsList source root list) :
    ∃ n ∈ root.inside, n.type = "argument_list" ∧ Becomes source n list ∧
      ∃ opening closing run runs, list = opening :: (run ++ [closing]) ∧ opening.isToken "(" = true ∧
        closing.isToken ")" = true ∧ (runs = [] ∧ run = [] ∨ Parted runs run) ∧
        List.Forall₂ (Becomes source) n.arguments runs ∧ ∀ a ∈ runs, IsArgument a := by
  obtain ⟨n, hn, hType, offset, ts, stop, hTaken, hMade⟩ := h
  refine ⟨n, hn, hType, ⟨offset, stop, hMade⟩, ?_⟩
  obtain ⟨opening, closing, hParts, hOpen, hClose, hInner⟩ := (hRegular n hn).arguments hType
  have hIn : ∀ c ∈ n.parts, c.Regular := fun c hc => hRegular c (Concrete.mem_inside_of_parts hn hc)
  have hComment : n.isComment = false := by rw [Concrete.isComment, hType]; rfl
  have hPlain : (n.isLeaf || atomicTypes.contains n.type) = false := by
    rw [Concrete.isLeaf_of_parts (by simp [hParts]), hType]
    rfl
  have hBraced : Concrete.areBraced n.parts = false := by
    rw [hParts, Concrete.areBraced]
    simp [hOpen]
  -- the list has no form of its own
  have hEq : elements source n = elementsOf source n.parts := by
    rw [elements_eq hComment (by rw [hType]; rfl) hPlain (by simp [hType]), hBraced, hType]
    rfl
  have hEach : ∀ c ∈ n.parts, Converts source root c := fun c hc =>
    converts hRegular (Concrete.mem_inside_of_parts hn hc) (Concrete.isComment_of_mem_parts hc)
  have hReads := reads_each hEach
  rw [← Concrete.lexemes_eq_parts hComment hPlain, ← hEq] at hReads
  obtain ⟨es, hes, runs, rfl, hEach⟩ := hReads offset ts stop hTaken
  obtain rfl : runs.flatten = list := (Prod.mk.inj (Option.some.inj (hes.symm.trans hMade))).1
  rw [hParts] at hEach
  obtain ⟨opened, _, ⟨-, _, hOpened⟩, hMore, rfl⟩ := List.forall₂_cons_left_iff.mp hEach
  obtain ⟨between, _, rfl, hBetween, hLast⟩ := EachBecomes.append_inv hMore
  obtain ⟨closed, _, ⟨-, _, hClosed⟩, hNil, rfl⟩ := List.forall₂_cons_left_iff.mp hLast
  obtain rfl := List.forall₂_nil_left_iff.mp hNil
  obtain ⟨o, rfl, ho⟩ := exists_sign (by simp [hOpen, Concrete.listSigns]) hOpened
  obtain ⟨c, rfl, hc⟩ := exists_sign (by simp [hClose, Concrete.listSigns]) hClosed
  have hSign {m : Concrete} (hm : m ∈ n.parts) (hType : m.type ∈ signs) : m.info.isNamed = false :=
    (hIn m hm).isNamed_eq (of_mem_signs hType).2
  have hArguments : n.arguments = n.inner.filter (·.info.isNamed) := by
    rw [Concrete.arguments, hParts]
    simp [hSign (m := opening) (by simp [hParts]) (by simp [hOpen, signs]),
      hSign (m := closing) (by simp [hParts]) (by simp [hClose, signs])]
  rw [hOpen] at ho
  rw [hClose] at hc
  refine ⟨o, c, between.flatten, ?_⟩
  rcases hInner with hInner | hInner
  · rw [hInner] at hBetween
    obtain rfl := List.forall₂_nil_left_iff.mp hBetween
    exact ⟨[], by simp, ho, hc, Or.inl ⟨rfl, rfl⟩, by simp [hArguments, hInner], by simp⟩
  · obtain ⟨runs, hParted, hRuns, hEach⟩ :=
      exists_parted (fun c hc => hIn c (by simp [hParts, hc])) hInner hBetween
    exact ⟨runs, by simp, ho, hc, Or.inr hParted, hArguments ▸ hRuns, hEach⟩

end TreeBuilder

end SourceMigration
