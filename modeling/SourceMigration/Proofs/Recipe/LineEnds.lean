import SourceMigration.Proofs.Editing.NewImport
import SourceMigration.Proofs.Recipe.Composed

/-!
# SourceMigration — the line end that a text uses

A text uses line ends with a carriage return if there is one such line end in it. An import that is
written into the text comes with line ends of the kind that the text uses, before it or behind it, and
holds none itself. So the text uses the same line end afterwards, provided that no carriage return stands
right before a line end that is written.

## Results

* `breaks_append`         — where a line ends with a carriage return in two texts, one after the other.
* `lineEnd_of_ends`, `lineEnd_of_starts` — a line that is written into a text does not change its line end.
* `exists_chars_importOf` — what a new import writes.
-/

namespace SourceMigration

namespace Imports

-- ---------------------------------------------------------------------------
-- Line ends
-- ---------------------------------------------------------------------------

/-- Whether some line ends with a carriage return and a line feed. -/
def breaks : List Char → Bool
  | a :: b :: cs => (a == '\r' && b == '\n') || breaks (b :: cs)
  | _ => false

theorem any_zip_eq_breaks (cs : List Char) :
    ((cs.zip (cs.drop 1)).any fun (a, b) => a == '\r' && b == '\n') = breaks cs := by
  induction cs with
  | nil => rfl
  | cons a cs ih =>
    cases cs with
    | nil => rfl
    | cons b cs =>
      rw [breaks, ← ih]
      rfl

theorem lineEnd_eq (text : String) : lineEnd text = if breaks text.toList then "\r\n" else "\n" := by
  rw [← any_zip_eq_breaks]
  rfl

/-- Such a line end stands in the first text or in the second, or where the two meet. -/
theorem breaks_append (cs ds : List Char) : breaks (cs ++ ds) =
    (breaks cs || (cs.getLast? == some '\r' && ds.head? == some '\n') || breaks ds) := by
  induction cs with
  | nil => simp [breaks]
  | cons a cs ih =>
    cases cs with
    | nil => cases ds <;> simp [breaks]
    | cons b cs =>
      rw [List.cons_append, List.cons_append, breaks, ← List.cons_append, ih, breaks]
      simp [Bool.or_assoc]

/-- Without a line feed, no line ends. -/
theorem breaks_of_notMem {cs : List Char} (h : '\n' ∉ cs) : breaks cs = false := by
  induction cs with
  | nil => rfl
  | cons a cs ih =>
    cases cs with
    | nil => rfl
    | cons b cs =>
      rw [breaks, ih fun hMem => h (List.mem_cons_of_mem a hMem)]
      have hSecond : b ≠ '\n' := fun hEq => h (by simp [hEq])
      simp [hSecond]

/-- What is written between line ends: a declaration on one line. -/
structure Written (w : List Char) : Prop where
  flat : '\n' ∉ w
  last : w.getLast? = some ';'

/-- The line ends that come with a new import. -/
def Ends (text : String) (n : List Char) : Prop :=
  n = (lineEnd text).toList ∨ n = (lineEnd text ++ lineEnd text).toList

variable {text text' : String} {w n : List Char}

theorem Ends.breaks (h : Ends text n) : breaks n = breaks text.toList := by
  rcases h with rfl | rfl <;> rw [lineEnd_eq] <;> cases Imports.breaks text.toList <;> decide

theorem Ends.getLast (h : Ends text n) : n.getLast? = some '\n' := by
  rcases h with rfl | rfl <;> rw [lineEnd_eq] <;> cases Imports.breaks text.toList <;> decide

theorem Written.head (h : Written w) (ds : List Char) : ((w ++ ds).head? == some '\n') = false := by
  cases w with
  | nil => cases h.last
  | cons c w =>
    have hHead : c ≠ '\n' := fun hEq => h.flat (by simp [hEq])
    simpa using hHead

/-- A line that is written into a text with its end behind it. -/
theorem lineEnd_of_ends (before after : List Char) (hWord : Written w) (hEnds : Ends text n)
    (hText : text.toList = before ++ after)
    (hText' : text'.toList = before ++ (w ++ (n ++ after))) : lineEnd text' = lineEnd text := by
  have hBreaks := hEnds.breaks
  rw [hText, breaks_append] at hBreaks
  have hSame : breaks (before ++ (w ++ (n ++ after))) = breaks (before ++ after) := by
    simp only [breaks_append, breaks_of_notMem hWord.flat, hBreaks, hEnds.getLast, hWord.head,
      hWord.last]
    cases breaks before <;> cases breaks after <;> simp
  rw [lineEnd_eq, lineEnd_eq, hText', hText, hSame]

/-- A line that is written behind another with the end of that line before it. -/
theorem lineEnd_of_starts (before after : List Char) (hWord : Written w) (hEnds : Ends text n)
    (hBefore : before.getLast? = some ';')
    (hText : text.toList = before ++ after) (hText' : text'.toList = before ++ (n ++ (w ++ after))) :
    lineEnd text' = lineEnd text := by
  have hBreaks := hEnds.breaks
  rw [hText, breaks_append] at hBreaks
  have hSame : breaks (before ++ (n ++ (w ++ after))) = breaks (before ++ after) := by
    simp only [breaks_append, breaks_of_notMem hWord.flat, hBreaks, hEnds.getLast, hBefore, hWord.last]
    cases breaks before <;> cases breaks after <;> simp
  rw [lineEnd_eq, lineEnd_eq, hText', hText, hSame]

end Imports

-- ---------------------------------------------------------------------------
-- The signs of nodes
-- ---------------------------------------------------------------------------

namespace Node

/-- The signs of a node, in the order of the text. -/
def chars (n : Node) : List Char := n.tokens.flatMap fun t => t.source.toList

theorem toList_text (n : Node) : n.text.toList = n.chars := by
  simp [text, sourceOf, chars, List.flatMap_def, Function.comp_def]

theorem chars_branch (k : NodeKind) (cs : List (Field × Node)) :
    (Node.branch k cs).chars = cs.flatMap fun c => c.2.chars := by
  rw [chars, tokens, tokensOf_eq, List.flatMap_assoc]
  rfl

/-- A node that begins with a token writes what stands before it, and the rest. -/
theorem Fronted.exists_chars {n : Node} (h : n.Fronted) :
    ∃ rest, ∀ l, (n.withLeading l).chars = l.toList ++ rest := by
  obtain ⟨t, ts, hTokens⟩ := h.exists_tokens
  refine ⟨t.text.toList ++ ts.flatMap fun t => t.source.toList, fun l => ?_⟩
  rw [chars, hTokens, List.flatMap_cons, Token.source, ← List.append_assoc]
  simp [Token.withLeading]

theorem flat_nameTokens {parts : List String} (hParts : ∀ p ∈ parts, '\n' ∉ p.toList) {l : String}
    (hl : '\n' ∉ l.toList) : '\n' ∉ (nameTokens l parts).flatMap fun t => t.source.toList := by
  induction parts generalizing l with
  | nil => simp [nameTokens]
  | cons part parts ih =>
    obtain ⟨hPart, hRest⟩ := List.forall_mem_cons.mp hParts
    cases parts with
    | nil => simp [nameTokens, Token.identifier, Token.source, hl, hPart]
    | cons next parts =>
      have hMore := ih hRest (l := "") (by simp)
      rw [nameTokens]
      · simpa [Token.identifier, Token.operator, Token.source, hl, hPart] using hMore
      · simp

/-- A new import writes one line after what stands before it. -/
theorem exists_chars_importOf {t : TypeName} (h : '\n' ∉ t.text.toList) :
    ∃ w, Imports.Written w ∧ ∀ l, (importOf t l).chars = l.toList ++ w := by
  have hParts : ∀ p ∈ Text.splitDots t.text, '\n' ∉ p.toList := by
    intro p hp hMem
    obtain ⟨cs, hCs, rfl⟩ := List.mem_map.mp hp
    exact h (Text.subset_of_mem_splitChars hCs (by simpa using hMem))
  have hName := flat_nameTokens hParts (l := " ") (by simp)
  refine ⟨"import".toList ++
    (((nameTokens " " (Text.splitDots t.text)).flatMap fun t => t.source.toList) ++ [';']),
    ⟨by simpa using hName, ?_⟩, fun l => ?_⟩
  · rw [← List.append_assoc, List.getLast?_concat]
  · simp [importOf, ofDotted, chars, tokens, tokensOf, tokensOf_eq, List.flatMap_map, Token.source,
      Token.keyword, Token.operator]

/-- The last sign of a package or an import is its semicolon. -/
theorem getLast_chars {n : Node} (hForm : n.form ∈ openingForms) (hFine : n.WellFormed) (h : n.Closed) :
    n.chars.getLast? = some ';' := by
  have hEnd {k : NodeKind} (slots : List Slot) {cs : List (Field × Node)}
      (hSlots : k.slots = slots ++ [⟨.semicolon, .one, [.token]⟩]) (hFine : (branch k cs).WellFormed)
      (h : (branch k cs).Closed) : (branch k cs).chars.getLast? = some ';' := by
    obtain ⟨t, ht, -, hText⟩ := h
    have hOrder := hFine.fieldwise.1
    rw [hSlots, List.flatMap_append, List.flatMap_singleton, show filed .semicolon cs = _ from ht] at hOrder
    rw [chars_branch, hOrder, List.flatMap_append]
    simp [chars, tokens, Token.source, hText]
  simp only [openingForms, List.mem_cons, List.not_mem_nil, or_false] at hForm
  rcases hForm with hForm | hForm
  · obtain ⟨cs, rfl⟩ := exists_children (k := .packageDeclaration) rfl hForm
    exact hEnd NodeKind.packageDeclaration.slots.dropLast rfl hFine h
  · obtain ⟨cs, rfl⟩ := exists_children (k := .importDeclaration) rfl hForm
    exact hEnd NodeKind.importDeclaration.slots.dropLast rfl hFine h

end Node

end SourceMigration
