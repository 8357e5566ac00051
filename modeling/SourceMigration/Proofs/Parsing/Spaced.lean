import SourceMigration.Proofs.Parsing.Parsed
import SourceMigration.Proofs.Parsing.Shaped

/-!
# SourceMigration — blanks between tokens

Blanks are no part of the grammar: they may stand before every lexeme and at the end of a text. What the
parser library finds in a text with more blanks is what it found before, and what stands behind the blanks
has moved by as many bytes. This is relied on here, besides the other laws, and nothing is relied on of rows
and columns, nor of the numbers of nodes.

Of the conversion it follows that the unit keeps its shape, and that its tokens are the same, but that the
blanks now stand before the token that they were put before.

## Results

* `SpacedTreeSitter` — blanks make no difference to the library.
* `Fits.unique`      — the tokens of a text where some lexemes stand.
* `parse_spaced`     — blanks make no difference to the unit, but for the trivia that they are.
-/

namespace SourceMigration

/-- The same token at no place. -/
def Token.unplaced (t : Token) : Token := { t with line := 0, column := 0 }

/-- The same token behind more trivia. -/
def Token.behind (more : String) (t : Token) : Token := t.withLeading (t.leading ++ more)

namespace Concrete

/-- The lexemes of a file. -/
def fileLexemes (root : Concrete) : List Concrete := root.parts.flatMap lexemes

/-- The range of a node. -/
def range (n : Concrete) : Nat × Nat := (n.info.start, n.info.stop)

/-- The range of what begins at a place or behind it, where so many bytes are put in there. -/
def movedRange (place count : Nat) (r : Nat × Nat) : Nat × Nat :=
  if r.1 < place then r else (r.1 + count, r.2 + count)

end Concrete

/-- The blanks that make no difference. -/
def spacing : List Char := [' ', '\t', '\n']

/-- A library to which blanks before lexemes and at the end of a text make no difference. -/
class SpacedTreeSitter [TreeSitter] : Prop where
  /-- What is found is the same. -/
  outline : ∀ {front back w : String}, (TreeSitter.root (front ++ back)).hasError = false →
    (∀ c ∈ w.toList, c ∈ spacing) →
    back = "" ∨ (∃ n ∈ (TreeSitter.root (front ++ back)).fileLexemes, n.info.start = front.utf8ByteSize) →
    (TreeSitter.root (front ++ w ++ back)).outline = (TreeSitter.root (front ++ back)).outline
  /-- The lexemes behind the blanks have moved. -/
  moved : ∀ {front back w : String}, (TreeSitter.root (front ++ back)).hasError = false →
    (∀ c ∈ w.toList, c ∈ spacing) →
    back = "" ∨ (∃ n ∈ (TreeSitter.root (front ++ back)).fileLexemes, n.info.start = front.utf8ByteSize) →
    (TreeSitter.root (front ++ w ++ back)).fileLexemes.map Concrete.range =
      (TreeSitter.root (front ++ back)).fileLexemes.map fun n =>
        Concrete.movedRange front.utf8ByteSize w.utf8ByteSize n.range

-- ---------------------------------------------------------------------------
-- Outlines
-- ---------------------------------------------------------------------------

namespace Concrete

theorem anyError_eq (cs : List (Option String × Concrete)) : anyError cs = cs.any fun c => c.2.hasError := by
  induction cs with
  | nil => rfl
  | cons c cs ih => rw [anyError, ih, List.any_cons]

theorem hasError_outline (n : Concrete) : n.outline.hasError = n.hasError := by
  induction n using Concrete.induct with
  | node i cs ih =>
    simp only [outline, hasError, anyError_eq, outlines_eq, List.any_map]
    congr 1
    rw [Bool.eq_iff_iff, List.any_eq_true, List.any_eq_true]
    exact exists_congr fun c => and_congr_right fun hc => by rw [Function.comp_apply, ih c hc]

theorem lexemes_outline (n : Concrete) : n.outline.lexemes = n.lexemes.map outline := by
  induction n using Concrete.induct with
  | node i cs ih =>
    simp only [outline, lexemes, lexemesOf_eq, outlines_eq, List.isEmpty_map, List.flatMap_map]
    split
    · rfl
    · split
      · simp [outline, outlines_eq]
      · rw [List.map_flatMap]
        exact List.flatMap_congr ih

theorem fileLexemes_outline (n : Concrete) : n.outline.fileLexemes = n.fileLexemes.map outline := by
  rw [fileLexemes, fileLexemes, parts_outline, List.flatMap_map, List.map_flatMap]
  exact List.flatMap_congr fun c _ => lexemes_outline c

end Concrete

-- ---------------------------------------------------------------------------
-- A library of empty declarations
-- ---------------------------------------------------------------------------

namespace EmptyDeclarations

/-- A semicolon at a place. -/
def sign (s : Spot) : Concrete :=
  .node ⟨";", s.offset, false, false, s.offset, s.offset + 1, s.row, s.column⟩ []

/-- The signs of a text that begins at a place; none are reported if there is anything but semicolons and
blanks. -/
def signs? (s : Spot) : List Char → Option (List Concrete)
  | [] => some []
  | c :: cs =>
    if c = ';' then (signs? (s.pass c) cs).map (sign s :: ·)
    else if spacing.contains c then signs? (s.pass c) cs
    else none

/-- The file of some signs, in so many bytes. -/
def file (size : Nat) (ns : List Concrete) : Concrete :=
  .node ⟨"program", size, true, false, 0, size, 0, 0⟩ (ns.map fun n => (none, n))

/-- A library that knows texts of semicolons and blanks, and keeps to all that is said of libraries here. -/
@[reducible] def library : TreeSitter where
  root text := ((signs? {} text.toList).map (file text.utf8ByteSize)).getD Sample.unknown

theorem root_library (text : String) :
    library.root text = ((signs? {} text.toList).map (file text.utf8ByteSize)).getD Sample.unknown := rfl

variable {s : Spot} {cs : List Char} {ns : List Concrete}

theorem exists_signs {text : String} (h : (library.root text).hasError = false) :
    ∃ ns, signs? {} text.toList = some ns ∧ library.root text = file text.utf8ByteSize ns := by
  rw [root_library] at h ⊢
  cases hSigns : signs? {} text.toList with
  | none =>
    rw [hSigns] at h
    cases h
  | some ns => exact ⟨ns, rfl, rfl⟩

theorem fileLexemes_file (size : Nat) (h : ∀ n ∈ ns, ∃ s, n = sign s) : (file size ns).fileLexemes = ns := by
  have hParts : (file size ns).parts = ns := by
    simp only [Concrete.parts, file, Concrete.children, List.map_map, Function.comp_def, List.map_id']
    refine List.filter_eq_self.mpr fun n hn => ?_
    obtain ⟨s, rfl⟩ := h n hn
    rfl
  rw [Concrete.fileLexemes, hParts]
  clear hParts
  induction ns with
  | nil => rfl
  | cons n ns ih =>
    obtain ⟨s, rfl⟩ := h n List.mem_cons_self
    rw [List.flatMap_cons, ih fun m hm => h m (List.mem_cons_of_mem _ hm)]
    rfl

theorem signs_of_signs? (h : signs? s cs = some ns) : ∀ n ∈ ns, ∃ s, n = sign s := by
  fun_induction signs? s cs generalizing ns with
  | case1 =>
    cases h
    simp
  | case2 s cs ih =>
    obtain ⟨ns, hSome, rfl⟩ := Option.map_eq_some_iff.mp h
    exact List.forall_mem_cons.mpr ⟨⟨s, rfl⟩, ih hSome⟩
  | case3 s c cs _ _ ih => exact ih h
  | case4 => cases h

theorem signs?_append (s : Spot) (cs ds : List Char) :
    signs? s (cs ++ ds) = (signs? s cs).bind fun ns => (signs? (s.after cs) ds).map (ns ++ ·) := by
  induction cs generalizing s with
  | nil => simp [signs?, Spot.after]
  | cons c cs ih =>
    rw [List.cons_append, signs?, signs?, ih]
    simp only [Spot.after, List.foldl_cons]
    split
    · cases signs? (s.pass c) cs <;> simp [Option.map_map, Function.comp_def]
    · split <;> rfl

theorem signs?_spacing (s : Spot) {w : List Char} (hw : ∀ c ∈ w, c ∈ spacing) : signs? s w = some [] := by
  induction w generalizing s with
  | nil => rfl
  | cons c cs ih =>
    obtain ⟨hc, hcs⟩ := List.forall_mem_cons.mp hw
    have hSign : c ≠ ';' := by
      rintro rfl
      simp [spacing] at hc
    rw [signs?, if_neg hSign, if_pos (List.contains_iff_mem.mpr hc), ih _ hcs]

theorem spells_sign (s : Spot) : (sign s).Spells [';'] where
  firm := ⟨⟨';', rfl, rfl⟩, ⟨';', rfl, rfl⟩⟩
  sign := fun _ => by simp [sign, Concrete.type, Concrete.info]
  word := nofun
  rule := nofun

/-- The signs of a text stand in it. -/
theorem laid_of_signs? (h : signs? s cs = some ns) {before gap : List Char} (hs : s.IsBehind (before ++ gap))
    (hGap : ∀ c ∈ gap, Text.isGap c = true) : Concrete.Laid before (gap ++ cs) ns := by
  have hTrivia (atEnd : Bool) {gap : List Char} (hGap : ∀ c ∈ gap, Text.isGap c = true) :
      Layout.Trivia atEnd gap := by
    induction gap with
    | nil => exact .nil
    | cons c cs ih =>
      obtain ⟨hc, hcs⟩ := List.forall_mem_cons.mp hGap
      exact .gap hc (ih hcs)
  fun_induction signs? s cs generalizing before gap ns with
  | case1 =>
    cases h
    exact .nil (hTrivia true (by simpa using hGap))
  | case2 s cs ih =>
    obtain ⟨ns, hSome, rfl⟩ := Option.map_eq_some_iff.mp h
    have hBehind : (s.pass ';').IsBehind (before ++ gap ++ [';'] ++ []) := by simpa using hs.pass ';'
    have hRest := ih hSome hBehind (by simp)
    rw [show gap ++ ';' :: cs = gap ++ [';'] ++ ([] ++ cs) by simp]
    refine .cons (hTrivia false hGap) (spells_sign s) ⟨hs.offset, ?_, hs.row, hs.column⟩ hRest
    exact congrArg (· + 1) hs.offset
  | case3 s c cs _ hBlank ih =>
    have hBlank : Text.isGap c = true := by
      simp only [spacing, List.contains_cons, List.contains_nil, Bool.or_false, Bool.or_eq_true,
        beq_iff_eq] at hBlank
      rcases hBlank with rfl | rfl | rfl <;> rfl
    have hRest := ih h (show (s.pass c).IsBehind (before ++ (gap ++ [c])) by simpa using hs.pass c)
      (List.forall_mem_append.mpr ⟨hGap, by simpa using hBlank⟩)
    simpa using hRest
  | case4 => cases h

theorem regular_sign (s : Spot) : (sign s).Regular :=
  ⟨fun _ => rfl, nofun, fun _ => rfl, List.nodup_nil, fun _ => rfl, fun _ => rfl, rfl, rfl, rfl⟩

/-- Each sign of a text is a slice of it. -/
theorem slice_of_signs? (h : signs? s cs = some ns) {before : List Char} (hs : s.IsBehind before) :
    ∀ n ∈ ns, (Text.slice? (before ++ cs) n.info.start n.info.stop).isSome = true := by
  fun_induction signs? s cs generalizing before ns with
  | case1 =>
    cases h
    simp
  | case2 s cs ih =>
    obtain ⟨ns, hSome, rfl⟩ := Option.map_eq_some_iff.mp h
    have hRest := ih hSome (hs.pass ';')
    rw [List.append_assoc, List.singleton_append] at hRest
    refine List.forall_mem_cons.mpr ⟨?_, hRest⟩
    have hSlice : Text.slice? (before ++ [';'] ++ cs) s.offset (s.offset + 1) = some [';'] :=
      Text.slice_append hs.offset rfl
    rw [List.append_assoc, List.singleton_append] at hSlice
    exact Option.isSome_iff_exists.mpr ⟨_, hSlice⟩
  | case3 s c cs _ _ ih =>
    have hRest := ih h (hs.pass c)
    rwa [List.append_assoc, List.singleton_append] at hRest
  | case4 => cases h

/-- The signs of a text are the same wherever it begins, but for their places. -/
theorem signs?_moved {s' : Spot} {count : Nat} (hs : s'.offset = s.offset + count)
    (h : signs? s cs = some ns) :
    ∃ ms, signs? s' cs = some ms ∧
      ms.map Concrete.range = ns.map fun n => (n.range.1 + count, n.range.2 + count) := by
  have hPass (s s' : Spot) (hs : s'.offset = s.offset + count) (c : Char) :
      (s'.pass c).offset = (s.pass c).offset + count := by
    simp only [Spot.pass]
    split <;> simp only [hs] <;> omega
  fun_induction signs? s cs generalizing s' ns with
  | case1 =>
    cases h
    exact ⟨[], rfl, rfl⟩
  | case2 s cs ih =>
    obtain ⟨ns, hSome, rfl⟩ := Option.map_eq_some_iff.mp h
    obtain ⟨ms, hMoved, hRanges⟩ := ih (hPass s s' hs ';') hSome
    refine ⟨sign s' :: ms, by rw [signs?, if_pos rfl, hMoved, Option.map_some], ?_⟩
    rw [List.map_cons, List.map_cons, hRanges]
    refine congrArg (· :: _) ?_
    simp only [Concrete.range, sign, Concrete.info, hs, Prod.mk.injEq, true_and]
    omega
  | case3 s c cs hSign hBlank ih =>
    obtain ⟨ms, hMoved, hRanges⟩ := ih (hPass s s' hs c) h
    exact ⟨ms, by rw [signs?, if_neg hSign, if_pos hBlank, hMoved], hRanges⟩
  | case4 => cases h

/-- The signs of a text begin in it. -/
theorem start_of_signs? (h : signs? s cs = some ns) :
    ∀ n ∈ ns, s.offset ≤ n.info.start ∧ n.info.start < s.offset + Text.byteLength cs := by
  have hPass (s : Spot) (c : Char) : (s.pass c).offset = s.offset + c.utf8Size := by
    unfold Spot.pass
    split <;> rfl
  fun_induction signs? s cs generalizing ns with
  | case1 =>
    cases h
    simp
  | case2 s cs ih =>
    obtain ⟨ns, hSome, rfl⟩ := Option.map_eq_some_iff.mp h
    have hLength : Text.byteLength (';' :: cs) = 1 + Text.byteLength cs := Text.byteLength_cons ';' cs
    refine List.forall_mem_cons.mpr ⟨⟨Nat.le_refl _, ?_⟩, fun n hn => ?_⟩
    · show s.offset < _
      omega
    · obtain ⟨hFirst, hLast⟩ := ih hSome n hn
      have hOffset : (s.pass ';').offset = s.offset + 1 := hPass s ';'
      omega
  | case3 s c cs _ _ ih =>
    intro n hn
    obtain ⟨hFirst, hLast⟩ := ih h n hn
    rw [hPass] at hFirst hLast
    rw [Text.byteLength_cons]
    omega
  | case4 => cases h

theorem outline_file (size : Nat) (h : ∀ n ∈ ns, ∃ s, n = sign s) : (file size ns).outline =
    .node ⟨"program", 0, true, false, 0, 0, 0, 0⟩ (List.replicate ns.length (none, (sign {}).outline)) := by
  rw [file, Concrete.outline, Concrete.outlines_eq, List.map_map]
  refine congrArg _ (List.eq_replicate_iff.mpr ⟨by simp, ?_⟩)
  rintro _ hMem
  obtain ⟨n, hn, rfl⟩ := List.mem_map.mp hMem
  obtain ⟨s, rfl⟩ := h n hn
  rfl

theorem lawful_library : @LawfulTreeSitter library := by
  let _ := library
  refine ⟨fun {text} hNoError => ?_, fun {text} hNoError => ?_, fun {text} n hn => ?_⟩
  · obtain ⟨ns, hSigns, hRoot⟩ := exists_signs hNoError
    refine ⟨[], text.toList, Or.inl rfl, rfl, ?_⟩
    have hLaid : Concrete.Laid [] ([] ++ text.toList) ns := laid_of_signs? hSigns Spot.isBehind_nil (by simp)
    rw [← fileLexemes_file text.utf8ByteSize (signs_of_signs? hSigns), ← hRoot] at hLaid
    exact hLaid
  · obtain ⟨ns, hSigns, hRoot⟩ := exists_signs hNoError
    rw [hRoot, Concrete.inside_eq]
    intro n hn
    obtain ⟨c, hc, hn⟩ := List.mem_flatMap.mp hn
    obtain ⟨m, hm, rfl⟩ := List.mem_map.mp hc
    obtain ⟨s, rfl⟩ := signs_of_signs? hSigns m hm
    obtain rfl : n = sign s := by simpa [sign, Concrete.nodes, Concrete.nodesOf] using hn
    exact regular_sign s
  · rw [root_library] at hn
    cases hSigns : signs? {} text.toList with
    | none =>
      rw [hSigns] at hn
      obtain rfl : n = Sample.unknown := by simpa [Sample.unknown, Concrete.nodes, Concrete.nodesOf] using hn
      rfl
    | some ns =>
      rw [hSigns, Option.map_some, Option.getD_some, Concrete.nodes_eq, List.mem_cons] at hn
      rcases hn with rfl | hn
      · have hSlice : Text.slice? ([] ++ text.toList ++ []) 0 text.utf8ByteSize = some text.toList :=
          Text.slice_append rfl (by rw [Text.utf8ByteSize_eq, Nat.zero_add])
        rw [List.nil_append, List.append_nil] at hSlice
        exact Option.isSome_iff_exists.mpr ⟨_, hSlice⟩
      · rw [Concrete.inside_eq] at hn
        obtain ⟨c, hc, hn⟩ := List.mem_flatMap.mp hn
        obtain ⟨m, hm, rfl⟩ := List.mem_map.mp hc
        obtain ⟨s, rfl⟩ := signs_of_signs? hSigns m hm
        obtain rfl : n = sign s := by simpa [sign, Concrete.nodes, Concrete.nodesOf] using hn
        exact slice_of_signs? hSigns Spot.isBehind_nil _ hm

/-- Where blanks are put into a text of signs, there are as many signs as before, and those behind the blanks
have moved. -/
theorem exists_signs_spaced {front back w : String}
    (hNoError : (library.root (front ++ back)).hasError = false)
    (hw : ∀ c ∈ w.toList, c ∈ spacing) : ∃ ns ms, signs? {} (front ++ back).toList = some ns ∧
      signs? {} (front ++ w ++ back).toList = some ms ∧
      ms.map Concrete.range =
        ns.map fun n => Concrete.movedRange front.utf8ByteSize w.utf8ByteSize n.range := by
  obtain ⟨ns, hSigns, -⟩ := exists_signs hNoError
  rw [String.toList_append, signs?_append] at hSigns
  obtain ⟨ks, hFront, hSigns⟩ := Option.bind_eq_some_iff.mp hSigns
  obtain ⟨ls, hBack, rfl⟩ := Option.map_eq_some_iff.mp hSigns
  have hBehind := Spot.isBehind_nil.after front.toList
  rw [List.nil_append] at hBehind
  have hOffset : ((({} : Spot).after front.toList).after w.toList).offset =
      (({} : Spot).after front.toList).offset + w.utf8ByteSize := by
    rw [(hBehind.after w.toList).offset, hBehind.offset, Text.byteLength_append, Text.utf8ByteSize_eq]
  obtain ⟨ms, hMoved, hRanges⟩ := signs?_moved hOffset hBack
  refine ⟨ks ++ ls, ks ++ ms, ?_, ?_, ?_⟩
  · rw [String.toList_append, signs?_append, hFront, Option.bind_some, hBack, Option.map_some]
  · rw [String.append_assoc, String.toList_append, signs?_append, hFront, Option.bind_some,
      String.toList_append,
      signs?_append, signs?_spacing _ hw, Option.bind_some, hMoved, Option.map_some,
      Option.map_some, List.nil_append]
  · rw [List.map_append, List.map_append, hRanges]
    congr 1
    · refine List.map_congr_left fun n hn => ?_
      have hBefore := (start_of_signs? hFront n hn).2
      rw [← Text.utf8ByteSize_eq] at hBefore
      exact (if_pos (by simpa [Concrete.range] using hBefore)).symm
    · refine List.map_congr_left fun n hn => ?_
      have hAfter := (start_of_signs? hBack n hn).1
      rw [hBehind.offset, ← Text.utf8ByteSize_eq] at hAfter
      exact (if_neg (by simpa [Concrete.range] using hAfter)).symm

theorem spaced_library : @SpacedTreeSitter library := by
  let _ := library
  have hFile {text : String} {ns : List Concrete} (h : signs? {} text.toList = some ns) :
      TreeSitter.root text = file text.utf8ByteSize ns := by
    show library.root text = _
    rw [root_library, h, Option.map_some, Option.getD_some]
  refine ⟨fun {front back w} hNoError hw _ => ?_, fun {front back w} hNoError hw _ => ?_⟩
  · obtain ⟨ns, ms, hSigns, hMoved, hRanges⟩ := exists_signs_spaced hNoError hw
    rw [hFile hSigns, hFile hMoved, outline_file _ (signs_of_signs? hSigns),
      outline_file _ (signs_of_signs? hMoved)]
    have hLength : ms.length = ns.length := by simpa using congrArg List.length hRanges
    rw [hLength]
  · obtain ⟨ns, ms, hSigns, hMoved, hRanges⟩ := exists_signs_spaced hNoError hw
    rw [hFile hSigns, hFile hMoved, fileLexemes_file _ (signs_of_signs? hSigns),
      fileLexemes_file _ (signs_of_signs? hMoved), hRanges]

end EmptyDeclarations

namespace TreeBuilder

open Concrete (Laid movedRange)

variable {source : List Char}

-- ---------------------------------------------------------------------------
-- Tokens where lexemes stand
-- ---------------------------------------------------------------------------

/-- Tokens that stand in a text where some lexemes do, behind so many bytes of it. -/
inductive Fits : Nat → List Token → List Concrete → Prop where
  | nil {offset : Nat} : Fits offset [] []
  | cons {offset : Nat} {t : Token} {ts : List Token} {n : Concrete} {ns : List Concrete}
      (hKind : t.kind = tokenKind n.type t.text.toList) (hText : t.text ≠ "")
      (hStart : n.info.start = offset + t.leading.utf8ByteSize)
      (hStop : n.info.stop = n.info.start + t.text.utf8ByteSize) (h : Fits n.info.stop ts ns) :
      Fits offset (t :: ts) (n :: ns)

/-- The tokens taken for lexemes stand where these do. -/
theorem fits_of_taken {before rest : List Char} {ns : List Concrete} (h : Laid before rest ns)
    {front held : List Char} (hBefore : before = front ++ held) (hSource : source = before ++ rest)
    {ts : List Token} {stop : Nat} (hTaken : Taken source (Text.byteLength front) ns ts stop) :
    Fits (Text.byteLength front) ts ns ∧ ∃ tail, source = front ++ (sourceOf ts).toList ++ tail ∧
      stop = Text.byteLength (front ++ (sourceOf ts).toList) := by
  induction h generalizing front held ts with
  | @nil before rest hRest =>
    cases hTaken
    refine ⟨.nil, held ++ rest, ?_, by simp [sourceOf, String.join]⟩
    rw [hSource, hBefore]
    simp only [sourceOf, String.join, List.map_nil, List.foldl_nil, String.toList_empty, List.append_nil,
      List.append_assoc]
  | @cons before gap spelling rest n ns hGap hSpells hStands _ ih =>
    subst hBefore
    cases hTaken with
    | @cons _ mid _ _ _ t ts hToken hMade hTaken =>
      have hSource' : source = front ++ (held ++ gap) ++ spelling ++ rest := by
        rw [hSource]
        simp only [List.append_assoc]
      have hStands' := hStands
      rw [List.append_assoc] at hStands'
      rw [token_eq hSource' hStands'] at hToken
      obtain ⟨rfl, rfl⟩ := Prod.mk.inj (Option.some.inj hToken)
      have hEnd : n.info.stop = Text.byteLength (front ++ (held ++ gap) ++ spelling) := by
        rw [hStands'.stop, Text.byteLength_append _ spelling]
      obtain ⟨hFits, tail, hText, hStop⟩ := ih (show _ = front ++ (held ++ gap) ++ spelling ++ [] by
        simp only [List.append_assoc, List.append_nil])
          (by rw [hSource']; simp only [List.append_assoc]) hTaken
      refine ⟨.cons (by simp) ?_ ?_ ?_ (hEnd ▸ hFits), tail, ?_, ?_⟩
      · intro hNone
        exact hSpells.firm.ne_nil (by simpa using congrArg String.toList hNone)
      · rw [hStands'.start, Text.utf8ByteSize_ofList, Text.byteLength_append]
      · rw [hStands'.stop, hStands'.start, Text.utf8ByteSize_ofList]
      · rw [toList_sourceOf_cons, hText]
        simp only [String.toList_ofList, List.append_assoc]
      · rw [toList_sourceOf_cons, hStop]
        simp only [String.toList_ofList, List.append_assoc]

theorem append_inj_of_byteLength {cs cs' ds ds' : List Char} (h : cs ++ ds = cs' ++ ds')
    (hLength : Text.byteLength cs = Text.byteLength cs') : cs = cs' ∧ ds = ds' := by
  have hFirst := Text.takeBytes_append cs ds
  rw [h, hLength, Text.takeBytes_append] at hFirst
  obtain rfl := Option.some.inj hFirst
  exact ⟨rfl, List.append_cancel_left h⟩

/-- The tokens of a text where some lexemes stand are told by the text, but for their lines and columns. -/
theorem Fits.unique {offset : Nat} {us vs : List Token} {ns : List Concrete} {cs ds : List Char}
    (hu : Fits offset us ns) (hv : Fits offset vs ns)
    (hText : (sourceOf us).toList ++ cs = (sourceOf vs).toList ++ ds) :
    us.map Token.unplaced = vs.map Token.unplaced ∧ cs = ds := by
  induction hu generalizing vs with
  | nil =>
    cases hv
    exact ⟨rfl, List.append_cancel_left hText⟩
  | @cons offset u us n ns hKind _ hStart hStop _ ih =>
    cases hv with
    | @cons _ v vs _ _ hKind' _ hStart' hStop' hv =>
      rw [toList_sourceOf_cons, toList_sourceOf_cons] at hText
      simp only [List.append_assoc] at hText
      obtain ⟨hLeading, hText⟩ := append_inj_of_byteLength hText (by
        rw [← Text.utf8ByteSize_eq, ← Text.utf8ByteSize_eq]
        omega)
      obtain ⟨hSpelling, hText⟩ := append_inj_of_byteLength hText (by
        rw [← Text.utf8ByteSize_eq, ← Text.utf8ByteSize_eq]
        omega)
      obtain ⟨hRest, hTail⟩ := ih hv hText
      refine ⟨congrArg₂ List.cons ?_ hRest, hTail⟩
      obtain ⟨kind, text, leading, line, column⟩ := u
      obtain ⟨kind', text', leading', line', column'⟩ := v
      obtain rfl := String.toList_injective hLeading
      obtain rfl := String.toList_injective hSpelling
      exact congrArg (Token.mk · text leading 0 0) (hKind.trans hKind'.symm)

theorem utf8ByteSize_sourceOf_cons (t : Token) (ts : List Token) :
    (sourceOf (t :: ts)).utf8ByteSize =
    t.leading.utf8ByteSize + t.text.utf8ByteSize + (sourceOf ts).utf8ByteSize := by
  simp only [Text.utf8ByteSize_eq, toList_sourceOf_cons, Text.byteLength_append]

theorem Fits.exists_append {offset : Nat} {us vs : List Token} {ns : List Concrete}
    (h : Fits offset (us ++ vs) ns) : ∃ ks ms, ns = ks ++ ms ∧ Fits offset us ks ∧
      Fits (offset + (sourceOf us).utf8ByteSize) vs ms := by
  induction us generalizing offset ns with
  | nil => exact ⟨[], ns, rfl, .nil, by simpa [sourceOf, String.join] using h⟩
  | cons u us ih =>
    cases h with
    | @cons _ _ _ n ns hKind hText hStart hStop h =>
      obtain ⟨ks, ms, rfl, hFront, hBack⟩ := ih h
      refine ⟨n :: ks, ms, rfl, .cons hKind hText hStart hStop hFront, ?_⟩
      rwa [utf8ByteSize_sourceOf_cons, ← Nat.add_assoc, ← Nat.add_assoc, ← hStart, ← hStop]

/-- The lexeme of a token stands behind all tokens before it and its own trivia. -/
theorem Fits.exists_start {offset : Nat} {front back : List Token} {t : Token} {ns : List Concrete}
    (h : Fits offset (front ++ t :: back) ns) :
    ∃ n ∈ ns, n.info.start = offset + (sourceOf front).utf8ByteSize + t.leading.utf8ByteSize := by
  obtain ⟨ks, ms, rfl, -, hBack⟩ := h.exists_append
  cases hBack with
  | cons _ _ hStart _ _ => exact ⟨_, List.mem_append_right _ List.mem_cons_self, hStart⟩

theorem Fits.append {offset : Nat} {us vs : List Token} {ks ms : List Concrete} (hu : Fits offset us ks)
    (hv : Fits (offset + (sourceOf us).utf8ByteSize) vs ms) : Fits offset (us ++ vs) (ks ++ ms) := by
  induction hu with
  | nil => simpa [sourceOf, String.join] using hv
  | cons hKind hText hStart hStop _ ih =>
    refine .cons hKind hText hStart hStop (ih ?_)
    rwa [utf8ByteSize_sourceOf_cons, ← Nat.add_assoc, ← Nat.add_assoc, ← hStart, ← hStop] at hv

-- ---------------------------------------------------------------------------
-- Tokens around more blanks
-- ---------------------------------------------------------------------------

/-- The same lexemes, of which those behind a place have moved. -/
structure Moved (place count : Nat) (ns ms : List Concrete) : Prop where
  types : ms.map Concrete.type = ns.map Concrete.type
  ranges : ms.map Concrete.range = ns.map fun n => movedRange place count n.range

theorem Moved.append_inv {place count : Nat} {ns ns' ms : List Concrete}
    (h : Moved place count (ns ++ ns') ms) :
    ∃ ks ks', ms = ks ++ ks' ∧ Moved place count ns ks ∧ Moved place count ns' ks' := by
  have hTypes := h.types
  have hRanges := h.ranges
  rw [List.map_append] at hTypes hRanges
  obtain ⟨ks, ks', rfl, hk, hk'⟩ := List.map_eq_append_iff.mp hTypes
  rw [List.map_append] at hRanges
  have hLength : ks.length = ns.length := by simpa using congrArg List.length hk
  obtain ⟨hr, hr'⟩ := List.append_inj hRanges (by simpa using hLength)
  exact ⟨ks, ks', rfl, ⟨hk, hr⟩, hk', hr'⟩

theorem Moved.cons_inv {place count : Nat} {n : Concrete} {ns ms : List Concrete}
    (h : Moved place count (n :: ns) ms) : ∃ m ms', ms = m :: ms' ∧ m.type = n.type ∧
      (n.info.start < place ∧ m.info.start = n.info.start ∧ m.info.stop = n.info.stop ∨
        place ≤ n.info.start ∧ m.info.start = n.info.start + count ∧ m.info.stop = n.info.stop + count) ∧
      Moved place count ns ms' := by
  obtain ⟨m, ms', rfl, hType, hTypes⟩ := List.map_eq_cons_iff.mp h.types
  obtain ⟨hRange, hRanges⟩ := List.cons.inj h.ranges
  refine ⟨m, ms', rfl, hType, ?_, hTypes, hRanges⟩
  simp only [movedRange] at hRange
  split at hRange
  · obtain ⟨hStart, hStop⟩ := Prod.mk.inj hRange
    exact Or.inl ⟨‹_›, hStart, hStop⟩
  · rename_i hLater
    obtain ⟨hStart, hStop⟩ := Prod.mk.inj hRange
    exact Or.inr ⟨Nat.le_of_not_lt hLater, hStart, hStop⟩

/-- Tokens before the place stay where they are. -/
theorem Fits.kept {offset place count : Nat} {us : List Token} {ns ms : List Concrete} (h : Fits offset us ns)
    (hPlace : offset + (sourceOf us).utf8ByteSize ≤ place) (hMoved : Moved place count ns ms) :
    Fits offset us ms := by
  induction h generalizing ms with
  | nil =>
    obtain rfl := List.map_eq_nil_iff.mp hMoved.types
    exact .nil
  | @cons offset u us n ns hKind hText hStart hStop _ ih =>
    obtain ⟨m, ms, rfl, hType, hRange, hMoved⟩ := hMoved.cons_inv
    rw [utf8ByteSize_sourceOf_cons] at hPlace
    have hSome : 0 < u.text.utf8ByteSize := Nat.pos_of_ne_zero (mt String.utf8ByteSize_eq_zero_iff.mp hText)
    obtain ⟨-, hFirst, hLast⟩ := hRange.resolve_right (by omega)
    refine .cons (by rw [hType, hKind]) hText (by rw [hFirst, hStart]) (by rw [hFirst, hLast, hStop]) ?_
    rw [hLast]
    exact ih (by omega) hMoved

/-- Tokens behind the place stand so much farther on. -/
theorem Fits.shifted {offset place count : Nat} {us : List Token} {ns ms : List Concrete}
    (h : Fits offset us ns)
    (hPlace : place ≤ offset) (hMoved : Moved place count ns ms) : Fits (offset + count) us ms := by
  induction h generalizing ms with
  | nil =>
    obtain rfl := List.map_eq_nil_iff.mp hMoved.types
    exact .nil
  | @cons offset u us n ns hKind hText hStart hStop _ ih =>
    obtain ⟨m, ms, rfl, hType, hRange, hMoved⟩ := hMoved.cons_inv
    obtain ⟨-, hFirst, hLast⟩ := hRange.resolve_left (by omega)
    refine .cons (by rw [hType, hKind]) hText (by omega) (by omega) ?_
    rw [hLast]
    exact ih (by omega) hMoved

/-- Where blanks are put before a token, its trivia is longer by the blanks, and all other tokens are the
same. -/
theorem Fits.behind {offset : Nat} {front back : List Token} {t : Token} {ns ms : List Concrete} {w : String}
    (h : Fits offset (front ++ t :: back) ns)
    (hMoved : Moved (offset + (sourceOf front).utf8ByteSize + t.leading.utf8ByteSize) w.utf8ByteSize ns ms) :
    Fits offset (front ++ t.behind w :: back) ms := by
  obtain ⟨ks, ls, rfl, hFront, hBack⟩ := h.exists_append
  obtain ⟨ks', ls', rfl, hk, hl⟩ := hMoved.append_inv
  refine (hFront.kept (by omega) hk).append ?_
  cases hBack with
  | @cons _ _ _ n ns hKind hText hStart hStop hBack =>
    obtain ⟨m, ms, rfl, hType, hRange, hMoved⟩ := hl.cons_inv
    obtain ⟨-, hFirst, hLast⟩ := hRange.resolve_left (by omega)
    have hLength : (t.behind w).leading.utf8ByteSize = t.leading.utf8ByteSize + w.utf8ByteSize := by
      simp [Token.behind]
    have hSpelling : (t.behind w).text = t.text := rfl
    refine .cons (by rw [hType]; exact hKind) hText (by omega) (by rw [hSpelling]; omega) ?_
    rw [hLast]
    exact hBack.shifted (by omega) hMoved

end TreeBuilder

namespace Parsing

open TreeBuilder (Fits Moved fits_of_taken)

section

variable [TreeSitter] [LawfulTreeSitter]

-- ---------------------------------------------------------------------------
-- Units of texts with more blanks
-- ---------------------------------------------------------------------------

/-- The tokens of a unit stand where its lexemes do, and what is left of the text is at its end. -/
theorem exists_fits {text : String} {unit : Node} (h : parse text = .ok unit) : ∃ ts e,
    unit.tokens = ts ++ [e] ∧ Fits 0 ts (TreeSitter.root text).fileLexemes ∧
      e.kind = .endOfText ∧ e.text = "" ∧ text = sourceOf ts ++ e.leading := by
  obtain ⟨ts, e, hTokens, hKind, -, mid, hTaken, hEnd⟩ := (unitOf_parse h).tokens
  obtain ⟨mark, rest, -, hText, hLaid⟩ := LawfulTreeSitter.laid (parse_eq_ok_iff.mp h).1
  obtain ⟨hFits, tail, hSource, rfl⟩ := fits_of_taken hLaid (List.nil_append mark).symm hText hTaken
  rw [List.nil_append] at hSource hEnd
  rw [TreeBuilder.endMarker_eq hSource] at hEnd
  obtain ⟨rfl, -⟩ := Prod.mk.inj (Option.some.inj hEnd)
  exact ⟨ts, _, hTokens, hFits, rfl, rfl, String.toList_injective (by rw [hSource]; simp)⟩

/-- Tokens that stand where the lexemes of a text do are those of its unit, but for their lines and
columns. -/
theorem tokens_of_fits {text : String} {unit : Node} (h : parse text = .ok unit) {us : List Token} {e : Token}
    (hFits : Fits 0 us (TreeSitter.root text).fileLexemes) (hKind : e.kind = .endOfText)
    (hSpelling : e.text = "")
    (hText : text = sourceOf us ++ e.leading) :
    unit.tokens.map Token.unplaced = (us ++ [e]).map Token.unplaced := by
  obtain ⟨ts, e', hTokens, hFits', hKind', hSpelling', hText'⟩ := exists_fits h
  obtain ⟨hSame, hTail⟩ := hFits'.unique hFits
    (show (sourceOf ts).toList ++ e'.leading.toList = (sourceOf us).toList ++ e.leading.toList by
      rw [← String.toList_append, ← String.toList_append, ← hText', ← hText])
  have hEnd : e'.unplaced = e.unplaced := by
    simp only [Token.unplaced, hKind, hKind', hSpelling, hSpelling', String.toList_injective hTail]
  rw [hTokens, List.map_append, List.map_append, hSame, List.map_singleton, List.map_singleton, hEnd]

/-- Every part of a file is told apart. -/
theorem distinct_of_mem_parts {text : String} (h : (TreeSitter.root text).hasError = false) :
    ∀ c ∈ (TreeSitter.root text).parts, c.Distinct := by
  intro c hc m hm
  obtain ⟨field, hChild⟩ := Concrete.mem_children_of_parts hc
  have hIn : m ∈ (TreeSitter.root text).inside := by
    rw [Concrete.inside_eq]
    exact List.mem_flatMap.mpr ⟨_, hChild, hm⟩
  exact (LawfulTreeSitter.regular h m hIn).distinct

variable [SpacedTreeSitter]

/-- A text with more blanks before a lexeme or at its end is a unit of the same skeleton. -/
theorem exists_spaced {before after w : String} {unit : Node} (h : parse (before ++ after) = .ok unit)
    (hw : ∀ c ∈ w.toList, c ∈ spacing)
    (hPlace : after = "" ∨ ∃ n ∈ (TreeSitter.root (before ++ after)).fileLexemes,
      n.info.start = before.utf8ByteSize) :
    ∃ other, parse (before ++ w ++ after) = .ok other ∧ other.skeleton = unit.skeleton ∧
      Moved before.utf8ByteSize w.utf8ByteSize (TreeSitter.root (before ++ after)).fileLexemes
        (TreeSitter.root (before ++ w ++ after)).fileLexemes := by
  obtain ⟨hNoError, stop, hUnit⟩ := parse_eq_ok_iff.mp h
  have hOutline := SpacedTreeSitter.outline hNoError hw hPlace
  have hNoError' : (TreeSitter.root (before ++ w ++ after)).hasError = false := by
    rw [← Concrete.hasError_outline, hOutline, Concrete.hasError_outline, hNoError]
  obtain ⟨other, stop', hOther, -⟩ := exists_unitOf hNoError'
  refine ⟨other, parse_eq_ok_iff.mpr ⟨hNoError', stop', hOther⟩, ?_, ?_,
    SpacedTreeSitter.moved hNoError hw hPlace⟩
  · exact TreeBuilder.agree_unit _ _ (Concrete.forall_alike hOutline (distinct_of_mem_parts hNoError')
      (distinct_of_mem_parts hNoError)) hOther hUnit
  · have hTypes := congrArg (fun root => root.fileLexemes.map Concrete.type) hOutline
    simpa [Concrete.fileLexemes_outline, Function.comp_def] using hTypes

/-- Parsing does not look at blanks between tokens. If blanks are put before the spelling of a token of an
accepted text, be it the marker of the end, the text is accepted, and its tree has the same skeleton and the
same tokens, but for the trivia before this token and for the places. -/
theorem parse_spaced {text : String} {unit : Node} (h : parse text = .ok unit) {front back : List Token}
    {t : Token} (hTokens : unit.tokens = front ++ t :: back) {w : String} (hw : ∀ c ∈ w.toList, c ∈ spacing) :
    text = sourceOf front ++ t.leading ++ t.text ++ sourceOf back ∧
      ∃ other, parse (sourceOf front ++ t.leading ++ w ++ t.text ++ sourceOf back) = .ok other ∧
        other.skeleton = unit.skeleton ∧
        other.tokens.map Token.unplaced = (front ++ t.behind w :: back).map Token.unplaced := by
  have hText := text_around h hTokens
  refine ⟨hText, ?_⟩
  -- the text before the blanks, and the text behind them
  have hSpelled (s : String) : s ++ t.text ++ sourceOf back = s ++ (t.text ++ sourceOf back) :=
    String.append_assoc
  have hBehind : sourceOf front ++ t.leading ++ w ++ (t.text ++ sourceOf back) =
      sourceOf (front ++ t.behind w :: back) := by
    simp [sourceOf, String.join_cons, Token.source, Token.behind, String.append_assoc]
  have hLength : (sourceOf front ++ t.leading).utf8ByteSize =
      0 + (sourceOf front).utf8ByteSize + t.leading.utf8ByteSize := by
    rw [String.utf8ByteSize_append, Nat.zero_add]
  obtain ⟨ts, e, hAll, hFits, hKind, hSpelling, -⟩ := exists_fits h
  rw [hSpelled] at hText ⊢
  subst hText
  rcases marker_or_among (hTokens.symm.trans hAll) with ⟨rfl, rfl, rfl⟩ | ⟨mid, rfl, rfl⟩
  · -- the blanks are put before the end of the text
    obtain ⟨other, hOther, hSkeleton, hMoved⟩ :=
      exists_spaced h hw (Or.inl (by simp [hSpelling, sourceOf, String.join]))
    refine ⟨other, hOther, hSkeleton, ?_⟩
    refine tokens_of_fits hOther (hFits.kept (by rw [hLength]; omega) hMoved) hKind hSpelling ?_
    simp [hSpelling, Token.behind, sourceOf, String.join, String.append_assoc]
  · obtain ⟨n, hn, hStart⟩ := hFits.exists_start
    obtain ⟨other, hOther, hSkeleton, hMoved⟩ :=
      exists_spaced h hw (Or.inr ⟨n, hn, hStart.trans hLength.symm⟩)
    refine ⟨other, hOther, hSkeleton, ?_⟩
    rw [← List.cons_append, ← List.append_assoc]
    refine tokens_of_fits hOther (hFits.behind (hLength ▸ hMoved)) hKind hSpelling ?_
    have hMarker : sourceOf [e] = e.leading := by simp [sourceOf, String.join, Token.source, hSpelling]
    rw [hBehind, ← List.cons_append, ← List.append_assoc, sourceOf_append, hMarker]

end

open EmptyDeclarations in
theorem parse_spaced_signs : letI := library
    ∃ unit front t back, parse ";\n;" = .ok unit ∧ unit.tokens = front ++ t :: back ∧ t.leading = "\n" ∧
      (∀ c ∈ " \t".toList, c ∈ spacing) ∧ ";\n;" = sourceOf front ++ t.leading ++ t.text ++ sourceOf back ∧
      ∃ other, parse (sourceOf front ++ t.leading ++ " \t" ++ t.text ++ sourceOf back) = .ok other ∧
        other.skeleton = unit.skeleton ∧
        other.tokens.map Token.unplaced = (front ++ t.behind " \t" :: back).map Token.unplaced := by
  let _ := library
  have _ := lawful_library
  have _ := spaced_library
  have hSome : ((TreeBuilder.unit ";\n;".toList (TreeSitter.root ";\n;") 0).map fun p =>
      p.1.tokens.any (·.leading == "\n")) = some true := by decide +kernel
  obtain ⟨⟨unit, stop⟩, hUnit, hAny⟩ := Option.map_eq_some_iff.mp hSome
  obtain ⟨t, ht, hLeading⟩ := List.any_eq_true.mp hAny
  obtain ⟨front, back, hTokens⟩ := List.append_of_mem ht
  have h : parse ";\n;" = .ok unit := parse_eq_ok_iff.mpr ⟨by decide +kernel, stop, hUnit⟩
  have hw : ∀ c ∈ " \t".toList, c ∈ spacing := by simp [spacing]
  exact ⟨unit, front, t, back, h, hTokens, eq_of_beq hLeading, hw, parse_spaced h hTokens hw⟩

end Parsing

end SourceMigration
