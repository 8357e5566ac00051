import SourceMigration.Proofs.Recipe.Again
import SourceMigration.Proofs.Recipe.LineEnds
import SourceMigration.Proofs.Recipe.Worded

/-!
# SourceMigration — line ends are not mixed

A text whose lines all end alike, with a carriage return and a line feed or with a line feed only, is
migrated to a text of which the same is true. What is written into a line holds no line end, and an import
comes with line ends of the kind that the text uses.

They need not be of the kind that the text used to begin with. The kind is looked up in the tree as it is
when the import comes, and there the last line end may be gone with a method that was deleted. Then a
line feed comes with the import. A line end behind the last spelling stays, and so a text that ends with
its last line keeps the kind of its line ends.

## Results

* `endsLike_append`     — where lines end in two texts, one after the other.
* `Lined.add`           — an import that comes leaves line ends of one kind.
* `run_keeps_line_ends` — line ends are not mixed, and kept if the text ends with its last line.
-/

namespace SourceMigration

-- ---------------------------------------------------------------------------
-- Line ends of one kind
-- ---------------------------------------------------------------------------

namespace Text

/-- All line feeds stand behind carriage returns, or none does. -/
def EndsLike (crlf : Bool) (cs : List Char) : Prop :=
  ∀ before after, cs = before ++ '\n' :: after → (before.getLast? = some '\r' ↔ crlf = true)

variable {crlf : Bool} {cs ds : List Char}

theorem endsLike_iff : EndsLike crlf cs ↔ ∀ i ∈ List.range cs.length,
    (cs.drop i).head? = some '\n' → ((cs.take i).getLast? = some '\r' ↔ crlf = true) := by
  constructor
  · intro h i _ hHead
    obtain ⟨after, hAfter⟩ := List.head?_eq_some_iff.mp hHead
    exact h (cs.take i) after (by rw [← hAfter, List.take_append_drop])
  · rintro h before after rfl
    have hHere := h before.length (by simp)
    simpa using hHere

instance : Decidable (EndsLike crlf cs) := decidable_of_iff _ endsLike_iff.symm

theorem endsLike_of_notMem (h : '\n' ∉ cs) : EndsLike crlf cs := by
  rintro before after rfl
  simp at h

/-- Where lines end in two texts, one after the other, if no line end is split between the two. -/
theorem endsLike_append (hMeet : cs.getLast? ≠ some '\r' ∨ ds.head? ≠ some '\n') :
    EndsLike crlf (cs ++ ds) ↔ EndsLike crlf cs ∧ EndsLike crlf ds := by
  -- what stands before a line feed of the second text, seen from its beginning or from that of the first
  have hSame {before after : List Char} (h : ds = before ++ '\n' :: after) :
      (cs ++ before).getLast? = some '\r' ↔ before.getLast? = some '\r' := by
    rw [List.getLast?_append]
    cases hLast : before.getLast? with
    | some c => simp
    | none =>
      obtain rfl := List.getLast?_eq_none_iff.mp hLast
      subst h
      simpa using hMeet
  constructor
  · intro h
    refine ⟨?_, fun before after hEq => ?_⟩
    · rintro before after rfl
      exact h before (after ++ ds) (by simp)
    · rw [← hSame hEq]
      exact h (cs ++ before) after (by simp [hEq])
  · rintro ⟨hcs, hds⟩ before after hEq
    rcases List.append_eq_append_iff.mp hEq with ⟨bs, rfl, hBack⟩ | ⟨bs, hFront, hBack⟩
    · exact (hSame hBack).trans (hds bs after hBack)
    · cases bs with
      | nil =>
        have hNone := hds [] after (by simpa using hBack.symm)
        obtain rfl : before = cs := by simpa using hFront.symm
        have hFront : ds = [] ++ '\n' :: after := by simpa using hBack.symm
        have hSame := hSame hFront
        rw [List.append_nil] at hSame
        exact hSame.trans hNone
      | cons b bs =>
        obtain ⟨rfl, -⟩ := List.cons.inj hBack
        exact hcs before bs hFront

theorem breaks_iff : Imports.breaks cs = true ↔
    ∃ before after, cs = before ++ '\n' :: after ∧ before.getLast? = some '\r' := by
  constructor
  · intro h
    induction cs with
    | nil => cases h
    | cons a cs ih =>
      cases cs with
      | nil => cases h
      | cons b cs =>
        rw [Imports.breaks, Bool.or_eq_true] at h
        rcases h with hHere | hLater
        · obtain ⟨rfl, rfl⟩ : a = '\r' ∧ b = '\n' := by simpa using hHere
          exact ⟨['\r'], cs, rfl, rfl⟩
        · obtain ⟨before, after, hEq, hLast⟩ := ih hLater
          exact ⟨a :: before, after, by rw [hEq, List.cons_append], by rw [List.getLast?_cons, hLast]; rfl⟩
  · rintro ⟨before, after, rfl, hLast⟩
    rw [Imports.breaks_append, hLast]
    simp

theorem endsLike_false_iff : EndsLike false cs ↔ Imports.breaks cs = false := by
  rw [← Bool.not_eq_true, breaks_iff]
  simp [EndsLike]

/-- Where no line ends with a carriage return although all lines that end do, no line ends. -/
theorem EndsLike.notMem (h : EndsLike true cs) (hNone : Imports.breaks cs = false) : '\n' ∉ cs := by
  intro hMem
  obtain ⟨before, after, hEq⟩ := List.append_of_mem hMem
  have hBreak := breaks_iff.mpr ⟨before, after, hEq, (h before after hEq).mpr rfl⟩
  rw [hNone] at hBreak
  cases hBreak

/-- The line end that a text uses is of one kind, alone or twice. -/
theorem endsLike_lineEnd (text : String) :
    EndsLike (Imports.breaks text.toList) (Imports.lineEnd text).toList ∧
      EndsLike (Imports.breaks text.toList) (Imports.lineEnd text ++ Imports.lineEnd text).toList := by
  have hLast : (Imports.lineEnd text).toList.getLast? ≠ some '\r' := by
    rw [Imports.lineEnd_eq]
    cases Imports.breaks text.toList <;> decide
  have hOne : EndsLike (Imports.breaks text.toList) (Imports.lineEnd text).toList := by
    rw [Imports.lineEnd_eq]
    cases Imports.breaks text.toList with
    | false => exact endsLike_false_iff.mpr rfl
    | true =>
      show EndsLike true ['\r', '\n']
      rintro (_ | ⟨a, _ | ⟨b, before⟩⟩) after hEq
      · cases hEq
      · cases hEq
        simp
      · simp at hEq
  rw [String.toList_append, endsLike_append (Or.inl hLast)]
  exact ⟨hOne, hOne, hOne⟩

end Text

-- ---------------------------------------------------------------------------
-- Tokens
-- ---------------------------------------------------------------------------

/-- A token that begins and ends with no blank, and in which and before which lines end alike. -/
structure Token.Lined (crlf : Bool) (t : Token) : Prop where
  firm : Layout.Firm t.text.toList
  leading : Text.EndsLike crlf t.leading.toList
  text : Text.EndsLike crlf t.text.toList

namespace Token

open Text (EndsLike)

variable {crlf : Bool}

theorem notMem_of_plain {w : String} (hw : Appender.Plain w) : '\n' ∉ w.toList := by
  intro hMem
  cases hw.2 _ hMem

theorem firm_of_plain {w : String} (hw : Appender.Plain w) : Layout.Firm w.toList :=
  Layout.firm_of_forall (by simpa using hw.1) hw.2

/-- Lines go on ending alike whatever an edit does to the tokens. -/
theorem durable_lined : Durable (Lined crlf) (EndsLike crlf ·.toList) Appender.Plain where
  leading h := h.leading
  withLeading h hl := ⟨h.firm, hl, h.text⟩
  withText h hw := ⟨firm_of_plain hw, h.leading, Text.endsLike_of_notMem (notMem_of_plain hw)⟩
  fresh _ hw hl := ⟨firm_of_plain hw, hl, Text.endsLike_of_notMem (notMem_of_plain hw)⟩
  noTrivia := Text.endsLike_of_notMem (by simp)
  blank := Text.endsLike_of_notMem (by simp)
  respaced := by
    intro l m hl hm
    -- what follows the blanks begins with no line feed
    have hMeet (m : String) : (Text.dropBlankChars m.toList).head? ≠ some '\n' := by
      intro hHead
      have hNot := List.head?_dropWhile_not Text.isBlank m.toList
      rw [show m.toList.dropWhile Text.isBlank = Text.dropBlankChars m.toList from rfl, hHead] at hNot
      simp at hNot
      revert hNot
      decide
    have hSplit (m : String) : m.toList = Text.leadingBlankChars m.toList ++ Text.dropBlankChars m.toList :=
      (Text.leadingBlankChars_append_dropBlankChars m.toList).symm
    rw [hSplit l, Text.endsLike_append (Or.inr (hMeet l))] at hl
    rw [hSplit m, Text.endsLike_append (Or.inr (hMeet m))] at hm
    simp only [Text.leadingBlank, Text.dropBlank, String.toList_append, String.toList_ofList]
    exact (Text.endsLike_append (Or.inr (hMeet m))).mpr ⟨hl.1, hm.2⟩
  dot := by decide
  importWord := by decide
  semicolon := by decide

/-- In a text that is taken apart into firm spellings, lines end alike if they do in each part. -/
theorem endsLike_source {ts : List Token} {ends : List Char} (hFirm : ∀ t ∈ ts, Layout.Firm t.text.toList) :
    EndsLike crlf ((ts.flatMap fun t => t.source.toList) ++ ends) ↔
      (∀ t ∈ ts, t.Lined crlf) ∧ EndsLike crlf ends := by
  induction ts with
  | nil => simp
  | cons t ts ih =>
    obtain ⟨hFirst, hRest⟩ := List.forall_mem_cons.mp hFirm
    obtain ⟨c, hHead, hc⟩ := hFirst.first
    obtain ⟨d, hLast, hd⟩ := hFirst.last
    have hFront : (t.text.toList ++ ((ts.flatMap fun t => t.source.toList) ++ ends)).head? ≠ some '\n' := by
      rw [List.head?_append, hHead]
      rintro ⟨⟩
      cases hc
    have hBack : t.text.toList.getLast? ≠ some '\r' := by
      rw [hLast]
      rintro ⟨⟩
      cases hd
    rw [List.flatMap_cons, source, String.toList_append, List.append_assoc, List.append_assoc,
      Text.endsLike_append (Or.inr hFront), Text.endsLike_append (Or.inl hBack), ih hRest,
      List.forall_mem_cons]
    constructor
    · rintro ⟨hLeading, hText, hTokens, hEnds⟩
      exact ⟨⟨⟨hFirst, hLeading, hText⟩, hTokens⟩, hEnds⟩
    · rintro ⟨⟨⟨-, hLeading, hText⟩, hTokens⟩, hEnds⟩
      exact ⟨hLeading, hText, hTokens, hEnds⟩

/-- The last of some firm spellings does not end a line. -/
theorem getLast_source_ne {ts : List Token} (hFirm : ∀ t ∈ ts, Layout.Firm t.text.toList) :
    (ts.flatMap fun t => t.source.toList).getLast? ≠ some '\n' := by
  rcases List.eq_nil_or_concat ts with rfl | ⟨ts, t, rfl⟩
  · simp
  · obtain ⟨d, hLast, hd⟩ := (hFirm t (by simp)).last
    rw [List.concat_eq_append, List.flatMap_append, List.flatMap_singleton, source,
      String.toList_append, ← List.append_assoc,
      List.getLast?_append, hLast]
    rintro ⟨⟩
    cases hd

end Token

-- ---------------------------------------------------------------------------
-- Units
-- ---------------------------------------------------------------------------

/-- A unit in which lines end alike up to its end, with what stands before its end. -/
structure UnitParts.Lined (crlf : Bool) (tail : List Char) (p : UnitParts) : Prop where
  each : p.Each (Token.Lined crlf)
  marker : ∃ e : Token, p.endMarker = [.token e] ∧ e.source.toList = tail
  tail : Text.EndsLike crlf tail

namespace UnitParts.Lined

open Text (EndsLike)

variable {crlf : Bool} {tail : List Char} {p q : UnitParts}

theorem toList_text (h : p.Lined crlf tail) :
    p.toUnit.text.toList = ((p.nodes.flatMap Node.tokens).flatMap fun t => t.source.toList) ++ tail := by
  obtain ⟨e, hEnd, hTail⟩ := h.marker
  rw [Node.toList_text, Node.chars, tokens_toUnit, List.flatMap_append, hEnd, ← hTail]
  simp [Node.tokens]

theorem forall_tokens (h : p.Lined crlf tail) : ∀ t ∈ p.nodes.flatMap Node.tokens, t.Lined crlf := by
  intro t ht
  obtain ⟨n, hn, ht⟩ := List.mem_flatMap.mp ht
  exact h.each n hn t ht

/-- The text of such a unit. -/
theorem endsLike (h : p.Lined crlf tail) : EndsLike crlf p.toUnit.text.toList := by
  rw [h.toList_text, Token.endsLike_source fun t ht => (h.forall_tokens t ht).firm]
  exact ⟨h.forall_tokens, h.tail⟩

/-- Where no line ends, lines may be said to end either way. -/
theorem of_notMem (h : p.Lined crlf tail) (hNone : '\n' ∉ p.toUnit.text.toList) (crlf' : Bool) :
    p.Lined crlf' tail := by
  have hText : EndsLike crlf' p.toUnit.text.toList := Text.endsLike_of_notMem hNone
  rw [h.toList_text, Token.endsLike_source fun t ht => (h.forall_tokens t ht).firm] at hText
  exact ⟨fun n hn t ht => hText.1 t (List.mem_flatMap.mpr ⟨n, hn, ht⟩), h.marker, hText.2⟩

/-- The lines of a unit end as the text shows, and that is as they ended before unless no line ends. -/
theorem as_breaks (h : p.Lined crlf tail) :
    p.Lined (Imports.breaks p.toUnit.text.toList) tail ∧
      (crlf = false ∨ '\n' ∈ tail → Imports.breaks p.toUnit.text.toList = crlf) := by
  have hText := h.endsLike
  cases crlf with
  | false =>
    have hNone := Text.endsLike_false_iff.mp hText
    exact ⟨hNone.symm ▸ h, fun _ => hNone⟩
  | true =>
    cases hBreaks : Imports.breaks p.toUnit.text.toList with
    | true => exact ⟨h, fun _ => rfl⟩
    | false =>
      have hNone := hText.notMem hBreaks
      refine ⟨h.of_notMem hNone false, fun hTail => ?_⟩
      -- the line feed before the end stands in the text
      rw [h.toList_text] at hNone
      rcases hTail with hTail | hTail
      · cases hTail
      · exact absurd (List.mem_append_right _ hTail) hNone

/-- An import that goes leaves line ends of the same kind. -/
theorem remove (h : p.Lined crlf tail) (hp : p.Sound) (t : TypeName) :
    ∃ q : UnitParts, (Imports.remove p.toUnit t).unit = q.toUnit ∧ q.Sound ∧ q.Lined crlf tail := by
  obtain ⟨q, hq, hqSound, hFront⟩ := Imports.reimports_remove hp t
  exact ⟨q, hq, hqSound, Imports.each_remove Token.durable_lined h.each hq,
    hFront.endMarker ▸ h.marker, h.tail⟩

/-- An import that comes leaves line ends of one kind. -/
theorem add (h : p.Lined crlf tail) (hp : p.Sound) {t : TypeName}
    (ht : ∀ part ∈ Text.splitDots t.text, Appender.Plain part) :
    ∃ (q : UnitParts) (crlf' : Bool), (Imports.add p.toUnit t).unit = q.toUnit ∧ q.Sound ∧
    q.Lined crlf' tail ∧
      (crlf = false ∨ '\n' ∈ tail → crlf' = crlf) := by
  obtain ⟨q, hq, hqSound, hFront⟩ := Imports.reimports_add hp t
  obtain ⟨hLined, hSame⟩ := h.as_breaks
  obtain ⟨hLine, hLines⟩ := Text.endsLike_lineEnd p.toUnit.text
  have hEach := Imports.each_add Token.durable_lined ht hLine hLines hLined.each hq
  exact ⟨q, _, hq, hqSound, ⟨hEach, hFront.endMarker ▸ h.marker, hLined.tail⟩, hSame⟩

/-- A pass leaves line ends of one kind. -/
theorem run (h : p.Lined crlf tail) (hp : p.Sound) {pass : Pass}
    (hPass : pass.Writes Appender.Plain) (j : Journal) :
    ∃ (q : UnitParts) (crlf' : Bool), (pass.run p.toUnit j).1.node = q.toUnit ∧ q.Sound ∧ q.Lined crlf' tail ∧
      (crlf = false ∨ '\n' ∈ tail → crlf' = crlf) := by
  have hTypes : (p.mapTypes pass.onType).Lined crlf tail :=
    ⟨h.each.mapTypes fun n hn => Pass.each_onType Token.durable_lined hPass (hp.types n hn).2,
    h.marker, h.tail⟩
  cases pass with
  | renameMethod pattern newName =>
    exact ⟨_, crlf, Pass.renameCalls_toUnit hp pattern newName,
      Pass.sound_onType (.renameMethod pattern newName) hp, hTypes, fun _ => rfl⟩
  | addImport t => exact h.add hp hPass
  | removeImport t =>
    obtain ⟨q, hq, hqSound, hqLined⟩ := h.remove hp t
    exact ⟨q, crlf, hq, hqSound, hqLined, fun _ => rfl⟩
  | changeType old new =>
    obtain ⟨q, hq, hqSound, hqLined⟩ := hTypes.remove (Pass.sound_onType (.changeType old new) hp) old
    obtain ⟨r, crlf', hr, hrSound, hrLined, hSame⟩ := hqLined.add hqSound hPass.1
    refine ⟨r, crlf', ?_, hrSound, hrLined, hSame⟩
    simp only [Pass.run, Pass.runAdd, Pass.runRemove, Pass.changeTypes_toUnit hp.formed, hq, hr]

/-- So do passes one after another. -/
theorem runAll (h : p.Lined crlf tail) (hp : p.Sound) {passes : List Pass}
    (hPasses : ∀ pass ∈ passes, pass.Writes Appender.Plain) (changed : Bool) (j : Journal) :
    ∃ (q : UnitParts) (crlf' : Bool),
      (Queue.runAll passes ⟨p.toUnit, changed⟩ j).1.node = q.toUnit ∧ q.Lined crlf' tail ∧
      (crlf = false ∨ '\n' ∈ tail → crlf' = crlf) := by
  have hStep : ∀ pass ∈ passes, ∀ (r : UnitParts) (j : Journal), r.Sound →
      (∃ b, r.Lined b tail ∧ (crlf = false ∨ '\n' ∈ tail → b = crlf)) →
      ∃ r' : UnitParts, (pass.run r.toUnit j).1.node = r'.toUnit ∧ r'.Sound ∧
        ∃ b, r'.Lined b tail ∧ (crlf = false ∨ '\n' ∈ tail → b = crlf) := by
    rintro pass hPass r j hr ⟨b, hLined, hSame⟩
    obtain ⟨r', b', hr', hrSound, hLined', hSame'⟩ := hLined.run hr (hPasses pass hPass) j
    refine ⟨r', hr', hrSound, b', hLined', fun hKept => ?_⟩
    have hb := hSame hKept
    exact (hSame' (hb ▸ hKept)).trans hb
  obtain ⟨q, hq, -, b, hLined, hSame⟩ := Pass.runAll_induct hStep hp ⟨crlf, h, fun _ => rfl⟩ changed j
  exact ⟨q, b, hq, hLined, hSame⟩

end UnitParts.Lined

namespace Layout

/-- In a text that is taken apart, only the last token marks the end. -/
theorem Partition.kind_ne {ts : List Token} {e : Token} (h : Partition (ts ++ [e])) :
    ∀ t ∈ ts, t.kind ≠ .endOfText := by
  obtain ⟨us, hCut, rfl | hMark⟩ := h
  · exact fun t ht => ((hCut.split (by simp)).1 t ht).kind_ne
  · cases ts with
    | nil => simp
    | cons t ts =>
      cases us with
      | nil => cases hMark
      | cons u us =>
        obtain ⟨rfl, rfl⟩ := List.cons.inj hMark
        have hCut : Cut ((u :: ts) ++ [e]) := hCut
        obtain ⟨hFirst, hRest⟩ := List.forall_mem_cons.mp (hCut.split (by simp)).1
        exact List.forall_mem_cons.mpr ⟨hFirst.kind_ne, fun t ht => (hRest t ht).kind_ne⟩

end Layout

namespace Appender

open Text (EndsLike)

section Runs

variable [TreeSitter] [LawfulTreeSitter] {classpath : Classpath} {text : String} {crlf : Bool}

/-- The tokens of a resolved unit begin and end with no blank, up to the marker of its end. -/
theorem firm_of_resolve {p : UnitParts} (h : resolve classpath text = .ok p.toUnit)
    (hFine : p.toUnit.WellFormed) :
    ∀ t ∈ p.nodes.flatMap Node.tokens, Layout.Firm t.text.toList := by
  obtain ⟨e, hEnd⟩ := UnitParts.exists_end hFine
  obtain ⟨tree, hParse, hTree⟩ := exists_tree_of_resolve h
  have hFresh := Parsing.fresh_of_parse hParse
  have hPartition := hFresh.apart
  have hFirm := Parsing.firm_of_parse hParse
  rw [← Attribution.tokens_ofUnit classpath hFresh.wellFormed hFresh.isUnit, hTree] at hPartition hFirm
  rw [UnitParts.tokens_toUnit, hEnd] at hPartition hFirm
  exact fun t ht => hFirm t (List.mem_append_left _ ht) (hPartition.kind_ne t ht)

/-- Where lines end alike in a text, they do in the unit that is read from it. -/
theorem lined_of_resolve {p : UnitParts} (h : resolve classpath text = .ok p.toUnit)
    (hFine : p.toUnit.WellFormed)
    (hText : p.toUnit.text = text) (hLines : EndsLike crlf text.toList) :
    ∃ tail, p.Lined crlf tail ∧ (text.toList.getLast? = some '\n' → '\n' ∈ tail) := by
  have hFirm := firm_of_resolve h hFine
  obtain ⟨e, hEnd⟩ := UnitParts.exists_end hFine
  have hSplit : text.toList =
      ((p.nodes.flatMap Node.tokens).flatMap fun t => t.source.toList) ++ e.source.toList := by
    rw [← hText, Node.toList_text, Node.chars, UnitParts.tokens_toUnit, List.flatMap_append, hEnd]
    simp [Node.tokens]
  rw [hSplit, Token.endsLike_source hFirm] at hLines
  refine ⟨e.source.toList, ⟨fun n hn t ht => hLines.1 t (List.mem_flatMap.mpr ⟨n, hn, ht⟩),
    ⟨e, hEnd, rfl⟩, hLines.2⟩, ?_⟩
  rw [hSplit, List.getLast?_append]
  intro hLast
  cases hTail : e.source.toList.getLast? with
  | some c =>
    rw [hTail] at hLast
    obtain rfl := Option.some.inj hLast
    exact List.mem_of_getLast? hTail
  | none =>
    rw [hTail, Option.none_or] at hLast
    exact absurd hLast (Token.getLast_source_ne hFirm)

/-- A run does not mix line ends: where all lines of a text end alike, so do those of the migrated text.
They end as they did before if they ended without carriage returns, or if the text ends with its last line. -/
theorem run_keeps_line_ends [ReadsTemplate] (path : Option String) (h : EndsLike crlf text.toList) :
    ∃ crlf', EndsLike crlf' ((engine classpath).run text path).code.toList ∧
      (crlf = false ∨ text.toList.getLast? = some '\n' → crlf' = crlf) := by
  by_cases hStatus : ((engine classpath).run text path).status = .edited
  · obtain ⟨p, q, j, hEdited, hCode⟩ := exists_edited hStatus
    obtain ⟨tail, hLined, hTail⟩ := lined_of_resolve hEdited.resolved hEdited.wellFormed hEdited.text_eq h
    have hTree : newSupertype.form ∈ [Form.name, .parameterized] ∧ newSupertype.WellFormed :=
      ⟨by decide, wellFormed_newSupertype⟩
    have hPlain (w : String) (hw : Plain w) : Plain w := hw
    have hVisited : (p.mapTypes (recipe.visited newSupertype)).Lined crlf tail :=
      ⟨hLined.each.mapTypes fun n hn => Recipe.each_visited Token.durable_lined (writes_table hPlain)
        (each_newSupertype hPlain Token.durable_lined) hTree (hEdited.sound.types n hn).2,
        hLined.marker, hLined.tail⟩
    have hPasses : ∀ pass ∈ (if moves p.toUnit then companions else []), pass.Writes Plain := by
      split
      · exact writes_companions hPlain
      · simp
    obtain ⟨j', hRun⟩ := hEdited.passes
    obtain ⟨r, crlf', hr, hLast, hSame⟩ :=
      hVisited.runAll (hEdited.sound.visited recipe hTree) hPasses false j'
    obtain rfl : q = r := UnitParts.toUnit_inj (hRun.symm.trans hr)
    exact ⟨crlf', hCode ▸ hLast.endsLike, fun hKept => hSame (hKept.imp_right hTail)⟩
  · rw [code_of_not_edited hStatus]
    exact ⟨crlf, h, fun _ => rfl⟩

end Runs

open Draft in
/-- A class that is moved, of a text whose lines end with carriage returns. -/
def returned : Sample := .ofDraft (node "program" [
  importing ["AppenderSkeleton", "log4j", "apache", "org"],
  classOf "A" (typeWord "AppenderSkeleton" " ") (braced "class_body" [
    methodOf (voidType "\r\n  ") "close" [] (braced "block" [] " " "\r\n  ")] " " "\r\n") "\r\n"]) "\r\n"

open Sample in
set_option maxRecDepth 100000 in
theorem run_keeps_line_ends_returned : letI := library [returned, holder]
    EndsLike true returned.text.toList ∧
    ((engine ⟨defaultStubs⟩).run returned.text).status = .edited ∧
    EndsLike true ((engine ⟨defaultStubs⟩).run returned.text).code.toList := by
  let _ := library [returned, holder]
  have hSound : returned.isSound = true := by decide +kernel
  have _ := lawful_holder hSound
  have _ := readsTemplate_holder (show returned.chars ≠ holder.chars by decide +kernel)
  have hLines : EndsLike true returned.text.toList := by decide +kernel
  have hSome : ((returned.resolved? ⟨defaultStubs⟩).bind fun unit =>
      (recipe.run unit {}).1.toOption.map fun result =>
        (result.changed, decide (result.node.text ≠ returned.text))) = some (true, true) := by
    decide +kernel
  obtain ⟨unit, hUnit, hSome⟩ := Option.bind_eq_some_iff.mp hSome
  obtain ⟨result, hResult, hSome⟩ := Option.map_eq_some_iff.mp hSome
  obtain ⟨hChanged, hOther⟩ := Prod.mk.inj hSome
  have h : resolve ⟨defaultStubs⟩ returned.text = .ok unit := (resolve_iff hSound).mpr hUnit
  have hEdited := (edited_of_run h (ok_of_toOption hResult) hChanged (of_decide_eq_true hOther) none).1
  obtain ⟨crlf, hCode, hSame⟩ := @run_keeps_line_ends _ _ ⟨defaultStubs⟩ _ _ _ none hLines
  obtain rfl := hSame (Or.inr (by decide +kernel))
  exact ⟨hLines, hEdited, hCode⟩

end Appender

end SourceMigration
