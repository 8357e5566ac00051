import SourceMigration.Proofs.Parsing.Samples
import SourceMigration.Proofs.Parsing.Units

/-!
# SourceMigration — parsing loses nothing

A text in which no errors are found becomes a unit. What is known of the unit is said here once: it is
fresh, nothing of the text is lost in it, its tokens begin and end with no blank and tell where they stand,
and behind each call stands a list of arguments.

## Results

* `exists_parse`      — a text without errors is a unit.
* `reported_of_parse` — of any other text, what is wrong is reported.
* `fresh_of_parse`    — units are fresh.
* `parse_lossless`    — a unit prints as the text that it was parsed from.
* `parse_placed`      — the tokens of a unit tell where they stand in the text.
-/

namespace SourceMigration

/-- The text is refused for what is wrong in it, and not because the conversion breaks off. -/
def Refusal.IsReported (r : Refusal) : Prop := r.fault ≠ .unconverted

namespace Parsing

open TreeBuilder (IsList UnitOf exists_unit)

-- ---------------------------------------------------------------------------
-- Refusals
-- ---------------------------------------------------------------------------

/-- The first error of a tree is one of its nodes. -/
theorem mem_nodes_of_firstError {n m : Concrete} (h : n.firstError? = some m) : m ∈ n.nodes := by
  induction n using Concrete.induct generalizing m with
  | node i cs ih =>
    rw [Concrete.firstError?] at h
    rw [Concrete.nodes]
    split at h
    · cases h
      exact List.mem_cons_self
    · refine List.mem_cons_of_mem _ ?_
      clear * - ih h
      induction cs with
      | nil => cases h
      | cons c cs ih' =>
        rw [Concrete.firstErrorOf?, Option.orElse_eq_orElse, Option.orElse_eq_or, Option.or_eq_some_iff] at h
        rw [Concrete.nodesOf, List.mem_append]
        rcases h with h | ⟨-, h⟩
        · exact Or.inl (ih c List.mem_cons_self h)
        · exact Or.inr (ih' (fun d hd => ih d (List.mem_cons_of_mem _ hd)) h)

/-- The place of an error is told where all nodes begin and end between characters. -/
theorem diagnose_reported {source : List Char} {root : Concrete} (shift : Nat)
    (h : ∀ n ∈ root.nodes, (Text.slice? source n.info.start n.info.stop).isSome = true) :
    (diagnose source shift root).IsReported := by
  have hMem : root.firstError?.getD root ∈ root.nodes := by
    cases hFirst : root.firstError? with
    | none =>
      cases root
      exact List.mem_cons_self
    | some m => exact mem_nodes_of_firstError hFirst
  obtain ⟨cs, hSlice⟩ := Option.isSome_iff_exists.mp (h _ hMem)
  simp only [Refusal.IsReported, diagnose, faultAt, hSlice]
  split
  · simp
  · split <;> simp

-- ---------------------------------------------------------------------------
-- Units of texts
-- ---------------------------------------------------------------------------

section Units

variable [TreeSitter] [LawfulTreeSitter] {text : String} {unit : Node}

/-- What the conversion makes of a text without errors. -/
theorem exists_unitOf (h : (TreeSitter.root text).hasError = false) :
    ∃ n stop, TreeBuilder.unit text.toList (TreeSitter.root text) 0 = some (n, stop) ∧
      UnitOf text.toList (TreeSitter.root text) n := by
  obtain ⟨mark, rest, hMark, hText, hLaid⟩ := LawfulTreeSitter.laid h
  exact exists_unit (LawfulTreeSitter.regular h) hMark hText hLaid

/-- A text without errors is a unit. -/
theorem exists_parse (h : (TreeSitter.root text).hasError = false) : ∃ n, parse text = .ok n := by
  obtain ⟨n, stop, hUnit, -⟩ := exists_unitOf h
  exact ⟨n, parse_eq_ok_iff.mpr ⟨h, stop, hUnit⟩⟩

/-- A text that is no unit has errors, and what is reported is what is wrong there. -/
theorem reported_of_parse {why : Refusal} (h : parse text = .error why) :
    (TreeSitter.root text).hasError = true ∧ why.IsReported := by
  unfold parse at h
  simp only at h
  split at h
  · rename_i hError
    cases h
    exact ⟨hError, diagnose_reported 0 fun n hn => LawfulTreeSitter.whole n hn⟩
  · rename_i hNoError
    obtain ⟨n, stop, hUnit, -⟩ := exists_unitOf (by simpa using hNoError)
    rw [hUnit] at h
    cases h

theorem unitOf_parse (h : parse text = .ok unit) : UnitOf text.toList (TreeSitter.root text) unit := by
  obtain ⟨hNoError, stop, hUnit⟩ := parse_eq_ok_iff.mp h
  obtain ⟨n, stop', hUnit', hOf⟩ := exists_unitOf hNoError
  rw [hUnit] at hUnit'
  cases hUnit'
  exact hOf

/-- Units are fresh. -/
theorem fresh_of_parse (h : parse text = .ok unit) : unit.Fresh := by
  have hOf := unitOf_parse h
  obtain ⟨ts, e, hTokens, hEnd, -, mid, hTaken, -⟩ := hOf.tokens
  refine ⟨hOf.isUnit, hOf.solid.sturdy, hOf.solid.bare, ?_, hOf.closed, hOf.apart⟩
  intro t ht hKind
  rw [hTokens] at ht
  rcases List.mem_append.mp ht with ht | ht
  · obtain ⟨n, hn⟩ := hTaken.made t ht
    exact hn.spells.word (TreeBuilder.word_of_kind hn hKind)
  · rw [List.mem_singleton.mp ht, hEnd] at hKind
    cases hKind

theorem text_of_parse (h : parse text = .ok unit) : unit.text = text :=
  String.toList_injective (unitOf_parse h).text

/-- A text, taken apart at a token of its unit. -/
theorem text_around (h : parse text = .ok unit) {front back : List Token} {t : Token}
    (hTokens : unit.tokens = front ++ t :: back) :
    text = sourceOf front ++ t.leading ++ t.text ++ sourceOf back := by
  rw [← text_of_parse h, Node.text, hTokens, sourceOf_append]
  simp [sourceOf, String.join_cons, Token.source, String.append_assoc]

/-- Every token of a unit but the marker of its end begins and ends with no blank. -/
theorem firm_of_parse (h : parse text = .ok unit) :
    ∀ t ∈ unit.tokens, t.kind ≠ .endOfText → Layout.Firm t.text.toList := by
  obtain ⟨ts, e, hTokens, hEnd, -, mid, hTaken, -⟩ := (unitOf_parse h).tokens
  intro t ht hKind
  rw [hTokens] at ht
  rcases List.mem_append.mp ht with ht | ht
  · obtain ⟨n, hn⟩ := hTaken.made t ht
    exact hn.spells.firm
  · exact absurd (List.mem_singleton.mp ht ▸ hEnd) hKind

/-- Behind every call of a unit stands what a list of arguments of its text has become. -/
theorem argued_of_parse (h : parse text = .ok unit) :
    unit.Argued (IsList text.toList (TreeSitter.root text)) := (unitOf_parse h).solid.argued

/-- Parsing loses nothing: a unit printed field by field is the text it was parsed from, as are its
tokens one after another, and these take the text apart. -/
theorem parse_lossless (h : parse text = .ok unit) :
    unit.printed = text ∧ sourceOf unit.tokens = text ∧ Layout.Partition unit.tokens :=
  ⟨(fresh_of_parse h).wellFormed.printed.trans (text_of_parse h), text_of_parse h, (fresh_of_parse h).apart⟩

end Units

/-- The unit of a sound sample is fresh. -/
theorem fresh_of_sample {s : Sample} (hSound : s.isSound = true) (h : s.unit? = some unit) : unit.Fresh := by
  let _ := Sample.library [s]
  have _ := Sample.lawful_library (List.forall_mem_singleton.mpr hSound)
  exact fresh_of_parse ((Sample.parse_iff hSound).mpr h)

open Sample in
theorem parse_lossless_remarked : letI := library [remarked]
    ∃ unit, parse remarked.text = .ok unit ∧ unit.printed = remarked.text ∧
      sourceOf unit.tokens = remarked.text ∧ Layout.Partition unit.tokens := by
  let _ := library [remarked]
  have _ := lawful_library (List.forall_mem_singleton.mpr isSound_remarked)
  obtain ⟨unit, hUnit⟩ := exists_parse (noError_of_isSound isSound_remarked)
  exact ⟨unit, hUnit, parse_lossless hUnit⟩

-- ---------------------------------------------------------------------------
-- Places
-- ---------------------------------------------------------------------------

/-- One of some tokens and a marker behind them is the marker, or stands among the tokens. -/
theorem marker_or_among {ts front back : List Token} {t e : Token} (h : front ++ t :: back = ts ++ [e]) :
    front = ts ∧ t = e ∧ back = [] ∨ ∃ mid, ts = front ++ t :: mid ∧ back = mid ++ [e] := by
  rcases List.eq_nil_or_concat back with rfl | ⟨mid, last, rfl⟩
  · obtain ⟨hFront, hLast⟩ := List.append_inj' h rfl
    exact Or.inl ⟨hFront, (List.cons.inj hLast).1, rfl⟩
  · rw [List.concat_eq_append, ← List.cons_append, ← List.append_assoc] at h
    obtain ⟨hFront, hLast⟩ := List.append_inj' h rfl
    exact Or.inr ⟨mid, hFront.symm, by rw [List.concat_eq_append, hLast]⟩

/-- The line of a token is one more than the number of line feeds before its spelling, and its column one
more than the number of bytes between the last of these, or the start of the text, and the spelling. -/
theorem parse_placed [TreeSitter] [LawfulTreeSitter] {text : String} {unit : Node}
    (h : parse text = .ok unit) {front back : List Token} {t : Token}
    (hTokens : unit.tokens = front ++ t :: back) (hKind : t.kind ≠ .endOfText) :
    text = sourceOf front ++ t.leading ++ t.text ++ sourceOf back ∧
      t.line = 1 + (sourceOf front ++ t.leading).toList.count '\n' ∧
      t.column = 1 + (String.ofList (Layout.lastLine (sourceOf front ++ t.leading).toList)).utf8ByteSize := by
  refine ⟨text_around h hTokens, ?_⟩
  obtain ⟨ts, e, hAll, hEnd, hPlaced, -⟩ := (unitOf_parse h).tokens
  rcases marker_or_among (hTokens.symm.trans hAll) with ⟨-, rfl, -⟩ | ⟨mid, rfl, -⟩
  · -- the marker of the end is the only token that has no place
    exact absurd hEnd hKind
  · have hStands := (TreeBuilder.placed_append_inv hPlaced).1
    rw [List.nil_append, ← String.toList_append] at hStands
    rw [hStands.1, hStands.2, Text.utf8ByteSize_ofList]
    exact ⟨rfl, rfl⟩

open Sample in
set_option maxRecDepth 100000 in
theorem parse_placed_remarked : letI := library [remarked]
    ∃ unit front back t, parse remarked.text = .ok unit ∧ unit.tokens = front ++ t :: back ∧ t.text = "x" ∧
      remarked.text = sourceOf front ++ t.leading ++ t.text ++ sourceOf back ∧
      t.line = 1 + (sourceOf front ++ t.leading).toList.count '\n' ∧
      t.column = 1 + (String.ofList (Layout.lastLine (sourceOf front ++ t.leading).toList)).utf8ByteSize := by
  let _ := library [remarked]
  have _ := lawful_library (List.forall_mem_singleton.mpr isSound_remarked)
  have hSome : (remarked.unit?.map fun unit => unit.tokens.any fun t =>
      t.text == "x" && decide (t.kind ≠ .endOfText)) = some true := by decide +kernel
  obtain ⟨unit, hUnit, hAny⟩ := Option.map_eq_some_iff.mp hSome
  obtain ⟨t, ht, hText⟩ := List.any_eq_true.mp hAny
  obtain ⟨front, back, hTokens⟩ := List.append_of_mem ht
  have h : parse remarked.text = .ok unit := (parse_iff isSound_remarked).mpr hUnit
  obtain ⟨hText, hKind⟩ := Bool.and_eq_true_iff.mp hText
  exact ⟨unit, front, back, t, h, hTokens, eq_of_beq hText, parse_placed h hTokens (of_decide_eq_true hKind)⟩

end Parsing

end SourceMigration
