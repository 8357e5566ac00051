import SourceMigration.Editing.MethodPattern

/-!
# SourceMigration — what method patterns are

A pattern is taken apart by runs of characters, one after another: blanks, a type, blanks, a name, blanks,
and what stands in parentheses. Where two runs meet, the first character of the second is never one of the
first, so each run ends in one place only, and a text can be taken apart in at most one way. The classes
are those of Unicode, and a blank is in neither of the two others.

## Results

* `Text.Run.inj`       — runs that end before other characters end in one place.
* `Text.trims_iff`     — trimming takes off the blanks at both ends and nothing else.
* `Parts.Valid.unique` — a text has the parts of a pattern in one way.
* `written_of_parse`   — what a pattern is read from.
* `reads_exactly`      — a text is read as a pattern exactly if it has such parts.
-/

namespace SourceMigration

-- ---------------------------------------------------------------------------
-- Runs
-- ---------------------------------------------------------------------------

namespace Text

/-- A run of characters of one class, up to a character that is not of the class or up to the end. -/
structure Run (p : Char → Bool) (run rest : List Char) : Prop where
  all : ∀ c ∈ run, p c = true
  stop : ∀ c ∈ rest.head?, p c = false

namespace Run

variable {p : Char → Bool} {cs run rest run' rest' : List Char}

theorem takeWhile_eq (h : Run p run rest) : (run ++ rest).takeWhile p = run := by
  rw [List.takeWhile_append_of_pos h.all]
  cases rest with
  | nil => simp
  | cons c rest => simp [h.stop c rfl]

theorem dropWhile_eq (h : Run p run rest) : (run ++ rest).dropWhile p = rest := by
  rw [List.dropWhile_append_of_pos h.all]
  cases rest with
  | nil => simp
  | cons c rest => simp [h.stop c rfl]

/-- Every text begins with a run. -/
theorem exists_run (p : Char → Bool) (cs : List Char) : ∃ run rest, cs = run ++ rest ∧ Run p run rest := by
  refine ⟨cs.takeWhile p, cs.dropWhile p, List.takeWhile_append_dropWhile.symm,
    List.all_eq_true.mp List.all_takeWhile, fun c hc => ?_⟩
  have hStop := List.head?_dropWhile_not p cs
  rw [Option.mem_def.mp hc] at hStop
  simpa using hStop

/-- A run ends in one place. -/
theorem inj (h : Run p run rest) (h' : Run p run' rest') (hSame : run ++ rest = run' ++ rest') :
    run = run' ∧ rest = rest' := by
  refine ⟨?_, ?_⟩
  · rw [← h.takeWhile_eq, hSame, h'.takeWhile_eq]
  · rw [← h.dropWhile_eq, hSame, h'.dropWhile_eq]

end Run

-- ---------------------------------------------------------------------------
-- Trimming
-- ---------------------------------------------------------------------------

/-- A text and what is left of it without the blanks at either end. -/
def Trims (cs core : List Char) : Prop :=
  ∃ before after, cs = before ++ core ++ after ∧ (∀ c ∈ before, isBlank c = true) ∧
    (∀ c ∈ after, isBlank c = true) ∧ (∀ c ∈ core.head?, isBlank c = false) ∧
    ∀ c ∈ core.getLast?, isBlank c = false

theorem trims_stripChars (cs : List Char) : Trims cs (stripChars cs) := by
  obtain ⟨before, more, rfl, hFront⟩ := Run.exists_run isBlank cs
  obtain ⟨after, core, hMore, hBack⟩ := Run.exists_run isBlank more.reverse
  obtain rfl : more = core.reverse ++ after.reverse := by
    rw [← List.reverse_append, ← hMore, List.reverse_reverse]
  have hCore : stripChars (before ++ (core.reverse ++ after.reverse)) = core.reverse := by
    rw [stripChars, dropBlankChars, dropBlankChars, hFront.dropWhile_eq, hMore, hBack.dropWhile_eq]
  rw [hCore]
  refine ⟨before, after.reverse, (List.append_assoc _ _ _).symm, hFront.all,
    fun c hc => hBack.all c (List.mem_reverse.mp hc), fun c hc => hFront.stop c ?_,
      fun c hc => hBack.stop c ?_⟩
  · rw [Option.mem_def] at hc ⊢
    rw [List.head?_append, hc]
    rfl
  · rwa [List.getLast?_reverse] at hc

theorem stripChars_of_trims {cs core : List Char} (h : Trims cs core) : stripChars cs = core := by
  obtain ⟨before, after, rfl, hBefore, hAfter, hHead, hLast⟩ := h
  cases core with
  | nil =>
    have hBlank : Run isBlank (before ++ [] ++ after) [] :=
      ⟨by simpa [or_imp, forall_and] using ⟨hBefore, hAfter⟩, by simp⟩
    have hNone := hBlank.dropWhile_eq
    rw [List.append_nil] at hNone
    rw [stripChars, dropBlankChars, dropBlankChars, hNone]
    rfl
  | cons c core =>
    have hFront : Run isBlank before ((c :: core) ++ after) := ⟨hBefore, by simpa using hHead⟩
    have hBack : Run isBlank after.reverse (c :: core).reverse := by
      refine ⟨fun d hd => hAfter d (List.mem_reverse.mp hd), fun d hd => hLast d ?_⟩
      rwa [List.head?_reverse] at hd
    rw [stripChars, List.append_assoc, dropBlankChars, dropBlankChars, hFront.dropWhile_eq,
      List.reverse_append,
      hBack.dropWhile_eq, List.reverse_reverse]

/-- Trimming takes off the blanks at both ends and nothing else. -/
theorem trims_iff {cs core : List Char} : Trims cs core ↔ stripChars cs = core :=
  ⟨stripChars_of_trims, fun h => h ▸ trims_stripChars cs⟩

end Text

-- ---------------------------------------------------------------------------
-- Parts of a pattern
-- ---------------------------------------------------------------------------

namespace MethodPattern

/-- A text that is taken apart as a pattern. -/
structure Parts where
  before : List Char
  owner : List Char
  between : List Char
  name : List Char
  gap : List Char
  arguments : List Char
  after : List Char

namespace Parts

/-- The text from the end of the name on. -/
def behindName (d : Parts) : List Char := d.gap ++ '(' :: (d.arguments ++ ')' :: d.after)

/-- The text from the end of the type on. -/
def behindOwner (d : Parts) : List Char := d.between ++ (d.name ++ d.behindName)

/-- The whole text. -/
def chars (d : Parts) : List Char := d.before ++ (d.owner ++ d.behindOwner)

/-- What each of the parts is made of. -/
structure Valid (d : Parts) : Prop where
  before : ∀ c ∈ d.before, Text.isBlank c = true
  owner_ne : d.owner ≠ []
  owner : ∀ c ∈ d.owner, isOwnerCharacter c = true
  between_ne : d.between ≠ []
  between : ∀ c ∈ d.between, Text.isBlank c = true
  name_ne : d.name ≠ []
  name : ∀ c ∈ d.name, isNameCharacter c = true
  gap : ∀ c ∈ d.gap, Text.isBlank c = true
  arguments : ∀ c ∈ d.arguments, c ≠ '(' ∧ c ≠ ')'
  after : ∀ c ∈ d.after, Text.isBlank c = true

end Parts

/-- How many arguments the text between the parentheses asks for: any number where two points are all there
is but blanks, none where there are only blanks, and else one more than there are commas. -/
inductive AsksFor (arguments : List Char) : Option Nat → Prop where
  | any (h : Text.Trims arguments ['.', '.']) : AsksFor arguments none
  | none (h : Text.Trims arguments []) : AsksFor arguments (some 0)
  | counted {core : List Char} (h : Text.Trims arguments core) (hAny : core ≠ ['.', '.'])
      (hSome : core ≠ []) :
      AsksFor arguments (some (core.count ',' + 1))

theorem asks_iff {arguments : List Char} {arity : Option Nat} :
    AsksFor arguments arity ↔ arityOf arguments = arity := by
  constructor
  · intro h
    cases h with
    | any h => rw [arityOf, Text.trims_iff.mp h]; rfl
    | none h => rw [arityOf, Text.trims_iff.mp h]; rfl
    | counted h hAny hSome => simp [arityOf, Text.trims_iff.mp h, hAny, hSome]
  · rintro rfl
    have hTrims := Text.trims_stripChars arguments
    unfold arityOf
    generalize Text.stripChars arguments = core at hTrims
    dsimp only
    split
    · rename_i hAny
      exact .any (hAny ▸ hTrims)
    · rename_i hAny
      split
      · rename_i hNone
        exact .none (List.isEmpty_iff.mp hNone ▸ hTrims)
      · rename_i hSome
        exact .counted hTrims hAny (by simpa using hSome)

-- ---------------------------------------------------------------------------
-- Where runs meet
-- ---------------------------------------------------------------------------

/-- The code points of the blanks. -/
def blankCodes : List Nat :=
  [9, 10, 11, 12, 13, 0x1C, 0x1D, 0x1E, 0x1F, 0x20, 0x85, 0xA0, 0x1680, 0x2000, 0x2001, 0x2002, 0x2003,
    0x2004, 0x2005, 0x2006, 0x2007, 0x2008, 0x2009, 0x200A, 0x2028, 0x2029, 0x202F, 0x205F, 0x3000]

theorem mem_blankCodes {c : Char} (h : Text.isBlank c = true) : c.toNat ∈ blankCodes := by
  simp only [Text.isBlank, Bool.or_eq_true, Bool.and_eq_true, decide_eq_true_eq, beq_iff_eq] at h
  simp only [blankCodes, List.mem_cons, List.not_mem_nil, or_false]
  omega

/-- A blank stands in no type. -/
theorem not_owner_of_blank {c : Char} (h : Text.isBlank c = true) : isOwnerCharacter c = false := by
  have hAll : ∀ n ∈ blankCodes, isOwnerCharacter (Char.ofNat n) = false := by decide +kernel
  rw [← Char.ofNat_toNat c]
  exact hAll _ (mem_blankCodes h)

theorem owner_of_name {c : Char} (h : isNameCharacter c = true) : isOwnerCharacter c = true := by
  rw [isOwnerCharacter]
  rw [isNameCharacter] at h
  rw [h, Bool.true_or]

/-- A blank stands in no name. -/
theorem not_name_of_blank {c : Char} (h : Text.isBlank c = true) : isNameCharacter c = false :=
  Bool.eq_false_iff.mpr fun hName => Bool.eq_false_iff.mp (not_owner_of_blank h) (owner_of_name hName)

theorem not_blank_of_owner {c : Char} (h : isOwnerCharacter c = true) : Text.isBlank c = false :=
  Bool.eq_false_iff.mpr fun hBlank => Bool.eq_false_iff.mp (not_owner_of_blank hBlank) h

/-- Whether a character may stand between the parentheses. -/
def isArgumentCharacter (c : Char) : Bool := c != '(' && c != ')'

namespace Parts.Valid

variable {d e : Parts}

theorem head_of_ne {xs ys : List Char} (h : xs ≠ []) : ∀ c ∈ (xs ++ ys).head?, c ∈ xs := by
  obtain ⟨x, xs, rfl⟩ := List.exists_cons_of_ne_nil h
  simp

theorem run_before (h : d.Valid) : Text.Run Text.isBlank d.before (d.owner ++ d.behindOwner) :=
  ⟨h.before, fun c hc => not_blank_of_owner (h.owner c (head_of_ne h.owner_ne c hc))⟩

theorem run_owner (h : d.Valid) : Text.Run isOwnerCharacter d.owner d.behindOwner :=
  ⟨h.owner, fun c hc => not_owner_of_blank (h.between c (head_of_ne h.between_ne c hc))⟩

theorem run_between (h : d.Valid) : Text.Run Text.isBlank d.between (d.name ++ d.behindName) :=
  ⟨h.between, fun c hc => not_blank_of_owner (owner_of_name (h.name c (head_of_ne h.name_ne c hc)))⟩

theorem run_name (h : d.Valid) : Text.Run isNameCharacter d.name d.behindName := by
  refine ⟨h.name, fun c hc => ?_⟩
  unfold behindName at hc
  by_cases hGap : d.gap = []
  · obtain rfl : '(' = c := by simpa [hGap] using hc
    decide
  · exact not_name_of_blank (h.gap c (head_of_ne hGap c hc))

theorem run_gap (h : d.Valid) : Text.Run Text.isBlank d.gap ('(' :: (d.arguments ++ ')' :: d.after)) := by
  refine ⟨h.gap, fun c hc => ?_⟩
  obtain rfl : '(' = c := by simpa using hc
  decide

theorem run_arguments (h : d.Valid) : Text.Run isArgumentCharacter d.arguments (')' :: d.after) := by
  refine ⟨fun c hc => ?_, fun c hc => ?_⟩
  · simpa [isArgumentCharacter] using h.arguments c hc
  · obtain rfl : ')' = c := by simpa using hc
    decide

/-- A text has the parts of a pattern in one way. -/
theorem unique (hd : d.Valid) (he : e.Valid) (h : d.chars = e.chars) : d = e := by
  obtain ⟨hBefore, h⟩ := hd.run_before.inj he.run_before h
  obtain ⟨hOwner, h⟩ := hd.run_owner.inj he.run_owner h
  obtain ⟨hBetween, h⟩ := hd.run_between.inj he.run_between h
  obtain ⟨hName, h⟩ := hd.run_name.inj he.run_name h
  obtain ⟨hGap, h⟩ := hd.run_gap.inj he.run_gap h
  obtain ⟨hArguments, h⟩ := hd.run_arguments.inj he.run_arguments (List.cons.inj h).2
  cases d
  cases e
  simp_all

end Parts.Valid

-- ---------------------------------------------------------------------------
-- Reading
-- ---------------------------------------------------------------------------

/-- The pattern that parts of a text make up. -/
def Parts.pattern (source : String) (d : Parts) : MethodPattern :=
  ⟨source, ⟨String.ofList d.owner⟩, String.ofList d.name, arityOf d.arguments⟩

theorem parse_of_valid {source : String} {d : Parts} (h : d.Valid) (hChars : d.chars = source.toList) :
    parse? source = some (d.pattern source) := by
  have hAfter : d.after.all Text.isBlank = true := List.all_eq_true.mpr h.after
  have hBlank : d.behindOwner.head?.any Text.isBlank = true := by
    obtain ⟨c, cs, hBetween⟩ := List.exists_cons_of_ne_nil h.between_ne
    simpa [Parts.behindOwner, hBetween] using h.between c (by simp [hBetween])
  have hOwner : d.owner.isEmpty = false := by simpa using h.owner_ne
  have hName : d.name.isEmpty = false := by simpa using h.name_ne
  have hOpening : (d.behindName).dropWhile Text.isBlank = '(' :: (d.arguments ++ ')' :: d.after) :=
    h.run_gap.dropWhile_eq
  have hBetween : d.behindOwner.dropWhile Text.isBlank = d.name ++ d.behindName := h.run_between.dropWhile_eq
  have hInside : (fun c => c != '(' && c != ')') = isArgumentCharacter := rfl
  unfold parse?
  simp only [Text.dropBlankChars, ← hChars, Parts.chars, h.run_before.dropWhile_eq, h.run_owner.takeWhile_eq,
    h.run_owner.dropWhile_eq, hBetween, h.run_name.takeWhile_eq, h.run_name.dropWhile_eq, hOpening, hInside,
    h.run_arguments.takeWhile_eq, h.run_arguments.dropWhile_eq, hAfter, hOwner, hName, hBlank]
  rfl

theorem exists_of_parse {source : String} {p : MethodPattern} (h : parse? source = some p) :
    ∃ d : Parts, d.Valid ∧ d.chars = source.toList ∧ d.pattern source = p := by
  have hInside : (fun c => c != '(' && c != ')') = isArgumentCharacter := rfl
  obtain ⟨before, fromOwner, hSource, hBefore⟩ := Text.Run.exists_run Text.isBlank source.toList
  obtain ⟨owner, behindOwner, rfl, hOwner⟩ := Text.Run.exists_run isOwnerCharacter fromOwner
  obtain ⟨between, fromName, rfl, hBetween⟩ := Text.Run.exists_run Text.isBlank behindOwner
  obtain ⟨name, behindName, rfl, hName⟩ := Text.Run.exists_run isNameCharacter fromName
  obtain ⟨gap, fromOpening, rfl, hGap⟩ := Text.Run.exists_run Text.isBlank behindName
  unfold parse? at h
  simp only [Text.dropBlankChars, hSource, hBefore.dropWhile_eq, hOwner.takeWhile_eq, hOwner.dropWhile_eq,
    hBetween.dropWhile_eq, hName.takeWhile_eq, hName.dropWhile_eq, hGap.dropWhile_eq, hInside] at h
  split at h
  · cases h
  · rename_i hParts
    simp only [Bool.or_eq_true, List.isEmpty_iff, Bool.not_eq_true', not_or, Bool.not_eq_false] at hParts
    obtain ⟨⟨hOwnerNe, hNameNe⟩, hBlank⟩ := hParts
    split at h
    · rename_i inner
      obtain ⟨arguments, closing, rfl, hArguments⟩ := Text.Run.exists_run isArgumentCharacter inner
      rw [hArguments.dropWhile_eq, hArguments.takeWhile_eq] at h
      split at h
      · rename_i after
        split at h
        · rename_i hAfter
          refine ⟨⟨before, owner, between, name, gap, arguments, after⟩, ?_, hSource.symm, Option.some.inj h⟩
          refine ⟨hBefore.all, hOwnerNe, hOwner.all, ?_, hBetween.all, hNameNe, hName.all, hGap.all,
            fun c hc => ?_,
            List.all_eq_true.mp hAfter⟩
          · -- the type ends before a blank
            rintro rfl
            cases name with
            | nil => exact hNameNe rfl
            | cons c name =>
              have hNot := hBetween.stop c rfl
              rw [show Text.isBlank c = true from hBlank] at hNot
              cases hNot
          · simpa [isArgumentCharacter] using hArguments.all c hc
        · cases h
      · cases h
    · cases h

/-- How a pattern is written: its source has parts that are what the pattern holds. -/
def Written (p : MethodPattern) : Prop :=
  ∃ d : Parts, d.Valid ∧ d.chars = p.source.toList ∧ p.declaring.text = String.ofList d.owner ∧
    p.name = String.ofList d.name ∧ AsksFor d.arguments p.arity

/-- What is read as a pattern is written like one. -/
theorem written_of_parse {source : String} {p : MethodPattern} (h : parse? source = some p) :
    p.source = source ∧ p.Written := by
  obtain ⟨d, hValid, hChars, rfl⟩ := exists_of_parse h
  exact ⟨rfl, d, hValid, hChars, rfl, rfl, asks_iff.mpr rfl⟩

/-- A text is read as a pattern exactly if it consists of a type, blanks, a name and something in parentheses
in which there are none, with blanks in front of all, behind the name and behind all; it does so in one way,
and these parts are what the pattern holds. -/
theorem reads_exactly (source : String) :
    (∀ p, parse? source = some p ↔ ∃ d : Parts, d.Valid ∧ d.chars = source.toList ∧ p.source = source ∧
      p.declaring.text = String.ofList d.owner ∧ p.name = String.ofList d.name ∧
      AsksFor d.arguments p.arity) ∧
    (parse? source = none ↔ ¬ ∃ d : Parts, d.Valid ∧ d.chars = source.toList) ∧
    ∀ d e : Parts, d.Valid → e.Valid → d.chars = source.toList → e.chars = source.toList → d = e := by
  refine ⟨fun p => ⟨fun h => ?_, ?_⟩, ?_,
    fun d e hd he hdChars heChars => hd.unique he (hdChars.trans heChars.symm)⟩
  · obtain ⟨d, hValid, hChars, rfl⟩ := exists_of_parse h
    exact ⟨d, hValid, hChars, rfl, rfl, rfl, asks_iff.mpr rfl⟩
  · rintro ⟨d, hValid, hChars, hSource, hOwner, hName, hAsks⟩
    rw [parse_of_valid hValid hChars]
    obtain ⟨pSource, ⟨pOwner⟩, pName, pArity⟩ := p
    simp_all [Parts.pattern, asks_iff]
  · constructor
    · rintro hNone ⟨d, hValid, hChars⟩
      rw [parse_of_valid hValid hChars] at hNone
      cases hNone
    · intro hNot
      cases h : parse? source with
      | none => rfl
      | some p =>
        obtain ⟨d, hValid, hChars, -⟩ := exists_of_parse h
        exact absurd ⟨d, hValid, hChars⟩ hNot

end MethodPattern

end SourceMigration
