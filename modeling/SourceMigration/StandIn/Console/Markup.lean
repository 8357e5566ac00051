import SourceMigration.StandIn.Console.Style

/-!
# SourceMigration — marked-up texts

Texts for the console in which tags between square brackets switch styles on and off. A tag
begins with a small letter, `#`, `/` or `@` and holds no further bracket; any other bracket stands
for itself. A backslash before a tag makes it plain text, and two backslashes there stand for one.

A console without styles shows the text without its tags. A tag that closes a style which is not
open is a fault.

## Results

* `plain_of_noBracket` — a text without brackets is shown as it is.
-/

namespace SourceMigration.StandIn

/-- A tag, and where it begins. -/
structure MarkupTag where
  position : Nat
  name : String
  parameters : Option String
  deriving DecidableEq, Repr

/-- A piece of a marked-up text. -/
inductive MarkupPiece where
  | text (cs : List Char)
  | tag (t : MarkupTag)
  deriving DecidableEq, Repr

/-- Why a text cannot be shown. -/
inductive TagFault where
  /-- No style is open that the tag could close. -/
  | notOpen (closing : MarkupTag)
  /-- No style is open at all. -/
  | nothingOpen (position : Nat)
  deriving DecidableEq, Repr

/-- The wording of a fault. -/
def TagFault.message : TagFault → String
  | .notOpen t =>
    let inside := t.name ++ ((t.parameters.map ("=" ++ ·)).getD "")
    "closing tag '[" ++ inside ++ "]' at position " ++ toString t.position ++
      " doesn't match any open tag"
  | .nothingOpen position =>
    "closing tag '[/]' at position " ++ toString position ++ " has nothing to close"

namespace Markup

/-! ## Pieces -/

/-- Whether a tag can begin with a character. -/
def beginsTag (c : Char) : Bool := ('a' ≤ c && c ≤ 'z') || c == '#' || c == '/' || c == '@'

/-- The inside of the tag that a text begins with. -/
def tagInside? : List Char → Option (List Char)
  | '[' :: c :: cs =>
    let rest := cs.takeWhile fun d => d != ']' && d != '['
    -- The bracket must be closed before another one opens.
    if beginsTag c && (cs.drop rest.length).head? == some ']' then some (c :: rest) else none
  | _ => none

/-- The tag with an inside. -/
def tagOf (position : Nat) (inside : List Char) : MarkupTag :=
  let name := inside.takeWhile (· != '=')
  let rest := inside.drop name.length
  ⟨position, String.ofList name,
    if rest.isEmpty then none else some (String.ofList (rest.drop 1))⟩

/-- The piece of what stood before a tag, if anything did. -/
def textPiece (cs : List Char) : List MarkupPiece := if cs.isEmpty then [] else [.text cs]

/-- A text in which a bracket lost the backslash before it. -/
def freeBrackets : List Char → List Char
  | [] => []
  | '\\' :: '[' :: cs => '[' :: freeBrackets cs
  | c :: cs => c :: freeBrackets cs

/-- The pieces of a text from a position on, after characters that belong to no tag. Every step
takes a character, so the length of the text is fuel enough. -/
def piecesFrom : Nat → Nat → List Char → List Char → List MarkupPiece
  | 0, _, before, _ => textPiece (freeBrackets before)
  | _, _, before, [] => textPiece (freeBrackets before)
  | fuel + 1, position, before, c :: cs =>
    let slashes := (c :: cs).takeWhile (· == '\\')
    let n := slashes.length
    match tagInside? ((c :: cs).drop n) with
    | none =>
      let step := max n 1
      piecesFrom fuel (position + step) (before ++ (c :: cs).take step) ((c :: cs).drop step)
    | some inside =>
      let length := n + inside.length + 2
      -- An odd number of backslashes makes the tag plain; each pair of them stands for one.
      let piece := if n % 2 = 1 then .text ('[' :: (inside ++ [']']))
        else .tag (tagOf (position + n) inside)
      textPiece (freeBrackets before) ++ textPiece (List.replicate (n / 2) '\\') ++
        piece :: piecesFrom fuel (position + length) [] ((c :: cs).drop length)

/-- The pieces of a text. -/
def pieces (cs : List Char) : List MarkupPiece := piecesFrom cs.length 0 [] cs

/-! ## Styles that open and close -/

/-- Closes the style that was opened last among those of a name. -/
def closeStyle (s : Style) : List Style → Option (List Style)
  | [] => none
  | o :: os => if o = s then some os else (closeStyle s os).map (o :: ·)

/-- The styles that are open after a tag. -/
def afterTag (isOpen : List Style) (t : MarkupTag) : Except TagFault (List Style) :=
  match t.name.toList with
  | '/' :: cs =>
    let name := Text.strip (String.ofList cs)
    if name.isEmpty then
      match isOpen with
      | [] => .error (.nothingOpen t.position)
      | _ :: os => .ok os
    else
      match closeStyle (Style.ofName name) isOpen with
      | none => .error (.notOpen t)
      | some os => .ok os
  | _ => .ok (Style.ofName t.name :: isOpen)

/-- The text of pieces, given the styles that are open. -/
def plainOf : List Style → List MarkupPiece → Except TagFault (List Char)
  | _, [] => .ok []
  | isOpen, .text cs :: ps => (plainOf isOpen ps).map (cs ++ ·)
  | isOpen, .tag t :: ps => do plainOf (← afterTag isOpen t) ps

/-- The text that is shown for a marked-up one. -/
def plain (s : String) : Except TagFault (List Char) := plainOf [] (pieces s.toList)

/-! ## Plain text within marked-up text -/

/-- A text with a backslash before each tag, and with the backslashes there doubled. -/
def escapeFrom : Nat → List Char → List Char
  | 0, cs => cs
  | _, [] => []
  | fuel + 1, c :: cs =>
    let slashes := (c :: cs).takeWhile (· == '\\')
    match tagInside? ((c :: cs).drop slashes.length) with
    | none =>
      let step := max slashes.length 1
      (c :: cs).take step ++ escapeFrom fuel ((c :: cs).drop step)
    | some inside =>
      slashes ++ slashes ++ '\\' :: '[' :: (inside ++ ']' ::
        escapeFrom fuel ((c :: cs).drop (slashes.length + inside.length + 2)))

/-- A marked-up text that shows a given text. -/
def escaped (s : String) : String :=
  let cs := escapeFrom s.length s.toList
  let slashes := cs.reverse.takeWhile (· == '\\')
  -- A backslash at the end must not join with a tag that is put behind it.
  String.ofList (if slashes.length = 1 then cs ++ ['\\'] else cs)

/-! ## Texts without brackets -/

theorem freeBrackets_of_noBracket {cs : List Char} (h : '[' ∉ cs) : freeBrackets cs = cs := by
  fun_induction freeBrackets cs with
  | case1 => rfl
  | case2 cs ih => simp at h
  | case3 c cs _ ih => rw [ih fun hm => h (List.mem_cons_of_mem _ hm)]

theorem tagInside?_of_noBracket {cs : List Char} (h : '[' ∉ cs) : tagInside? cs = none := by
  unfold tagInside?
  split
  · simp at h
  · rfl

theorem piecesFrom_of_noBracket {fuel position : Nat} {before cs : List Char}
    (hf : cs.length ≤ fuel) (hb : '[' ∉ before) (hc : '[' ∉ cs) :
    piecesFrom fuel position before cs = textPiece (before ++ cs) := by
  induction fuel generalizing position before cs with
  | zero =>
    rw [List.length_eq_zero_iff.mp (Nat.le_zero.mp hf), List.append_nil]
    simp [piecesFrom, freeBrackets_of_noBracket hb]
  | succ fuel ih =>
    cases cs with
    | nil => simp [piecesFrom, freeBrackets_of_noBracket hb]
    | cons c cs =>
      have hd (n : Nat) : '[' ∉ (c :: cs).drop n := fun hm => hc (List.mem_of_mem_drop hm)
      have ht (n : Nat) : '[' ∉ (c :: cs).take n := fun hm => hc (List.mem_of_mem_take hm)
      unfold piecesFrom
      simp only [tagInside?_of_noBracket (hd _)]
      rw [ih _ _ (hd _), List.append_assoc, List.take_append_drop]
      · simp only [List.length_drop, List.length_cons] at *
        omega
      · intro hm
        rcases List.mem_append.mp hm with hm | hm
        · exact hb hm
        · exact ht _ hm

/-- A text without brackets is shown as it is. -/
theorem plain_of_noBracket {s : String} (h : '[' ∉ s.toList) : plain s = .ok s.toList := by
  unfold plain pieces
  rw [piecesFrom_of_noBracket (Nat.le_refl _) (by simp) h]
  cases hs : s.toList with
  | nil => rfl
  | cons c cs => simp [textPiece, plainOf, Except.map]

end Markup

end SourceMigration.StandIn
