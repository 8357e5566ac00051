import SourceMigration.Text.Lines

/-!
# SourceMigration — line differences

How one text becomes another, line by line. The longest block of lines that both texts share is
kept, and what stands before and after it is compared in the same way; of equally long blocks
the earliest is kept. Lines that are all too common in a long text start no block, though they
may extend one.

The difference is shown in hunks: runs of removed and added lines with three lines around them
that stay, each hunk under a line that says where it stands in either text.
-/

namespace SourceMigration

/-- A run of lines of a difference. -/
inductive Segment where
  /-- Lines that stay. -/
  | same (lines : List String)
  /-- Lines of the old text and those that replace them. -/
  | change (old new : List String)
  deriving DecidableEq, Repr

namespace Segment

/-- The lines of the old text. -/
def old : Segment → List String
  | .same ls => ls
  | .change old _ => old

/-- The lines of the new text. -/
def new : Segment → List String
  | .same ls => ls
  | .change _ new => new

def isChange : Segment → Bool
  | .same _ => false
  | .change _ _ => true

end Segment

namespace LineDiff

/-! ## Shared blocks -/

/-- A block of lines in two texts. -/
structure Block where
  oldStart : Nat
  newStart : Nat
  length : Nat
  deriving DecidableEq, Repr

/-- Whether a line is too common in a text to start a block: in at least two hundred lines it
makes up more than a hundredth. -/
def isCommonIn (lines : List String) (l : String) : Bool :=
  200 ≤ lines.length && lines.length / 100 + 1 < lines.count l

/-- The lengths of the shared runs that end at one line of the old text and at each line of the
new one, given those that end one line above and before. -/
def runs (isCommon : String → Bool) (line : String) : List String → List Nat → List Nat
  | [], _ => []
  | l :: ls, above =>
    (if l == line && !isCommon l then above.headD 0 + 1 else 0) :: runs isCommon line ls above.tail

/-- The longer of a block and the runs that end at a line of the old text. -/
def longerOf (best : Block) (i : Nat) (row : List Nat) : Block :=
  row.zipIdx.foldl
    -- Only a longer run replaces the best, so the earliest of equals stays.
    (fun best (n, j) => if best.length < n then ⟨i + 1 - n, j + 1 - n, n⟩ else best) best

/-- The longest block without common lines; `above` holds the runs that end at line `i - 1`. -/
def longestFrom (isCommon : String → Bool) (new : List String) :
    Block → Nat → List Nat → List String → Block
  | best, _, _, [] => best
  | best, i, above, l :: ls =>
    -- A run grows along the diagonal: one line further in both texts.
    let row := runs isCommon l new (0 :: above)
    longestFrom isCommon new (longerOf best i row) (i + 1) row ls

/-- How many lines two texts have in common at the front. -/
def agreement : List String → List String → Nat
  | a :: as, b :: bs => if a = b then agreement as bs + 1 else 0
  | _, _ => 0

/-- A block with the equal lines around it. -/
def extend (old new : List String) (b : Block) : Block :=
  let before := agreement (old.take b.oldStart).reverse (new.take b.newStart).reverse
  let after := agreement (old.drop (b.oldStart + b.length)) (new.drop (b.newStart + b.length))
  ⟨b.oldStart - before, b.newStart - before, before + b.length + after⟩

/-- The longest block that two texts share. -/
def longest (isCommon : String → Bool) (old new : List String) : Block :=
  extend old new (longestFrom isCommon new ⟨0, 0, 0⟩ 0 [] old)

/-- Whether a block is shared, and not empty. -/
def IsShared (old new : List String) (b : Block) : Prop :=
  0 < b.length ∧ b.oldStart + b.length ≤ old.length ∧
    (old.drop b.oldStart).take b.length = (new.drop b.newStart).take b.length

instance (old new : List String) (b : Block) : Decidable (IsShared old new b) :=
  inferInstanceAs (Decidable (_ ∧ _))

/-! ## Segments -/

/-- The segment of lines that share no block, if there are any. -/
def changeOf (old new : List String) : List Segment :=
  if old.isEmpty && new.isEmpty then [] else [.change old new]

/-- Puts lines that stay in front, together with those that stay there. -/
def addSame (lines : List String) : List Segment → List Segment
  | .same ls :: rest => .same (lines ++ ls) :: rest
  | rest => .same lines :: rest

/-- Puts segments in front, with lines that stay on both sides together. -/
def append : List Segment → List Segment → List Segment
  | [], rest => rest
  | .same ls :: ss, rest => addSame ls (append ss rest)
  | s :: ss, rest => s :: append ss rest

/-- The segments between two lists of lines. -/
def segmentsOf (isCommon : String → Bool) (old new : List String) : List Segment :=
  let b := longest isCommon old new
  if _h : IsShared old new b then
    append (segmentsOf isCommon (old.take b.oldStart) (new.take b.newStart))
      (addSame ((old.drop b.oldStart).take b.length)
        (segmentsOf isCommon (old.drop (b.oldStart + b.length))
          (new.drop (b.newStart + b.length))))
  else changeOf old new
termination_by old.length
decreasing_by
  · have hn := _h.1
    have hi := _h.2.1
    simp only [b, List.length_take] at *
    omega
  · have hn := _h.1
    have hi := _h.2.1
    simp only [b, List.length_drop] at *
    omega

/-- The segments of the difference between two lists of lines. -/
def segments (old new : List String) : List Segment := segmentsOf (isCommonIn new) old new

/-! ## The segments make up the texts -/

/-! ## Hunks -/

/-- How many lines are shown around what changes. -/
def contextSize : Nat := 3

/-- A segment with the number of lines that stand before it in either text. -/
structure Placed where
  oldStart : Nat
  newStart : Nat
  segment : Segment
  deriving DecidableEq, Repr

/-- Gives segments their places. -/
def place : Nat → Nat → List Segment → List Placed
  | _, _, [] => []
  | i, j, s :: ss => ⟨i, j, s⟩ :: place (i + s.old.length) (j + s.new.length) ss

/-- What is shown of a segment after a change. -/
def Placed.front (p : Placed) : Placed :=
  match p.segment with
  | .same ls => { p with segment := .same (ls.take contextSize) }
  | .change _ _ => p

/-- What is shown of a segment before a change. -/
def Placed.back (p : Placed) : Placed :=
  match p.segment with
  | .same ls =>
    let n := ls.length - contextSize
    ⟨p.oldStart + n, p.newStart + n, .same (ls.drop n)⟩
  | .change _ _ => p

/-- Whether a segment is too long to be shown as a whole. -/
def Placed.parts (p : Placed) : Bool :=
  match p.segment with
  | .same ls => 2 * contextSize < ls.length
  | .change _ _ => false

/-- Shows only the lines next to a change of the first and the last segment. -/
def trimEnds (ps : List Placed) : List Placed :=
  match (ps.modifyHead Placed.back).reverse with
  | [] => []
  | last :: front => (last.front :: front).reverse

/-- Puts a segment into the first hunk. -/
def addToFirst (p : Placed) : List (List Placed) → List (List Placed)
  | [] => [[p]]
  | h :: hs => (p :: h) :: hs

/-- Cuts segments into hunks. -/
def cut : List Placed → List (List Placed)
  | [] => []
  | p :: ps =>
    if p.parts then [p.front] :: addToFirst p.back (cut ps) else addToFirst p (cut ps)

/-- The hunks of a difference. -/
def hunks (ss : List Segment) : List (List Placed) :=
  (cut (trimEnds (place 0 0 ss))).filter fun h => h.any (·.segment.isChange)

/-! ## The shown form -/

/-- Some lines of a text: the number of the first, and how many there are unless it is one. Of no
lines the number of the line before is shown. -/
def rangeText (start length : Nat) : String :=
  if length = 1 then toString (start + 1)
  else if length = 0 then toString start ++ ",0"
  else toString (start + 1) ++ "," ++ toString length

/-- The lines that a segment is shown by. -/
def segmentLines : Segment → List String
  | .same ls => ls.map (" " ++ ·)
  | .change old new => old.map ("-" ++ ·) ++ new.map ("+" ++ ·)

/-- The lines that a hunk is shown by. -/
def hunkLines (h : List Placed) : List String :=
  let total (side : Segment → List String) := (h.flatMap fun p => side p.segment).length
  let start (side : Placed → Nat) := (h.head?.map side).getD 0
  ("@@ -" ++ rangeText (start Placed.oldStart) (total Segment.old) ++ " +" ++
      rangeText (start Placed.newStart) (total Segment.new) ++ " @@\n") ::
    h.flatMap fun p => segmentLines p.segment

/-- The difference between two texts of a file; equal texts have none. -/
def unified (name old new : String) : String :=
  match hunks (segments (Text.lines old) (Text.lines new)) with
  | [] => ""
  | hs =>
    "--- a/" ++ name ++ "\n+++ b/" ++ name ++ "\n" ++ String.join (hs.flatMap hunkLines)

end LineDiff

end SourceMigration
