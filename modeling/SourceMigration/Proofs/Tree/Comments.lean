import Mathlib.Data.List.TakeWhile
import SourceMigration.Proofs.Parsing.Trivia
import SourceMigration.Text.Blank
import SourceMigration.Tree.Build

/-!
# SourceMigration — comments

Comments stand in the trivia of tokens. An edit that takes a token away takes its comments with it,
and one that writes trivia anew may lose those that stood there. `Thins` relates the comments before
an edit to those after it: some comments are exposed, which means that they may go, and all others
stay, each once and in their order.

## Results

* `comments_append` — what holds no slash adds no comment to what follows it.
* `Thins.trans`     — edits one after another thin out comments together.
* `Thins.cancel`    — comments that stay on both sides do not matter for what follows them.
-/

namespace SourceMigration

-- ---------------------------------------------------------------------------
-- Comments in trivia
-- ---------------------------------------------------------------------------

namespace Layout

/-- The comments in some characters, in order. A comment takes at least one character, so fuel for
every character is enough. -/
def commentsFrom : Nat → List Char → List String
  | 0, _ => []
  | _ + 1, [] => []
  | fuel + 1, c :: cs =>
    if c = '/' then
      match pieceLength? (c :: cs) with
      | some n => String.ofList ((c :: cs).take n) :: commentsFrom fuel ((c :: cs).drop n)
      | none => commentsFrom fuel cs
    else commentsFrom fuel cs

/-- The comments in some trivia, in order. -/
def comments (trivia : String) : List String :=
  commentsFrom trivia.toList.length trivia.toList

theorem commentsFrom_append {bs : List Char} (h : '/' ∉ bs) (cs : List Char) :
    commentsFrom (bs ++ cs).length (bs ++ cs) = commentsFrom cs.length cs := by
  induction bs with
  | nil => rfl
  | cons b bs ih =>
    have hNe : b ≠ '/' := fun hEq => h (hEq ▸ List.mem_cons_self)
    have hRest : '/' ∉ bs := fun hMem => h (List.mem_cons_of_mem _ hMem)
    rw [List.cons_append, List.length_cons, commentsFrom, if_neg hNe, ih hRest]

/-- What holds no slash adds no comment to what follows it. -/
theorem comments_append {b : String} (h : '/' ∉ b.toList) (s : String) :
    comments (b ++ s) = comments s := by
  unfold comments
  rw [String.toList_append, commentsFrom_append h]

theorem comments_eq_nil {b : String} (h : '/' ∉ b.toList) : comments b = [] := by
  have hEmpty := comments_append h ""
  rwa [String.append_empty] at hEmpty

theorem slash_notMem_leadingBlank (s : String) : '/' ∉ (Text.leadingBlank s).toList := by
  intro hMem
  rw [Text.leadingBlank, String.toList_ofList] at hMem
  have hBlank := List.mem_takeWhile_imp hMem
  exact absurd hBlank (by decide)

/-- The blanks that a text begins with hold none of its comments. -/
@[simp] theorem comments_dropBlank (s : String) : comments (Text.dropBlank s) = comments s := by
  have hSplit := comments_append (slash_notMem_leadingBlank s) (Text.dropBlank s)
  rw [Text.leadingBlank_append_dropBlank] at hSplit
  exact hSplit.symm

end Layout

/-- The comments before a token. -/
def Token.comments (t : Token) : List String := Layout.comments t.leading

@[simp] theorem Token.comments_withLeading (l : String) (t : Token) :
    (t.withLeading l).comments = Layout.comments l := rfl

@[simp] theorem Token.comments_withText (s : String) (t : Token) :
    (t.withText s).comments = t.comments := rfl

namespace Node

/-- The comments of a node, in the order of the text. -/
def comments (n : Node) : List String := n.tokens.flatMap Token.comments

@[simp] theorem comments_token (t : Token) : (Node.token t).comments = t.comments := by
  simp [comments, tokens]

theorem comments_branch (k : NodeKind) (cs : List (Field × Node)) :
    (Node.branch k cs).comments = cs.flatMap fun c => c.2.comments := by
  rw [comments, tokens, tokensOf_eq, List.flatMap_assoc]
  rfl

/-- No comment stands in a new name but before it. -/
theorem comments_nameTokens (l part : String) (parts : List String) :
    (nameTokens l (part :: parts)).flatMap Token.comments = Layout.comments l := by
  induction parts generalizing l part with
  | nil => simp [nameTokens, Token.comments, Token.identifier]
  | cons p ps ih =>
    have hEmpty : Layout.comments "" = [] := rfl
    simp [nameTokens, ih, Token.comments, Token.identifier, Token.operator, hEmpty]

@[simp] theorem comments_ofDotted (dotted l : String) (type : Option TypeName) :
    (ofDotted dotted l type).comments = Layout.comments l := by
  obtain ⟨p, ps, hParts⟩ := List.exists_cons_of_ne_nil (Text.splitChars_ne_nil '.' dotted.toList)
  rw [ofDotted, comments_branch, Text.splitDots, hParts, List.map_cons, List.flatMap_map]
  simp only [comments_token, comments_nameTokens]

end Node

-- ---------------------------------------------------------------------------
-- Thinning out
-- ---------------------------------------------------------------------------

/-- A comment, and whether it stands where an edit may take it away. -/
structure Comment where
  text : String
  exposed : Bool
  deriving DecidableEq, Repr

/-- Comments that are all exposed, or all not. -/
def marked (exposed : Bool) (texts : List String) : List Comment :=
  texts.map fun text => ⟨text, exposed⟩

@[simp] theorem marked_nil (b : Bool) : marked b [] = [] := rfl

@[simp] theorem marked_append (b : Bool) (xs ys : List String) :
    marked b (xs ++ ys) = marked b xs ++ marked b ys := List.map_append

theorem marked_flatMap {α : Type} (b : Bool) (f : α → List String) (xs : List α) :
    marked b (xs.flatMap f) = xs.flatMap fun x => marked b (f x) := List.map_flatMap

@[simp] theorem map_text_marked (b : Bool) (texts : List String) :
    (marked b texts).map Comment.text = texts := by
  simp [marked, Function.comp_def]

/-- Comments after an edit, against those before it: only exposed ones are gone, the others stand in
the same order, and none is more exposed than it was. -/
inductive Thins : List Comment → List Comment → Prop where
  | nil : Thins [] []
  | keep {c d : Comment} {cs ds : List Comment} (hText : d.text = c.text)
      (hExposed : d.exposed = true → c.exposed = true) (h : Thins cs ds) :
      Thins (c :: cs) (d :: ds)
  | drop {c : Comment} {cs ds : List Comment} (hExposed : c.exposed = true) (h : Thins cs ds) :
      Thins (c :: cs) ds

namespace Thins

variable {xs ys zs xs' ys' : List Comment}

@[refl] theorem refl (xs : List Comment) : Thins xs xs := by
  induction xs with
  | nil => exact .nil
  | cons c cs ih => exact .keep rfl id ih

/-- Edits one after another thin out comments together. -/
theorem trans (h : Thins xs ys) (h' : Thins ys zs) : Thins xs zs := by
  induction h generalizing zs with
  | nil => exact h'
  | keep hText hExposed _ ih =>
    cases h' with
    | keep hText' hExposed' h' =>
      exact .keep (hText'.trans hText) (fun h => hExposed (hExposed' h)) (ih h')
    | drop hExposed' h' => exact .drop (hExposed hExposed') (ih h')
  | drop hExposed _ ih => exact .drop hExposed (ih h')

theorem append (h : Thins xs ys) (h' : Thins xs' ys') : Thins (xs ++ xs') (ys ++ ys') := by
  induction h with
  | nil => exact h'
  | keep hText hExposed _ ih => exact .keep hText hExposed ih
  | drop hExposed _ ih => exact .drop hExposed ih

theorem flatMap {α : Type} {f g : α → List Comment} {as : List α}
    (h : ∀ a ∈ as, Thins (f a) (g a)) : Thins (as.flatMap f) (as.flatMap g) := by
  induction as with
  | nil => exact .nil
  | cons a as ih =>
    rw [List.flatMap_cons, List.flatMap_cons]
    exact (h a List.mem_cons_self).append (ih fun b hb => h b (List.mem_cons_of_mem _ hb))

/-- Exposed comments may all go. -/
theorem gone (texts : List String) : Thins (marked true texts) [] := by
  induction texts with
  | nil => exact .nil
  | cons text texts ih => exact .drop rfl ih

/-- Comments may all stay, and be exposed no more. -/
theorem stay (b : Bool) (texts : List String) : Thins (marked b texts) (marked false texts) := by
  induction texts with
  | nil => exact .nil
  | cons text texts ih => exact .keep rfl (by simp) ih

/-- Comments that stay on both sides do not matter for what follows them. -/
theorem cancel {texts : List String}
    (h : Thins (marked false texts ++ xs) (marked false texts ++ ys)) : Thins xs ys := by
  induction texts with
  | nil => exact h
  | cons text texts ih =>
    cases h with
    | keep _ _ h => exact ih h
    | drop hExposed _ => cases hExposed

end Thins

end SourceMigration
