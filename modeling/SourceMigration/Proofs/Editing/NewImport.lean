import SourceMigration.Proofs.Editing.Tidy
import SourceMigration.Proofs.Tree.Sturdy

/-!
# SourceMigration — the import of a type

A new import is neither static nor on demand. Its name is that of the type, and its simple name the last
part of that, which has no dot in it. It covers its own type and no type of another simple name, and it
stands among other imports by the name of the type alone, whatever is before it.

## Results

* `qualifiedName_importOf`, `simpleName_importOf` — what a new import names.
* `cover_own`, `cover_other` — which types it covers.
* `later_importOf`          — when it stands behind another new one.
-/

namespace SourceMigration

namespace Text

/-- Where a text is cut at a sign, its parts do not hold that sign. -/
theorem notMem_of_mem_splitChars {sep : Char} {cs part : List Char} (h : part ∈ splitChars sep cs) :
    sep ∉ part := by
  induction cs generalizing part with
  | nil =>
    obtain rfl : part = [] := by simpa [splitChars] using h
    simp
  | cons c cs ih =>
    rw [splitChars] at h
    split at h
    · rcases List.mem_cons.mp h with rfl | h
      · simp
      · exact ih h
    · rename_i hOther
      cases hParts : splitChars sep cs with
      | nil => exact absurd hParts (splitChars_ne_nil sep cs)
      | cons p ps =>
        rw [hParts] at h ih
        rcases List.mem_cons.mp h with rfl | h
        · simp [Ne.symm hOther, ih List.mem_cons_self]
        · exact ih (List.mem_cons_of_mem _ h)

/-- The parts that a text is cut into hold no other signs than the text. -/
theorem subset_of_mem_splitChars {sep : Char} {cs part : List Char} (h : part ∈ splitChars sep cs) :
    part ⊆ cs := by
  induction cs generalizing part with
  | nil =>
    obtain rfl : part = [] := by simpa [splitChars] using h
    simp
  | cons c cs ih =>
    rw [splitChars] at h
    split at h
    · rcases List.mem_cons.mp h with rfl | h
      · simp
      · exact List.subset_cons_of_subset c (ih h)
    · cases hParts : splitChars sep cs with
      | nil => exact absurd hParts (splitChars_ne_nil sep cs)
      | cons p ps =>
        rw [hParts] at h ih
        rcases List.mem_cons.mp h with rfl | h
        · exact List.cons_subset_cons c (ih List.mem_cons_self)
        · exact List.subset_cons_of_subset c (ih (List.mem_cons_of_mem _ h))

end Text

namespace Import

variable (t : TypeName) (l : String)

@[simp] theorem qualifiedName_importOf : qualifiedName (Node.importOf t l) = t.text :=
  Node.dottedName_ofDotted t.text " " (some t)

@[simp] theorem isStatic_importOf : isStatic (Node.importOf t l) = false := rfl

@[simp] theorem isWildcard_importOf : isWildcard (Node.importOf t l) = false := rfl

@[simp] theorem isSingle_importOf : isSingle (Node.importOf t l) = true := rfl

@[simp] theorem simpleName_importOf : simpleName (Node.importOf t l) = t.simple := by
  have hParts : (Node.ofDotted t.text " " (some t)).nameParts = Text.splitDots t.text :=
    Node.nameParts_nameTokens (some t) " " _
  have hName : Text.joinDots (Text.splitDots t.text) = t.text := by
    rw [← hParts]
    exact Node.dottedName_ofDotted t.text " " (some t)
  have hPlain : ∀ part ∈ Text.splitDots t.text, '.' ∉ part.toList := by
    intro part hPart
    obtain ⟨cs, hCs, rfl⟩ := List.mem_map.mp hPart
    simpa using Text.notMem_of_mem_splitChars hCs
  have hLast := Text.lastPart_joinDots hPlain
  rw [hName, ← hParts] at hLast
  exact hLast.symm

end Import

@[simp] theorem Node.leading_importOf (t : TypeName) (l : String) : (importOf t l).leading = l := rfl

@[simp] theorem Node.withLeading_importOf (t : TypeName) (l l' : String) :
    (importOf t l).withLeading l' = importOf t l' := rfl

namespace Imports

variable {t : TypeName}

/-- A type is covered by its own import. -/
theorem cover_own (t : TypeName) (l : String) : cover? t (Node.importOf t l) ≠ none := by
  simp [cover?]

/-- The import of a type does not cover a type of another simple name. -/
theorem cover_other {s : TypeName} (h : s.simple ≠ t.simple) (l : String) :
    cover? t (Node.importOf s l) = none := by
  simp [cover?, h]

@[simp] theorem later_withLeading (t : TypeName) (imp : Node) (l : String) :
    Later t (imp.withLeading l) ↔ Later t imp := by
  simp only [Later, Import.isStatic_withLeading, Import.qualifiedName_withLeading]

@[simp] theorem later_importOf (s t : TypeName) (l : String) :
    Later t (Node.importOf s l) ↔ t.text < s.text := by
  simp [Later]

end Imports

end SourceMigration
