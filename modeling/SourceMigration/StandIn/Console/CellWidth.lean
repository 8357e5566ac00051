import SourceMigration.Text.Span

/-!
# SourceMigration — cell widths

How many cells a text takes on a console. Wide characters, those of East Asian scripts and most
pictures, take two cells, and marks that are set on another character take none. The variation
selector that asks for a picture makes a narrow character wide.
-/

namespace SourceMigration.StandIn

open Text (Span inSpans)

/-- Code points past 127 of wide characters. -/
def wideSpans : List Span := [
  ⟨0x1100, 0x115f, 1⟩, ⟨0x231a, 0x231b, 1⟩, ⟨0x2329, 0x232a, 1⟩, ⟨0x23e9, 0x23ec, 1⟩,
  ⟨0x23f0, 0x23f0, 1⟩, ⟨0x23f3, 0x23f3, 1⟩, ⟨0x25fd, 0x25fe, 1⟩, ⟨0x2614, 0x2615, 1⟩,
  ⟨0x2648, 0x2653, 1⟩, ⟨0x267f, 0x267f, 1⟩, ⟨0x2693, 0x2693, 1⟩, ⟨0x26a1, 0x26a1, 1⟩,
  ⟨0x26aa, 0x26ab, 1⟩, ⟨0x26bd, 0x26be, 1⟩, ⟨0x26c4, 0x26c5, 1⟩, ⟨0x26ce, 0x26ce, 1⟩,
  ⟨0x26d4, 0x26d4, 1⟩, ⟨0x26ea, 0x26ea, 1⟩, ⟨0x26f2, 0x26f3, 1⟩, ⟨0x26f5, 0x26f5, 1⟩,
  ⟨0x26fa, 0x26fa, 1⟩, ⟨0x26fd, 0x26fd, 1⟩, ⟨0x2705, 0x2705, 1⟩, ⟨0x270a, 0x270b, 1⟩,
  ⟨0x2728, 0x2728, 1⟩, ⟨0x274c, 0x274c, 1⟩, ⟨0x274e, 0x274e, 1⟩, ⟨0x2753, 0x2755, 1⟩,
  ⟨0x2757, 0x2757, 1⟩, ⟨0x2795, 0x2797, 1⟩, ⟨0x27b0, 0x27b0, 1⟩, ⟨0x27bf, 0x27bf, 1⟩,
  ⟨0x2b1b, 0x2b1c, 1⟩, ⟨0x2b50, 0x2b50, 1⟩, ⟨0x2b55, 0x2b55, 1⟩, ⟨0x2e80, 0x3029, 1⟩,
  ⟨0x3030, 0x303e, 1⟩, ⟨0x3041, 0x3096, 1⟩, ⟨0x309b, 0x3247, 1⟩, ⟨0x3250, 0x4dbf, 1⟩,
  ⟨0x4e00, 0xa4c6, 1⟩, ⟨0xa960, 0xa97c, 1⟩, ⟨0xac00, 0xd7a3, 1⟩, ⟨0xf900, 0xfad9, 1⟩,
  ⟨0xfe10, 0xfe19, 1⟩, ⟨0xfe30, 0xfe6b, 1⟩, ⟨0xff01, 0xff60, 1⟩, ⟨0xffe0, 0xffe6, 1⟩,
  ⟨0x16fe0, 0x16fe4, 1⟩, ⟨0x17000, 0x1b2fb, 1⟩, ⟨0x1f004, 0x1f004, 1⟩, ⟨0x1f0cf, 0x1f0cf, 1⟩,
  ⟨0x1f18e, 0x1f18e, 1⟩, ⟨0x1f191, 0x1f19a, 1⟩, ⟨0x1f200, 0x1f320, 1⟩, ⟨0x1f32d, 0x1f335, 1⟩,
  ⟨0x1f337, 0x1f37c, 1⟩, ⟨0x1f37e, 0x1f393, 1⟩, ⟨0x1f3a0, 0x1f3ca, 1⟩, ⟨0x1f3cf, 0x1f3d3, 1⟩,
  ⟨0x1f3e0, 0x1f3f0, 1⟩, ⟨0x1f3f4, 0x1f3f4, 1⟩, ⟨0x1f3f8, 0x1f43e, 1⟩, ⟨0x1f440, 0x1f440, 1⟩,
  ⟨0x1f442, 0x1f4fc, 1⟩, ⟨0x1f4ff, 0x1f53d, 1⟩, ⟨0x1f54b, 0x1f54e, 1⟩, ⟨0x1f550, 0x1f567, 1⟩,
  ⟨0x1f57a, 0x1f57a, 1⟩, ⟨0x1f595, 0x1f596, 1⟩, ⟨0x1f5a4, 0x1f5a4, 1⟩, ⟨0x1f5fb, 0x1f64f, 1⟩,
  ⟨0x1f680, 0x1f6c5, 1⟩, ⟨0x1f6cc, 0x1f6cc, 1⟩, ⟨0x1f6d0, 0x1f6d2, 1⟩, ⟨0x1f6d5, 0x1f6df, 1⟩,
  ⟨0x1f6eb, 0x1f6ec, 1⟩, ⟨0x1f6f4, 0x1f6fc, 1⟩, ⟨0x1f7e0, 0x1f7f0, 1⟩, ⟨0x1f90c, 0x1f93a, 1⟩,
  ⟨0x1f93c, 0x1f945, 1⟩, ⟨0x1f947, 0x1f9ff, 1⟩, ⟨0x1fa70, 0x1faf6, 1⟩, ⟨0x20000, 0x3134a, 1⟩]

/-- Code points past 127 of characters that take no cell. -/
def markSpans : List Span := [
  ⟨0x300, 0x36f, 1⟩, ⟨0x200b, 0x200f, 1⟩, ⟨0x20d0, 0x20f0, 1⟩, ⟨0xfe00, 0xfe0f, 1⟩,
  ⟨0xfe20, 0xfe2f, 1⟩, ⟨0xe0100, 0xe01ef, 1⟩]

/-- The variation selector that asks for a picture. -/
def pictureSelector : Char := '\ufe0f'

/-- The cells of one character that stands by itself. -/
def cellWidth (c : Char) : Nat :=
  if c.toNat < 128 then 1
  else if inSpans markSpans c.toNat then 0
  else if inSpans wideSpans c.toNat then 2
  else 1

/-- The cells of one character after another one. -/
def cellWidthAfter (before c : Char) : Nat :=
  if c = pictureSelector && cellWidth before = 1 then 1 else cellWidth c

/-- The cells of characters after a character. -/
def cellsAfter (before : Char) : List Char → Nat
  | [] => 0
  | c :: cs => cellWidthAfter before c + cellsAfter c cs

/-- The cells of a text. -/
def cells : List Char → Nat
  | [] => 0
  | c :: cs => cellWidth c + cellsAfter c cs

end SourceMigration.StandIn
