/-!
# SourceMigration — slices of bytes

Places in a text are told by bytes of its encoding in UTF-8, while the text is worked on by
characters. A slice between two places is a text only if neither of them falls inside a character.

## Results

* `slice_append` — the slice between the ends of two parts that follow one another.
-/

namespace SourceMigration.Text

/-- The number of bytes of some characters. -/
def byteLength (cs : List Char) : Nat := cs.foldr (·.utf8Size + ·) 0

/-- The characters after the first `n` bytes. There are none where the text is not that long. -/
def dropBytes? : Nat → List Char → Option (List Char)
  | 0, cs => some cs
  | _ + 1, [] => some []
  | n + 1, c :: cs => if c.utf8Size ≤ n + 1 then dropBytes? (n + 1 - c.utf8Size) cs else none

/-- The characters of the first `n` bytes, or all where the text is not that long. -/
def takeBytes? : Nat → List Char → Option (List Char)
  | 0, _ => some []
  | _ + 1, [] => some []
  | n + 1, c :: cs =>
    if c.utf8Size ≤ n + 1 then (takeBytes? (n + 1 - c.utf8Size) cs).map (c :: ·) else none

/-- The characters between two places, given by the number of bytes before each. -/
def slice? (cs : List Char) (start stop : Nat) : Option (List Char) :=
  if stop ≤ start then some [] else (dropBytes? start cs).bind (takeBytes? (stop - start))

@[simp] theorem byteLength_nil : byteLength [] = 0 := rfl

@[simp] theorem byteLength_cons (c : Char) (cs : List Char) :
    byteLength (c :: cs) = c.utf8Size + byteLength cs := rfl

@[simp] theorem byteLength_append (cs ds : List Char) :
    byteLength (cs ++ ds) = byteLength cs + byteLength ds := by
  induction cs with
  | nil => simp
  | cons c cs ih => simp [ih, Nat.add_assoc]

theorem utf8ByteSize_ofList (cs : List Char) : (String.ofList cs).utf8ByteSize = byteLength cs := by
  induction cs with
  | nil => rfl
  | cons c cs ih => simp [String.ofList_cons, ih]

theorem utf8ByteSize_eq (s : String) : s.utf8ByteSize = byteLength s.toList := by
  rw [← utf8ByteSize_ofList, String.ofList_toList]

theorem dropBytes_append (cs ds : List Char) : dropBytes? (byteLength cs) (cs ++ ds) = some ds := by
  induction cs with
  | nil => simp [dropBytes?]
  | cons c cs ih =>
    obtain ⟨n, hn⟩ : ∃ n, byteLength (c :: cs) = n + 1 :=
      ⟨byteLength (c :: cs) - 1, by have := c.utf8Size_pos; simp; omega⟩
    rw [List.cons_append, hn, dropBytes?, ← hn, if_pos (by simp), byteLength_cons,
      Nat.add_sub_cancel_left, ih]

theorem takeBytes_append (cs ds : List Char) : takeBytes? (byteLength cs) (cs ++ ds) = some cs := by
  induction cs with
  | nil => simp [takeBytes?]
  | cons c cs ih =>
    obtain ⟨n, hn⟩ : ∃ n, byteLength (c :: cs) = n + 1 :=
      ⟨byteLength (c :: cs) - 1, by have := c.utf8Size_pos; simp; omega⟩
    rw [List.cons_append, hn, takeBytes?, ← hn, if_pos (by simp), byteLength_cons,
      Nat.add_sub_cancel_left, ih, Option.map_some]

/-- The slice between the ends of two parts that follow one another is the second of them. -/
theorem slice_append {front part back : List Char} {start stop : Nat}
    (hStart : start = byteLength front) (hStop : stop = start + byteLength part) :
    slice? (front ++ part ++ back) start stop = some part := by
  unfold slice?
  rw [List.append_assoc, hStart, dropBytes_append, hStop, hStart]
  split
  · rename_i hNone
    cases part with
    | nil => rfl
    | cons c cs =>
      have := c.utf8Size_pos
      simp at hNone
      omega
  · rw [Option.bind_some, Nat.add_sub_cancel_left, takeBytes_append]

end SourceMigration.Text
