import SourceMigration.Proofs.Files.Selected

/-!
# SourceMigration — trees that are written to

What stands at a place of a tree is a file with its contents, a directory, or nothing. Where paths lead
depends on nothing else. A file that is written changes what stands at one place, and a directory that is
made stands where nothing stood, so a path that led somewhere leads there still.

## Results

* `follow_cons`             — paths are followed by what stands at places.
* `settled_of_locate`       — the place that a path leads to can be read off the path.
* `standing_put`            — what is put into a place changes nothing elsewhere.
* `wrote_of_write`          — what a file that was written has changed.
* `made_of_makeDirectories` — making directories makes nothing else.
-/

namespace SourceMigration

-- ---------------------------------------------------------------------------
-- What stands at a place
-- ---------------------------------------------------------------------------

/-- What stands at a place, without what is below it. -/
inductive Standing where
  | nothing
  | directory
  | file (content : Bytes)
  deriving DecidableEq

namespace FileNode

/-- What stands where names lead to from a node. -/
def standing (n : FileNode) (names : List String) : Standing :=
  match n.lookup names with
  | none => .nothing
  | some (.directory _) => .directory
  | some (.file content) => .file content

section Standing

variable {n new : FileNode} {names place : List String} {name : String} {content : Bytes}

theorem standing_eq_file : n.standing names = .file content ↔ n.lookup names = some (.file content) := by
  unfold standing
  split <;> simp [*]

theorem standing_eq_directory :
    n.standing names = .directory ↔ ∃ es, n.lookup names = some (.directory es) := by
  unfold standing
  split <;> simp [*]

theorem standing_eq_nothing : n.standing names = .nothing ↔ n.lookup names = none := by
  unfold standing
  split <;> simp [*]

theorem standing_cons : n.standing (name :: names) =
    match n.entries.lookup name with
    | none => .nothing
    | some m => m.standing names := by
  cases hEntry : n.entries.lookup name <;> simp [standing, lookup, hEntry]

/-- What has an entry is a directory. -/
theorem standing_nil_of_lookup {m : FileNode} (h : n.entries.lookup name = some m) :
    n.standing [] = .directory := by
  cases n with
  | file content => cases h
  | directory es => rfl

theorem lookup_setEntry_of_ne {k : String} (h : k ≠ name) (new : FileNode)
    (es : List (String × FileNode)) : (setEntry name new es).lookup k = es.lookup k := by
  induction es with
  | nil => rw [setEntry, lookup_cons_of_ne h]
  | cons e es ih =>
    obtain ⟨j, n⟩ := e
    rw [setEntry]
    split
    · rename_i hName
      subst hName
      rw [lookup_cons_of_ne h, lookup_cons_of_ne h]
    · by_cases hSame : k = j
      · subst hSame
        rw [List.lookup_cons_self, List.lookup_cons_self]
      · rw [lookup_cons_of_ne hSame, lookup_cons_of_ne hSame, ih]

theorem setEntry_setEntry (old : FileNode) (es : List (String × FileNode)) :
    setEntry name new (setEntry name old es) = setEntry name new es := by
  induction es with
  | nil => simp [setEntry]
  | cons e es ih =>
    obtain ⟨k, n⟩ := e
    by_cases hName : k = name
    · simp [setEntry, hName]
    · simp [setEntry, hName, ih]

/-- What is put into a place takes the place of what was put there before. -/
theorem put_put (old : FileNode) : put new names (put old names n) = put new names n := by
  induction names generalizing n with
  | nil => rfl
  | cons name names ih =>
    simp only [put, entries, lookup_setEntry, Option.getD_some, ih, setEntry_setEntry]

/-- What stands in a proper directory is named as entries can be. -/
theorem isEntry_of_lookup {es : List (String × FileNode)} (h : areProper es = true) {m : FileNode}
    (hEntry : es.lookup name = some m) : FilePath.isEntry name = true := by
  obtain ⟨before, after, rfl, -⟩ := List.lookup_eq_some_iff.mp hEntry
  exact (isEntry_of_areProper h (by simp : (name, m) ∈ _)).1

/-- A file or an empty directory that is put into a directory changes nothing elsewhere, unless a
directory was there. -/
theorem standing_put (hLeaf : new.entries = []) (hAbove : n.standing names = .directory)
    (hBelow : n.standing (names ++ [name]) ≠ .directory) :
    (put new (names ++ [name]) n).standing place =
      if place = names ++ [name] then new.standing [] else n.standing place := by
  induction names generalizing n place with
  | nil =>
    obtain ⟨es, hNode⟩ := standing_eq_directory.mp hAbove
    obtain rfl : n = .directory es := Option.some.inj hNode
    cases place with
    | nil => rfl
    | cons k place =>
      by_cases hName : k = name
      · subst hName
        simp only [List.nil_append, put, standing_cons, entries, lookup_setEntry, List.cons.injEq,
          true_and]
        cases place with
        | nil => simp
        | cons j place =>
          -- neither the leaf nor what it replaces has anything below it
          rw [if_neg (List.cons_ne_nil j place), standing_cons, hLeaf]
          cases hEntry : es.lookup k with
          | none => rfl
          | some m =>
            cases m with
            | file content => rfl
            | directory ds => simp [entries, hEntry, standing, lookup] at hBelow
      · simp [put, standing_cons, entries, lookup_setEntry_of_ne hName, hName]
  | cons above names ih =>
    rw [standing_cons] at hAbove
    rw [List.cons_append, standing_cons] at hBelow
    cases hEntry : n.entries.lookup above with
    | none => simp [hEntry] at hAbove
    | some m =>
      rw [hEntry] at hAbove hBelow
      rw [List.cons_append, put, hEntry, Option.getD_some]
      cases place with
      | nil =>
        rw [standing_nil_of_lookup hEntry, if_neg (by simp)]
        rfl
      | cons k place =>
        rw [standing_cons, standing_cons, entries]
        by_cases hName : k = above
        · subst hName
          simp only [lookup_setEntry, hEntry, List.cons.injEq, true_and]
          exact ih hAbove hBelow
        · simp [lookup_setEntry_of_ne hName, hName]

end Standing

end FileNode

-- ---------------------------------------------------------------------------
-- The places that paths lead to
-- ---------------------------------------------------------------------------

namespace FilePath

/-- Where names lead from a place, as far as it can be read off them. -/
def settleFrom (here names : List String) : Option (List String) :=
  names.foldl
    (fun names? name =>
      names?.bind fun names =>
        if name = ".." then if names.isEmpty then none else some names.dropLast
        else some (names ++ [name]))
    (some here)

variable {here names more place : List String} {name : String}

theorem settled?_eq (p : FilePath) :
    p.settled? = if p.root.isEmpty then settleFrom [] p.names else none := rfl

theorem settleFrom_cons : settleFrom here (name :: names) =
    if name = ".." then if here.isEmpty then none else settleFrom here.dropLast names
    else settleFrom (here ++ [name]) names := by
  unfold settleFrom
  simp only [List.foldl_cons, Option.bind_some]
  split
  · split
    · exact List.foldl_fixed' (fun _ => rfl) names
    · rfl
  · rfl

theorem settleFrom_append :
    settleFrom here (names ++ more) = (settleFrom here names).bind (settleFrom · more) := by
  induction names generalizing here with
  | nil => rfl
  | cons name names ih =>
    rw [List.cons_append, settleFrom_cons, settleFrom_cons]
    split
    · split
      · rfl
      · exact ih
    · exact ih

/-- Names that do not lead back are added to the place. -/
theorem settleFrom_onward (h : ∀ name ∈ names, name ≠ "..") :
    settleFrom here names = some (here ++ names) := by
  induction names generalizing here with
  | nil => simp [settleFrom]
  | cons name names ih =>
    obtain ⟨hName, hNames⟩ := List.forall_mem_cons.mp h
    rw [settleFrom_cons, if_neg hName, ih hNames, List.append_assoc, List.singleton_append]

theorem settled?_append {p : FilePath} (h : p.settled? = some here)
    (hOnward : ∀ name ∈ names, name ≠ "..") :
    (⟨p.root, p.names ++ names⟩ : FilePath).settled? = some (here ++ names) := by
  rw [settled?_eq] at h ⊢
  by_cases hRoot : p.root.isEmpty = true
  · rw [if_pos hRoot] at h ⊢
    rw [settleFrom_append, h, Option.bind_some, settleFrom_onward hOnward]
  · simp [hRoot] at h

end FilePath

namespace FileTree

/-- What stands at a place of a tree. -/
def standing (t : FileTree) (place : List String) : Standing := t.top.standing place

variable {t t' : FileTree} {here names place : List String} {name : String} {content : Bytes}
  {p : FilePath}

/-- Names are followed by what stands at places. -/
theorem follow_cons : t.follow here (name :: names) =
    if t.standing here = .directory then
      if name = ".." then if here.isEmpty then .error .absent else t.follow here.dropLast names
      else if t.standing (here ++ [name]) = .nothing then .error .absent
      else t.follow (here ++ [name]) names
    else .error .throughFile := by
  rw [follow]
  split
  · rename_i es hHere
    have hNext : t.top.lookup (here ++ [name]) = es.lookup name := by
      simp [FileNode.lookup_append, hHere, FileNode.lookup, FileNode.entries]
    simp only [standing, FileNode.standing_eq_directory.mpr ⟨es, hHere⟩, if_true,
      FileNode.standing_eq_nothing, hNext]
    cases es.lookup name <;> simp
  · rename_i hOther
    rw [if_neg fun hDirectory => ?_]
    obtain ⟨es, hHere⟩ := FileNode.standing_eq_directory.mp hDirectory
    exact hOther es hHere

theorem settleFrom_of_follow (h : t.follow here names = .ok place) :
    FilePath.settleFrom here names = some place := by
  induction names generalizing here with
  | nil => rw [follow, Except.ok.injEq] at h; rw [← h]; rfl
  | cons name names ih =>
    rw [follow_cons] at h
    rw [FilePath.settleFrom_cons]
    grind

/-- The place that a path leads to can be read off the path. -/
theorem settled_of_locate (h : t.locate p = .ok place) : p.settled? = some place := by
  unfold locate at h
  split at h
  · rw [FilePath.settled?_eq, if_pos ‹_›]
    exact settleFrom_of_follow h
  · cases h

theorem FileAt.settled (h : t.FileAt p place content) : p.settled? = some place :=
  settled_of_locate h.located

theorem FileAt.standing (h : t.FileAt p place content) : t.standing place = .file content :=
  FileNode.standing_eq_file.mpr h.found

/-- The place of a new entry is that of its name in its directory. -/
theorem cases_of_placeFor (h : t.placeFor p = .ok place) : ∃ name here,
    p.names.getLast? = some name ∧ t.locate p.parent = .ok here ∧ t.standing here = .directory ∧
      place = here ++ [name] := by
  unfold placeFor at h
  cases hLast : p.names.getLast? with
  | none => simp [hLast] at h
  | some name =>
    cases hParent : t.locate p.parent with
    | error why => simp [hLast, hParent] at h
    | ok here =>
      simp only [hLast, hParent] at h
      split at h
      · rename_i es hHere
        exact ⟨name, here, rfl, rfl, FileNode.standing_eq_directory.mpr ⟨es, hHere⟩,
          (Except.ok.inj h).symm⟩
      · cases h

/-- A path to a file ends in the name of the file. -/
theorem FileAt.exists_name (h : t.FileAt p place content) (hProper : t.isProper = true) :
    ∃ front name, p.names = front ++ [name] ∧ FilePath.isEntry name = true := by
  obtain ⟨hTop, hNode⟩ := Bool.and_eq_true_iff.mp hProper
  have hPlace := h.placeFor hTop
  obtain ⟨name, here, hLast, -, -, rfl⟩ := cases_of_placeFor hPlace
  refine ⟨_, name, (List.dropLast_append_getLast? name hLast).symm, ?_⟩
  obtain ⟨es, hHere, hEntry⟩ := FileNode.isDirectory_of_lookup_append h.found
  exact FileNode.isEntry_of_lookup (FileNode.isProper_of_lookup_names hNode hHere) hEntry

-- ---------------------------------------------------------------------------
-- Trees that grow
-- ---------------------------------------------------------------------------

/-- Whatever stood at a place of a tree is still there, files possibly with other contents. -/
structure GrowsTo (t t' : FileTree) : Prop where
  directory : ∀ place, t.standing place = .directory → t'.standing place = .directory
  file : ∀ place content, t.standing place = .file content → ∃ now, t'.standing place = .file now

/-- Directories were made in a tree, and nothing else. -/
def Made (t t' : FileTree) : Prop :=
  ∀ place, t'.standing place = t.standing place ∨
    t.standing place = .nothing ∧ t'.standing place = .directory

theorem Made.refl (t : FileTree) : t.Made t := fun _ => Or.inl rfl

theorem Made.trans {t'' : FileTree} (h : t.Made t') (h' : t'.Made t'') : t.Made t'' := by
  intro place
  have hFirst := h place
  have hSecond := h' place
  grind

theorem Made.growsTo (h : t.Made t') : t.GrowsTo t' where
  directory place hDirectory := by
    have hPlace := h place
    grind
  file place content hFile := by
    have hPlace := h place
    grind

section Grown

variable (h : t.GrowsTo t')

include h

theorem GrowsTo.follow (hFollow : t.follow here names = .ok place) :
    t'.follow here names = .ok place := by
  induction names generalizing here with
  | nil => exact hFollow
  | cons name names ih =>
    rw [follow_cons] at hFollow ⊢
    split at hFollow
    · rename_i hDirectory
      rw [if_pos (h.directory here hDirectory)]
      split at hFollow
      · rw [if_pos ‹_›]
        split at hFollow
        · cases hFollow
        · rw [if_neg ‹_›]
          exact ih hFollow
      · rw [if_neg ‹_›]
        split at hFollow
        · cases hFollow
        · have hThere : t'.standing (here ++ [name]) ≠ .nothing := by
            cases hNow : t.standing (here ++ [name]) with
            | nothing => contradiction
            | directory => simp [h.directory _ hNow]
            | file content =>
              obtain ⟨now, hNow⟩ := h.file _ _ hNow
              simp [hNow]
          rw [if_neg hThere]
          exact ih hFollow
    · cases hFollow

/-- Paths lead where they led. -/
theorem GrowsTo.locate (hLocate : t.locate p = .ok place) : t'.locate p = .ok place := by
  unfold FileTree.locate at hLocate ⊢
  split at hLocate
  · rw [if_pos ‹_›]
    exact h.follow hLocate
  · cases hLocate

theorem GrowsTo.fileAt (hFile : t.FileAt p place content) : ∃ now, t'.FileAt p place now := by
  obtain ⟨now, hNow⟩ := h.file place content hFile.standing
  exact ⟨now, h.locate hFile.located, FileNode.standing_eq_file.mp hNow⟩

end Grown

-- ---------------------------------------------------------------------------
-- Writing
-- ---------------------------------------------------------------------------

/-- A new entry is put where no directory stands, and nothing else changes. -/
theorem standing_put (new : FileNode) {here : List String} (hLeaf : new.entries = [])
    (hHere : t.standing here = .directory) (hNew : t.standing (here ++ [name]) ≠ .directory)
    (place : List String) :
    (FileTree.mk (FileNode.put new (here ++ [name]) t.top)).standing place =
      if place = here ++ [name] then new.standing [] else t.standing place :=
  FileNode.standing_put hLeaf hHere hNew

theorem locate_parent {here : List String} : t.locate p.parent = .ok here ↔
    p.root.isEmpty = true ∧ t.follow [] p.names.dropLast = .ok here := by
  obtain ⟨root, names⟩ := p
  by_cases hRoot : root.isEmpty = true <;> simp [locate, FilePath.parent, hRoot]

/-- A path is that to its directory and its last name. -/
theorem locate_eq {here : List String} (hLast : p.names.getLast? = some name)
    (hParent : t.locate p.parent = .ok here) : t.locate p = t.follow here [name] := by
  obtain ⟨hRoot, hFollow⟩ := locate_parent.mp hParent
  unfold locate
  rw [if_pos hRoot, ← List.dropLast_append_getLast? name hLast, follow_append, hFollow]
  rfl

/-- A path that does not lead back leads to its name in its directory. -/
theorem locate_of_parent {here : List String} (hLast : p.names.getLast? = some name)
    (hOnward : name ≠ "..") (hParent : t.locate p.parent = .ok here)
    (hHere : t.standing here = .directory) :
    t.locate p = if t.standing (here ++ [name]) = .nothing then .error .absent
      else .ok (here ++ [name]) := by
  rw [locate_eq hLast hParent, follow_cons, if_pos hHere, if_neg hOnward]
  rfl

theorem isDirectory_iff : t.isDirectory p = true ↔
    ∃ place, t.locate p = .ok place ∧ t.standing place = .directory := by
  unfold isDirectory node? standing
  cases t.locate p with
  | error why => simp [Except.toOption]
  | ok place =>
    simp only [Except.toOption, Option.bind_some, Except.ok.injEq, exists_eq_left',
      FileNode.standing_eq_directory]
    cases t.top.lookup place with
    | none => simp
    | some n => cases n <;> simp [FileNode.isDirectory]

/-- A file was written at a place, and directories may have been made. -/
structure Wrote (t t' : FileTree) (p : FilePath) (place : List String) (content : Bytes) : Prop where
  fileAt : t'.FileAt p place content
  before : t.standing place ≠ .directory
  others : ∀ q, q ≠ place → t'.standing q = t.standing q ∨
    t.standing q = .nothing ∧ t'.standing q = .directory

theorem Wrote.growsTo (h : t.Wrote t' p place content) : t.GrowsTo t' where
  directory q hDirectory := by
    have hOther := h.others q fun hSame => h.before (hSame ▸ hDirectory)
    grind
  file q old hFile := by
    by_cases hSame : q = place
    · exact ⟨content, hSame ▸ h.fileAt.standing⟩
    · have hOther := h.others q hSame
      grind

theorem Made.wrote {t'' : FileTree} (h : t.Made t') (h' : t'.Wrote t'' p place content) :
    t.Wrote t'' p place content where
  fileAt := h'.fileAt
  before hDirectory := h'.before (h.growsTo.directory place hDirectory)
  others q hOther := by
    have hFirst := h q
    have hSecond := h'.others q hOther
    grind

theorem put_of_write (h : t.write p content = .ok t') : t.isDirectory p = false ∧
    ∃ place, t.placeFor p = .ok place ∧ t' = ⟨FileNode.put (.file content) place t.top⟩ := by
  unfold write at h
  split at h
  · cases h
  · rename_i hNoDirectory
    cases hPlace : t.placeFor p with
    | error why => simp [hPlace] at h
    | ok place =>
      rw [hPlace, Except.ok.injEq] at h
      exact ⟨Bool.eq_false_iff.mpr hNoDirectory, place, rfl, h.symm⟩

section Write

variable (hOnward : p.names.getLast? ≠ some "..")

include hOnward

/-- What a file that was written has changed. -/
theorem wrote_of_write (h : t.write p content = .ok t') :
    t.isDirectory p.parent = true ∧ ∃ place, t.placeFor p = .ok place ∧ t.Wrote t' p place content := by
  obtain ⟨hNoDirectory, place, hPlace, rfl⟩ := put_of_write h
  obtain ⟨name, here, hLast, hParent, hHere, rfl⟩ := cases_of_placeFor hPlace
  have hName : name ≠ ".." := fun hDots => hOnward (hDots ▸ hLast)
  have hFree : t.standing (here ++ [name]) ≠ .directory := by
    intro hDirectory
    refine Bool.eq_false_iff.mp hNoDirectory (isDirectory_iff.mpr ⟨_, ?_, hDirectory⟩)
    rw [locate_of_parent hLast hName hParent hHere, hDirectory, if_neg (by simp)]
  have hAll := standing_put (.file content) rfl hHere hFree
  have hThere := (hAll (here ++ [name])).trans (if_pos rfl)
  have hGrows : t.GrowsTo ⟨FileNode.put (.file content) (here ++ [name]) t.top⟩ := by
    refine ⟨fun q hq => ?_, fun q old hq => ?_⟩
    · have hOther : q ≠ here ++ [name] := fun hSame => hFree (hSame ▸ hq)
      rw [hAll, if_neg hOther, hq]
    · rw [hAll]
      split
      · exact ⟨content, rfl⟩
      · exact ⟨old, hq⟩
  refine ⟨isDirectory_iff.mpr ⟨here, hParent, hHere⟩, _, hPlace,
    ⟨?_, FileNode.standing_eq_file.mp hThere⟩, hFree, fun q hq => Or.inl ?_⟩
  · rw [locate_of_parent hLast hName (hGrows.locate hParent) (hGrows.directory here hHere), hThere,
      if_neg (by simp [FileNode.standing, FileNode.lookup])]
  · rw [hAll, if_neg hq]

/-- A file that is there can be written. -/
theorem FileAt.exists_wrote (h : t.FileAt p place content) (hTop : t.top.isDirectory = true)
    (new : Bytes) : t.write p new = .ok ⟨FileNode.put (.file new) place t.top⟩ ∧
      t.Wrote ⟨FileNode.put (.file new) place t.top⟩ p place new := by
  have hNoDirectory : t.isDirectory p = false := by
    unfold isDirectory
    rw [h.node]
    rfl
  have hWrite : t.write p new = .ok ⟨FileNode.put (.file new) place t.top⟩ := by
    unfold FileTree.write
    rw [hNoDirectory, if_neg Bool.false_ne_true, h.placeFor hTop]
  obtain ⟨-, place', hPlace, hWrote⟩ := wrote_of_write hOnward hWrite
  obtain rfl : place' = place := Except.ok.inj (hPlace.symm.trans (h.placeFor hTop))
  exact ⟨hWrite, hWrote⟩

/-- What is written takes the place of what was written before. -/
theorem write_of_write {old : Bytes} (h : t.write p old = .ok t') (new : Bytes) :
    t'.write p new = t.write p new := by
  obtain ⟨hNoDirectory, place, hPlace, hTree⟩ := put_of_write h
  obtain ⟨-, place', hPlace', hWrote⟩ := wrote_of_write hOnward h
  obtain rfl : place = place' := Except.ok.inj (hPlace.symm.trans hPlace')
  have hTop : t'.top.isDirectory = true := by
    obtain ⟨name, here, -, -, -, rfl⟩ := cases_of_placeFor hPlace
    rw [hTree]
    cases here <;> rfl
  rw [(hWrote.fileAt.exists_wrote hOnward hTop new).1, hTree, FileNode.put_put]
  unfold write
  rw [hNoDirectory, if_neg Bool.false_ne_true, hPlace]

end Write

/-- Whether a file can be written does not depend on what is written. -/
theorem write_eq_error {why : FileFault} (h : t.write p content = .error why) (new : Bytes) :
    t.write p new = .error why := by
  unfold write at h ⊢
  split at h
  · rw [if_pos ‹_›, h]
  · rw [if_neg ‹_›]
    cases hPlace : t.placeFor p with
    | error impasse => simpa [hPlace] using h
    | ok place => simp [hPlace] at h

-- ---------------------------------------------------------------------------
-- Making directories
-- ---------------------------------------------------------------------------

/-- What has something in it is a directory. -/
theorem standing_dropLast (h : t.standing here ≠ .nothing) (hSome : here ≠ []) :
    t.standing here.dropLast = .directory := by
  obtain ⟨above, last, rfl⟩ := List.eq_nil_or_concat' here |>.resolve_left hSome
  cases hNode : t.top.lookup (above ++ [last]) with
  | none => exact absurd (FileNode.standing_eq_nothing.mpr hNode) h
  | some n =>
    obtain ⟨es, hAbove, -⟩ := FileNode.isDirectory_of_lookup_append hNode
    rw [List.dropLast_concat]
    exact FileNode.standing_eq_directory.mpr ⟨es, hAbove⟩

theorem exists?_of_standing (h : t.locate p = .ok place) (hThere : t.standing place ≠ .nothing) :
    t.exists? p = true := by
  unfold exists? node?
  rw [h, Option.isSome_iff_ne_none]
  exact fun hNone => hThere (FileNode.standing_eq_nothing.mpr hNone)

/-- A directory that is made, and found then, is made where nothing stands. -/
theorem made_of_makeDirectory (h : t.makeDirectory p = .ok t') (hThere : t'.isDirectory p = true) :
    t.Made t' ∧ t.isDirectory p.parent = true := by
  unfold makeDirectory at h
  split at h
  · cases h
  · rename_i hAbsent
    cases hPlace : t.placeFor p with
    | error why => simp [hPlace] at h
    | ok place =>
      rw [hPlace, Except.ok.injEq] at h
      obtain ⟨name, here, hLast, hParent, hHere, rfl⟩ := cases_of_placeFor hPlace
      refine ⟨?_, isDirectory_iff.mpr ⟨here, hParent, hHere⟩⟩
      have hName : name ≠ ".." := by
        -- two dots lead to a directory that is there, or out of the tree
        rintro rfl
        by_cases hTop : here = []
        · obtain ⟨q, hFound, -⟩ := isDirectory_iff.mp hThere
          obtain ⟨hRoot, hFollow⟩ := locate_parent.mp hParent
          have hSettled := settled_of_locate hFound
          rw [FilePath.settled?_eq, if_pos hRoot, ← List.dropLast_append_getLast? _ hLast,
            FilePath.settleFrom_append, settleFrom_of_follow hFollow, hTop] at hSettled
          cases hSettled
        · have hAbove : t.locate p = .ok here.dropLast := by
            rw [locate_eq hLast hParent, follow_cons, if_pos hHere, if_pos rfl,
              if_neg (by simpa using hTop)]
            rfl
          refine hAbsent (exists?_of_standing hAbove ?_)
          rw [standing_dropLast (by rw [hHere]; simp) hTop]
          simp
      have hFree : t.standing (here ++ [name]) = .nothing := by
        by_contra hSome
        refine hAbsent (exists?_of_standing ?_ hSome)
        rw [locate_of_parent hLast hName hParent hHere, if_neg hSome]
      have hAll := standing_put (.directory []) rfl hHere (by rw [hFree]; simp)
      rw [h] at hAll
      intro q
      rw [hAll]
      split
      · rename_i hSame
        exact Or.inr ⟨hSame ▸ hFree, rfl⟩
      · exact Or.inl rfl

/-- The path to a directory leads through one. -/
theorem isDirectory_parent (h : t.isDirectory p = true) : t.isDirectory p.parent = true := by
  obtain ⟨place, hPlace, hThere⟩ := isDirectory_iff.mp h
  unfold locate at hPlace
  split at hPlace
  · rename_i hRoot
    rcases List.eq_nil_or_concat' p.names with hNames | ⟨front, name, hNames⟩
    · have hSame : p.parent = p := by
        obtain ⟨root, names⟩ := p
        obtain rfl : names = [] := hNames
        rfl
      rwa [hSame]
    · rw [hNames, follow_append] at hPlace
      cases hFront : t.follow [] front with
      | error why => simp [hFront, Except.bind] at hPlace
      | ok here =>
        simp only [hFront, Except.bind, follow_cons] at hPlace
        refine isDirectory_iff.mpr ⟨here, locate_parent.mpr ⟨hRoot, ?_⟩, ?_⟩
        · rw [hNames, List.dropLast_concat, hFront]
        · by_contra hNot
          simp [hNot] at hPlace
  · cases hPlace

/-- Making a directory and those on the way, if it is found then, makes nothing else. -/
theorem made_of_makeDirectoriesFrom {fuel : Nat} (h : makeDirectoriesFrom fuel t p = .ok t')
    (hThere : t'.isDirectory p = true) : t.Made t' := by
  induction fuel generalizing p t' with
  | zero =>
    unfold makeDirectoriesFrom at h
    split at h
    · rename_i hMake
      cases h
      exact (made_of_makeDirectory hMake hThere).1
    · cases h
    · split at h
      · cases h
        exact .refl t
      · cases h
  | succ fuel ih =>
    unfold makeDirectoriesFrom at h
    split at h
    · rename_i hMake
      cases h
      exact (made_of_makeDirectory hMake hThere).1
    · simp only at h
      split at h
      · cases h
      · rename_i t₁ hAbove
        split at h
        · cases h
          exact ih hAbove (isDirectory_parent hThere)
        · obtain ⟨hMade, hParent⟩ := made_of_makeDirectory h hThere
          exact (ih hAbove hParent).trans hMade
    · split at h
      · cases h
        exact .refl t
      · cases h

theorem made_of_makeDirectories (h : t.makeDirectories p = .ok t') (hThere : t'.isDirectory p = true) :
    t.Made t' :=
  made_of_makeDirectoriesFrom h hThere

end FileTree

end SourceMigration
