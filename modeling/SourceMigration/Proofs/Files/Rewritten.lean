import Mathlib.Data.List.Basic
import SourceMigration.Files.Tree

/-!
# SourceMigration — trees with other contents

Writing to a file that is there leaves the places of a tree as they are: only the bytes at one place
change. A run that writes to nothing else is therefore described by what it makes of the bytes at each
place, and every path leads in the rewritten tree where it led before.

## Results

* `locate_rewritten` — paths lead where they led.
* `FileAt.rewritten` — and find there what was made of the contents.
* `FileAt.write`     — writing to a file that is there rewrites the contents at its place.
-/

namespace SourceMigration

namespace FilePath

/-- Whether a name is one step of a path: it is not left out when a path is read, and holds no
slash. -/
def isStep (name : String) : Bool := isName name.toList && !name.toList.contains '/'

/-- Whether a name can be that of an entry: a step that does not lead back. -/
def isEntry (name : String) : Bool := isStep name && name != ".."

end FilePath

namespace FileNode

/-- An entry of another name is passed over. -/
theorem lookup_cons_of_ne {name k : String} (h : name ≠ k) (n : FileNode)
    (es : List (String × FileNode)) : ((k, n) :: es).lookup name = es.lookup name := by
  rw [List.lookup_cons, beq_eq_false_iff_ne.mpr h]

-- ---------------------------------------------------------------------------
-- Proper trees
-- ---------------------------------------------------------------------------

mutual

/-- Whether the entries of each directory are named as entries can be, and no two of them alike. -/
def isProper : FileNode → Bool
  | .file _ => true
  | .directory es => areProper es

/-- The same for some entries of a directory. -/
def areProper : List (String × FileNode) → Bool
  | [] => true
  | (name, n) :: es =>
    FilePath.isEntry name && (es.lookup name).isNone && isProper n && areProper es

end

-- ---------------------------------------------------------------------------
-- Other contents
-- ---------------------------------------------------------------------------

mutual

/-- A node with other contents in its files: what `f` makes of those at each place. -/
def rewritten (f : List String → Bytes → Bytes) (above : List String) : FileNode → FileNode
  | .file content => .file (f above content)
  | .directory es => .directory (rewrittenIn f above es)

/-- The same for some entries of a directory. -/
def rewrittenIn (f : List String → Bytes → Bytes) (above : List String) :
    List (String × FileNode) → List (String × FileNode)
  | [] => []
  | (name, n) :: es => (name, rewritten f (above ++ [name]) n) :: rewrittenIn f above es

end

section Rewritten

variable {f g : List String → Bytes → Bytes} {above : List String}

theorem lookup_rewrittenIn (name : String) (es : List (String × FileNode)) :
    (rewrittenIn f above es).lookup name = (es.lookup name).map (rewritten f (above ++ [name])) := by
  induction es with
  | nil => rfl
  | cons e es ih =>
    obtain ⟨k, n⟩ := e
    rw [rewrittenIn]
    by_cases hName : name = k
    · subst hName
      rw [List.lookup_cons_self, List.lookup_cons_self, Option.map_some]
    · rw [lookup_cons_of_ne hName, lookup_cons_of_ne hName, ih]

/-- Names lead to the rewritten form of what they led to. -/
theorem lookup_rewritten (names : List String) (n : FileNode) :
    (n.rewritten f above).lookup names = (n.lookup names).map (rewritten f (above ++ names)) := by
  induction names generalizing n above with
  | nil => simp [lookup]
  | cons name names ih =>
    cases n with
    | file content => rfl
    | directory es =>
      simp only [lookup, rewritten, entries, lookup_rewrittenIn]
      cases es.lookup name with
      | none => rfl
      | some m =>
        have hBelow : (m.rewritten f (above ++ [name])).lookup names = _ := ih m
        rwa [List.append_assoc, List.singleton_append] at hBelow

mutual

/-- Only what is made of the contents that are there counts. -/
theorem rewritten_congr {above : List String} : ∀ {n : FileNode},
    (∀ e ∈ n.files above, f e.1 e.2 = g e.1 e.2) → n.rewritten f above = n.rewritten g above
  | .file content, h => by
    rw [rewritten, rewritten, h (above, content) (by simp [files])]
  | .directory es, h => by
    rw [rewritten, rewritten, rewrittenIn_congr h]

theorem rewrittenIn_congr {above : List String} : ∀ {es : List (String × FileNode)},
    (∀ e ∈ filesIn above es, f e.1 e.2 = g e.1 e.2) → rewrittenIn f above es = rewrittenIn g above es
  | [], _ => rfl
  | (name, n) :: es, h => by
    rw [filesIn, List.forall_mem_append] at h
    rw [rewrittenIn, rewrittenIn, rewritten_congr h.1, rewrittenIn_congr h.2]

end

mutual

/-- Contents that are made of themselves change nothing. -/
theorem rewritten_id {above : List String} (h : ∀ below, f (above ++ below) = id) :
    ∀ n : FileNode, n.rewritten f above = n
  | .file content => by
    have hHere := h []
    rw [List.append_nil] at hHere
    rw [rewritten, hHere]
    rfl
  | .directory es => by rw [rewritten, rewrittenIn_id h es]

theorem rewrittenIn_id {above : List String} (h : ∀ below, f (above ++ below) = id) :
    ∀ es : List (String × FileNode), rewrittenIn f above es = es
  | [] => rfl
  | (name, n) :: es => by
    have hBelow : ∀ below, f (above ++ [name] ++ below) = id := fun below => by
      simpa using h (name :: below)
    rw [rewrittenIn, rewrittenIn_id h es, rewritten_id hBelow n]

end

mutual

/-- Rewriting twice. -/
theorem rewritten_rewritten (above : List String) : ∀ n : FileNode,
    (n.rewritten f above).rewritten g above =
      n.rewritten (fun place content => g place (f place content)) above
  | .file content => rfl
  | .directory es => by rw [rewritten, rewritten, rewritten, rewrittenIn_rewrittenIn above es]

theorem rewrittenIn_rewrittenIn (above : List String) : ∀ es : List (String × FileNode),
    rewrittenIn g above (rewrittenIn f above es) =
      rewrittenIn (fun place content => g place (f place content)) above es
  | [] => rfl
  | (name, n) :: es => by
    rw [rewrittenIn, rewrittenIn, rewrittenIn, rewrittenIn_rewrittenIn above es,
      rewritten_rewritten (above ++ [name]) n]

end

mutual

/-- A proper tree stays proper. -/
theorem isProper_rewritten (above : List String) : ∀ n : FileNode,
    (n.rewritten f above).isProper = n.isProper
  | .file content => rfl
  | .directory es => by rw [rewritten, isProper, isProper, areProper_rewrittenIn above es]

theorem areProper_rewrittenIn (above : List String) : ∀ es : List (String × FileNode),
    areProper (rewrittenIn f above es) = areProper es
  | [] => rfl
  | (name, n) :: es => by
    rw [rewrittenIn, areProper, areProper, areProper_rewrittenIn above es,
      isProper_rewritten (above ++ [name]) n, lookup_rewrittenIn, Option.isNone_map]

end

end Rewritten

-- ---------------------------------------------------------------------------
-- One file
-- ---------------------------------------------------------------------------

mutual

/-- The files of a proper tree are what names lead to. -/
theorem lookup_of_mem_files {above place : List String} {content : Bytes} : ∀ {n : FileNode},
    n.isProper = true → (place, content) ∈ n.files above →
    ∃ below, place = above ++ below ∧ n.lookup below = some (.file content)
  | .file _, _, h => by
    obtain ⟨rfl, rfl⟩ := Prod.mk.inj (List.mem_singleton.mp h)
    exact ⟨[], (List.append_nil _).symm, rfl⟩
  | .directory es, hProper, h => by
    obtain ⟨name, below, m, rfl, hEntry, hBelow⟩ := lookup_of_mem_filesIn hProper h
    exact ⟨name :: below, rfl, Option.bind_eq_some_iff.mpr ⟨m, hEntry, hBelow⟩⟩

theorem lookup_of_mem_filesIn {above place : List String} {content : Bytes} :
    ∀ {es : List (String × FileNode)}, areProper es = true → (place, content) ∈ filesIn above es →
    ∃ name below m, place = above ++ name :: below ∧ es.lookup name = some m ∧
      m.lookup below = some (.file content)
  | [], _, h => nomatch h
  | (k, n) :: es, hProper, h => by
    simp only [areProper, Bool.and_eq_true, Option.isNone_iff_eq_none] at hProper
    obtain ⟨⟨⟨-, hNew⟩, hNode⟩, hRest⟩ := hProper
    rw [filesIn, List.mem_append] at h
    rcases h with h | h
    · obtain ⟨below, rfl, hBelow⟩ := lookup_of_mem_files hNode h
      exact ⟨k, below, n, by simp, List.lookup_cons_self, hBelow⟩
    · obtain ⟨name, below, m, rfl, hEntry, hBelow⟩ := lookup_of_mem_filesIn hRest h
      refine ⟨name, below, m, rfl, ?_, hBelow⟩
      rw [lookup_cons_of_ne ?_, hEntry]
      rintro rfl
      rw [hNew] at hEntry
      cases hEntry

end

/-- The entries of a proper directory are proper. -/
theorem isProper_of_lookup {es : List (String × FileNode)} (h : areProper es = true) {name : String}
    {m : FileNode} (hm : es.lookup name = some m) : m.isProper = true := by
  induction es with
  | nil => cases hm
  | cons e es ih =>
    obtain ⟨k, n⟩ := e
    simp only [areProper, Bool.and_eq_true] at h
    rw [List.lookup_cons] at hm
    split at hm
    · obtain rfl := Option.some.inj hm
      exact h.1.2
    · exact ih h.2 hm

section Entry

variable {f : List String → Bytes → Bytes} {above : List String} {name : String}
  (hOther : ∀ k, k ≠ name → ∀ n : FileNode, n.rewritten f (above ++ [k]) = n)

include hOther

/-- Without the one entry whose contents are rewritten, all stays. -/
theorem rewrittenIn_of_absent {es : List (String × FileNode)} (h : es.lookup name = none) :
    rewrittenIn f above es = es := by
  induction es with
  | nil => rfl
  | cons e es ih =>
    obtain ⟨k, n⟩ := e
    by_cases hName : name = k
    · subst hName
      simp [List.lookup_cons_self] at h
    · rw [lookup_cons_of_ne hName] at h
      rw [rewrittenIn, hOther k (Ne.symm hName), ih h]

/-- The one entry that is rewritten takes the place of what was there. -/
theorem setEntry_of_proper {m : FileNode} {es : List (String × FileNode)}
    (hProper : areProper es = true) (h : es.lookup name = some m) :
    setEntry name (m.rewritten f (above ++ [name])) es = rewrittenIn f above es := by
  induction es with
  | nil => cases h
  | cons e es ih =>
    obtain ⟨k, n⟩ := e
    simp only [areProper, Bool.and_eq_true, Option.isNone_iff_eq_none] at hProper
    obtain ⟨⟨⟨-, hNew⟩, -⟩, hRest⟩ := hProper
    rw [setEntry, rewrittenIn]
    by_cases hName : k = name
    · subst hName
      obtain rfl : n = m := by simpa [List.lookup_cons_self] using h
      rw [if_pos rfl, rewrittenIn_of_absent hOther hNew]
    · rw [lookup_cons_of_ne (Ne.symm hName)] at h
      rw [if_neg hName, ih hRest h, hOther k hName]

end Entry

/-- Putting other contents into a file that is there. -/
theorem put_of_file {place : List String} {old : Bytes} (new : Bytes) {n : FileNode}
    (hProper : n.isProper = true) (h : n.lookup place = some (.file old)) (above : List String) :
    put (.file new) place n =
      n.rewritten (Function.update (fun _ => id) (above ++ place) fun _ => new) above := by
  induction place generalizing n above with
  | nil =>
    obtain rfl := Option.some.inj h
    simp [put, rewritten]
  | cons name place ih =>
    cases n with
    | file content => cases h
    | directory es =>
      obtain ⟨m, hm, hPlace⟩ := Option.bind_eq_some_iff.mp h
      have hHere := ih (isProper_of_lookup hProper hm) hPlace (above ++ [name])
      simp only [List.append_assoc, List.singleton_append] at hHere
      simp only [entries] at hm
      simp only [put, entries, hm, Option.getD_some, hHere, rewritten]
      rw [setEntry_of_proper ?_ hProper hm]
      -- the place is not below another entry
      intro k hk n
      refine rewritten_id (fun below => Function.update_of_ne (fun hSame => hk ?_) _ _) n
      rw [List.append_assoc] at hSame
      exact (List.cons.inj (List.append_cancel_left hSame)).1

/-- Names one after the other. -/
theorem lookup_append (names more : List String) (n : FileNode) :
    n.lookup (names ++ more) = (n.lookup names).bind (lookup more) := by
  induction names generalizing n with
  | nil => rfl
  | cons name names ih =>
    simp only [List.cons_append, lookup, Option.bind_assoc]
    exact congrArg (Option.bind _) (funext ih)

/-- What has something below it is a directory. -/
theorem isDirectory_of_lookup_append {names : List String} {name : String} {n m : FileNode}
    (h : n.lookup (names ++ [name]) = some m) :
    ∃ es, n.lookup names = some (.directory es) ∧ es.lookup name = some m := by
  rw [lookup_append] at h
  obtain ⟨d, hd, hm⟩ := Option.bind_eq_some_iff.mp h
  cases d with
  | file content => cases hm
  | directory es =>
    simp only [lookup, entries, Option.bind_fun_some] at hm
    exact ⟨es, hd, hm⟩

end FileNode

namespace FileTree

/-- A tree with other contents in its files. -/
def rewritten (t : FileTree) (f : List String → Bytes → Bytes) : FileTree := ⟨t.top.rewritten f []⟩

/-- Whether the top of a tree is a directory, and each directory is proper. -/
def isProper (t : FileTree) : Bool := t.top.isDirectory && t.top.isProper

/-- A path leads to a place where a file is. -/
structure FileAt (t : FileTree) (p : FilePath) (place : List String) (content : Bytes) : Prop where
  located : t.locate p = .ok place
  found : t.top.lookup place = some (.file content)

section Rewritten

variable {t : FileTree} {f g : List String → Bytes → Bytes}

theorem rewritten_rewritten : (t.rewritten f).rewritten g =
    t.rewritten fun place content => g place (f place content) := by
  unfold rewritten
  simp only [FileNode.rewritten_rewritten]

theorem rewritten_id : (t.rewritten fun _ => id) = t := by
  unfold rewritten
  rw [FileNode.rewritten_id fun _ => rfl]

/-- In a proper tree, only what is made of the contents that are there counts. -/
theorem rewritten_congr (hProper : t.isProper = true)
    (h : ∀ place content, t.top.lookup place = some (.file content) →
      f place content = g place content) : t.rewritten f = t.rewritten g := by
  unfold rewritten
  rw [FileNode.rewritten_congr]
  intro e he
  obtain ⟨below, hPlace, hFile⟩ :=
    FileNode.lookup_of_mem_files (Bool.and_eq_true_iff.mp hProper).2 he
  obtain rfl : e.1 = below := by simpa using hPlace
  exact h _ _ hFile

theorem isProper_rewritten : (t.rewritten f).isProper = t.isProper := by
  unfold isProper rewritten
  simp only [FileNode.isProper_rewritten]
  cases t.top <;> rfl

theorem follow_rewritten (here names : List String) :
    (t.rewritten f).follow here names = t.follow here names := by
  induction names generalizing here with
  | nil => rfl
  | cons name names ih =>
    simp only [follow, rewritten, FileNode.lookup_rewritten]
    cases t.top.lookup here with
    | none => rfl
    | some n =>
      cases n with
      | file content => rfl
      | directory es =>
        simp only [Option.map_some, FileNode.rewritten, FileNode.lookup_rewrittenIn,
          Option.isSome_map]
        have hNext (there : List String) :
            follow ⟨t.top.rewritten f []⟩ there names = t.follow there names := ih there
        simp only [hNext]

/-- Paths lead where they led. -/
theorem locate_rewritten (p : FilePath) : (t.rewritten f).locate p = t.locate p := by
  unfold locate
  rw [follow_rewritten]

variable {p : FilePath} {place : List String} {content : Bytes}

/-- A path to a file finds there what was made of the contents. -/
theorem FileAt.rewritten (h : t.FileAt p place content) :
    (t.rewritten f).FileAt p place (f place content) where
  located := (locate_rewritten p).trans h.located
  found := by
    unfold FileTree.rewritten
    simp only [FileNode.lookup_rewritten, h.found, Option.map_some, FileNode.rewritten,
      List.nil_append]

end Rewritten

section Files

variable {t : FileTree} {p : FilePath} {place : List String} {content : Bytes}

theorem exists_fileAt (h : t.isFile p = true) : ∃ place content, t.FileAt p place content := by
  unfold isFile node? at h
  cases hPlace : t.locate p with
  | error why => simp [hPlace, Except.toOption] at h
  | ok place =>
    cases hNode : t.top.lookup place with
    | none => simp [hPlace, Except.toOption, hNode] at h
    | some n =>
      cases n with
      | file content => exact ⟨place, content, hPlace, hNode⟩
      | directory es => simp [hPlace, Except.toOption, hNode, FileNode.isDirectory] at h

theorem FileAt.node (h : t.FileAt p place content) : t.node? p = some (.file content) := by
  unfold node?
  rw [h.located]
  exact h.found

theorem FileAt.contents (h : t.FileAt p place content) : t.content? p = some content := by
  unfold content?
  rw [h.node]

theorem FileAt.read (h : t.FileAt p place content) : t.read p = .ok content := by
  unfold FileTree.read
  simp only [h.located, h.found]

/-- A path finds what it found if nothing else was made of that. -/
theorem content?_rewritten {f : List String → Bytes → Bytes}
    (h : ∀ place content, t.FileAt p place content → f place content = content) :
    (t.rewritten f).content? p = t.content? p := by
  unfold content? node?
  rw [locate_rewritten]
  cases hPlace : t.locate p with
  | error why => rfl
  | ok place =>
    simp only [FileTree.rewritten, Except.toOption, Option.bind_some, FileNode.lookup_rewritten]
    cases hNode : t.top.lookup place with
    | none => rfl
    | some n =>
      cases n with
      | file content => simp [FileNode.rewritten, h place content ⟨hPlace, hNode⟩]
      | directory es => rfl

/-- Where a path finds a file, only that one. -/
theorem FileAt.unique (h : t.FileAt p place content) {place' : List String} {content' : Bytes}
    (h' : t.FileAt p place' content') : place' = place ∧ content' = content := by
  obtain rfl : place' = place := by
    have hSame := h'.located.symm.trans h.located
    simpa using hSame
  have hSame := h'.found.symm.trans h.found
  exact ⟨rfl, by simpa using hSame⟩

theorem follow_append (here names more : List String) :
    t.follow here (names ++ more) = (t.follow here names).bind fun there => t.follow there more := by
  induction names generalizing here with
  | nil => rfl
  | cons name names ih =>
    simp only [List.cons_append, follow]
    split
    · split
      · split
        · rfl
        · exact ih _
      · split
        · exact ih _
        · rfl
    · rfl

/-- A name that leads to a file is that of an entry: two dots lead to a directory. -/
theorem place_of_follow {here : List String} {name : String}
    (h : t.follow here [name] = .ok place) (hFile : t.top.lookup place = some (.file content)) :
    ∃ es, t.top.lookup here = some (.directory es) ∧ place = here ++ [name] := by
  simp only [follow] at h
  split at h
  · rename_i es hHere
    refine ⟨es, hHere, ?_⟩
    split at h
    · split at h
      · cases h
      · rename_i hDots hSome
        obtain ⟨above, last, rfl⟩ := List.eq_nil_or_concat' here |>.resolve_left
          (by simpa using hSome)
        obtain ⟨ds, hDirectory, -⟩ := FileNode.isDirectory_of_lookup_append hHere
        rw [List.dropLast_concat, Except.ok.injEq] at h
        rw [← h, hDirectory] at hFile
        cases hFile
    · split at h
      · exact (Except.ok.inj h).symm
      · cases h
  · cases h

/-- The place of a file is that of its name in its directory. -/
theorem FileAt.placeFor (h : t.FileAt p place content) (hTop : t.top.isDirectory = true) :
    t.placeFor p = .ok place := by
  obtain ⟨root, names⟩ := p
  obtain ⟨hLocated, hFound⟩ := h
  unfold locate at hLocated
  split at hLocated
  · rename_i hRoot
    rcases List.eq_nil_or_concat' names with rfl | ⟨front, name, rfl⟩
    · -- the working directory is no file
      obtain rfl : [] = place := by simpa [follow] using hLocated
      rw [Option.some.inj hFound] at hTop
      cases hTop
    · obtain ⟨here, hHere, hStep⟩ : ∃ here, t.follow [] front = .ok here ∧
          t.follow here [name] = .ok place := by
        rw [follow_append] at hLocated
        cases hFollow : t.follow [] front with
        | error why => simp [hFollow, Except.bind] at hLocated
        | ok here => exact ⟨here, rfl, by simpa [hFollow, Except.bind] using hLocated⟩
      obtain ⟨es, hDirectory, rfl⟩ := place_of_follow hStep hFound
      have hParent : t.locate ({ root, names := front ++ [name] } : FilePath).parent = .ok here := by
        simpa [locate, hRoot, FilePath.parent] using hHere
      unfold FileTree.placeFor
      simp only [List.getLast?_concat, hParent, hDirectory]
  · cases hLocated

/-- Writing to a file that is there rewrites the contents at its place. -/
theorem FileAt.write (h : t.FileAt p place content) (hProper : t.isProper = true) (new : Bytes) :
    t.write p new = .ok (t.rewritten (Function.update (fun _ => id) place fun _ => new)) := by
  obtain ⟨hTop, hNode⟩ := Bool.and_eq_true_iff.mp hProper
  have hFile : t.isDirectory p = false := by
    unfold isDirectory
    rw [h.node]
    rfl
  unfold FileTree.write
  rw [hFile, h.placeFor hTop, if_neg Bool.false_ne_true]
  simp only [FileNode.put_of_file new hNode h.found [], List.nil_append, FileTree.rewritten]

end Files

end FileTree

end SourceMigration
