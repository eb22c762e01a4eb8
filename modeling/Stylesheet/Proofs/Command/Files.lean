import Stylesheet.Command.FileTree

/-!
# Files that were written

A file that is written becomes a part of the tree and nothing else changes: it is read back from
its own path, and a file elsewhere holds what it held.
-/

namespace Stylesheet
namespace FileTree

variable {tree other : FileTree} {location : List String} {content : Content}

/-! ## Folders -/

theorem isFolder_iff :
    tree.isFolder location = true <->
      location = [] ∨ location <+: tree.home ∨
        (exists folder, folder ∈ tree.folders ∧ location <+: folder) ∨
          exists file, file ∈ tree.files ∧ location <+: file.1 ∧ location ≠ file.1 := by
  simp only [isFolder, Bool.or_eq_true, List.isEmpty_iff, List.isPrefixOf_iff_prefix,
    List.any_eq_true, Bool.and_eq_true, bne_iff_ne, or_assoc]

/-- What a folder lies in is a folder. -/
theorem isFolder_of_prefix {outer : List String} (h : tree.isFolder location = true)
    (houter : outer <+: location) : tree.isFolder outer = true := by
  rw [isFolder_iff] at h ⊢
  rcases h with rfl | h | ⟨folder, hfolder, h⟩ | ⟨file, hfile, h, hne⟩
  · exact Or.inl (List.prefix_nil.mp houter)
  · exact Or.inr (Or.inl (houter.trans h))
  · exact Or.inr (Or.inr (Or.inl ⟨folder, hfolder, houter.trans h⟩))
  · refine Or.inr (Or.inr (Or.inr ⟨file, hfile, houter.trans h, ?_⟩))
    rintro rfl
    exact hne (h.eq_of_length_le houter.length_le)

theorem requireFolder_eq_ok :
    tree.requireFolder location = .ok () <-> tree.isFolder location = true := by
  unfold requireFolder
  split
  · exact iff_of_true rfl ‹_›
  · refine iff_of_false ?_ ‹_›
    split <;> exact fun h => nomatch h

/-- A file in a folder makes no folder and takes none away. -/
theorem isFolder_insert {folder : List String} {name : String}
    (hfolder : tree.isFolder folder = true) (content : Content) (location : List String) :
    (tree.insert (folder ++ [name]) content).isFolder location = tree.isFolder location := by
  rw [Bool.eq_iff_iff]
  constructor
  · intro h
    rw [isFolder_iff] at h
    rcases h with rfl | h | h | ⟨file, hfile, hprefix, hne⟩
    · exact isFolder_iff.mpr (Or.inl rfl)
    · exact isFolder_iff.mpr (Or.inr (Or.inl h))
    · exact isFolder_iff.mpr (Or.inr (Or.inr (Or.inl h)))
    · rcases List.mem_cons.mp hfile with rfl | hfile
      · have hinner : location <+: folder := by
          rcases List.prefix_concat_iff.mp hprefix with heq | h
          · exact absurd heq hne
          · exact h
        exact isFolder_of_prefix hfolder hinner
      · have hmem := (List.mem_filter.mp hfile).left
        exact isFolder_iff.mpr (Or.inr (Or.inr (Or.inr ⟨file, hmem, hprefix, hne⟩)))
  · intro h
    rw [isFolder_iff] at h ⊢
    rcases h with h | h | h | ⟨file, hfile, hprefix, hne⟩
    · exact Or.inl h
    · exact Or.inr (Or.inl h)
    · exact Or.inr (Or.inr (Or.inl h))
    · refine Or.inr (Or.inr (Or.inr ?_))
      by_cases heq : file.1 = folder ++ [name]
      · exact ⟨(folder ++ [name], content), List.mem_cons_self, heq ▸ hprefix, heq ▸ hne⟩
      · refine ⟨file, List.mem_cons_of_mem _ (List.mem_filter.mpr ⟨hfile, ?_⟩), hprefix, hne⟩
        exact bne_iff_ne.mpr heq

/-! ## Files -/

theorem content?_insert_self (tree : FileTree) (location : List String) (content : Content) :
    (tree.insert location content).content? location = some content := by
  rw [content?, insert, List.lookup_cons_self]

theorem content?_insert_of_ne {place : List String} (h : place ≠ location) (tree : FileTree)
    (content : Content) : (tree.insert location content).content? place = tree.content? place := by
  have hplace : (place == location) = false := beq_eq_false_iff_ne.mpr h
  simp only [content?, insert, List.lookup_cons, hplace]
  induction tree.files with
  | nil => rfl
  | cons file rest ih =>
      by_cases hfile : file.1 = location
      · have hkept : (place == file.1) = false := beq_eq_false_iff_ne.mpr (hfile ▸ h)
        rw [List.filter_cons_of_neg (by simp [hfile]), List.lookup_cons, hkept, ih]
      · rw [List.filter_cons_of_pos (by simp [hfile]), List.lookup_cons, List.lookup_cons, ih]

/-! ## Walks -/

theorem walk_cons {place : List String} (hplace : tree.isFolder place = true) (segment : String)
    (rest : List String) :
    tree.walk place (segment :: rest) =
      if segment.utf8ByteSize > longestSegment then .error .nameTooLong
      else tree.walk (enter place segment) rest := by
  simp only [walk, requireFolder_eq_ok.mpr hplace, bind, Except.bind, throw, throwThe,
    MonadExceptOf.throw]

theorem walk_cons_eq_ok {place : List String} {segment : String} {rest : List String} :
    tree.walk place (segment :: rest) = .ok location <->
      tree.isFolder place = true ∧ segment.utf8ByteSize ≤ longestSegment ∧
        tree.walk (enter place segment) rest = .ok location := by
  cases hrequire : tree.requireFolder place with
  | error fault =>
      have hplace : ¬ tree.isFolder place = true := by
        rw [← requireFolder_eq_ok, hrequire]
        exact fun h => nomatch h
      rw [walk, hrequire]
      exact iff_of_false (fun h => nomatch h) fun h => hplace h.left
  | ok _ =>
      have hplace := requireFolder_eq_ok.mp hrequire
      rw [walk_cons hplace]
      split
      · exact iff_of_false (fun h => nomatch h) fun h => absurd h.right.left (Nat.not_le.mpr ‹_›)
      · exact ⟨fun h => ⟨hplace, Nat.not_lt.mp ‹_›, h⟩, fun h => h.right.right⟩

theorem walk_append {place folder : List String} {front back : List String}
    (h : tree.walk place front = .ok folder) :
    tree.walk place (front ++ back) = tree.walk folder back := by
  induction front generalizing place with
  | nil =>
      cases h
      rfl
  | cons segment rest ih =>
      rcases walk_cons_eq_ok.mp h with ⟨hplace, hsize, h⟩
      rw [List.cons_append, walk_cons hplace, if_neg (Nat.not_lt.mpr hsize), ih h]

/-- A walk only looks at folders. -/
theorem walk_mono {place : List String} {segments : List String}
    (hfolders : forall folder, tree.isFolder folder = true -> other.isFolder folder = true)
    (h : tree.walk place segments = .ok location) : other.walk place segments = .ok location := by
  induction segments generalizing place with
  | nil => exact h
  | cons segment rest ih =>
      rw [walk_cons_eq_ok] at h ⊢
      rcases h with ⟨hplace, hsize, h⟩
      exact ⟨hfolders place hplace, hsize, ih h⟩

theorem enter_of_isName {segment : String} (h : Path.isName segment = true)
    (place : List String) : enter place segment = place ++ [segment] := by
  simp only [Path.isName, Bool.and_eq_true, Bool.not_eq_true', bne_iff_ne] at h
  rw [enter, h.left, if_neg Bool.false_ne_true, if_neg h.right]

/-! ## Writing -/

/-- A path leads to a file of a folder, whether or not the file is there. -/
structure Names (tree : FileTree) (path : String) (front : List String) (name : String)
    (folder : List String) : Prop where
  segments : segments path = .ok (front ++ [name])
  isName : Path.isName name = true
  size : name.utf8ByteSize ≤ longestSegment
  walk : tree.walk (tree.start path) front = .ok folder
  isFolder : tree.isFolder folder = true
  free : tree.isFolder (folder ++ [name]) = false

theorem getLast?_eq_of_withoutEnd {segments : List String} {name : String}
    (h : (Path.withoutEnd segments).getLast? = some name) (hlast : segments.getLast? ≠ some "") :
    Path.withoutEnd segments = segments := by
  unfold Path.withoutEnd at h ⊢
  rcases List.eq_nil_or_concat segments with rfl | ⟨front, last, rfl⟩
  · rfl
  · have hne : (last == "") = false := by
      rw [beq_eq_false_iff_ne]
      rintro rfl
      exact hlast (by simp)
    simp [hne]

/-- The target of a path is the file that the path names. -/
theorem names_of_target {path : String} (h : tree.target path = .ok location) :
    exists front name folder, tree.Names path front name folder ∧ location = folder ++ [name] := by
  unfold target at h
  cases hsegments : segments path with
  | error fault =>
      rw [hsegments] at h
      cases h
  | ok segments =>
      rw [hsegments] at h
      simp only [bind, Except.bind] at h
      split at h
      · cases h
      · rename_i name hname
        split at h
        · cases h
        · rename_i folder hwalk
          cases hfolder : tree.requireFolder folder with
          | error fault =>
              rw [hfolder] at h
              cases h
          | ok _ =>
              rw [hfolder] at h
              simp only [pure, Except.pure, throw, throwThe, MonadExceptOf.throw] at h
              split at h
              · cases h
              · rename_i hends
                split at h
                · cases h
                · rename_i hsize
                  split at h
                  · cases h
                  · rename_i hfree
                    cases h
                    simp only [Bool.or_eq_true, decide_eq_true_eq, Bool.not_eq_true', not_or,
                      Bool.not_eq_false] at hends
                    have hwhole := getLast?_eq_of_withoutEnd hname hends.left
                    rw [hwhole] at hname hwalk
                    rcases List.getLast?_eq_some_iff.mp hname with ⟨front, rfl⟩
                    rw [List.dropLast_concat] at hwalk
                    exact ⟨front, name, folder,
                      ⟨hsegments, hends.right, Nat.not_lt.mp hsize, hwalk,
                        requireFolder_eq_ok.mp hfolder, Bool.eq_false_iff.mpr hfree⟩, rfl⟩

/-- A path names the same file in every tree with the same folders. -/
theorem Names.of_isFolder_eq {path : String} {front : List String} {name : String}
    {folder : List String} (h : tree.Names path front name folder) (hhome : other.home = tree.home)
    (hfolders : forall place, other.isFolder place = tree.isFolder place) :
    other.Names path front name folder where
  segments := h.segments
  isName := h.isName
  size := h.size
  walk := by
    have hstart : other.start path = tree.start path := by rw [start, start, hhome]
    rw [hstart]
    exact walk_mono (fun place hplace => (hfolders place).trans hplace) h.walk
  isFolder := (hfolders _).trans h.isFolder
  free := (hfolders _).trans h.free

/-- A path of a text file is read as its text. -/
theorem Names.read {path text : String} {front : List String} {name : String}
    {folder : List String} (h : tree.Names path front name folder)
    (hcontent : tree.content? (folder ++ [name]) = some (.text text)) :
    tree.read path = .ok text := by
  have hwalk : tree.walk (tree.start path) (front ++ [name]) = .ok (folder ++ [name]) := by
    rw [walk_append h.walk, walk_cons_eq_ok]
    exact ⟨h.isFolder, h.size, by rw [enter_of_isName h.isName, FileTree.walk]⟩
  simp only [FileTree.read, h.segments, hwalk, hcontent, h.free, bind, Except.bind, pure,
    Except.pure, if_neg Bool.false_ne_true]

theorem insert_of_write {path text : String} {written : FileTree}
    (h : tree.write path text = .ok written) :
    exists front name folder, tree.Names path front name folder ∧
      written = tree.insert (folder ++ [name]) (.text text) := by
  unfold write at h
  cases htarget : tree.target path with
  | error fault =>
      rw [htarget] at h
      cases h
  | ok location =>
      rw [htarget] at h
      cases h
      rcases names_of_target htarget with ⟨front, name, folder, hnames, rfl⟩
      exact ⟨front, name, folder, hnames, rfl⟩

theorem Names.insert {path : String} {front : List String} {name : String}
    {folder : List String} (h : tree.Names path front name folder) {folder' : List String}
    {name' : String} (hfolder : tree.isFolder folder' = true) (content : Content) :
    (tree.insert (folder' ++ [name']) content).Names path front name folder :=
  h.of_isFolder_eq rfl (isFolder_insert hfolder content)

/-- What was written is read back. -/
theorem read_write {path text : String} {written : FileTree}
    (h : tree.write path text = .ok written) : written.read path = .ok text := by
  rcases insert_of_write h with ⟨front, name, folder, hnames, rfl⟩
  exact (hnames.insert hnames.isFolder _).read (content?_insert_self ..)

theorem segments_eq {path : String} {parts : List String} (h : segments path = .ok parts) :
    Path.segments path = parts := by
  unfold segments at h
  split at h
  · cases h
  · split at h
    · cases h
    · cases h
      rfl

theorem Names.getLast?_eq {path : String} {front : List String} {name : String}
    {folder : List String} (h : tree.Names path front name folder) :
    (Path.segments path).getLast? = some name := by
  rw [segments_eq h.segments, List.getLast?_concat]

/-- What was written is still there after a file of another name was written. -/
theorem read_write_write {path path' text text' : String} {written written' : FileTree}
    (h : tree.write path text = .ok written) (h' : written.write path' text' = .ok written')
    (hne : (Path.segments path).getLast? ≠ (Path.segments path').getLast?) :
    written'.read path = .ok text := by
  rcases insert_of_write h with ⟨front, name, folder, hnames, rfl⟩
  rcases insert_of_write h' with ⟨front', name', folder', hnames', rfl⟩
  rw [hnames.getLast?_eq, hnames'.getLast?_eq] at hne
  have hplace : folder ++ [name] ≠ folder' ++ [name'] := by
    intro heq
    have hlast := congrArg List.getLast? heq
    rw [List.getLast?_concat, List.getLast?_concat] at hlast
    exact hne hlast
  refine ((hnames.insert hnames.isFolder _).insert hnames'.isFolder _).read ?_
  rw [content?_insert_of_ne hplace, content?_insert_self]

end FileTree
end Stylesheet
