import TemplateEditing.Proofs.File.Saves
import TemplateEditing.Taglib.Cache

/-!
# What tag libraries depend on

To read the libraries of a project many files are looked at, while a save is noticed by the name of
the file alone. What a save can change although its name is not watched is found here bottom up. A
tags folder says the same if the file makes for no new tag in it and does not stand in its way
(`TaglibReading.ofFolder_saved`): what was there reads as before, and of what is new only templates
and implementations of a tag say anything. A library says the same if the tags folders and the
definitions that it names do (`TaglibReading.ofFile_eq`), and no library comes or goes
(`Taglib.packageFiles_eq`). What is left are the exceptions of `Taglib.Misses`
(`Taglib.ofProject_saved`).
-/

namespace TemplateEditing

open List

variable {a : Place} {file entry folder : Path}

namespace TaglibReading

open FileTree

/-! ## Tags folders -/

/-- Entries that read as nothing can be left out. -/
lemma concat_map_filter {α : Type} {f : α → TaglibReading} {keep : α → Bool} {xs : List α}
    (h : ∀ x ∈ xs, keep x = false → f x = {}) :
    concat (xs.map f) = concat ((xs.filter keep).map f) := by
  induction xs with
  | nil => rfl
  | cons x xs ih =>
    have hxs := ih fun y hy => h y (mem_cons_of_mem _ hy)
    cases hx : keep x with
    | true =>
      rw [filter_cons_of_pos hx, map_cons, map_cons, concat, concat, hxs]
    | false =>
      rw [filter_cons_of_neg (by simp [hx]), map_cons, concat,
        h x mem_cons_self hx, hxs]
      rfl

lemma ofFolder_eq (tree : FileTree) (p : Path) :
    ofFolder tree p =
      if tree.isBlocked p then ⟨[], some (.unreadable p)⟩
      else concat ((tree.children p).map (ofEntry tree)) := by
  unfold ofFolder isBlocked children
  cases tree.list p with
  | ok entries => rfl
  | error e => cases e <;> rfl

/-- A file that is new makes for a tag in a tags folder, by a name of which no notice is taken. -/
inductive NewTag (tree tree' : FileTree) (q : Place) (folder : Path) (tag : String) : Prop where
  /-- The file is a template in the folder. -/
  | template (d : Place) (n : String) (hplace : tree'.place folder = .ok d) (hq : q = d ++ [n])
      (hnew : tree.get? q = none) (hstem : (⟨[n]⟩ : Path).stem? = some tag)
      (hextension : (⟨[n]⟩ : Path).extension? = some "marko")
  /-- The file implements the tag of a folder in the folder. -/
  | implementation (d : Place) (n : String) (hplace : tree'.place folder = .ok d)
      (hq : q = d ++ [tag, n]) (hnew : tree.get? q = none) (hn : n = "index.js" ∨ n = "index.marko")

/-- The names that are looked for in the folder of a tag. -/
def tagNames : List String :=
  [tagFileName, "renderer.js", "index.js", "index.marko", "template.marko"]

lemma isName_tagNames : ∀ n ∈ tagNames, Path.IsName n := by decide

/-- The saving of files with most of these names is noticed. -/
lemma watched_tagNames : ∀ n ∈ tagNames,
    n ∈ ({} : TaglibSettings).watchedFiles ∨ n = "index.js" ∨ n = "index.marko" := by decide

section
variable {tree tree' : FileTree} {q : Place} (h : SavedAt tree tree' q)
include h

/-- A steady file that was not written has its old text. -/
lemma textOf_eq (hfile : Steady tree tree' file) (hq : tree'.place file ≠ .ok q) :
    textOf tree' file = textOf tree file := by
  have hread := h.read_eq hfile hq
  unfold textOf
  cases hnew : tree'.read file with
  | ok content' =>
    rw [hnew] at hread
    cases hold : tree.read file with
    | ok content =>
      rw [hold] at hread
      rw [Option.some.inj hread]
    | error e =>
      rw [hold] at hread
      exact absurd hread (by simp [Except.toOption])
  | error e' =>
    rw [hnew] at hread
    cases hold : tree.read file with
    | ok content =>
      rw [hold] at hread
      exact absurd hread (by simp [Except.toOption])
    | error e => rfl

/-- Only a new file with a name that goes unnoticed makes a difference in the folder of a tag. -/
lemma isFile_child_eq (hentry : Steady tree tree' entry) (hplace : tree'.place entry = .ok a)
    (hname : ∀ n ∈ q.getLast?, n ∉ ({} : TaglibSettings).watchedFiles)
    (hindex : tree.get? q = none → ∀ n, q = a ++ [n] → n ≠ "index.js" ∧ n ≠ "index.marko")
    {n : String} (hn : n ∈ tagNames) :
    tree'.isFile (entry.child n) = tree.isFile (entry.child n) := by
  have hisName := isName_tagNames n hn
  apply h.isFile_eq (h.steady_child hentry hisName)
  intro hq hnone
  have hindex := hindex hnone n (place_child_of_place hisName hplace hq)
  rcases watched_tagNames n hn with hwatched | heq | heq
  · exact hname n (getLast?_of_place_child hisName hq) hwatched
  · exact hindex.1 heq
  · exact hindex.2 heq

omit h in
/-- The files next to a tag depend on which of them exist. -/
lemma conventionalFiles_eq
    (hfiles : ∀ n ∈ tagNames, tree'.isFile (entry.child n) = tree.isFile (entry.child n)) :
    conventionalFiles tree' entry = conventionalFiles tree entry := by
  simp only [conventionalFiles, map_cons, map_nil, find?_cons, find?_nil,
    hfiles "renderer.js" (by decide), hfiles "index.js" (by decide),
    hfiles "index.marko" (by decide), hfiles "template.marko" (by decide)]

/-- An entry that was there before says the same. -/
lemma ofEntry_eq (hentry : Steady tree tree' entry) (hplace : tree'.place entry = .ok a)
    (ha : tree.get? a ≠ none)
    (hname : ∀ n ∈ q.getLast?, n ∉ ({} : TaglibSettings).watchedFiles)
    (hindex : tree.get? q = none → ∀ n, q = a ++ [n] → n ≠ "index.js" ∧ n ≠ "index.marko") :
    ofEntry tree' entry = ofEntry tree entry := by
  have hfiles : ∀ n ∈ tagNames, tree'.isFile (entry.child n) = tree.isFile (entry.child n) :=
    fun n hn => isFile_child_eq h hentry hplace hname hindex hn
  have htagFile := isName_tagNames tagFileName (by decide)
  have htext : textOf tree' (entry.child tagFileName) = textOf tree (entry.child tagFileName) := by
    refine textOf_eq h (h.steady_child hentry htagFile) fun hq => ?_
    exact hname _ (getLast?_of_place_child htagFile hq) (by decide)
  simp only [ofEntry, ofTagFile, h.isFolder_eq hentry hplace ha, conventionalFiles_eq hfiles,
    hfiles tagFileName (by decide), htext]

omit h in
/-- There was no file in a folder that was not there. -/
lemma isFile_child_of_fresh (hentry : Steady tree tree' entry) (hplace : tree'.place entry = .ok a)
    (ha : tree.get? a = none) {n : String}
    (hn : Path.IsName n) : tree.isFile (entry.child n) = false := by
  have hmissing : tree.place (entry.child n) = .error .missing := by
    rw [place_child _ (route?_ne_none hplace) hn]
    rcases hentry with heq | ⟨hmissing, -⟩
    · rw [← heq, hplace]
      exact enter_of_none _ ha n
    · rw [hmissing]
      rfl
  rw [isFile, read_of_error hmissing]
  rfl

/-- An entry that is new says nothing, if it is not a template. -/
lemma ofEntry_fresh (hentry : Steady tree tree' entry) (hplace : tree'.place entry = .ok a)
    (ha : tree.get? a = none) (ha' : tree'.get? a ≠ none)
    (hname : ∀ n ∈ q.getLast?, n ∉ ({} : TaglibSettings).watchedFiles)
    (hindex : tree.get? q = none → ∀ n, q = a ++ [n] → n ≠ "index.js" ∧ n ≠ "index.marko")
    (htemplate : q = a → entry.extension? ≠ some "marko") : ofEntry tree' entry = {} := by
  have hfiles : ∀ n ∈ tagNames, tree'.isFile (entry.child n) = false := fun n hn =>
    (isFile_child_eq h hentry hplace hname hindex hn).trans
      (isFile_child_of_fresh hentry hplace ha (isName_tagNames n hn))
  rcases h.fresh_cases ha with hnone | hfolder | rfl
  · exact absurd hnone ha'
  · have hconventional : conventionalFiles tree' entry = {} := by
      simp only [conventionalFiles, map_cons, map_nil, find?_cons, find?_nil,
        hfiles "renderer.js" (by decide), hfiles "index.js" (by decide),
        hfiles "index.marko" (by decide), hfiles "template.marko" (by decide)]
    simp only [ofEntry, isFolder_of_folder hplace hfolder, hconventional,
      hfiles tagFileName (by decide)]
    cases entry.fileName? <;> rfl
  · obtain ⟨content, hfile⟩ := h.file
    unfold ofEntry
    rw [isFolder_of_file hplace hfile, if_neg (by decide)]
    cases entry.stem? with
    | none => rfl
    | some name => exact if_neg (htemplate rfl)

/-- What a tags folder says stays the same, if there is no new tag and nothing in its way. -/
lemma ofFolder_saved (hfolder : Steady tree tree' folder)
    (hname : ∀ n ∈ q.getLast?, n ∉ ({} : TaglibSettings).watchedFiles)
    (htag : ∀ tag, ¬ NewTag tree tree' q folder tag) (hway : ¬ Blocked tree tree' folder) :
    ofFolder tree' folder = ofFolder tree folder := by
  rw [ofFolder_eq, ofFolder_eq, h.isBlocked_eq hfolder hway]
  split
  · rfl
  obtain ⟨d, names, hnew, hold, hnames⟩ := h.children_eq hfolder
  -- a file in a folder of the tags folder is no new implementation
  have hindex : tree'.place folder = .ok d → ∀ n, tree.get? q = none →
      ∀ m, q = d ++ [n] ++ [m] → m ≠ "index.js" ∧ m ≠ "index.marko" := by
    intro hplace n hnone m hq
    rw [append_assoc, singleton_append] at hq
    exact ⟨fun heq => htag n (.implementation d m hplace hq hnone (.inl heq)),
      fun heq => htag n (.implementation d m hplace hq hnone (.inr heq))⟩
  -- entries that were there say the same, and those that are new say nothing
  rw [hold, hnew, map_map, map_map, concat_map_filter]
  · refine congrArg concat (map_congr_left fun n hn => ?_)
    obtain ⟨hn, hthere⟩ := mem_filter.1 hn
    obtain ⟨hisName, hplace, hchild, -⟩ := hnames n hn
    exact ofEntry_eq h (h.steady_child hfolder hisName) hchild (Option.isSome_iff_ne_none.1 hthere)
      hname (hindex hplace n)
  · intro n hn hfree
    have hfree := Option.isNone_iff_eq_none.1 (Option.isSome_eq_false_iff.1 hfree)
    obtain ⟨hisName, hplace, hchild, hentry⟩ := hnames n hn
    refine ofEntry_fresh h (h.steady_child hfolder hisName) hchild hfree hentry hname
      (hindex hplace n) fun hq hextension => ?_
    rw [Path.extension?_child folder hisName] at hextension
    have hstem := Path.stem?_of_isName hisName
    exact htag _ (.template d n hplace hq (hq ▸ hfree) hstem hextension)

end

/-! ## Libraries -/

/-- The file that defines a tag, if a library names one as its value. -/
def definitionOf (file : Path) (value : JsonValue) : List Path :=
  (value.string?.filter fun target => ".json".toList.isSuffixOf target.toList).toList.map
    file.folder.child

/-- The files that define tags, as far as a field of a library names them. -/
def definitionsIn (file : Path) (key : String) (value : JsonValue) : List Path :=
  if (tagKey? key).isSome then definitionOf file value
  else if key = "tags" then
    (value.fields?.getD []).flatMap fun field => definitionOf file field.2
  else []

/-- The tags folders that a field of a library names. -/
def foldersIn (file : Path) (key : String) (value : JsonValue) : List Path :=
  if key = "tags-dir" ∨ key = "tagsDir" then value.strings.map file.folder.child else []

/-- The fields of a library; none if it cannot be read. -/
def fieldsAt (tree : FileTree) (file : Path) : JsonFields :=
  (textOf tree file >>= (fieldsOf · file)).toOption.getD []

section
variable {tree tree' : FileTree}

lemma ofExcept_ok {α : Type} (f : α → TaglibReading) (a : α) : ofExcept f (.ok a) = f a := rfl

lemma ofExcept_error {α : Type} (f : α → TaglibReading) (e : TaglibError) :
    ofExcept f (.error e) = ⟨[], some e⟩ := rfl

/-- A tag value depends on the file that defines it. -/
lemma ofTagValue_eq {value : JsonValue} (name : String)
    (h : ∀ p ∈ definitionOf file value, textOf tree' p = textOf tree p) :
    ofTagValue tree' name value file = ofTagValue tree name value file := by
  cases value with
  | string target =>
    unfold ofTagValue
    simp only
    split
    · next hjson =>
      have hmem : file.folder.child target ∈ definitionOf file (.string target) := by
        refine mem_map.2 ⟨target, Option.mem_toList.2 ?_, rfl⟩
        exact Option.filter_eq_some_iff.2 ⟨rfl, hjson⟩
      simp only [ofTagFile, h _ hmem]
    · rfl
  | _ => simp only [ofTagValue]

/-- A field depends on the files and folders that it names. -/
lemma ofField_eq {key : String} {value : JsonValue}
    (hdefinitions : ∀ p ∈ definitionsIn file key value, textOf tree' p = textOf tree p)
    (hfolders : ∀ p ∈ foldersIn file key value, ofFolder tree' p = ofFolder tree p) :
    ofField tree' file key value = ofField tree file key value := by
  unfold ofField
  -- a field defines one tag, or several of them, or names folders with tags
  split
  · next name hkey =>
    apply ofTagValue_eq
    simpa only [definitionsIn, hkey, Option.isSome_some, if_true] using hdefinitions
  · next hkey =>
    simp only [definitionsIn, hkey, Option.isSome_none, Bool.false_eq_true, if_false]
      at hdefinitions
    split
    · next htags =>
      rw [if_pos htags] at hdefinitions
      split
      · next tags =>
        refine congrArg concat (map_congr_left fun field hfield => ?_)
        apply ofTagValue_eq
        intro p hp
        exact hdefinitions p (mem_flatMap.2 ⟨field, hfield, hp⟩)
      · rfl
    · split
      · next hfolder =>
        rw [foldersIn, if_pos hfolder] at hfolders
        exact congrArg concat (map_congr_left fun s hs =>
          hfolders _ (mem_map.2 ⟨s, hs, rfl⟩))
      · rfl

/-- A library file depends on its text and its fields. -/
lemma ofFile_eq (htext : textOf tree' file = textOf tree file)
    (hfields : ∀ field ∈ fieldsAt tree file,
      ofField tree' file field.1 field.2 = ofField tree file field.1 field.2) :
    ofFile tree' file = ofFile tree file := by
  rw [ofFile, ofFile, htext]
  cases hold : textOf tree file with
  | error e => rw [ofExcept_error, ofExcept_error]
  | ok text =>
    rw [ofExcept_ok, ofExcept_ok, ofText, ofText]
    cases hparse : fieldsOf text file with
    | error e => rw [ofExcept_error, ofExcept_error]
    | ok fields =>
      have hat : fieldsAt tree file = fields := by
        rw [fieldsAt, hold]
        show (fieldsOf text file).toOption.getD [] = fields
        rw [hparse]
        rfl
      rw [hat] at hfields
      rw [ofExcept_ok, ofExcept_ok, map_congr_left hfields]

end

end TaglibReading

namespace Taglib

open FileTree

/-! ## Projects -/

/-- The libraries that are read for a project. -/
def libraries (tree : FileTree) (o : TaglibOptions) (root : Path) : List Path :=
  packageFiles tree o root ++ filesIn tree o.settings.fileNames root

/-- The tags folders that are read for a project. -/
def tagsFolders (tree : FileTree) (o : TaglibOptions) (root : Path) : List Path :=
  root.child componentsFolder :: (libraries tree o root).flatMap fun file =>
    (TaglibReading.fieldsAt tree file).flatMap fun field =>
      TaglibReading.foldersIn file field.1 field.2

/-- The definitions in files of their own that are read for a project. -/
def definitions (tree : FileTree) (o : TaglibOptions) (root : Path) : List Path :=
  (libraries tree o root).flatMap fun file =>
    (TaglibReading.fieldsAt tree file).flatMap fun field =>
      TaglibReading.definitionsIn file field.1 field.2

section
variable {tree tree' : FileTree} {q : Place}

lemma flatMap_filter {α β : Type} {f : α → List β} {keep : α → Bool} {xs : List α}
    (h : ∀ x ∈ xs, keep x = false → f x = []) : xs.flatMap f = (xs.filter keep).flatMap f := by
  induction xs with
  | nil => rfl
  | cons x xs ih =>
    have hxs := ih fun y hy => h y (mem_cons_of_mem _ hy)
    cases hx : keep x with
    | true => rw [filter_cons_of_pos hx, flatMap_cons, flatMap_cons, hxs]
    | false =>
      rw [filter_cons_of_neg (by simp [hx]), flatMap_cons, h x mem_cons_self hx, hxs,
        nil_append]

lemma foldersIn_eq (tree : FileTree) (p : Path) :
    Package.foldersIn tree p = (tree.children p).filter tree.isFolder := by
  unfold Package.foldersIn children
  cases tree.list p <;> rfl

/-- Going over the folders is going over the children that are folders. -/
lemma flatMap_foldersIn (tree : FileTree) (p : Path) {β : Type} (f : Path → List β) :
    (Package.foldersIn tree p).flatMap f =
      (tree.children p).flatMap fun entry => if tree.isFolder entry then f entry else [] := by
  rw [foldersIn_eq]
  induction tree.children p with
  | nil => rfl
  | cons entry entries ih =>
    rw [flatMap_cons, ← ih]
    split
    · next hfolder => rw [filter_cons_of_pos hfolder, flatMap_cons]
    · next hfolder => rw [filter_cons_of_neg hfolder, nil_append]

variable (h : SavedAt tree tree' q)
include h

/-- What is gathered from the folders in a folder stays the same, if nothing comes from those that
are new. -/
lemma flatMap_foldersIn_eq {β : Type} {p : Path} (hp : Steady tree tree' p) {f f' : Path → List β}
    (hold : ∀ entry a, Steady tree tree' entry → tree'.place entry = .ok a →
      tree.get? a ≠ none → f' entry = f entry)
    (hfresh : ∀ entry a, Steady tree tree' entry → tree'.place entry = .ok a →
      tree.get? a = none → f' entry = []) :
    (Package.foldersIn tree' p).flatMap f' = (Package.foldersIn tree p).flatMap f := by
  obtain ⟨d, names, hnew, hchildren, hnames⟩ := h.children_eq hp
  rw [flatMap_foldersIn, flatMap_foldersIn, hnew, hchildren, flatMap_map, flatMap_map,
    flatMap_filter, flatMap_def, flatMap_def]
  · refine congrArg List.flatten (map_congr_left fun n hn => ?_)
    obtain ⟨hn, hthere⟩ := mem_filter.1 hn
    have hthere := Option.isSome_iff_ne_none.1 hthere
    obtain ⟨hisName, -, hchild, -⟩ := hnames n hn
    have hsteady := h.steady_child hp hisName
    rw [h.isFolder_eq hsteady hchild hthere, hold _ _ hsteady hchild hthere]
  · intro n hn hfree
    have hfree := Option.isNone_iff_eq_none.1 (Option.isSome_eq_false_iff.1 hfree)
    obtain ⟨hisName, -, hchild, -⟩ := hnames n hn
    rw [hfresh _ _ (h.steady_child hp hisName) hchild hfree, ite_self]

/-- Which libraries a folder has is noticed. -/
lemma filesIn_eq {names : List String} (hnames : ∀ n ∈ names, Path.IsName n)
    (hname : ∀ n ∈ q.getLast?, n ∉ names) (hfolder : Steady tree tree' folder) :
    filesIn tree' names folder = filesIn tree names folder := by
  unfold filesIn
  apply filter_congr
  intro p hp
  obtain ⟨n, hn, rfl⟩ := mem_map.1 hp
  apply h.isFile_eq (h.steady_child hfolder (hnames n hn))
  intro hq
  exact absurd hn (hname n (getLast?_of_place_child (hnames n hn) hq))

omit h in
/-- A folder that was not there had nothing in it. -/
lemma filesIn_of_fresh {names : List String} (hnames : ∀ n ∈ names, Path.IsName n)
    (hfolder : Steady tree tree' folder) (hplace : tree'.place folder = .ok a)
    (ha : tree.get? a = none) : filesIn tree names folder = [] := by
  rw [filesIn, filter_eq_nil_iff]
  intro p hp
  obtain ⟨n, hn, rfl⟩ := mem_map.1 hp
  rw [TaglibReading.isFile_child_of_fresh hfolder hplace ha (hnames n hn)]
  decide

omit h in
/-- A folder that is new had no folders in it. -/
lemma foldersIn_of_fresh (hfolder : Steady tree tree' folder) (hplace : tree'.place folder = .ok a)
    (ha : tree.get? a = none) :
    Package.foldersIn tree folder = [] := by
  rw [foldersIn_eq, children_of_error (hfolder.list_of_fresh hplace ha)]
  rfl

/-- The folders that an entry of the folder for packages stands for. -/
def packagesOf (tree : FileTree) (entry : Path) : List Path :=
  match entry.fileName?.bind (·.toList.head?) with
  | some '@' => Package.foldersIn tree entry
  | some '.' => []
  | _ => [entry]

omit h in
lemma installed_eq (tree : FileTree) (folder : Path) :
    Package.installed tree folder = (Package.foldersIn tree folder).flatMap (packagesOf tree) := rfl

section
variable {names : List String} (hnames : ∀ n ∈ names, Path.IsName n)
  (hname : ∀ n ∈ q.getLast?, n ∉ names) {entry : Path} (hentry : Steady tree tree' entry)
include hnames hname hentry

lemma flatMap_packagesOf_eq :
    (packagesOf tree' entry).flatMap (filesIn tree' names) =
      (packagesOf tree entry).flatMap (filesIn tree names) := by
  unfold packagesOf
  split
  · apply flatMap_foldersIn_eq h hentry
    · exact fun p _ hp _ _ => filesIn_eq h hnames hname hp
    · intro p a hp hplace ha
      rw [filesIn_eq h hnames hname hp, filesIn_of_fresh hnames hp hplace ha]
  · rfl
  · rw [flatMap_singleton, flatMap_singleton, filesIn_eq h hnames hname hentry]

omit h hname in
/-- An entry that is new had no packages. -/
lemma flatMap_packagesOf_of_fresh (hplace : tree'.place entry = .ok a)
    (ha : tree.get? a = none) : (packagesOf tree entry).flatMap (filesIn tree names) = [] := by
  unfold packagesOf
  split
  · rw [foldersIn_of_fresh hentry hplace ha, flatMap_nil]
  · rfl
  · rw [flatMap_singleton, filesIn_of_fresh hnames hentry hplace ha]

end

/-- Which libraries the packages of a project have is noticed. -/
lemma packageFiles_eq {o : TaglibOptions} (hnames : ∀ n ∈ o.settings.fileNames, Path.IsName n)
    (hname : ∀ n ∈ q.getLast?, n ∉ o.settings.fileNames) {root : Path}
    (hroot : Steady tree tree' root) : packageFiles tree' o root = packageFiles tree o root := by
  have hpackages : Steady tree tree' (root.child Package.installFolder) :=
    h.steady_child hroot (by decide)
  unfold packageFiles
  split
  · rw [installed_eq, installed_eq, flatMap_assoc, flatMap_assoc]
    apply flatMap_foldersIn_eq h hpackages
    · exact fun entry _ hentry _ _ => flatMap_packagesOf_eq h hnames hname hentry
    · intro entry a hentry hplace ha
      rw [flatMap_packagesOf_eq h hnames hname hentry,
        flatMap_packagesOf_of_fresh hnames hentry hplace ha]
  · rfl

/-- What lies in a folder is found along a path as steady as the one to the folder. -/
lemma steady_of_mem_foldersIn {folder p : Path} (hfolder : Steady tree tree' folder)
    (hp : p ∈ Package.foldersIn tree folder) : Steady tree tree' p := by
  obtain ⟨d, names, -, hchildren, hnames⟩ := h.children_eq hfolder
  rw [foldersIn_eq, hchildren] at hp
  obtain ⟨n, hn, rfl⟩ := mem_map.1 (mem_filter.1 hp).1
  exact h.steady_child hfolder (hnames n (mem_filter.1 hn).1).1

/-- Packages in a steady folder are steady. -/
lemma steady_of_mem_installed {folder p : Path} (hfolder : Steady tree tree' folder)
    (hp : p ∈ Package.installed tree folder) : Steady tree tree' p := by
  rw [installed_eq] at hp
  obtain ⟨entry, hentry, hp⟩ := mem_flatMap.1 hp
  have hsteady := steady_of_mem_foldersIn h hfolder hentry
  unfold packagesOf at hp
  split at hp
  · exact steady_of_mem_foldersIn h hsteady hp
  · exact absurd hp not_mem_nil
  · exact mem_singleton.1 hp ▸ hsteady

/-- A library reads as before. -/
lemma textOf_library {o : TaglibOptions} (hnames : ∀ n ∈ o.settings.fileNames, Path.IsName n)
    (hname : ∀ n ∈ q.getLast?, n ∉ o.settings.fileNames) {root file : Path}
    (hroot : Steady tree tree' root) (hfile : file ∈ libraries tree o root) :
    TaglibReading.textOf tree' file = TaglibReading.textOf tree file := by
  have hfolder : ∃ folder, Steady tree tree' folder ∧
      file ∈ filesIn tree o.settings.fileNames folder := by
    rcases mem_append.1 hfile with hfile | hfile
    · unfold packageFiles at hfile
      split at hfile
      · obtain ⟨folder, hfolder, hfile⟩ := mem_flatMap.1 hfile
        have hpackages := h.steady_child hroot (show Path.IsName Package.installFolder by decide)
        exact ⟨folder, steady_of_mem_installed h hpackages hfolder, hfile⟩
      · exact absurd hfile not_mem_nil
    · exact ⟨root, hroot, hfile⟩
  obtain ⟨folder, hfolder, hfile⟩ := hfolder
  obtain ⟨n, hn, rfl⟩ := mem_map.1 (mem_filter.1 hfile).1
  apply TaglibReading.textOf_eq h (h.steady_child hfolder (hnames n hn))
  exact fun hq => hname n (getLast?_of_place_child (hnames n hn) hq) hn

end

/-- The saving of a file may change the library of a project, although no notice is taken of its
name. -/
inductive Misses (tree tree' : FileTree) (o : TaglibOptions) (root : Path) (q : Place) : Prop where
  /-- The file holds the definition of a tag that a library names, and now another one. -/
  | definition (p : Path) (hp : p ∈ definitions tree o root) (hplace : tree'.place p = .ok q)
      (hnew : TaglibReading.textOf tree' p ≠ TaglibReading.textOf tree p)
  /-- The file makes for a tag in a tags folder. -/
  | tag (p : Path) (hp : p ∈ tagsFolders tree o root) (name : String)
      (h : TaglibReading.NewTag tree tree' q p name)
  /-- The file stands in the way of a tags folder that was not there. -/
  | blocked (p : Path) (hp : p ∈ tagsFolders tree o root) (h : Blocked tree tree' p)
  /-- A path goes up from a folder that has been made for the file. -/
  | back (p : Path) (hp : p = root ∨ p ∈ tagsFolders tree o root ∨ p ∈ definitions tree o root)
      (h : LeadsBack tree tree' p)

/-- A file that reads alike loads alike. -/
lemma loadFile_eq {tree tree' : FileTree}
    (h : TaglibReading.ofFile tree' file = TaglibReading.ofFile tree file) (lib : Taglib) :
    lib.loadFile tree' file = lib.loadFile tree file := by
  rw [loadFile, loadFile, h]

/-- Libraries that say the same are laid over each other with the same result. -/
lemma foldl_layFile_eq {tree tree' : FileTree} {files : List Path}
    (h : ∀ file ∈ files, TaglibReading.ofFile tree' file = TaglibReading.ofFile tree file)
    (lib : Taglib) : files.foldl (layFile tree') lib = files.foldl (layFile tree) lib := by
  induction files generalizing lib with
  | nil => rw [foldl_nil, foldl_nil]
  | cons file files ih =>
    have hfile : layFile tree' lib file = layFile tree lib file := by
      rw [layFile, layFile, loadFile_eq (h file mem_cons_self)]
    rw [foldl_cons, foldl_cons, hfile,
      ih fun p hp => h p (mem_cons_of_mem _ hp)]

lemma fileNames_watched : ∀ n ∈ ({} : TaglibSettings).fileNames,
    Path.IsName n ∧ n ∈ ({} : TaglibSettings).watchedFiles := by decide

/-- The library of a project stays the same, with these exceptions. -/
theorem ofProject_saved {tree tree' : FileTree} {q : Place} (h : SavedAt tree tree' q)
    {o : TaglibOptions} (hoptions : o.settings = {}) {root : Path}
    (hname : ∀ n ∈ q.getLast?, n ∉ ({} : TaglibSettings).watchedFiles)
    (hno : ¬ Misses tree tree' o root q) : ofProject tree' o root = ofProject tree o root := by
  have hsteady : ∀ p, p = root ∨ p ∈ tagsFolders tree o root ∨ p ∈ definitions tree o root →
      Steady tree tree' p := fun p hp =>
    (h.steady_or_leadsBack p).resolve_right fun hback => hno (.back p hp hback)
  have hroot := hsteady root (.inl rfl)
  have hnames : ∀ n ∈ o.settings.fileNames, Path.IsName n := by
    rw [hoptions]
    exact fun n hn => (fileNames_watched n hn).1
  have hfileNames : ∀ n ∈ q.getLast?, n ∉ o.settings.fileNames := by
    rw [hoptions]
    exact fun n hn hmem => hname n hn (fileNames_watched n hmem).2
  have hfolders : ∀ p ∈ tagsFolders tree o root,
      TaglibReading.ofFolder tree' p = TaglibReading.ofFolder tree p := fun p hp =>
    TaglibReading.ofFolder_saved h (hsteady p (.inr (.inl hp))) hname
      (fun name htag => hno (.tag p hp name htag)) fun hblocked => hno (.blocked p hp hblocked)
  have hdefinitions : ∀ p ∈ definitions tree o root,
      TaglibReading.textOf tree' p = TaglibReading.textOf tree p := by
    intro p hp
    by_cases hplace : tree'.place p = .ok q
    · exact Classical.not_not.1 fun hnew => hno (.definition p hp hplace hnew)
    · exact TaglibReading.textOf_eq h (hsteady p (.inr (.inr hp))) hplace
  have hlibraries : ∀ file ∈ libraries tree o root,
      TaglibReading.ofFile tree' file = TaglibReading.ofFile tree file := by
    intro file hfile
    apply TaglibReading.ofFile_eq (textOf_library h hnames hfileNames hroot hfile)
    intro field hfield
    apply TaglibReading.ofField_eq
    · intro p hp
      exact hdefinitions p
        (mem_flatMap.2 ⟨file, hfile, mem_flatMap.2 ⟨field, hfield, hp⟩⟩)
    · intro p hp
      exact hfolders p (mem_cons_of_mem _
        (mem_flatMap.2 ⟨file, hfile, mem_flatMap.2 ⟨field, hfield, hp⟩⟩))
  unfold ofProject
  simp only [packageFiles_eq h hnames hfileNames hroot, filesIn_eq h hnames hfileNames hroot,
    hfolders _ mem_cons_self,
    foldl_layFile_eq fun file hfile => hlibraries file (mem_append_left _ hfile),
    map_congr_left fun file hfile => hlibraries file (mem_append_right _ hfile)]

end Taglib

end TemplateEditing
