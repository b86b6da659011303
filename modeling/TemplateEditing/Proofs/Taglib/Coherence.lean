import TemplateEditing.Proofs.Taglib.Dependence
import TemplateEditing.Proofs.Taglib.Layers

/-!
# Libraries that are kept

A cache is coherent with a file tree if each library that it keeps is the one that would be read
now. Looking up keeps it so (`TaglibCache.Coherent.lookup`). A save that is reported keeps it so up
to the saves that are missed (`TaglibCache.saved_coherent_or_misses`), and these do happen: a
template for a new tag is seen if the project is read again (`Taglib.tag?_of_newTag`), but its name
is not watched (`TaglibCache.saved_stale_sampleIndexed`).
-/

namespace TemplateEditing

open List

variable {tag : String} {lib : Taglib} {cache : TaglibCache}

/-! ## New tags show -/

lemma TagDef.name_foldl_setAttribute (as : List AttributeDef) (t : TagDef) :
    (as.foldl setAttribute t).name = t.name := by
  induction as generalizing t with
  | nil => rfl
  | cons a as ih => exact ih (t.setAttribute a)

/-- A tag read from fields has the name given. -/
lemma TagDef.name_ofJson (name : String) (fields : JsonFields) (file : Path) :
    (ofJson name fields file).name = name :=
  name_foldl_setAttribute _ _

namespace TaglibReading

open FileTree

/-- Readings that come to an end find all that each of them finds. -/
lemma mem_items_concat {rs : List TaglibReading} (h : (concat rs).error = none)
    {r : TaglibReading} (hr : r ∈ rs) :
    r.error = none ∧ ∀ item ∈ r.items, item ∈ (concat rs).items := by
  induction rs with
  | nil => exact absurd hr not_mem_nil
  | cons first rs ih =>
    unfold concat at h ⊢
    split at h
    · next herror =>
      rw [h] at herror
      exact absurd herror (by decide)
    · next hnone =>
      rw [if_neg hnone]
      rcases mem_cons.1 hr with rfl | hr
      · exact ⟨by simpa using hnone, fun item hitem => mem_append_left _ hitem⟩
      · obtain ⟨hend, hitems⟩ := ih h hr
        exact ⟨hend, fun item hitem => mem_append_right _ (hitems item hitem)⟩

section
variable {tree : FileTree}

/-- A template is a tag. -/
lemma ofEntry_template {entry : Path} {a : Place} (hplace : tree.place entry = .ok a)
    {content : String} (ha : tree.get? a = some (.file content)) (hstem : entry.stem? = some tag)
    (hextension : entry.extension? = some "marko") :
    ∃ t, .tag t ∈ (ofEntry tree entry).items ∧ t.name = tag := by
  have hentry : ofEntry tree entry =
      ofTag { name := tag, files := { template := some entry } } := by
    unfold ofEntry
    rw [isFolder_of_file hplace ha, if_neg (by decide), hstem]
    exact if_pos hextension
  rw [hentry]
  exact ⟨_, mem_singleton_self _, rfl⟩

/-- A folder in which a tag is implemented is a tag, if it can be read. -/
lemma ofEntry_folder {entry : Path} {a : Place} (hplace : tree.place entry = .ok a)
    (ha : tree.get? a = some .folder) (hname : entry.fileName? = some tag)
    (hfirst : (conventionalFiles tree entry).first?.isSome = true)
    (hend : (ofEntry tree entry).error = none) :
    ∃ t, .tag t ∈ (ofEntry tree entry).items ∧ t.name = tag := by
  unfold ofEntry at hend ⊢
  rw [isFolder_of_folder hplace ha, if_pos rfl, hname] at hend ⊢
  simp only [hfirst, if_true] at hend ⊢
  split at hend
  · next hfile =>
    rw [if_pos hfile]
    unfold ofTagFile at hend ⊢
    cases hread : (do
        fieldsOf (← textOf tree (entry.child tagFileName)) (entry.child tagFileName)) with
    | error e =>
      rw [hread] at hend
      exact absurd hend (by simp [ofExcept])
    | ok fields =>
      rw [ofExcept_ok]
      exact ⟨_, mem_cons_of_mem _ (mem_singleton_self _), TagDef.name_ofJson _ _ _⟩
  · next hfile =>
    rw [if_neg hfile]
    exact ⟨_, mem_singleton_self _, rfl⟩

/-- A file with one of the names that tell how it implements a tag is enough. -/
lemma first?_conventionalFiles {entry : Path} {n : String} (hn : n = "index.js" ∨ n = "index.marko")
    (hfile : tree.isFile (entry.child n) = true) :
    (conventionalFiles tree entry).first?.isSome = true := by
  have hfind : ∀ names : List String, n ∈ names →
      ((names.map entry.child).find? tree.isFile).isSome = true := fun names hmem =>
    find?_isSome.2 ⟨_, mem_map_of_mem hmem, hfile⟩
  have hfirst : ∀ file ∈ (conventionalFiles tree entry).toList,
      (conventionalFiles tree entry).first?.isSome = true := by
    intro file hmem
    rw [TagFiles.first?]
    cases hlist : (conventionalFiles tree entry).toList with
    | nil => exact absurd (hlist ▸ hmem) not_mem_nil
    | cons first rest => rfl
  rcases hn with rfl | rfl
  · obtain ⟨file, hrenderer⟩ := Option.isSome_iff_exists.1
      (hfind ["renderer.js", "index.js"] (by decide))
    exact hfirst file (mem_filterMap.2 ⟨some file, hrenderer ▸ mem_cons_self, rfl⟩)
  · obtain ⟨file, htemplate⟩ := Option.isSome_iff_exists.1
      (hfind ["index.marko", "template.marko"] (by decide))
    exact hfirst file (mem_filterMap.2
      ⟨some file, htemplate ▸ mem_cons_of_mem _ mem_cons_self, rfl⟩)

end

/-- A new file that makes for a tag in a tags folder is seen, if the folder can be read. -/
lemma ofFolder_newTag {tree tree' : FileTree} {q : Place} (h : SavedAt tree tree' q) {folder : Path}
    (hfolder : tree'.place folder ≠ .ok []) (htag : NewTag tree tree' q folder tag)
    (hend : (ofFolder tree' folder).error = none) :
    ∃ t, .tag t ∈ (ofFolder tree' folder).items ∧ t.name = tag := by
  obtain ⟨content, hfile⟩ := h.file
  have hne : ∀ d, tree'.place folder = .ok d → d ≠ [] := by
    rintro d hplace rfl
    exact hfolder hplace
  cases htag with
  | template d n hplace hq hnew hstem hextension =>
    subst hq
    have hthere : tree'.get? (d ++ [n]) ≠ none := by simp [hfile]
    obtain ⟨hname, hd, hchild, hmem⟩ := h.wellFormed'.mem_children (hne d hplace) hplace hthere
    rw [ofFolder_eq, isBlocked_of_folder hplace hd, if_neg (by decide)] at hend ⊢
    obtain ⟨-, hitems⟩ := mem_items_concat hend (mem_map_of_mem hmem)
    obtain ⟨t, ht, htname⟩ := ofEntry_template hchild hfile
      ((Path.stem?_child folder hname).trans hstem)
      ((Path.extension?_child folder hname).trans hextension)
    exact ⟨t, hitems _ ht, htname⟩
  | implementation d n hplace hq hnew hn =>
    have hq' : q = d ++ [tag] ++ [n] := by rw [hq, append_assoc, singleton_append]
    rw [hq'] at hfile
    -- the folder of the tag is itself an entry of the tags folder
    have hentry : tree'.get? (d ++ [tag]) = some .folder := by
      have habove := h.wellFormed'.folder_above (by simp) (Option.ne_none_iff_exists'.2 ⟨_, hfile⟩)
      rwa [dropLast_concat] at habove
    obtain ⟨hname, hd, hchild, hmem⟩ :=
      h.wellFormed'.mem_children (hne d hplace) hplace (Option.ne_none_iff_exists'.2 ⟨_, hentry⟩)
    rw [ofFolder_eq, isBlocked_of_folder hplace hd, if_neg (by decide)] at hend ⊢
    obtain ⟨hentryEnd, hitems⟩ := mem_items_concat hend (mem_map_of_mem hmem)
    obtain ⟨-, -, hfileChild, -⟩ :=
      h.wellFormed'.mem_children (by simp) hchild (Option.ne_none_iff_exists'.2 ⟨_, hfile⟩)
    have hisFile : tree'.isFile ((folder.child tag).child n) = true := by
      rw [isFile, read_of_file hfileChild hfile]
      rfl
    obtain ⟨t, ht, htname⟩ := ofEntry_folder hchild hentry (Path.fileName?_child folder hname)
      (first?_conventionalFiles hn hisFile) hentryEnd
    exact ⟨t, hitems _ ht, htname⟩

end TaglibReading

namespace Taglib

open FileTree

/-- Added items keep old names and bring their own. -/
lemma mem_names_foldl_add {items : List TaglibItem} {name : String} (lib : Taglib)
    (h : name ∈ lib.tags.map TagDef.name ∨ ∃ t, .tag t ∈ items ∧ t.name = name) :
    name ∈ (items.foldl add lib).tags.map TagDef.name := by
  induction items generalizing lib with
  | nil => exact h.resolve_right (by simp)
  | cons item items ih =>
    rw [foldl_cons]
    apply ih
    rcases h with hmem | ⟨t, ht, rfl⟩
    · left
      cases item with
      | source p => exact hmem
      | tag u => exact mem_names_insertIn.2 (.inr hmem)
    · rcases mem_cons.1 ht with rfl | ht
      · exact .inl (mem_names_insertIn.2 (.inl rfl))
      · exact .inr ⟨t, ht, rfl⟩

section
variable {tree tree' : FileTree} {q : Place} {o : TaglibOptions} {root : Path}

/-- What the libraries of a project itself say, its own tags folder first. -/
lemma ofProject_ok (hlib : ofProject tree o root = .ok lib) :
    ∃ base own, (TaglibReading.concat (.ofFolder tree (root.child componentsFolder) :: own)).error =
        none ∧
      lib = addAll base
        (TaglibReading.concat (.ofFolder tree (root.child componentsFolder) :: own)) := by
  unfold ofProject at hlib
  simp only at hlib
  split at hlib
  · exact absurd hlib (by simp)
  · next hnone => exact ⟨_, _, hnone, (Except.ok.inj hlib).symm⟩

/-- The library of a project has a tag for a new file in its tags folder. -/
lemma tag?_of_newTag (h : SavedAt tree tree' q)
    (htag : TaglibReading.NewTag tree tree' q (root.child componentsFolder) tag)
    (hlib : ofProject tree' o root = .ok lib) : lib.tag? tag ≠ none := by
  have hcomponents : Path.IsName componentsFolder := by decide
  have hplace : tree'.place (root.child componentsFolder) ≠ .ok [] := fun hplace =>
    absurd (getLast?_of_place_child hcomponents hplace) (by simp)
  obtain ⟨base, own, hend, rfl⟩ := ofProject_ok hlib
  obtain ⟨hfolder, hitems⟩ := TaglibReading.mem_items_concat hend mem_cons_self
  obtain ⟨t, ht, rfl⟩ := TaglibReading.ofFolder_newTag h hplace htag hfolder
  have hmem := mem_names_foldl_add base (.inr ⟨t, hitems _ ht, rfl⟩)
  obtain ⟨u, hu, hname⟩ := mem_map.1 hmem
  rw [← Option.isSome_iff_ne_none, tag?, find?_isSome]
  exact ⟨u, hu, by simp [hname]⟩

/-- A project cannot be read if something stands in the way of its tags folder. -/
lemma ofProject_of_blocked (h : Blocked tree tree' (root.child componentsFolder)) (lib : Taglib) :
    ofProject tree' o root ≠ .ok lib := by
  intro hlib
  obtain ⟨base, own, hend, -⟩ := ofProject_ok hlib
  obtain ⟨hfolder, -⟩ := TaglibReading.mem_items_concat hend mem_cons_self
  rw [TaglibReading.ofFolder_eq, isBlocked, h.2] at hfolder
  exact absurd hfolder (by simp)

end

end Taglib

/-! ## Caches -/

lemma Path.isSame_refl (p : Path) : p.isSame p = true := beq_self_eq_true _

namespace TaglibCache

open FileTree

/-- What is kept is what would be read. -/
def Coherent (cache : TaglibCache) (tree : FileTree) : Prop :=
  ∀ e ∈ cache.libraries, Taglib.ofProject tree cache.options e.1 = .ok e.2

lemma coherent_of_empty (h : cache.libraries = []) (tree : FileTree) :
    cache.Coherent tree := by
  rw [Coherent, h]
  simp

/-- What is found is kept under the same root. -/
lemma mem_of_kept? {α : Type} {root : Path} {entries : List (Path × α)} {a : α}
    (h : kept? root entries = some a) : ∃ e ∈ entries, e.1.isSame root = true ∧ e.2 = a := by
  obtain ⟨e, he, rfl⟩ := Option.map_eq_some_iff.1 h
  have hsame := find?_some he
  exact ⟨e, mem_of_find?_eq_some he, hsame, rfl⟩

section
variable {cache : TaglibCache} {tree : FileTree} {folder : Path}

/-- A library kept for the root is given back, and none is loaded. -/
lemma lookup_of_kept (h : kept? (cache.rootOf tree folder) cache.libraries = some lib) :
    cache.lookup tree folder = (.ok lib, cache) := by
  simp only [lookup, h]

/-- A library that was loaded is kept for its root. -/
lemma lookup_of_ok (h : kept? (cache.rootOf tree folder) cache.libraries = none)
    (hload : Taglib.ofProject tree cache.options (cache.rootOf tree folder) = .ok lib) :
    cache.lookup tree folder = (.ok lib,
      { cache with libraries := (cache.rootOf tree folder, lib) :: cache.libraries }) := by
  simp only [lookup, h, hload]

/-- A failed load keeps nothing. -/
lemma lookup_of_error {e : TaglibError}
    (h : kept? (cache.rootOf tree folder) cache.libraries = none)
    (hload : Taglib.ofProject tree cache.options (cache.rootOf tree folder) = .error e) :
    cache.lookup tree folder = (.error e, cache) := by
  simp only [lookup, h, hload]

/-- What is not kept is read. -/
lemma lookup_of_none (h : kept? (cache.rootOf tree folder) cache.libraries = none) :
    (cache.lookup tree folder).1 =
      Taglib.ofProject tree cache.options (cache.rootOf tree folder) := by
  cases hload : Taglib.ofProject tree cache.options (cache.rootOf tree folder) with
  | ok lib => rw [lookup_of_ok h hload]
  | error e => rw [lookup_of_error h hload]

/-- Looking up leaves a cache coherent. -/
lemma Coherent.lookup (h : cache.Coherent tree) (folder : Path) :
    (cache.lookup tree folder).2.Coherent tree := by
  cases hkept : kept? (cache.rootOf tree folder) cache.libraries with
  | some lib => rwa [lookup_of_kept hkept]
  | none =>
    cases hload : Taglib.ofProject tree cache.options (cache.rootOf tree folder) with
    | error e => rwa [lookup_of_error hkept hload]
    | ok lib =>
      rw [lookup_of_ok hkept hload]
      intro e he
      rcases mem_cons.1 he with rfl | he
      · exact hload
      · exact h e he

end

/-- No notice is taken of a file whose name is not watched. -/
lemma saved_of_not_watches {file : Path} (h : cache.watches file = false) :
    (cache.saved file).2 = cache := by
  rw [saved, h]
  rfl

/-- Saving a watched file drops every library. -/
lemma libraries_saved_of_watches {file : Path}
    (h : cache.watches file = true) : (cache.saved file).2.libraries = [] := by
  rw [saved, h]
  rfl

/-- The name of a file that is not watched is not listed. -/
lemma not_mem_watchedFiles {file : Path} (h : cache.watches file = false)
    {n : String} (hn : file.fileName? = some n) : n ∉ cache.options.settings.watchedFiles := by
  intro hmem
  rw [watches, hn] at h
  exact absurd (contains_iff_mem.2 hmem) (by simpa using h)

section
variable {cache : TaglibCache} {tree tree' : FileTree} {file : Path} {q : Place}

/-- A library that is kept over a save is still the right one, unless the save was missed. -/
lemma Coherent.ofProject_saved (h : cache.Coherent tree) (hoptions : cache.options.settings = {})
    (hsaved : SavedAt tree tree' q) (hname : q.getLast? = file.fileName?) {e : Path × Taglib}
    (he : e ∈ (cache.saved file).2.libraries) :
    Taglib.ofProject tree' cache.options e.1 = .ok e.2 ∨
      Taglib.Misses tree tree' cache.options e.1 q := by
  cases hwatches : cache.watches file with
  | true =>
    rw [libraries_saved_of_watches hwatches] at he
    exact absurd he not_mem_nil
  | false =>
    rw [saved_of_not_watches hwatches] at he
    by_cases hmisses : Taglib.Misses tree tree' cache.options e.1 q
    · exact .inr hmisses
    · left
      rw [Taglib.ofProject_saved hsaved hoptions _ hmisses, h e he]
      intro n hn
      rw [← hoptions]
      exact not_mem_watchedFiles hwatches (hname.symm.trans hn)

end

/-- **Saves.** After a file has been saved, with the folders on the way to it, and the save has been
reported to a cache that keeps only what would be read, every library that is still kept is what
would be read now, and every folder is given the library of its project as it would be read now,
unless the save was missed: the file holds a definition that a library names, makes for a new tag in
a tags folder, stands in the way of a tags folder, or has brought a folder into being from which
a path goes up. Nothing is missed if the name of the file is watched. A new tag in the folder for
components is always missed, if its name is not known, and so is what stands in the way of that
folder. -/
theorem saved_coherent_or_misses (cache : TaglibCache) (tree tree' : FileTree) (file text : String)
    (hoptions : cache.options.settings = {}) (hwell : tree.WellFormed) (h : cache.Coherent tree)
    (hsave : tree.writeDeep (.ofString file) text = .ok tree') :
    let after := (cache.saved (.ofString file)).2
    tree'.WellFormed ∧ ∃ q, tree'.place (.ofString file) = .ok q ∧
      (∀ e ∈ after.libraries, Taglib.ofProject tree' cache.options e.1 = .ok e.2 ∨
        Taglib.Misses tree tree' cache.options e.1 q) ∧
      (∀ folder,
        (∃ root, root.isSame (cache.rootOf tree' folder) = true ∧
          (after.lookup tree' folder).1 = Taglib.ofProject tree' cache.options root) ∨
        ∃ e ∈ after.libraries, e.1.isSame (cache.rootOf tree' folder) = true ∧
          Taglib.Misses tree tree' cache.options e.1 q) ∧
      (cache.watches (.ofString file) = true → ∀ folder, (after.lookup tree' folder).1 =
        Taglib.ofProject tree' cache.options (cache.rootOf tree' folder)) ∧
      (∀ e ∈ after.libraries, ∀ tag,
        TaglibReading.NewTag tree tree' q (e.1.child Taglib.componentsFolder) tag →
        e.2.tag? tag = none → Taglib.ofProject tree' cache.options e.1 ≠ .ok e.2) ∧
      ∀ e ∈ after.libraries, Blocked tree tree' (e.1.child Taglib.componentsFolder) →
        Taglib.ofProject tree' cache.options e.1 ≠ .ok e.2 := by
  intro after
  have hafter : after.options = cache.options := by
    show (cache.saved (.ofString file)).2.options = _
    unfold saved
    split <;> rfl
  obtain ⟨q, hsaved, hplace, hname⟩ := savedAt_writeDeep (Path.cut_ofString file) hwell hsave
  have hkept : ∀ e ∈ after.libraries, Taglib.ofProject tree' cache.options e.1 = .ok e.2 ∨
      Taglib.Misses tree tree' cache.options e.1 q := fun e he =>
    h.ofProject_saved hoptions hsaved hname he
  refine ⟨hsaved.wellFormed', q, hplace, hkept, fun folder => ?_, fun hwatches folder => ?_,
    ?_, ?_⟩
  · have hroot : after.rootOf tree' folder = cache.rootOf tree' folder := by
      rw [rootOf, rootOf, hafter]
    cases hfound : kept? (after.rootOf tree' folder) after.libraries with
    | some lib =>
      obtain ⟨e, he, hsame, rfl⟩ := mem_of_kept? hfound
      rw [hroot] at hsame
      rcases hkept e he with hok | hmisses
      · exact .inl ⟨e.1, hsame, by rw [lookup_of_kept hfound, hok]⟩
      · exact .inr ⟨e, he, hsame, hmisses⟩
    | none =>
      refine .inl ⟨_, Path.isSame_refl _, ?_⟩
      rw [lookup_of_none hfound, hroot, hafter]
  · have hnil : after.libraries = [] := libraries_saved_of_watches hwatches
    rw [lookup_of_none (by rw [hnil]; rfl), rootOf, rootOf, hafter]
  · intro e he tag htag hnone hok
    exact Taglib.tag?_of_newTag hsaved htag hok hnone
  · exact fun e he hblocked => Taglib.ofProject_of_blocked hblocked e.2

/-- A project with a folder for a tag that nothing implements yet. -/
def sampleTree : FileTree :=
  ⟨[(["package.json"], .file "{}"), (["components"], .folder), (["components", "x"], .folder),
    (["components", "x", "readme.txt"], .file "")]⟩

/-- The cache after the library of the project has been looked up. -/
def sampleCache : TaglibCache := (({} : TaglibCache).lookup sampleTree .empty).2

lemma wellFormed_sampleTree : sampleTree.WellFormed :=
  wellFormed_empty.foldlM_writeDeep [("package.json", "{}"), ("components/x/readme.txt", "")]
    (by decide +kernel)

lemma coherent_sampleCache : sampleCache.Coherent sampleTree :=
  (coherent_of_empty rfl sampleTree).lookup .empty

lemma sampleCache_eq : sampleCache = { libraries := [(.empty, Taglib.html)] } := by
  have hroot : (({} : TaglibCache).rootOf sampleTree .empty) = .empty := by decide +kernel
  have hpackages : Taglib.packageFiles sampleTree {} .empty = [] := by decide +kernel
  have hfiles : Taglib.filesIn sampleTree ({} : TaglibSettings).fileNames .empty = [] := by
    decide +kernel
  have hfolder :
      TaglibReading.ofFolder sampleTree (Path.empty.child Taglib.componentsFolder) = {} := by
    decide +kernel
  have hload : Taglib.ofProject sampleTree {} .empty = .ok Taglib.html := by
    unfold Taglib.ofProject
    generalize Taglib.html = lib
    rw [hpackages, hfolder]
    simp only [hfiles]
    rfl
  rw [sampleCache, lookup_of_ok rfl (hroot.symm ▸ hload), hroot]

lemma watches_sampleCache (file : Path) :
    sampleCache.watches file = ({} : TaglibCache).watches file := by
  rw [sampleCache_eq]
  rfl

/-- The sample with a file in folders that had to be made. -/
def sampleHelped : FileTree :=
  ⟨sampleTree.entries ++ [(["lib"], .folder), (["lib", "text"], .folder),
    (["lib", "text", "words.js"], .file "")]⟩

lemma not_misses_sampleHelped :
    ¬ Taglib.Misses sampleTree sampleHelped {} .empty ["lib", "text", "words.js"] := by
  have hdefinitions : Taglib.definitions sampleTree {} .empty = [] := by decide +kernel
  have hfolders : Taglib.tagsFolders sampleTree {} .empty = [.ofString "components"] := by
    decide +kernel
  have hplace : sampleHelped.place (.ofString "components") = .ok ["components"] := by
    decide +kernel
  rintro (⟨p, hp, -⟩ | ⟨p, hp, name, htag⟩ | ⟨p, hp, hblocked, -⟩ | ⟨p, hp, hup, -⟩)
  · rw [hdefinitions] at hp
    exact absurd hp not_mem_nil
  · rw [hfolders, mem_singleton] at hp
    subst hp
    cases htag with
    | template d n hd hq =>
      obtain rfl := Except.ok.inj (hplace.symm.trans hd)
      exact absurd hq (by simp)
    | implementation d n hd hq =>
      obtain rfl := Except.ok.inj (hplace.symm.trans hd)
      exact absurd hq (by simp)
  · rw [hfolders, mem_singleton] at hp
    subst hp
    exact absurd hblocked (by decide +kernel)
  · rw [hfolders, hdefinitions] at hp
    rcases hp with rfl | hp | hp
    · exact absurd hup (by decide)
    · rw [mem_singleton.1 hp] at hup
      exact absurd hup (by decide +kernel)
    · exact absurd hp not_mem_nil

theorem saved_coherent_or_misses_sampleHelped :
    sampleTree.writeDeep (.ofString "lib/text/words.js") "" = .ok sampleHelped ∧
      (sampleCache.saved (.ofString "lib/text/words.js")).2.libraries = [(.empty, Taglib.html)] ∧
      Taglib.ofProject sampleHelped {} .empty = .ok Taglib.html := by
  have hsave : sampleTree.writeDeep (.ofString "lib/text/words.js") "" = .ok sampleHelped := by
    decide +kernel
  have hwatches : sampleCache.watches (.ofString "lib/text/words.js") = false :=
    (watches_sampleCache _).trans (by decide +kernel)
  have hlibraries : (sampleCache.saved (.ofString "lib/text/words.js")).2.libraries =
      [(.empty, Taglib.html)] := by
    rw [saved_of_not_watches hwatches, sampleCache_eq]
  have hoptions : sampleCache.options = {} := by rw [sampleCache_eq]
  obtain ⟨-, q, hplace, hkept, -⟩ := saved_coherent_or_misses sampleCache sampleTree sampleHelped _ _
    (by rw [hoptions]) wellFormed_sampleTree coherent_sampleCache hsave
  obtain rfl : q = ["lib", "text", "words.js"] :=
    Except.ok.inj (hplace.symm.trans (by decide +kernel))
  have hright := hkept (.empty, Taglib.html) (by rw [hlibraries]; exact mem_singleton_self _)
  rw [hoptions] at hright
  exact ⟨hsave, hlibraries, hright.resolve_right not_misses_sampleHelped⟩

/-- The sample with a template for the tag. -/
def sampleIndexed : FileTree :=
  ⟨sampleTree.entries ++ [(["components", "x", "index.marko"], .file "<p/>")]⟩

/-- A template for a tag is missed. -/
theorem saved_stale_sampleIndexed :
    sampleTree.writeDeep (.ofString "components/x/index.marko") "<p/>" = .ok sampleIndexed ∧
      sampleTree.WellFormed ∧ sampleCache.Coherent sampleTree ∧
      ((sampleCache.saved (.ofString "components/x/index.marko")).2.lookup sampleIndexed .empty).1 ≠
        (({} : TaglibCache).lookup sampleIndexed .empty).1 := by
  have hsave : sampleTree.writeDeep (.ofString "components/x/index.marko") "<p/>" =
      .ok sampleIndexed := by decide +kernel
  obtain ⟨q, hsaved, hplace, -⟩ :=
    savedAt_writeDeep (Path.cut_ofString "components/x/index.marko") wellFormed_sampleTree hsave
  obtain rfl : q = ["components", "x", "index.marko"] :=
    Except.ok.inj (hplace.symm.trans (by decide +kernel))
  have htag : TaglibReading.NewTag sampleTree sampleIndexed ["components", "x", "index.marko"]
      (Path.empty.child Taglib.componentsFolder) "x" :=
    .implementation ["components"] "index.marko" (by decide +kernel) rfl (by decide +kernel)
      (.inr rfl)
  have hroot : (({} : TaglibCache).rootOf sampleIndexed .empty) = .empty := by decide +kernel
  have hunknown : Taglib.html.tag? "x" = none := by decide +kernel
  refine ⟨hsave, wellFormed_sampleTree, coherent_sampleCache, fun heq => ?_⟩
  have hwatches : sampleCache.watches (.ofString "components/x/index.marko") = false :=
    (watches_sampleCache _).trans (by decide +kernel)
  have hkept : kept? (sampleCache.rootOf sampleIndexed .empty) sampleCache.libraries =
      some Taglib.html := by
    rw [sampleCache_eq]
    generalize Taglib.html = lib
    show kept? (({} : TaglibCache).rootOf sampleIndexed .empty) [(.empty, lib)] = some lib
    rw [hroot]
    rfl
  rw [saved_of_not_watches hwatches, lookup_of_kept hkept, lookup_of_none rfl, hroot] at heq
  exact Taglib.tag?_of_newTag hsaved htag heq.symm hunknown

end TaglibCache

end TemplateEditing
