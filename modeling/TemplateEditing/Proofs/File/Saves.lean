import TemplateEditing.Proofs.File.Entries

/-!
# What a save does to a file tree

A save writes one file and makes the folders on the way to it (`FileTree.savedAt_writeDeep`). All
else is as before: what there was stays, and what is new is a folder or the file itself
(`FileTree.SavedAt`).

A path then leads to where it led before or, if it led nowhere, to where nothing was, unless it goes
up from a folder that has been made (`FileTree.SavedAt.steady_or_leadsBack`). Along such a path
files read as before, and folders have what they had in them and perhaps something new, with
exceptions only for the file that has been saved and for folders it stands in the way of
(`FileTree.SavedAt.read_eq`, `FileTree.SavedAt.children_eq`, `FileTree.SavedAt.isBlocked_eq`).
-/

namespace TemplateEditing

open List

variable {p : Path} {a : Place}

namespace FileTree

/-! ## Growing trees -/

/-- A tree has got more folders. -/
structure Grows (tree tree' : FileTree) : Prop where
  kept : ∀ a, tree.get? a ≠ none → tree'.get? a = tree.get? a
  made : ∀ a, tree.get? a = none → tree'.get? a = none ∨ tree'.get? a = some .folder
  names : ∀ d, ∃ fresh, tree'.namesIn d = tree.namesIn d ++ fresh ∧
    ∀ n ∈ fresh, tree.get? (d ++ [n]) = none

/-- A file has been written at a place, in the stead of a file or of nothing, and perhaps folders
have been made. -/
structure SavedAt (tree tree' : FileTree) (q : Place) : Prop where
  wellFormed : tree.WellFormed
  wellFormed' : tree'.WellFormed
  file : ∃ content, tree'.get? q = some (.file content)
  not_folder : tree.get? q ≠ some .folder
  kept : ∀ a ≠ q, tree.get? a ≠ none → tree'.get? a = tree.get? a
  made : ∀ a ≠ q, tree.get? a = none → tree'.get? a = none ∨ tree'.get? a = some .folder
  names : ∀ d, ∃ fresh, tree'.namesIn d = tree.namesIn d ++ fresh ∧
    ∀ n ∈ fresh, tree.get? (d ++ [n]) = none

section
variable {tree middle tree' : FileTree} {q : Place}

lemma Grows.refl (tree : FileTree) : Grows tree tree :=
  ⟨fun _ _ => rfl, fun _ h => .inl h, fun _ => ⟨[], (append_nil _).symm, by simp⟩⟩

/-- Where nothing is after growing, nothing was before. -/
lemma Grows.none_of_none (h : Grows tree tree') (ha : tree'.get? a = none) :
    tree.get? a = none := by
  cases hentry : tree.get? a with
  | none => rfl
  | some entry =>
    have hkept := h.kept a (by simp [hentry])
    rw [ha, hentry] at hkept
    exact absurd hkept (by simp)

lemma append_fresh (h : Grows tree middle) {d : Place}
    (hnames : ∃ fresh, tree'.namesIn d = middle.namesIn d ++ fresh ∧
      ∀ n ∈ fresh, middle.get? (d ++ [n]) = none) :
    ∃ fresh, tree'.namesIn d = tree.namesIn d ++ fresh ∧
      ∀ n ∈ fresh, tree.get? (d ++ [n]) = none := by
  obtain ⟨first, hfirst, hnone⟩ := h.names d
  obtain ⟨second, hsecond, hnone'⟩ := hnames
  refine ⟨first ++ second, by rw [hsecond, hfirst, append_assoc], fun n hn => ?_⟩
  rcases mem_append.1 hn with hn | hn
  · exact hnone n hn
  · exact h.none_of_none (hnone' n hn)

lemma Grows.trans (h : Grows tree middle) (h' : Grows middle tree') : Grows tree tree' := by
  refine ⟨fun a ha => ?_, fun a ha => ?_, fun d => append_fresh h (h'.names d)⟩
  · have hkept := h.kept a ha
    rw [h'.kept a (by rwa [hkept]), hkept]
  · rcases h.made a ha with hnone | hfolder
    · exact h'.made a hnone
    · exact .inr ((h'.kept a (by simp [hfolder])).trans hfolder)

lemma Grows.savedAt (h : Grows tree middle) (hwell : tree.WellFormed)
    (h' : SavedAt middle tree' q) : SavedAt tree tree' q where
  wellFormed := hwell
  wellFormed' := h'.wellFormed'
  file := h'.file
  not_folder hfolder := h'.not_folder ((h.kept q (by simp [hfolder])).trans hfolder)
  kept a hne ha := by
    have hkept := h.kept a ha
    rw [h'.kept a hne (by rwa [hkept]), hkept]
  made a hne ha := by
    rcases h.made a ha with hnone | hfolder
    · exact h'.made a hne hnone
    · exact .inr ((h'.kept a hne (by simp [hfolder])).trans hfolder)
  names d := append_fresh h (h'.names d)

/-- A folder put where nothing was only adds to the tree. -/
lemma grows_put (ha : tree.get? a = none) : Grows tree (tree.put a .folder) := by
  have hne : a ≠ [] := by
    rintro rfl
    exact absurd ha (by simp [get?])
  refine ⟨fun b hb => ?_, fun b hb => ?_, fun d => tree.namesIn_put hne .folder d⟩
  · rw [get?_put tree hne, if_neg]
    rintro rfl
    exact hb ha
  · rw [get?_put tree hne]
    split
    · exact .inr rfl
    · exact .inl hb

/-- A file put into a folder is saved at its place. -/
lemma savedAt_put (h : tree.WellFormed) {d : Place} {n : String} (hd : tree.get? d = some .folder)
    (hn : Path.IsName n) (hplace : tree.get? (d ++ [n]) ≠ some .folder) (content : String) :
    SavedAt tree (tree.put (d ++ [n]) (.file content)) (d ++ [n]) := by
  have hne : d ++ [n] ≠ [] := by simp
  have hother : ∀ a ≠ d ++ [n],
      (tree.put (d ++ [n]) (.file content)).get? a = tree.get? a := fun a ha => by
    rw [get?_put tree hne, if_neg ha]
  exact
    { wellFormed := h
      wellFormed' := h.put hd hn hplace _
      file := ⟨content, by rw [get?_put tree hne, if_pos rfl]⟩
      not_folder := hplace
      kept := fun a ha _ => hother a ha
      made := fun a ha hnone => .inl ((hother a ha).trans hnone)
      names := fun d => tree.namesIn_put hne _ d }

end

/-! ## Paths after a save -/

namespace SavedAt

variable {tree tree' : FileTree} {q : Place} (h : SavedAt tree tree' q)
include h

lemma folder_of_folder (ha : tree.get? a = some .folder) :
    tree'.get? a = some .folder := by
  rw [h.kept a _ (by simp [ha]), ha]
  rintro rfl
  exact h.not_folder ha

lemma file_of_file {content : String} (ha : tree.get? a = some (.file content)) :
    ∃ content', tree'.get? a = some (.file content') := by
  by_cases haq : a = q
  · exact haq ▸ h.file
  · exact ⟨content, (h.kept a haq (by simp [ha])).trans ha⟩

/-- What was there is entered as before. -/
lemma enter_eq (ha : tree.get? a ≠ none) (s : String) :
    tree'.enter a s = tree.enter a s := by
  cases hentry : tree.get? a with
  | none => exact absurd hentry ha
  | some entry =>
    cases entry with
    | folder => rw [enter_of_folder _ hentry, enter_of_folder _ (h.folder_of_folder hentry)]
    | file content =>
      obtain ⟨content', hentry'⟩ := h.file_of_file hentry
      rw [enter_of_file _ hentry, enter_of_file _ hentry']

/-- A walk ends as before, or was missing a place before. -/
lemma foldlM_enter_eq_or (segments : List String) (a : Place) :
    segments.foldlM tree'.enter a = segments.foldlM tree.enter a ∨
      segments.foldlM tree.enter a = .error .missing := by
  induction segments generalizing a with
  | nil => exact .inl rfl
  | cons s segments ih =>
    rw [foldlM_cons, foldlM_cons]
    by_cases ha : tree.get? a = none
    · rw [enter_of_none _ ha]
      exact .inr rfl
    · rw [h.enter_eq ha]
      cases tree.enter a s with
      | error e => exact .inl rfl
      | ok b => exact ih b

/-- A path leads to where it led before, unless it led nowhere. -/
lemma place_eq_or (p : Path) : tree'.place p = tree.place p ∨ tree.place p = .error .missing := by
  rw [place, place]
  split
  · exact .inl rfl
  · split
    · exact .inl rfl
    · exact h.foldlM_enter_eq_or _ _

end SavedAt

/-- A path leads to where it led before or, if it led nowhere, to where nothing was. -/
def Steady (tree tree' : FileTree) (p : Path) : Prop :=
  tree'.place p = tree.place p ∨
    tree.place p = .error .missing ∧ ∀ a, tree'.place p = .ok a → tree.get? a = none

namespace Steady

variable {tree tree' : FileTree} {p : Path} (h : Steady tree tree' p)
include h

/-- A path has not come to lead to what has been there before. -/
lemma place_eq (hplace : tree'.place p = .ok a) (ha : tree.get? a ≠ none) :
    tree.place p = .ok a := by
  rcases h with heq | ⟨-, hnone⟩
  · exact heq.symm.trans hplace
  · exact absurd (hnone a hplace) ha

/-- A path with no place had none before. -/
lemma place_error_or {e : FileError} (hplace : tree'.place p = .error e) :
    tree.place p = .error e ∨ tree.place p = .error .missing := by
  rcases h with heq | ⟨hmissing, -⟩
  · exact .inl (heq.symm.trans hplace)
  · exact .inr hmissing

section
variable {a : Place} (hplace : tree'.place p = .ok a) (ha : tree.get? a = none)
include hplace ha

lemma read_of_fresh : tree.read p = .error .missing := by
  rcases h with heq | ⟨hmissing, -⟩
  · exact read_of_none (heq.symm.trans hplace) ha
  · exact read_of_error hmissing

lemma list_of_fresh : tree.list p = .error .missing := by
  rcases h with heq | ⟨hmissing, -⟩
  · exact list_of_none (heq.symm.trans hplace) ha
  · exact list_of_error hmissing

end

end Steady

/-- A path that led nowhere leads to something that has been there before: it goes down into a
folder that has been made, and up again. -/
def LeadsBack (tree tree' : FileTree) (p : Path) : Prop :=
  ".." ∈ p.segments ∧ tree.place p = .error .missing ∧
    ∃ a, tree'.place p = .ok a ∧ tree.get? a ≠ none

namespace SavedAt

variable {tree tree' : FileTree} {q : Place}

lemma foldlM_enter_below {segments : List String} (hup : ".." ∉ segments) {a b : Place}
    (hwalk : segments.foldlM tree.enter a = .ok b) : ∃ below, b = a ++ below := by
  induction segments generalizing a with
  | nil =>
    obtain rfl := Except.ok.inj hwalk
    exact ⟨[], (append_nil _).symm⟩
  | cons s segments ih =>
    obtain ⟨hs, hsegments⟩ := ne_and_not_mem_of_not_mem_cons hup
    rw [foldlM_cons] at hwalk
    obtain ⟨c, henter, hrest⟩ := exists_of_bind hwalk
    obtain ⟨below, rfl⟩ := ih hsegments hrest
    obtain ⟨-, -, rfl⟩ := tree.enter_eq_ok henter
    unfold Place.step
    rw [if_neg (Ne.symm hs)]
    split
    · exact ⟨below, rfl⟩
    · exact ⟨s :: below, by rw [append_assoc, singleton_append]⟩

variable (h : SavedAt tree tree' q)
include h

/-- A path that never goes up comes to nothing old by a detour. -/
lemma foldlM_enter_down {segments : List String} (hup : ".." ∉ segments) {a b : Place}
    (hwalk : segments.foldlM tree'.enter a = .ok b) :
    segments.foldlM tree.enter a = .ok b ∨ tree.get? b = none := by
  induction segments generalizing a with
  | nil => exact .inl hwalk
  | cons s segments ih =>
    by_cases ha : tree.get? a = none
    · obtain ⟨below, rfl⟩ := foldlM_enter_below hup hwalk
      exact .inr (h.wellFormed.none_below ha below)
    · rw [foldlM_cons, h.enter_eq ha] at hwalk
      obtain ⟨c, henter, hrest⟩ := exists_of_bind hwalk
      rw [foldlM_cons, henter]
      exact ih (ne_and_not_mem_of_not_mem_cons hup).2 hrest

/-- A path that never goes up has its old place, or a fresh one. -/
lemma place_down (hup : ".." ∉ p.segments) {b : Place} (hplace : tree'.place p = .ok b) :
    tree.place p = .ok b ∨ tree.get? b = none := by
  rw [place] at hplace ⊢
  split at hplace
  · exact absurd hplace (by simp)
  · next hnul =>
    rw [if_neg hnul]
    rcases p.route?_cases with ⟨hp, -⟩ | ⟨rest, hsegments, -, hp⟩ | ⟨s, rest, hsegments, -, hp⟩
    · rw [hp] at hplace
      exact absurd hplace (by simp)
    · rw [hp] at hplace ⊢
      rw [hsegments] at hup
      exact h.foldlM_enter_down (ne_and_not_mem_of_not_mem_cons hup).2 hplace
    · rw [hp] at hplace ⊢
      rw [hsegments] at hup
      exact h.foldlM_enter_down hup hplace

/-- A path keeps its place, or leads back over a fresh folder. -/
lemma steady_or_leadsBack (p : Path) : Steady tree tree' p ∨ LeadsBack tree tree' p := by
  rcases h.place_eq_or p with heq | hmissing
  · exact .inl (.inl heq)
  · cases hplace : tree'.place p with
    | error e => exact .inl (.inr ⟨hmissing, fun a ha => absurd (hplace.symm.trans ha) (by simp)⟩)
    | ok b =>
      by_cases hb : tree.get? b = none
      · refine .inl (.inr ⟨hmissing, fun a ha => ?_⟩)
        rwa [← Except.ok.inj (hplace.symm.trans ha)]
      · refine .inr ⟨?_, hmissing, b, hplace, hb⟩
        by_cases hup : ".." ∈ p.segments
        · exact hup
        · rcases h.place_down hup hplace with hold | hnone
          · exact absurd (hmissing.symm.trans hold) (by simp)
          · exact absurd hnone hb

end SavedAt

/-! ## Files and folders after a save -/

/-- A path cannot be listed although there is something. -/
def isBlocked (tree : FileTree) (p : Path) : Bool :=
  match tree.list p with
  | .ok _ => false
  | .error e => decide (e ≠ .missing)

lemma isBlocked_of_folder {tree : FileTree} (h : tree.place p = .ok a)
    (ha : tree.get? a = some .folder) : tree.isBlocked p = false := by
  rw [isBlocked, list_of_folder h ha]

/-- Something stands in the way of a folder that was not there: it cannot be listed, where it was
only not found before. -/
def Blocked (tree tree' : FileTree) (p : Path) : Prop :=
  tree.list p = .error .missing ∧ tree'.list p = .error .notAFolder

namespace SavedAt

variable {tree tree' : FileTree} {q : Place} (h : SavedAt tree tree' q)
include h

/-- Where nothing was there is nothing, a folder, or the file that has been saved. -/
lemma fresh_cases (ha : tree.get? a = none) :
    tree'.get? a = none ∨ tree'.get? a = some .folder ∨ a = q := by
  by_cases haq : a = q
  · exact .inr (.inr haq)
  · exact (h.made a haq ha).imp_right .inl

lemma steady_child (hp : Steady tree tree' p) {n : String} (hn : Path.IsName n) :
    Steady tree tree' (p.child n) := by
  by_cases hroute : p.route? = none
  · exact .inl (by rw [place_child_of_route? _ hroute hn, place_child_of_route? _ hroute hn])
  -- below a place where nothing was there was nothing either
  have hbelow : ∀ a b, tree.get? a = none → tree'.enter a n = .ok b → tree.get? b = none := by
    intro a b ha henter
    obtain ⟨-, -, rfl⟩ := tree'.enter_eq_ok henter
    rw [step_of_isName hn]
    exact h.wellFormed.none_below ha [n]
  unfold Steady
  rw [place_child _ hroute hn, place_child _ hroute hn]
  rcases hp with heq | ⟨hmissing, hnone⟩
  · rw [heq]
    cases hplace : tree.place p with
    | error e => exact .inl rfl
    | ok a =>
      by_cases ha : tree.get? a = none
      · exact .inr ⟨enter_of_none _ ha n, fun b => hbelow a b ha⟩
      · exact .inl (h.enter_eq ha n)
  · rw [hmissing]
    refine .inr ⟨rfl, fun b hb => ?_⟩
    obtain ⟨a, hplace, henter⟩ := exists_of_bind hb
    exact hbelow a b (hnone a hplace) henter

/-- A file that has not been saved reads as before. -/
lemma read_eq (hp : Steady tree tree' p) (hq : tree'.place p ≠ .ok q) :
    (tree'.read p).toOption = (tree.read p).toOption := by
  cases hplace' : tree'.place p with
  | error e' =>
    rw [read_of_error hplace']
    rcases hp.place_error_or hplace' with hplace | hmissing
    · rw [read_of_error hplace]
    · rw [read_of_error hmissing]
      rfl
  | ok a =>
    have haq : a ≠ q := fun haq => hq (haq ▸ hplace')
    cases ha : tree.get? a with
    | none =>
      rw [hp.read_of_fresh hplace' ha]
      rcases h.fresh_cases ha with ha' | ha' | heq
      · rw [read_of_none hplace' ha']
      · rw [read_of_folder hplace' ha']
        rfl
      · exact absurd heq haq
    | some entry =>
      have hplace := hp.place_eq hplace' (by simp [ha])
      have ha' := (h.kept a haq (by simp [ha])).trans ha
      cases entry with
      | folder => rw [read_of_folder hplace ha, read_of_folder hplace' ha']
      | file content => rw [read_of_file hplace ha, read_of_file hplace' ha']

/-- A steady path is a file if it was, unless the file is new. -/
lemma isFile_eq (hp : Steady tree tree' p)
    (hq : tree'.place p = .ok q → tree.get? q ≠ none) : tree'.isFile p = tree.isFile p := by
  have hisOk : ∀ x : Except FileError String, x.isOk = x.toOption.isSome := fun x => by
    cases x <;> rfl
  unfold isFile
  by_cases hplace : tree'.place p = .ok q
  · -- the file has been there before
    have hold := hp.place_eq hplace (hq hplace)
    obtain ⟨content', hfile'⟩ := h.file
    cases hentry : tree.get? q with
    | none => exact absurd hentry (hq hplace)
    | some entry =>
      cases entry with
      | folder => exact absurd hentry h.not_folder
      | file content =>
        rw [read_of_file hplace hfile', read_of_file hold hentry]
        rfl
  · rw [hisOk, hisOk, h.read_eq hp hplace]

/-- What was there is a folder exactly if it was one. -/
lemma isFolder_eq (hp : Steady tree tree' p) (hplace : tree'.place p = .ok a)
    (ha : tree.get? a ≠ none) : tree'.isFolder p = tree.isFolder p := by
  have hold := hp.place_eq hplace ha
  cases hentry : tree.get? a with
  | none => exact absurd hentry ha
  | some entry =>
    cases entry with
    | folder =>
      rw [isFolder_of_folder hold hentry, isFolder_of_folder hplace (h.folder_of_folder hentry)]
    | file content =>
      obtain ⟨content', hentry'⟩ := h.file_of_file hentry
      rw [isFolder_of_file hold hentry, isFolder_of_file hplace hentry']

/-- What a folder has and had in it: the names that have been there are those that are there and
under which there was something. -/
lemma children_eq (hp : Steady tree tree' p) :
    ∃ (d : Place) (names : List String), tree'.children p = names.map p.child ∧
      tree.children p = (names.filter fun n => (tree.get? (d ++ [n])).isSome).map p.child ∧
      ∀ n ∈ names, Path.IsName n ∧ tree'.place p = .ok d ∧
        tree'.place (p.child n) = .ok (d ++ [n]) ∧ tree'.get? (d ++ [n]) ≠ none := by
  have hempty : ∀ P : String → Prop, ∀ n ∈ ([] : List String), P n := fun _ _ hn =>
    absurd hn not_mem_nil
  cases hplace' : tree'.place p with
  | error e' =>
    obtain ⟨e, hplace⟩ : ∃ e, tree.place p = .error e :=
      (hp.place_error_or hplace').elim (⟨_, ·⟩) (⟨_, ·⟩)
    exact ⟨[], [], children_of_error (list_of_error hplace'),
      children_of_error (list_of_error hplace), hempty _⟩
  | ok d =>
    refine ⟨d, ?_⟩
    -- what is in a folder now has a name and can be gone to
    have hnames : tree'.get? d = some .folder → ∀ n ∈ sorted (tree'.namesIn d),
        Path.IsName n ∧ (.ok d : Except FileError Place) = .ok d ∧
        tree'.place (p.child n) = .ok (d ++ [n]) ∧ tree'.get? (d ++ [n]) ≠ none := by
      intro hd n hn
      have hn := mem_sorted.1 hn
      have hname := h.wellFormed'.isName_of_mem_namesIn hn
      refine ⟨hname, rfl, ?_, (tree'.mem_namesIn.1 hn).1⟩
      rw [place_child _ (route?_ne_none hplace') hname, hplace']
      exact enter_of_isName _ hname hd
    cases hd : tree.get? d with
    | none =>
      -- nothing was there before, so that all the names are new
      have hlist := hp.list_of_fresh hplace' hd
      rcases h.fresh_cases hd with hd' | hd' | rfl
      · exact ⟨[], children_of_error (list_of_none hplace' hd'), children_of_error hlist, hempty _⟩
      · refine ⟨_, children_of_folder hplace' hd', ?_, hnames hd'⟩
        rw [children_of_error hlist, filter_eq_nil_iff.2]
        · rfl
        · intro n _
          rw [h.wellFormed.none_below hd [n]]
          decide
      · obtain ⟨content, hd'⟩ := h.file
        exact ⟨[], children_of_error (list_of_file hplace' hd'), children_of_error hlist, hempty _⟩
    | some entry =>
      have hplace := hp.place_eq hplace' (by simp [hd])
      cases entry with
      | folder =>
        have hd' := h.folder_of_folder hd
        -- the names have been there, with the new ones sorted in between
        obtain ⟨fresh, hfresh, hnone⟩ := h.names d
        refine ⟨_, children_of_folder hplace' hd', ?_, hnames hd'⟩
        rw [children_of_folder hplace hd, hfresh, filter_sorted_append]
        · exact fun n hn => Option.isSome_iff_ne_none.2 (tree.mem_namesIn.1 hn).1
        · intro n hn
          rw [hnone n hn]
          rfl
      | file content =>
        obtain ⟨content', hd'⟩ := h.file_of_file hd
        exact ⟨[], children_of_error (list_of_file hplace' hd'),
          children_of_error (list_of_file hplace hd), hempty _⟩

lemma isBlocked_eq (hp : Steady tree tree' p) (hway : ¬ Blocked tree tree' p) :
    tree'.isBlocked p = tree.isBlocked p := by
  unfold isBlocked
  cases hplace' : tree'.place p with
  | error e' =>
    rw [list_of_error hplace']
    -- two ways that fail fail alike, or the one that was missing is blocked now
    rcases hp.place_error_or hplace' with hplace | hmissing
    · rw [list_of_error hplace]
    · rw [list_of_error hmissing]
      rcases place_error hmissing hplace' with rfl | rfl
      · rfl
      · exact absurd ⟨list_of_error hmissing, list_of_error hplace'⟩ hway
  | ok a =>
    cases ha : tree.get? a with
    | none =>
      -- what is new is no file, for a file would be in the way
      have hlist := hp.list_of_fresh hplace' ha
      rw [hlist]
      rcases h.fresh_cases ha with ha' | ha' | rfl
      · rw [list_of_none hplace' ha']
      · rw [list_of_folder hplace' ha']
        rfl
      · obtain ⟨content, ha'⟩ := h.file
        exact absurd ⟨hlist, list_of_file hplace' ha'⟩ hway
    | some entry =>
      have hplace := hp.place_eq hplace' (by simp [ha])
      cases entry with
      | folder => rw [list_of_folder hplace ha, list_of_folder hplace' (h.folder_of_folder ha)]
      | file content =>
        obtain ⟨content', ha'⟩ := h.file_of_file ha
        rw [list_of_file hplace ha, list_of_file hplace' ha']

end SavedAt

/-! ## Saves -/

section
variable {tree tree' : FileTree}

/-- Folders are made one by one. -/
lemma grows_makeFolders (hp : p.Cut) (h : tree.WellFormed)
    (hmake : tree.makeFolders p = .ok tree') : Grows tree tree' ∧ tree'.WellFormed := by
  have hcut : ∀ q ∈ (p :: p.ancestors).reverse, q.Cut := by
    intro q hq
    rcases mem_cons.1 (mem_reverse.1 hq) with rfl | hq
    · exact hp
    · exact hp.ancestors hq
  rw [makeFolders] at hmake
  -- of the folders on the way only their segments matter
  generalize (p :: p.ancestors).reverse = paths at hcut hmake
  induction paths generalizing tree with
  | nil =>
    obtain rfl := Except.ok.inj hmake
    exact ⟨.refl tree, h⟩
  | cons q paths ih =>
    rw [foldlM_cons] at hmake
    have hpaths := fun r hr => hcut r (mem_cons_of_mem _ hr)
    split at hmake
    · exact ih h hpaths hmake
    · obtain ⟨middle, hmiddle, hrest⟩ := exists_of_bind hmake
      obtain ⟨a, hplace, hstep⟩ := exists_of_bind hmiddle
      split at hstep
      · -- the folder is missing and is made, in one that is there by now
        next ha =>
        obtain rfl := Except.ok.inj hstep
        obtain ⟨d, n, rfl, hd, hlast, hidle, hup, hnul⟩ := h.place_eq_append hplace (by simp [ha])
        have hn : Path.IsName n :=
          ⟨hidle, hup, hcut q mem_cons_self n (mem_of_getLast? hlast), hnul⟩
        obtain ⟨hgrows, hwell⟩ := ih (h.put hd hn (by simp [ha]) .folder) hpaths hrest
        exact ⟨(grows_put ha).trans hgrows, hwell⟩
      · obtain rfl := Except.ok.inj hstep
        exact ih h hpaths hrest
      · exact absurd hstep (by simp)

/-- A write saves one file, at the place of its path. -/
lemma savedAt_write (hp : p.Cut) (h : tree.WellFormed) {content : String}
    (hwrite : tree.write p content = .ok tree') :
    ∃ q, SavedAt tree tree' q ∧ tree'.place p = .ok q ∧ q.getLast? = p.fileName? := by
  rw [write] at hwrite
  obtain ⟨a, hplace, hput⟩ := exists_of_bind hwrite
  split at hput
  · exact absurd hput (by simp)
  · next hfolder =>
    obtain rfl := Except.ok.inj hput
    have ha : tree.get? a ≠ some .folder := hfolder
    obtain ⟨d, n, rfl, hd, hlast, hidle, hup, hnul⟩ := h.place_eq_append hplace ha
    have hn : Path.IsName n := ⟨hidle, hup, hp n (mem_of_getLast? hlast), hnul⟩
    have hsaved := savedAt_put h hd hn ha content
    have hplace' := (hsaved.place_eq_or p).resolve_right (by simp [hplace])
    refine ⟨d ++ [n], hsaved, hplace'.trans hplace, ?_⟩
    rw [getLast?_concat, Path.fileName?_of_getLast? hlast hidle hup]

/-- A save writes one file, in a folder that is there or is made with those above it. -/
lemma savedAt_writeDeep (hp : p.Cut) (h : tree.WellFormed) {content : String}
    (hwrite : tree.writeDeep p content = .ok tree') :
    ∃ q, SavedAt tree tree' q ∧ tree'.place p = .ok q ∧ q.getLast? = p.fileName? := by
  rw [writeDeep] at hwrite
  split at hwrite
  · next above habove =>
    obtain ⟨middle, hmake, hfile⟩ := exists_of_bind hwrite
    obtain ⟨hgrows, hwell⟩ := grows_makeFolders (hp.parent? habove) h hmake
    obtain ⟨q, hsaved, hrest⟩ := savedAt_write hp hwell hfile
    exact ⟨q, hgrows.savedAt h hsaved, hrest⟩
  · exact savedAt_write hp h hwrite

/-- Trees into which files have been saved one after the other are well formed. -/
lemma WellFormed.foldlM_writeDeep (h : tree.WellFormed) (files : List (String × String))
    (hsaves : files.foldlM (fun t file => t.writeDeep (.ofString file.1) file.2) tree = .ok tree') :
    tree'.WellFormed := by
  induction files generalizing tree with
  | nil => exact Except.ok.inj hsaves ▸ h
  | cons file files ih =>
    rw [foldlM_cons] at hsaves
    obtain ⟨middle, hsave, hrest⟩ := exists_of_bind hsaves
    obtain ⟨q, hsaved, -⟩ := savedAt_writeDeep (Path.cut_ofString file.1) h hsave
    exact ih hsaved.wellFormed' hrest

end

end FileTree

end TemplateEditing
