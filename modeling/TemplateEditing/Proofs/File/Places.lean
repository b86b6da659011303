import TemplateEditing.File.Tree
import Mathlib.Tactic.Lemma

/-!
# Paths and places

A path is looked up in a file tree step by step, and each step depends on what is at the place
where it is taken. A name behind a path is one step more (`FileTree.place_child`). Since a place
that holds no folder cannot be left, nothing is found behind a path that leads nowhere
(`FileTree.place_error`).
-/

namespace TemplateEditing

open List

variable {n content : String} {p : Path} {a : Place} {segments : List String} {e : FileError}

namespace Path

/-! ## Names -/

/-- A name leads from a folder to what it has under that name. -/
def IsName (s : String) : Prop :=
  isIdle s = false ∧ s ≠ ".." ∧ '/' ∉ s.toList ∧ '\x00' ∉ s.toList

instance (s : String) : Decidable (IsName s) :=
  inferInstanceAs (Decidable (isIdle s = false ∧ s ≠ ".." ∧ '/' ∉ s.toList ∧ '\x00' ∉ s.toList))

lemma cutAtSlashes_of_not_mem {t : List Char} (h : '/' ∉ t) : cutAtSlashes t = [t] := by
  induction t with
  | nil => rfl
  | cons c t ih =>
    obtain ⟨hc, ht⟩ := ne_and_not_mem_of_not_mem_cons h
    rw [cutAtSlashes, if_neg (by simpa using Ne.symm hc), ih ht]

/-- No piece between slashes holds one. -/
lemma not_mem_of_mem_cutAtSlashes {t piece : List Char} (h : piece ∈ cutAtSlashes t) :
    '/' ∉ piece := by
  induction t generalizing piece with
  | nil =>
    rw [mem_singleton.1 h]
    exact not_mem_nil
  | cons c t ih =>
    rw [cutAtSlashes] at h
    split at h
    · rcases mem_cons.1 h with rfl | h
      · exact not_mem_nil
      · exact ih h
    · next hc =>
      split at h
      · next heq =>
        rw [mem_singleton.1 h]
        simpa using fun hslash => hc (by simp [← hslash])
      · next first more heq =>
        rw [heq] at ih
        rcases mem_cons.1 h with rfl | h
        · have hfirst := ih mem_cons_self
          rw [mem_cons]
          rintro (hslash | hslash)
          · exact hc (by simp [← hslash])
          · exact hfirst hslash
        · exact ih (mem_cons_of_mem _ h)

/-- No segment of a path holds a slash. -/
lemma not_mem_of_mem_ofString {s segment : String} (h : segment ∈ (ofString s).segments) :
    '/' ∉ segment.toList := by
  obtain ⟨piece, hpiece, rfl⟩ := mem_map.1 h
  rw [String.toList_ofList]
  exact not_mem_of_mem_cutAtSlashes hpiece

lemma ofString_of_isName (h : IsName n) : ofString n = ⟨[n]⟩ := by
  rw [ofString, cutAtSlashes_of_not_mem h.2.2.1, map_singleton, String.ofList_toList]

lemma IsName.ne_empty (h : IsName n) : n ≠ "" := by
  rintro rfl
  exact absurd h.1 (by decide)

/-- The segments of a path that a name can follow. -/
def stem (p : Path) : List String :=
  if p.segments.getLast? = some "" then p.segments.dropLast else p.segments

/-- A name joined to a path becomes its last segment. -/
lemma segments_child (p : Path) (h : IsName n) :
    (p.child n).segments = p.stem ++ [n] := by
  have habsolute : (⟨[n]⟩ : Path).isAbsolute = false := by
    unfold isAbsolute
    split
    · next heq => simp at heq
    · rfl
  rw [child, ofString_of_isName h, join, habsolute, stem]
  split
  · next htrue => exact absurd htrue (by decide)
  · split <;> rfl

lemma getLast?_segments_child (p : Path) (h : IsName n) :
    (p.child n).segments.getLast? = some n := by
  rw [segments_child p h, getLast?_concat]

lemma trimIdle_concat (h : isIdle n = false) (segments : List String) :
    trimIdle (segments ++ [n]) = segments ++ [n] := by
  rw [trimIdle, reverse_concat, dropWhile_cons_of_neg (by simp [h]), reverse_cons,
    reverse_reverse]

/-- The last segment of a path is its file name, if it is a name. -/
lemma fileName?_of_getLast? (hlast : p.segments.getLast? = some n)
    (hidle : isIdle n = false) (hup : n ≠ "..") : p.fileName? = some n := by
  obtain ⟨front, hfront⟩ := getLast?_eq_some_iff.1 hlast
  have hname : (if isIdle n || n == ".." then none else some n) = some n := by
    simp [hidle, hup]
  cases front with
  | nil =>
    rw [nil_append] at hfront
    simp only [fileName?, headAndBody, hfront]
    exact hname
  | cons first front =>
    rw [cons_append] at hfront
    have hbody : p.headAndBody = (first, front ++ [n]) := by
      simp only [headAndBody, hfront, trimIdle_concat hidle]
    rw [fileName?, hbody]
    split
    · next heq => simp at heq
    · next heq =>
      obtain ⟨rfl, rfl⟩ := Prod.mk.inj heq
      rw [getLast?_concat]
      exact hname

/-- A child has the name it was joined by. -/
lemma fileName?_child (p : Path) (h : IsName n) : (p.child n).fileName? = some n :=
  fileName?_of_getLast? (getLast?_segments_child p h) h.1 h.2.1

lemma extension?_child (p : Path) (h : IsName n) :
    (p.child n).extension? = (⟨[n]⟩ : Path).extension? := by
  rw [extension?, extension?, fileName?_child p h, fileName?_of_getLast? rfl h.1 h.2.1]

lemma stem?_of_isName (h : IsName n) :
    (⟨[n]⟩ : Path).stem? = some (String.ofList (splitExtension n.toList).1) := by
  rw [stem?, fileName?_of_getLast? rfl h.1 h.2.1]
  rfl

lemma stem?_child (p : Path) (h : IsName n) :
    (p.child n).stem? = (⟨[n]⟩ : Path).stem? := by
  rw [stem?, stem?, fileName?_child p h, fileName?_of_getLast? rfl h.1 h.2.1]

/-! ## Routes -/

/-- An absolute path is walked from the root. -/
lemma route?_of_absolute (h : p.segments = "" :: segments)
    (hne : segments ≠ []) : p.route? = some (["/"], segments) := by
  unfold route?
  rw [h]
  cases segments with
  | nil => exact absurd rfl hne
  | cons s segments => rfl

/-- A relative path is walked from where one stands. -/
lemma route?_of_relative {s : String} (h : p.segments = s :: segments) (hs : s ≠ "") :
    p.route? = some ([], s :: segments) := by
  unfold route?
  rw [h]
  split
  · next heq => exact absurd heq (by simp)
  · next heq => exact absurd (List.cons.inj heq).1 hs
  · next heq => exact absurd (List.cons.inj heq).1 hs
  · rfl

/-- A path that leads somewhere is absolute or starts with a segment that is not empty. -/
lemma route?_cases (p : Path) :
    (p.route? = none ∧ p.stem = []) ∨
      (∃ segments, p.segments = "" :: segments ∧ segments ≠ [] ∧
        p.route? = some (["/"], segments)) ∨
      ∃ s segments, p.segments = s :: segments ∧ s ≠ "" ∧ p.route? = some ([], s :: segments) := by
  cases hsegments : p.segments with
  | nil => exact .inl ⟨by simp only [route?, hsegments], by simp only [stem, hsegments]; rfl⟩
  | cons s segments =>
    by_cases hs : s = ""
    · subst hs
      cases segments with
      | nil => exact .inl ⟨by simp only [route?, hsegments], by simp only [stem, hsegments]; rfl⟩
      | cons first segments =>
        exact .inr (.inl ⟨_, rfl, cons_ne_nil _ _,
          route?_of_absolute hsegments (cons_ne_nil _ _)⟩)
    · exact .inr (.inr ⟨s, segments, rfl, hs, route?_of_relative hsegments hs⟩)

/-- A name goes behind the last segment, unless that is empty. -/
lemma route?_child {start : Place} (hroute : p.route? = some (start, segments)) (h : IsName n) :
    (p.child n).route? = some
      (start, (if segments.getLast? = some "" then segments.dropLast else segments) ++ [n]) := by
  have hchild := segments_child p h
  rcases p.route?_cases with ⟨hp, -⟩ | ⟨rest, hsegments, hne, hp⟩ | ⟨s, rest, hsegments, hs, hp⟩
  · rw [hp] at hroute
    exact absurd hroute (by simp)
  · obtain ⟨rfl, rfl⟩ := Prod.mk.inj (Option.some.inj (hp.symm.trans hroute))
    apply route?_of_absolute
    · rw [hchild, stem, hsegments, getLast?_cons_of_ne_nil hne,
        dropLast_cons_of_ne_nil hne]
      split <;> rfl
    · simp
  · obtain ⟨rfl, rfl⟩ := Prod.mk.inj (Option.some.inj (hp.symm.trans hroute))
    rw [stem, hsegments] at hchild
    split
    · next hlast =>
      rw [if_pos hlast] at hchild
      cases rest with
      | nil => exact absurd (Option.some.inj hlast) hs
      | cons t rest => exact route?_of_relative hchild hs
    · next hlast =>
      rw [if_neg hlast] at hchild
      exact route?_of_relative hchild hs

/-- A child of a path that leads nowhere is walked by its name. -/
lemma route?_child_of_none (hroute : p.route? = none) (h : IsName n) :
    (p.child n).route? = some ([], [n]) := by
  rcases p.route?_cases with ⟨-, hstem⟩ | ⟨rest, -, -, hp⟩ | ⟨s, rest, -, -, hp⟩
  · apply route?_of_relative _ h.ne_empty
    rw [segments_child p h, hstem, nil_append]
  · exact absurd (hp.symm.trans hroute) (by simp)
  · exact absurd (hp.symm.trans hroute) (by simp)

end Path

namespace FileTree

variable (tree : FileTree)

/-! ## Steps -/

lemma enter_of_none (h : tree.get? a = none) (s : String) :
    tree.enter a s = .error .missing := by
  rw [enter, h]

lemma enter_of_file (h : tree.get? a = some (.file content))
    (s : String) : tree.enter a s = .error .notAFolder := by
  rw [enter, h]

lemma enter_of_folder (h : tree.get? a = some .folder) (s : String) :
    tree.enter a s = if s = ".." ∧ a = [] then .error .missing else .ok (a.step s) := by
  rw [enter, h]

/-- Only a folder is entered, and the root is never left. -/
lemma enter_eq_ok {a b : Place} {s : String} (h : tree.enter a s = .ok b) :
    tree.get? a = some .folder ∧ (s = ".." → a ≠ []) ∧ b = a.step s := by
  unfold enter at h
  split at h
  · exact absurd h (by simp)
  · exact absurd h (by simp)
  · next ha =>
    split at h
    · exact absurd h (by simp)
    · next hup => exact ⟨ha, fun hs hnil => hup ⟨hs, hnil⟩, (Except.ok.inj h).symm⟩

lemma step_of_isName (h : Path.IsName n) (a : Place) : a.step n = a ++ [n] := by
  rw [Place.step, if_neg (by simp [h.1]), if_neg h.2.1]

/-- A name entered from a folder is a place in it. -/
lemma enter_of_isName (h : Path.IsName n) (ha : tree.get? a = some .folder) :
    tree.enter a n = .ok (a ++ [n]) := by
  rw [enter_of_folder tree ha, if_neg fun hup => h.2.1 hup.1, step_of_isName h]

/-- What comes to an end has taken its first step. -/
lemma exists_of_bind {ε α β : Type} {x : Except ε α} {f : α → Except ε β} {b : β}
    (h : x >>= f = .ok b) : ∃ a, x = .ok a ∧ f a = .ok b := by
  cases x with
  | error e => exact absurd h (by simp [bind, Except.bind])
  | ok a => exact ⟨a, rfl, h⟩

/-- An empty segment asks only for a folder, as the step behind it does. -/
lemma enter_empty_bind (a : Place) (s : String) :
    (tree.enter a "" >>= fun b => tree.enter b s) = tree.enter a s := by
  cases h : tree.get? a with
  | none =>
    rw [enter_of_none tree h, enter_of_none tree h]
    rfl
  | some entry =>
    cases entry with
    | file content =>
      rw [enter_of_file tree h, enter_of_file tree h]
      rfl
    | folder =>
      rw [enter_of_folder tree h, if_neg fun hup => absurd hup.1 (by decide)]
      rfl

/-- Walking one segment more enters it last. -/
lemma foldlM_enter_concat (segments : List String) (a : Place) (s : String) :
    (segments ++ [s]).foldlM tree.enter a =
      segments.foldlM tree.enter a >>= fun b => tree.enter b s := by
  rw [foldlM_append]
  simp only [foldlM_cons, foldlM_nil, bind_pure]

lemma foldlM_enter_dropLast (h : segments.getLast? = some "") (a : Place) (s : String) :
    (segments.dropLast ++ [s]).foldlM tree.enter a =
      segments.foldlM tree.enter a >>= fun b => tree.enter b s := by
  obtain ⟨front, rfl⟩ := getLast?_eq_some_iff.1 h
  rw [dropLast_concat, foldlM_enter_concat, foldlM_enter_concat, bind_assoc]
  simp only [enter_empty_bind]

/-! ## Names behind a path -/

/-- A name joined to a path adds no zero byte. -/
lemma any_nul_child (p : Path) (h : Path.IsName n) :
    (p.child n).segments.any (·.toList.contains '\x00') =
      p.segments.any (·.toList.contains '\x00') := by
  have hname : [n].any (·.toList.contains '\x00') = false := by simpa using h.2.2.2
  rw [Path.segments_child p h, Path.stem, any_append, hname, Bool.or_false]
  split
  · next hlast =>
    obtain ⟨front, hfront⟩ := getLast?_eq_some_iff.1 hlast
    rw [hfront, dropLast_concat, any_append]
    exact (Bool.or_false _).symm
  · rfl

/-- A name by itself leads from the working directory. -/
lemma place_child_of_route? (hroute : p.route? = none) (h : Path.IsName n) :
    tree.place (p.child n) = .ok [n] := by
  have hnul : p.segments.any (·.toList.contains '\x00') = false := by
    rcases p.route?_cases with ⟨-, hstem⟩ | ⟨rest, -, -, hp⟩ | ⟨s, rest, -, -, hp⟩
    · rw [← any_nul_child p h, Path.segments_child p h, hstem]
      simpa using h.2.2.2
    · exact absurd (hp.symm.trans hroute) (by simp)
    · exact absurd (hp.symm.trans hroute) (by simp)
  rw [place, any_nul_child p h, hnul, if_neg (by simp), Path.route?_child_of_none hroute h]
  have hroot : tree.get? [] = some .folder := rfl
  simp only [foldlM_cons, foldlM_nil, bind_pure]
  exact enter_of_isName tree h hroot

/-- A name behind a path is one step more. -/
lemma place_child (hroute : p.route? ≠ none) (h : Path.IsName n) :
    tree.place (p.child n) = tree.place p >>= fun a => tree.enter a n := by
  obtain ⟨⟨start, segments⟩, hp⟩ := Option.ne_none_iff_exists'.1 hroute
  rw [place, place, any_nul_child p h, Path.route?_child hp h, hp]
  split
  · rfl
  · show (_ ++ [n]).foldlM tree.enter start = segments.foldlM tree.enter start >>= _
    split
    · next hlast => exact foldlM_enter_dropLast tree hlast start n
    · exact foldlM_enter_concat tree segments start n

/-- A walk fails at a missing place or at a file. -/
lemma foldlM_enter_error {tree : FileTree} (h : segments.foldlM tree.enter a = .error e) :
    e = .missing ∨ e = .notAFolder := by
  induction segments generalizing a with
  | nil => exact absurd h (by simp [pure, Except.pure])
  | cons s segments ih =>
    rw [foldlM_cons] at h
    cases henter : tree.enter a s with
    | ok b =>
      rw [henter] at h
      exact ih h
    | error e' =>
      rw [henter] at h
      obtain rfl := Except.error.inj h
      unfold enter at henter
      split at henter
      · exact .inl (Except.error.inj henter).symm
      · exact .inr (Except.error.inj henter).symm
      · split at henter
        · exact .inl (Except.error.inj henter).symm
        · exact absurd henter (by simp)

/-- Where a path can be followed at all, it can lead nowhere for two reasons. -/
lemma place_error {tree tree' : FileTree} (h : tree.place p = .error .missing)
    (h' : tree'.place p = .error e) :
    e = .missing ∨ e = .notAFolder := by
  rw [place] at h h'
  split at h
  · exact absurd h (by simp)
  · next hnul =>
    rw [if_neg hnul] at h'
    split at h'
    · exact .inl (Except.error.inj h').symm
    · exact foldlM_enter_error h'

/-- A path that leads somewhere can be followed by a name. -/
lemma route?_ne_none {tree : FileTree} (h : tree.place p = .ok a) :
    p.route? ≠ none := by
  intro hroute
  rw [place, hroute] at h
  split at h <;> exact absurd h (by simp)

/-- A name behind a path is the name of the place it leads to. -/
lemma getLast?_of_place_child {tree : FileTree} (hn : Path.IsName n)
    {b : Place} (h : tree.place (p.child n) = .ok b) : b.getLast? = some n := by
  by_cases hroute : p.route? = none
  · rw [place_child_of_route? _ hroute hn] at h
    rw [← Except.ok.inj h]
    rfl
  · rw [place_child _ hroute hn] at h
    obtain ⟨a, -, henter⟩ := exists_of_bind h
    obtain ⟨-, -, rfl⟩ := tree.enter_eq_ok henter
    rw [step_of_isName hn, getLast?_concat]

/-- A child stands in its folder's place. -/
lemma place_child_of_place {tree : FileTree} (hn : Path.IsName n)
    {a b : Place} (hplace : tree.place p = .ok a) (h : tree.place (p.child n) = .ok b) :
    b = a ++ [n] := by
  rw [place_child _ (route?_ne_none hplace) hn, hplace] at h
  obtain ⟨-, -, rfl⟩ := tree.enter_eq_ok h
  rw [step_of_isName hn]

/-! ## What a path leads to -/

section
variable {tree} {p : Path} {a : Place}

lemma read_of_error (h : tree.place p = .error e) : tree.read p = .error e := by
  rw [read, look, h]
  rfl

lemma read_of_none (h : tree.place p = .ok a) (ha : tree.get? a = none) :
    tree.read p = .error .missing := by
  simp only [read, look, h, bind, Except.bind, ha]

lemma read_of_folder (h : tree.place p = .ok a) (ha : tree.get? a = some .folder) :
    tree.read p = .error .isAFolder := by
  simp only [read, look, h, bind, Except.bind, ha]

lemma read_of_file (h : tree.place p = .ok a)
    (ha : tree.get? a = some (.file content)) : tree.read p = .ok content := by
  simp only [read, look, h, bind, Except.bind, ha]

lemma list_of_error (h : tree.place p = .error e) : tree.list p = .error e := by
  rw [list, look, h]
  rfl

lemma list_of_none (h : tree.place p = .ok a) (ha : tree.get? a = none) :
    tree.list p = .error .missing := by
  simp only [list, look, h, bind, Except.bind, ha]

lemma list_of_file (h : tree.place p = .ok a)
    (ha : tree.get? a = some (.file content)) : tree.list p = .error .notAFolder := by
  simp only [list, look, h, bind, Except.bind, ha]

lemma mem_sorted {names : List String} : n ∈ sorted names ↔ n ∈ names :=
  (mergeSort_perm _ _).mem_iff

lemma pairwise_sorted (names : List String) :
    (sorted names).Pairwise fun a b => decide (a ≤ b) = true := by
  apply pairwise_mergeSort
  · intro a b c hab hbc
    exact decide_eq_true (String.le_trans (of_decide_eq_true hab) (of_decide_eq_true hbc))
  · intro a b
    rcases String.le_total a b with hle | hle <;> simp [hle]

/-- Names that are added take their places between the others. -/
lemma filter_sorted_append {keep : String → Bool} {old fresh : List String}
    (hold : ∀ n ∈ old, keep n = true) (hfresh : ∀ n ∈ fresh, keep n = false) :
    (sorted (old ++ fresh)).filter keep = sorted old := by
  have hfilter : (old ++ fresh).filter keep = old := by
    rw [filter_append, filter_eq_self.2 hold, filter_eq_nil_iff.2, append_nil]
    intro n hn
    simp [hfresh n hn]
  have hperm := (mergeSort_perm (old ++ fresh) fun a b => decide (a ≤ b)).filter keep
  rw [hfilter] at hperm
  refine List.Perm.eq_of_pairwise ?_ ((pairwise_sorted _).filter _) (pairwise_sorted _)
    (hperm.trans (mergeSort_perm _ _).symm)
  intro a b _ _ hab hba
  exact String.le_antisymm (of_decide_eq_true hab) (of_decide_eq_true hba)

/-- A folder lists its names in order. -/
lemma list_of_folder (h : tree.place p = .ok a) (ha : tree.get? a = some .folder) :
    tree.list p = .ok ((sorted (tree.namesIn a)).map p.child) := by
  simp only [list, look, h, bind, Except.bind, ha]

/-- What lies directly in a folder, if it can be listed. -/
def children (tree : FileTree) (p : Path) : List Path := (tree.list p).toOption.getD []

lemma children_of_error (h : tree.list p = .error e) : tree.children p = [] := by
  rw [children, h]
  rfl

/-- The children of a folder are its names in order. -/
lemma children_of_folder (h : tree.place p = .ok a) (ha : tree.get? a = some .folder) :
    tree.children p = (sorted (tree.namesIn a)).map p.child := by
  rw [children, list_of_folder h ha]
  rfl

lemma isFolder_of_folder (h : tree.place p = .ok a) (ha : tree.get? a = some .folder) :
    tree.isFolder p = true := by
  simp only [isFolder, look, h, bind, Except.bind, ha]

lemma isFolder_of_file (h : tree.place p = .ok a)
    (ha : tree.get? a = some (.file content)) : tree.isFolder p = false := by
  simp only [isFolder, look, h, bind, Except.bind, ha]

end

end FileTree

end TemplateEditing
