import TemplateEditing.Proofs.File.Places

/-!
# Well-formed file trees

What lies in a tree lies in folders of it, under names (`FileTree.WellFormed`); so there is nothing
below a place where nothing is. In such a tree a path leads to a file, or to where nothing is yet,
by a name in a folder that is there (`FileTree.WellFormed.place_eq_append`), and putting something
there leaves the tree well formed (`FileTree.WellFormed.put`).
-/

namespace TemplateEditing

open List

variable {a d : Place} {n : String}

namespace Path

/-! ## Segments between slashes -/

/-- No segment of a path has a slash in it, as it is with every path that is written as a text. -/
def Cut (p : Path) : Prop := ∀ s ∈ p.segments, '/' ∉ s.toList

lemma cut_ofString (s : String) : (ofString s).Cut := fun _ h => not_mem_of_mem_ofString h

lemma mem_of_mem_trimIdle {s : String} {segments : List String} (h : s ∈ trimIdle segments) :
    s ∈ segments := by
  rw [trimIdle, mem_reverse] at h
  exact mem_reverse.1 ((dropWhile_sublist _).mem h)

lemma Cut.parent? {p q : Path} (h : p.Cut) (hq : p.parent? = some q) : q.Cut := by
  have hempty : '/' ∉ "".toList := by decide
  have hbody : ∀ s ∈ p.headAndBody.2, '/' ∉ s.toList := by
    intro s hs
    unfold headAndBody at hs
    split at hs
    · exact absurd hs not_mem_nil
    · next heq => exact h s (heq ▸ mem_cons_of_mem _ (mem_of_mem_trimIdle hs))
  have hhead : '/' ∉ p.headAndBody.1.toList := by
    unfold headAndBody
    split
    · exact hempty
    · next heq => exact h _ (heq ▸ mem_cons_self)
  -- the parent has the head and a front of the body, or is made of empty segments
  unfold Path.parent? at hq
  split at hq
  · next heq =>
    split at hq
    · exact absurd hq (by simp)
    · obtain rfl := Option.some.inj hq
      intro s hs
      rw [mem_singleton.1 hs]
      exact hempty
  · next first body hne heq =>
    rw [heq] at hbody hhead
    simp only at hq
    split at hq
    · obtain rfl := Option.some.inj hq
      intro s hs
      simp only [mem_cons, not_mem_nil, or_false, or_self] at hs
      rw [hs]
      exact hempty
    · obtain rfl := Option.some.inj hq
      intro s hs
      rcases mem_cons.1 hs with rfl | hs
      · exact hhead
      · exact hbody s ((dropLast_sublist _).mem (mem_of_mem_trimIdle hs))

lemma Cut.ancestors {p q : Path} (h : p.Cut) (hq : q ∈ p.ancestors) : q.Cut := by
  rw [Path.ancestors] at hq
  generalize p.segments.length + 1 = count at hq
  induction count generalizing p with
  | zero =>
    rw [ancestorsWithin, mem_singleton] at hq
    exact hq ▸ h
  | succ count ih =>
    rw [ancestorsWithin] at hq
    split at hq
    · exact mem_singleton.1 hq ▸ h
    · next above habove =>
      rcases mem_cons.1 hq with rfl | hq
      · exact h
      · exact ih (h.parent? habove) hq

end Path

namespace FileTree

/-! ## Entries -/

section
variable (tree : FileTree)

lemma get?_of_ne_nil (h : a ≠ []) : tree.get? a = tree.entries.lookup a := by
  rw [get?, if_neg (by simpa using h)]

lemma lookup_cons_ite (a b : Place) (entry : FileEntry) (entries : List (Place × FileEntry)) :
    ((a, entry) :: entries).lookup b = if b = a then some entry else entries.lookup b := by
  rw [lookup_cons]
  by_cases h : b = a
  · rw [if_pos h, beq_iff_eq.2 h]
  · rw [if_neg h, beq_eq_false_iff_ne.2 h]

lemma lookup_map_put (entries : List (Place × FileEntry)) (a b : Place) (entry : FileEntry) :
    (entries.map fun e => if e.1 = a then (a, entry) else e).lookup b =
      if b = a then (entries.lookup a).map fun _ => entry else entries.lookup b := by
  induction entries with
  | nil => simp
  | cons e entries ih =>
    obtain ⟨c, old⟩ := e
    rw [map_cons, lookup_cons_ite, lookup_cons_ite]
    by_cases hc : c = a
    · subst hc
      rw [if_pos rfl, lookup_cons_ite, ih, if_pos rfl]
      split <;> rfl
    · rw [if_neg hc, lookup_cons_ite, ih, if_neg (Ne.symm hc)]
      by_cases hb : b = a
      · rw [if_neg (hb ▸ Ne.symm hc), if_pos hb, if_pos hb]
      · rw [if_neg hb, if_neg hb]

/-- What is put at a place is found there, and all else as before. -/
lemma get?_put (ha : a ≠ []) (entry : FileEntry) (b : Place) :
    (tree.put a entry).get? b = if b = a then some entry else tree.get? b := by
  by_cases hb : b = []
  · subst hb
    rw [if_neg (Ne.symm ha)]
    rfl
  · rw [get?_of_ne_nil _ hb, get?_of_ne_nil _ hb, put]
    split
    · next hsome =>
      rw [lookup_map_put]
      obtain ⟨old, hold⟩ := Option.isSome_iff_exists.1 hsome
      rw [hold]
      rfl
    · next hnone =>
      rw [lookup_append, lookup_cons_ite, lookup_nil]
      split
      · next heq =>
        rw [heq, Option.not_isSome_iff_eq_none.1 hnone]
        rfl
      · exact Option.or_none

lemma mem_entries_of_get? (ha : a ≠ []) (h : tree.get? a ≠ none) :
    ∃ entry, (a, entry) ∈ tree.entries := by
  rw [get?_of_ne_nil tree ha] at h
  obtain ⟨entry, hentry⟩ := Option.ne_none_iff_exists'.1 h
  obtain ⟨front, back, heq, -⟩ := lookup_eq_some_iff.1 hentry
  exact ⟨entry, heq ▸ mem_append_right _ mem_cons_self⟩

lemma get?_of_mem_entries {e : Place × FileEntry} (he : e ∈ tree.entries) :
    tree.get? e.1 ≠ none := by
  by_cases hnil : e.1 = []
  · rw [hnil]
    simp [get?]
  · rw [get?_of_ne_nil tree hnil]
    intro hnone
    exact absurd (lookup_eq_none_iff.1 hnone e he) (by simp)

/-- The name of a place, if it lies directly in another one. -/
def nameIn? (d a : Place) : Option String :=
  match a.reverse with
  | name :: above => if above.reverse = d ∧ name ≠ "/" then some name else none
  | [] => none

/-- A name in a folder is the last segment of a place in it. -/
lemma nameIn?_eq_some_iff {d a : Place} :
    nameIn? d a = some n ↔ a = d ++ [n] ∧ n ≠ "/" := by
  unfold nameIn?
  split
  · next name above heq =>
    have ha : a = above.reverse ++ [name] := by
      rw [← reverse_cons, ← heq, reverse_reverse]
    split
    · next hd =>
      rw [ha, ← hd.1, Option.some_inj]
      constructor
      · rintro rfl
        exact ⟨rfl, hd.2⟩
      · rintro ⟨heq, -⟩
        exact (append_inj_right' heq rfl) |> singleton_inj.1
    · next hd =>
      refine iff_of_false (by simp) ?_
      rintro ⟨heq, hne⟩
      obtain ⟨habove, hname⟩ := append_inj' (ha.symm.trans heq) rfl
      exact hd ⟨habove, singleton_inj.1 hname ▸ hne⟩
  · next heq =>
    rw [reverse_eq_nil_iff.1 heq]
    simp

lemma namesIn_eq (d : Place) : tree.namesIn d = (tree.entries.map (·.1)).filterMap (nameIn? d) := by
  rw [filterMap_map]
  rfl

/-- The names in a folder are those of the places in it. -/
lemma mem_namesIn :
    n ∈ tree.namesIn d ↔ tree.get? (d ++ [n]) ≠ none ∧ n ≠ "/" := by
  rw [namesIn_eq, mem_filterMap]
  constructor
  · rintro ⟨a, ha, hname⟩
    obtain ⟨rfl, hne⟩ := nameIn?_eq_some_iff.1 hname
    obtain ⟨e, he, heq⟩ := mem_map.1 ha
    exact ⟨heq ▸ tree.get?_of_mem_entries he, hne⟩
  · rintro ⟨hentry, hne⟩
    obtain ⟨entry, hmem⟩ := tree.mem_entries_of_get? (by simp) hentry
    exact ⟨d ++ [n], mem_map.2 ⟨_, hmem, rfl⟩, nameIn?_eq_some_iff.2 ⟨rfl, hne⟩⟩

/-- Names are added at the end. -/
lemma namesIn_put (ha : a ≠ []) (entry : FileEntry) (d : Place) :
    ∃ fresh, (tree.put a entry).namesIn d = tree.namesIn d ++ fresh ∧
      ∀ n ∈ fresh, tree.get? (d ++ [n]) = none := by
  rw [namesIn_eq, namesIn_eq, put]
  split
  · refine ⟨[], ?_, by simp⟩
    rw [append_nil, map_map]
    congr 1
    apply map_congr_left
    intro e he
    show (if e.1 = a then (a, entry) else e).1 = e.1
    split
    · next heq => exact heq.symm
    · rfl
  · next hnone =>
    refine ⟨(nameIn? d a).toList, ?_, ?_⟩
    · rw [map_append, filterMap_append]
      rfl
    · intro n hn
      obtain ⟨rfl, -⟩ := nameIn?_eq_some_iff.1 (Option.mem_toList.1 hn)
      rw [get?_of_ne_nil tree ha]
      exact Option.not_isSome_iff_eq_none.1 hnone

end

/-! ## Well-formed trees -/

/-- All that is in a tree lies in folders, under names, but for the root of the file system. -/
structure WellFormed (tree : FileTree) : Prop where
  ne_nil : ∀ e ∈ tree.entries, e.1 ≠ []
  rooted : ∀ e ∈ tree.entries, tree.get? e.1.dropLast = some .folder
  named : ∀ e ∈ tree.entries, e.1 = ["/"] ∨ ∀ n ∈ e.1.getLast?, Path.IsName n

lemma wellFormed_empty : WellFormed {} := ⟨by simp, by simp, by simp⟩

section
variable {tree : FileTree}

/-- What is there is in a folder. -/
lemma WellFormed.folder_above (h : tree.WellFormed) (ha : a ≠ [])
    (hentry : tree.get? a ≠ none) : tree.get? a.dropLast = some .folder := by
  obtain ⟨entry, hmem⟩ := tree.mem_entries_of_get? ha hentry
  exact h.rooted _ hmem

lemma WellFormed.isName (h : tree.WellFormed) (hentry : tree.get? (d ++ [n]) ≠ none)
    (hne : d ++ [n] ≠ ["/"]) : Path.IsName n := by
  obtain ⟨entry, hmem⟩ := tree.mem_entries_of_get? (by simp) hentry
  exact (h.named _ hmem).resolve_left hne n getLast?_concat

lemma WellFormed.isName_of_mem_namesIn (h : tree.WellFormed) (hn : n ∈ tree.namesIn d) :
    Path.IsName n := by
  obtain ⟨hentry, hne⟩ := tree.mem_namesIn.1 hn
  refine h.isName hentry fun heq => hne ?_
  exact singleton_inj.1 (append_inj_right' (heq.trans (nil_append _).symm) rfl)

/-- Where nothing is, nothing is below either. -/
lemma WellFormed.none_below (h : tree.WellFormed) (ha : tree.get? a = none)
    (below : Place) : tree.get? (a ++ below) = none := by
  induction below generalizing a with
  | nil => rwa [append_nil]
  | cons n below ih =>
    rw [← singleton_append, ← append_assoc]
    apply ih
    cases hentry : tree.get? (a ++ [n]) with
    | none => rfl
    | some entry =>
      have hfolder := h.folder_above (by simp) (Option.ne_none_iff_exists'.2 ⟨entry, hentry⟩)
      rw [dropLast_concat, ha] at hfolder
      exact absurd hfolder (by simp)

/-- An entry put into a folder keeps the tree well formed. -/
lemma WellFormed.put (h : tree.WellFormed) (hd : tree.get? d = some .folder) (hn : Path.IsName n)
    (hplace : tree.get? (d ++ [n]) ≠ some .folder) (entry : FileEntry) :
    (tree.put (d ++ [n]) entry).WellFormed := by
  have hne : d ++ [n] ≠ [] := by simp
  -- the folders that were there are still there
  have hkept : ∀ b, tree.get? b = some .folder →
      (tree.put (d ++ [n]) entry).get? b = some .folder := by
    intro b hb
    rw [get?_put tree hne, if_neg, hb]
    rintro rfl
    exact hplace hb
  -- and there is no place but the one that is put
  have hcases : ∀ e ∈ (tree.put (d ++ [n]) entry).entries, e.1 = d ++ [n] ∨ e ∈ tree.entries := by
    intro e he
    rw [FileTree.put] at he
    split at he
    · obtain ⟨old, hold, rfl⟩ := mem_map.1 he
      split
      · exact .inl rfl
      · exact .inr hold
    · rcases mem_append.1 he with he | he
      · exact .inr he
      · rw [mem_singleton.1 he]
        exact .inl rfl
  refine ⟨fun e he => ?_, fun e he => ?_, fun e he => ?_⟩
  · rcases hcases e he with heq | hold
    · rw [heq]
      exact hne
    · exact h.ne_nil e hold
  · rcases hcases e he with heq | hold
    · rw [heq, dropLast_concat]
      exact hkept d hd
    · exact hkept _ (h.rooted e hold)
  · rcases hcases e he with heq | hold
    · refine .inr fun name hname => ?_
      rw [heq, getLast?_concat] at hname
      exact Option.some.inj hname ▸ hn
    · exact h.named e hold

/-- The last step to a place that is no folder is a name. -/
lemma WellFormed.enter_eq_append (h : tree.WellFormed) {d b : Place} {s : String}
    (henter : tree.enter d s = .ok b) (hb : tree.get? b ≠ some .folder) :
    b = d ++ [s] ∧ tree.get? d = some .folder ∧ Path.isIdle s = false ∧ s ≠ ".." := by
  obtain ⟨hd, hup, rfl⟩ := tree.enter_eq_ok henter
  unfold Place.step at hb ⊢
  split at hb
  · exact absurd hd hb
  · next hidle =>
    rw [if_neg hidle]
    split at hb
    · -- the folder above a folder is one too
      next heq =>
      split at hb
      · exact absurd hd hb
      · exact absurd (h.folder_above (hup heq) (by simp [hd])) hb
    · next hne =>
      rw [if_neg hne]
      exact ⟨rfl, hd, by simpa using hidle, hne⟩

/-- A path leads to a file, or to where nothing is, by a name in a folder. -/
lemma WellFormed.place_eq_append (h : tree.WellFormed) {p : Path} {b : Place}
    (hplace : tree.place p = .ok b) (hb : tree.get? b ≠ some .folder) :
    ∃ d n, b = d ++ [n] ∧ tree.get? d = some .folder ∧ p.segments.getLast? = some n ∧
      Path.isIdle n = false ∧ n ≠ ".." ∧ '\x00' ∉ n.toList := by
  rw [place] at hplace
  split at hplace
  · exact absurd hplace (by simp)
  · next hnul =>
    have hwalk : ∃ start segments, p.segments.getLast? = segments.getLast? ∧ segments ≠ [] ∧
        segments.foldlM tree.enter start = .ok b := by
      rcases p.route?_cases with ⟨hp, -⟩ | ⟨rest, hsegments, hne, hp⟩ | ⟨s, rest, hsegments, -, hp⟩
      · rw [hp] at hplace
        exact absurd hplace (by simp)
      · rw [hp] at hplace
        exact ⟨_, rest, by rw [hsegments, getLast?_cons_of_ne_nil hne], hne, hplace⟩
      · rw [hp] at hplace
        exact ⟨_, s :: rest, by rw [hsegments], cons_ne_nil _ _, hplace⟩
    obtain ⟨start, segments, hlast, hne, hwalk⟩ := hwalk
    obtain ⟨s, hs⟩ := Option.ne_none_iff_exists'.1 (mt getLast?_eq_none_iff.1 hne)
    obtain ⟨front, rfl⟩ := getLast?_eq_some_iff.1 hs
    rw [foldlM_enter_concat] at hwalk
    obtain ⟨d, -, henter⟩ := exists_of_bind hwalk
    obtain ⟨rfl, hd, hidle, hup⟩ := h.enter_eq_append henter hb
    have hmem : s ∈ p.segments := mem_of_getLast? (hlast.trans hs)
    refine ⟨d, s, rfl, hd, hlast.trans hs, hidle, hup, fun hc => hnul ?_⟩
    exact any_eq_true.2 ⟨s, hmem, by simpa using hc⟩

/-- What is in a folder is among its entries, along each path that leads to the folder. -/
lemma WellFormed.mem_children (h : tree.WellFormed) {folder : Path} (hd : d ≠ [])
    (hplace : tree.place folder = .ok d) (hentry : tree.get? (d ++ [n]) ≠ none) :
    Path.IsName n ∧ tree.get? d = some .folder ∧
      tree.place (folder.child n) = .ok (d ++ [n]) ∧ folder.child n ∈ tree.children folder := by
  have hfolder : tree.get? d = some .folder := by
    have habove := h.folder_above (by simp) hentry
    rwa [dropLast_concat] at habove
  have hname : Path.IsName n := by
    refine h.isName hentry fun heq => hd ?_
    exact append_inj_left' (heq.trans (nil_append _).symm) rfl
  have hmem : n ∈ tree.namesIn d := by
    refine tree.mem_namesIn.2 ⟨hentry, ?_⟩
    rintro rfl
    exact absurd hname (by decide)
  refine ⟨hname, hfolder, ?_, ?_⟩
  · rw [place_child _ (route?_ne_none hplace) hname, hplace]
    exact enter_of_isName _ hname hfolder
  · rw [children_of_folder hplace hfolder]
    exact mem_map_of_mem (mem_sorted.2 hmem)

end

end FileTree

end TemplateEditing
