import Mathlib.Data.String.Basic
import Mathlib.Tactic.Lemma
import TemplateEditing.Taglib.Html
import TemplateEditing.Taglib.Reading

/-!
# Layers of tag libraries

Laying definitions over each other is associative, one level at a time: the attributes of a tag
(`TagDef.layAttributes_assoc`), tags of one name (`TagDef.merge_assoc`), and tags by name, where
those of different names do not get in each other's way (`Taglib.insertIn_comm`). What this needs is
that a library has its tags in the order of their names, and no two attributes of one name on a tag
(`Taglib.Sound`); all libraries that can be built have this (`Taglib.Built.sound`).

So to add what is read to a library is to read it into a library of its own and to lay that over
the other one (`Taglib.addAll_eq_extend`), and libraries can be laid over each other in any
grouping (`Taglib.extend_assoc`).
-/

namespace TemplateEditing

open List

variable {t : TagDef} {ts : List TagDef} {layer : Taglib}

/-! ## Attributes -/

namespace TagDef

/-- Puts attributes in the stead of those with their names, or behind all others. -/
def layAttributes (lower upper : List AttributeDef) : List AttributeDef :=
  upper.foldl (fun as a => putIn a as) lower

section
variable {a b : AttributeDef} {as : List AttributeDef}

lemma putIn_cons_of_eq (h : b.name = a.name) : putIn a (b :: as) = a :: as := if_pos h

lemma putIn_cons_of_ne (h : b.name ≠ a.name) : putIn a (b :: as) = b :: putIn a as := if_neg h

/-- Putting an attribute in adds its name and no other. -/
lemma mem_names_putIn {name : String} :
    name ∈ (putIn a as).map AttributeDef.name ↔
      name = a.name ∨ name ∈ as.map AttributeDef.name := by
  induction as with
  | nil => simp [putIn]
  | cons b as ih =>
    by_cases heq : b.name = a.name
    · simp [putIn_cons_of_eq heq, heq]
    · rw [putIn_cons_of_ne heq, map_cons, mem_cons, ih, map_cons, mem_cons]
      exact or_left_comm

/-- Putting an attribute in leaves no name twice. -/
lemma nodup_putIn (h : (as.map AttributeDef.name).Nodup) :
    ((putIn a as).map AttributeDef.name).Nodup := by
  induction as with
  | nil => simp [putIn]
  | cons b as ih =>
    rw [map_cons, nodup_cons] at h
    by_cases heq : b.name = a.name
    · rwa [putIn_cons_of_eq heq, map_cons, nodup_cons, ← heq]
    · rw [putIn_cons_of_ne heq, map_cons, nodup_cons, mem_names_putIn]
      exact ⟨not_or.2 ⟨heq, h.1⟩, ih h.2⟩

/-- Of two attributes of one name the second one stays. -/
lemma putIn_putIn (h : a.name = b.name) : putIn b (putIn a as) = putIn b as := by
  induction as with
  | nil => exact putIn_cons_of_eq h
  | cons c as ih =>
    by_cases heq : c.name = a.name
    · rw [putIn_cons_of_eq heq, putIn_cons_of_eq h, putIn_cons_of_eq (heq.trans h)]
    · rw [putIn_cons_of_ne heq, putIn_cons_of_ne (h ▸ heq), putIn_cons_of_ne (h ▸ heq), ih]

/-- An attribute that is there already can be replaced before or after another one is put in. -/
lemma putIn_comm (hne : a.name ≠ b.name) (hmem : b.name ∈ as.map AttributeDef.name) :
    putIn b (putIn a as) = putIn a (putIn b as) := by
  induction as with
  | nil => exact absurd hmem not_mem_nil
  | cons c as ih =>
    by_cases hb : c.name = b.name
    · have ha : c.name ≠ a.name := fun h => hne (h.symm.trans hb)
      rw [putIn_cons_of_ne ha, putIn_cons_of_eq hb, putIn_cons_of_eq hb,
        putIn_cons_of_ne (Ne.symm hne)]
    · rw [map_cons, mem_cons] at hmem
      have hmem := hmem.resolve_left (Ne.symm hb)
      by_cases ha : c.name = a.name
      · rw [putIn_cons_of_eq ha, putIn_cons_of_ne hne, putIn_cons_of_ne hb, putIn_cons_of_eq ha]
      · rw [putIn_cons_of_ne ha, putIn_cons_of_ne hb, ih hmem, putIn_cons_of_ne hb,
          putIn_cons_of_ne ha]

end

/-- An attribute that the upper list lacks can be put in below it. -/
lemma putIn_layAttributes {b : AttributeDef} {lower upper : List AttributeDef}
    (hupper : b.name ∉ upper.map AttributeDef.name)
    (hunder : b.name ∈ lower.map AttributeDef.name) :
    putIn b (layAttributes lower upper) = layAttributes (putIn b lower) upper := by
  induction upper generalizing lower with
  | nil => rfl
  | cons a upper ih =>
    rw [map_cons, mem_cons, not_or] at hupper
    show putIn b (layAttributes (putIn a lower) upper) =
      layAttributes (putIn a (putIn b lower)) upper
    rw [ih hupper.2 (mem_names_putIn.2 (.inr hunder)), putIn_comm (Ne.symm hupper.1) hunder]

/-- An attribute can be put into a layer or over it. -/
lemma layAttributes_putIn (b : AttributeDef) (lower : List AttributeDef) {upper : List AttributeDef}
    (h : (upper.map AttributeDef.name).Nodup) :
    layAttributes lower (putIn b upper) = putIn b (layAttributes lower upper) := by
  induction upper generalizing lower with
  | nil => rfl
  | cons a upper ih =>
    rw [map_cons, nodup_cons] at h
    by_cases heq : a.name = b.name
    · -- no other attribute of the layer has this name
      rw [putIn_cons_of_eq heq]
      show layAttributes (putIn b lower) upper = putIn b (layAttributes (putIn a lower) upper)
      rw [putIn_layAttributes (heq ▸ h.1) (mem_names_putIn.2 (.inl heq.symm)), putIn_putIn heq]
    · rw [putIn_cons_of_ne heq]
      exact ih (putIn a lower) h.2

lemma nodup_layAttributes {lower : List AttributeDef} (upper : List AttributeDef)
    (h : (lower.map AttributeDef.name).Nodup) :
    ((layAttributes lower upper).map AttributeDef.name).Nodup := by
  induction upper generalizing lower with
  | nil => exact h
  | cons a upper ih => exact ih (nodup_putIn h)

/-- Layers of attributes can be grouped either way. -/
lemma layAttributes_assoc (lower : List AttributeDef) {middle : List AttributeDef}
    (upper : List AttributeDef) (h : (middle.map AttributeDef.name).Nodup) :
    layAttributes (layAttributes lower middle) upper =
      layAttributes lower (layAttributes middle upper) := by
  induction upper generalizing middle with
  | nil => rfl
  | cons a upper ih =>
    show layAttributes (putIn a (layAttributes lower middle)) upper =
      layAttributes lower (layAttributes (putIn a middle) upper)
    rw [← ih (nodup_putIn h), layAttributes_putIn a lower h]

/-! ## Tags of one name -/

/-- No two attributes of a tag have the same name. -/
def Sound (t : TagDef) : Prop := (t.attributes.map AttributeDef.name).Nodup

lemma attributes_merge (t later : TagDef) :
    (t.merge later).attributes = layAttributes t.attributes later.attributes := rfl

/-- Merging a later definition keeps a tag sound. -/
lemma Sound.merge (h : t.Sound) (later : TagDef) : (t.merge later).Sound := by
  rw [Sound, attributes_merge]
  exact nodup_layAttributes _ h

lemma Sound.foldl_setAttribute (h : t.Sound) (as : List AttributeDef) :
    (as.foldl setAttribute t).Sound := by
  induction as generalizing t with
  | nil => exact h
  | cons a as ih => exact ih (nodup_putIn h)

end TagDef

lemma TagFiles.orElse_assoc (f g h : TagFiles) :
    (f.orElse g).orElse h = f.orElse (g.orElse h) := by
  simp only [orElse, Option.or_assoc]

/-- Three definitions of a tag, each of which is laid over those before it. -/
lemma TagDef.merge_assoc (t : TagDef) {later : TagDef} (last : TagDef) (h : later.Sound) :
    (t.merge later).merge last = t.merge (later.merge last) := by
  have hattributes : layAttributes (layAttributes t.attributes later.attributes) last.attributes =
      layAttributes t.attributes (layAttributes later.attributes last.attributes) :=
    layAttributes_assoc _ _ h
  have hcompletions :
      (if last.completions.isEmpty then
        if later.completions.isEmpty then t.completions else later.completions
        else last.completions) =
      if (if last.completions.isEmpty then later.completions else last.completions).isEmpty then
        t.completions
      else if last.completions.isEmpty then later.completions else last.completions := by
    cases hlast : last.completions.isEmpty <;> simp [hlast]
  unfold merge
  simp only [mk.injEq, true_and]
  exact ⟨hcompletions, hattributes, (Option.or_assoc ..).symm, (TagFiles.orElse_assoc ..).symm⟩

/-! ## Tags by name -/

namespace Taglib

open TagDef (Sound)

section
variable {a b u : TagDef} {ts : List TagDef}

lemma insertIn_cons_of_lt (h : u.name < a.name) : insertIn a (u :: ts) = u :: insertIn a ts :=
  if_pos h

lemma insertIn_cons_of_eq (h : u.name = a.name) : insertIn a (u :: ts) = u.merge a :: ts := by
  rw [insertIn, if_neg (by simp [h]), if_pos h]

lemma insertIn_cons_of_gt (h : a.name < u.name) : insertIn a (u :: ts) = a :: u :: ts := by
  rw [insertIn, if_neg h.asymm, if_neg h.ne']

/-- Inserting a tag adds its name and no other. -/
lemma mem_names_insertIn {name : String} :
    name ∈ (insertIn a ts).map TagDef.name ↔ name = a.name ∨ name ∈ ts.map TagDef.name := by
  induction ts with
  | nil => simp [insertIn]
  | cons u ts ih =>
    rcases lt_trichotomy u.name a.name with hlt | heq | hgt
    · rw [insertIn_cons_of_lt hlt, map_cons, mem_cons, ih, map_cons, mem_cons]
      exact or_left_comm
    · simp [insertIn_cons_of_eq heq, TagDef.merge, heq]
    · simp [insertIn_cons_of_gt hgt]

/-- Tags with different names can be inserted in either order. -/
lemma insertIn_comm_of_lt (hlt : a.name < b.name) :
    insertIn a (insertIn b ts) = insertIn b (insertIn a ts) := by
  induction ts with
  | nil => rw [insertIn, insertIn_cons_of_gt hlt, insertIn, insertIn_cons_of_lt hlt, insertIn]
  | cons u ts ih =>
    rcases lt_trichotomy u.name a.name with ha | ha | ha
    · rw [insertIn_cons_of_lt (ha.trans hlt), insertIn_cons_of_lt ha, ih, insertIn_cons_of_lt ha,
        insertIn_cons_of_lt (ha.trans hlt)]
    · have hb : u.name < b.name := ha ▸ hlt
      have hmerged : (u.merge a).name < b.name := hb
      rw [insertIn_cons_of_lt hb, insertIn_cons_of_eq ha, insertIn_cons_of_eq ha,
        insertIn_cons_of_lt hmerged]
    · -- the first tag comes before all others, wherever the second one goes
      rw [insertIn_cons_of_gt ha, insertIn_cons_of_lt hlt]
      rcases lt_trichotomy u.name b.name with hb | hb | hb
      · rw [insertIn_cons_of_lt hb, insertIn_cons_of_gt ha]
      · have hmerged : a.name < (u.merge b).name := ha
        rw [insertIn_cons_of_eq hb, insertIn_cons_of_gt hmerged]
      · rw [insertIn_cons_of_gt hb, insertIn_cons_of_gt hlt]

/-- Tags of different names do not get in each other's way. -/
lemma insertIn_comm (hne : a.name ≠ b.name) :
    insertIn a (insertIn b ts) = insertIn b (insertIn a ts) := by
  rcases hne.lt_or_gt with hlt | hgt
  · exact insertIn_comm_of_lt hlt
  · exact (insertIn_comm_of_lt hgt).symm

/-- Two tags of one name can be laid over each other first. -/
lemma insertIn_insertIn (h : a.name = b.name) (ha : a.Sound) :
    insertIn b (insertIn a ts) = insertIn (a.merge b) ts := by
  have hname : (a.merge b).name = a.name := rfl
  induction ts with
  | nil => exact insertIn_cons_of_eq h
  | cons u ts ih =>
    rcases lt_trichotomy u.name a.name with hlt | heq | hgt
    · rw [insertIn_cons_of_lt hlt, insertIn_cons_of_lt (h ▸ hlt), ih,
        insertIn_cons_of_lt (hname ▸ hlt)]
    · have hmerged : (u.merge a).name = b.name := heq.trans h
      rw [insertIn_cons_of_eq heq, insertIn_cons_of_eq hmerged, TagDef.merge_assoc u b ha,
        insertIn_cons_of_eq (heq.trans hname.symm)]
    · rw [insertIn_cons_of_gt hgt, insertIn_cons_of_eq h, insertIn_cons_of_gt (hname ▸ hgt)]

end

/-- Lays tags over those with their names, or puts them at their places in the order of names. -/
def layTags (lower upper : List TagDef) : List TagDef :=
  upper.foldl (fun ts t => insertIn t ts) lower

/-- A tag that the upper layer lacks can be inserted below it. -/
lemma insertIn_layTags {b : TagDef} (lower : List TagDef) {upper : List TagDef}
    (h : b.name ∉ upper.map TagDef.name) :
    insertIn b (layTags lower upper) = layTags (insertIn b lower) upper := by
  induction upper generalizing lower with
  | nil => rfl
  | cons a upper ih =>
    rw [map_cons, mem_cons, not_or] at h
    show insertIn b (layTags (insertIn a lower) upper) =
      layTags (insertIn a (insertIn b lower)) upper
    rw [ih _ h.2, insertIn_comm h.1]

/-! ## Libraries -/

/-- The tags are in the order of their names, and no two attributes of a tag have the same name. -/
structure SoundTags (ts : List TagDef) : Prop where
  ordered : ts.Pairwise fun a b => a.name < b.name
  sound : ∀ t ∈ ts, t.Sound

namespace SoundTags

lemma nil : SoundTags [] := ⟨.nil, by simp⟩

lemma tail (h : SoundTags (t :: ts)) : SoundTags ts :=
  ⟨h.ordered.of_cons, fun u hu => h.sound u (mem_cons_of_mem t hu)⟩

lemma lt_of_mem {t u : TagDef} (h : SoundTags (t :: ts)) (hu : u ∈ ts) :
    t.name < u.name := rel_of_pairwise_cons h.ordered hu

/-- Inserting a sound tag keeps a list sound. -/
lemma insertIn (h : SoundTags ts) {a : TagDef} (ha : a.Sound) :
    SoundTags (insertIn a ts) := by
  induction ts with
  | nil => exact ⟨pairwise_singleton _ _, by simpa [Taglib.insertIn] using ha⟩
  | cons u ts ih =>
    have hu := h.sound u mem_cons_self
    have hts := h.tail
    rcases lt_trichotomy u.name a.name with hlt | heq | hgt
    · rw [insertIn_cons_of_lt hlt]
      refine ⟨pairwise_cons.2 ⟨fun t ht => ?_, (ih hts).ordered⟩,
        forall_mem_cons.2 ⟨hu, (ih hts).sound⟩⟩
      have hname : t.name ∈ (Taglib.insertIn a ts).map TagDef.name := mem_map_of_mem ht
      rcases mem_names_insertIn.1 hname with hname | hname
      · exact hname ▸ hlt
      · obtain ⟨v, hv, hsame⟩ := mem_map.1 hname
        exact hsame ▸ h.lt_of_mem hv
    · rw [insertIn_cons_of_eq heq]
      exact ⟨pairwise_cons.2 ⟨fun t ht => h.lt_of_mem ht, hts.ordered⟩,
        forall_mem_cons.2 ⟨hu.merge a, hts.sound⟩⟩
    · rw [insertIn_cons_of_gt hgt]
      refine ⟨pairwise_cons.2 ⟨fun t ht => ?_, h.ordered⟩,
        forall_mem_cons.2 ⟨ha, h.sound⟩⟩
      rcases mem_cons.1 ht with rfl | ht
      · exact hgt
      · exact hgt.trans (h.lt_of_mem ht)

/-- Laying sound tags over a sound list keeps it sound. -/
lemma layTags {lower upper : List TagDef} (h : SoundTags lower) (hupper : ∀ t ∈ upper, t.Sound) :
    SoundTags (layTags lower upper) := by
  induction upper generalizing lower with
  | nil => exact h
  | cons a upper ih =>
    rw [forall_mem_cons] at hupper
    exact ih (h.insertIn hupper.1) hupper.2

end SoundTags

/-- A tag can be added to a layer or over it. -/
lemma layTags_insertIn (b : TagDef) (lower : List TagDef) {upper : List TagDef}
    (h : SoundTags upper) :
    layTags lower (insertIn b upper) = insertIn b (layTags lower upper) := by
  induction upper generalizing lower with
  | nil => rfl
  | cons a upper ih =>
    have ha := h.sound a mem_cons_self
    rcases lt_trichotomy a.name b.name with hlt | heq | hgt
    · rw [insertIn_cons_of_lt hlt]
      exact ih (insertIn a lower) h.tail
    · -- no other tag of the layer has this name
      have hfree : b.name ∉ upper.map TagDef.name := by
        intro hmem
        obtain ⟨t, ht, hsame⟩ := mem_map.1 hmem
        exact (h.lt_of_mem ht).ne (heq.trans hsame.symm)
      rw [insertIn_cons_of_eq heq]
      show layTags (insertIn (a.merge b) lower) upper =
        insertIn b (layTags (insertIn a lower) upper)
      rw [insertIn_layTags _ hfree, insertIn_insertIn heq ha]
    · have hfree : b.name ∉ (a :: upper).map TagDef.name := by
        intro hmem
        obtain ⟨t, ht, hsame⟩ := mem_map.1 hmem
        rcases mem_cons.1 ht with rfl | ht
        · exact hgt.ne' hsame
        · exact (hgt.trans (h.lt_of_mem ht)).ne' hsame
      rw [insertIn_cons_of_gt hgt, insertIn_layTags _ hfree]
      rfl

/-- Layers of tags can be grouped either way. -/
lemma layTags_assoc (lower : List TagDef) {middle upper : List TagDef} (hmiddle : SoundTags middle)
    (hupper : ∀ t ∈ upper, t.Sound) :
    layTags (layTags lower middle) upper = layTags lower (layTags middle upper) := by
  induction upper generalizing middle with
  | nil => rfl
  | cons a upper ih =>
    rw [forall_mem_cons] at hupper
    show layTags (insertIn a (layTags lower middle)) upper =
      layTags lower (layTags (insertIn a middle) upper)
    rw [← ih (hmiddle.insertIn hupper.1) hupper.2, layTags_insertIn a lower hmiddle]

end Taglib

/-! ## What is read -/

namespace TaglibReading

/-- No tag that was found has two attributes of the same name. -/
def Sound (r : TaglibReading) : Prop := ∀ t, .tag t ∈ r.items → t.Sound

lemma sound_nil (error : Option TaglibError) : Sound ⟨[], error⟩ := by simp [Sound]

lemma sound_ofTag (h : t.Sound) : (ofTag t).Sound := by simpa [Sound, ofTag] using h

/-- Sound readings one after the other are sound. -/
lemma sound_concat {rs : List TaglibReading} (h : ∀ r ∈ rs, r.Sound) : (concat rs).Sound := by
  induction rs with
  | nil => exact sound_nil none
  | cons r rs ih =>
    rw [forall_mem_cons] at h
    rw [concat]
    split
    · exact h.1
    · intro t ht
      rcases mem_append.1 ht with ht | ht
      · exact h.1 t ht
      · exact ih h.2 t ht

lemma sound_ofExcept {α : Type} {f : α → TaglibReading} (h : ∀ a, (f a).Sound)
    (x : Except TaglibError α) : (ofExcept f x).Sound := by
  cases x with
  | ok a => exact h a
  | error e => exact sound_nil (some e)

lemma sound_ofTagFile (tree : FileTree) (file : Path) {tag : JsonFields → TagDef}
    (h : ∀ fields, (tag fields).Sound) : (ofTagFile tree file tag).Sound :=
  sound_ofExcept (fun fields => by simpa [Sound] using h fields) _

end TaglibReading

/-- Without attributes there are no two of the same name. -/
lemma TagDef.sound_of_nil (h : t.attributes = []) : t.Sound := by
  rw [Sound, h]
  exact nodup_nil

lemma TagDef.sound_ofJson (name : String) (fields : JsonFields) (file : Path) :
    (ofJson name fields file).Sound :=
  Sound.foldl_setAttribute (sound_of_nil rfl) _

namespace TaglibReading

open TagDef (sound_of_nil sound_ofJson)

variable (tree : FileTree)

/-- An entry of a tags folder reads as sound tags. -/
lemma sound_ofEntry (entry : Path) : (ofEntry tree entry).Sound := by
  unfold ofEntry
  split
  · split
    · exact sound_nil none
    · dsimp only
      split
      · exact sound_ofTagFile tree _ fun fields => sound_ofJson _ fields _
      split
      · exact sound_ofTag (sound_of_nil rfl)
      · exact sound_nil none
  · split
    · split
      · exact sound_ofTag (sound_of_nil rfl)
      · exact sound_nil none
    · exact sound_nil none

/-- A tags folder reads as sound tags. -/
lemma sound_ofFolder (folder : Path) : (ofFolder tree folder).Sound := by
  unfold ofFolder
  split
  · exact sound_concat (forall_mem_map.2 fun entry _ => sound_ofEntry tree entry)
  · exact sound_nil none
  · exact sound_nil _

lemma sound_ofTagValue (name : String) (value : JsonValue) (file : Path) :
    (ofTagValue tree name value file).Sound := by
  unfold ofTagValue
  split
  · exact sound_ofTag (sound_ofJson name _ file)
  · dsimp only
    split
    · exact sound_ofTagFile tree _ fun fields => sound_ofJson name fields _
    split <;> exact sound_ofTag (sound_of_nil rfl)
  · exact sound_nil none

/-- Every field of a library file reads as sound tags. -/
lemma sound_ofField (file : Path) (key : String) (value : JsonValue) :
    (ofField tree file key value).Sound := by
  unfold ofField
  split
  · exact sound_ofTagValue tree _ value file
  split
  · split
    · exact sound_concat (forall_mem_map.2 fun x _ => sound_ofTagValue tree x.1 x.2 file)
    · exact sound_nil none
  split
  · exact sound_concat (forall_mem_map.2 fun folder _ => sound_ofFolder tree _)
  · exact sound_nil none

lemma sound_ofText (text : Text) (file : Path) : (ofText tree text file).Sound := by
  refine sound_ofExcept (fun fields => sound_concat (forall_mem_cons.2 ⟨?_, ?_⟩)) _
  · simp [Sound]
  · exact forall_mem_map.2 fun x _ => sound_ofField tree file x.1 x.2

lemma sound_ofFile (file : Path) : (ofFile tree file).Sound :=
  sound_ofExcept (fun text => sound_ofText tree text file) _

end TaglibReading

/-! ## Libraries -/

namespace Taglib

/-- The tags of a library are in order and have no two attributes of the same name. -/
def Sound (lib : Taglib) : Prop := SoundTags lib.tags

/-- Inserting tags one by one lays them as a layer. -/
lemma foldl_insert_eq (ts : List TagDef) (lib : Taglib) :
    ts.foldl insert lib = { lib with tags := layTags lib.tags ts } := by
  induction ts generalizing lib with
  | nil => rfl
  | cons t ts ih => exact ih (lib.insert t)

/-- A library with the tags of another one laid over its own, and its sources behind. -/
lemma extend_eq (lib other : Taglib) :
    lib.extend other = ⟨layTags lib.tags other.tags, lib.sources ++ other.sources⟩ :=
  foldl_insert_eq _ _

lemma extend_empty (lib : Taglib) : lib.extend {} = lib := by
  rw [extend_eq, append_nil]
  rfl

lemma sound_empty : Sound {} := .nil

lemma Sound.foldl_insert {lib : Taglib} (h : lib.Sound) (hts : ∀ t ∈ ts, t.Sound) :
    (ts.foldl insert lib).Sound := by
  rw [foldl_insert_eq]
  exact h.layTags hts

/-- A sound library extended by a sound one is sound. -/
lemma Sound.extend {lib other : Taglib} (h : lib.Sound) (hother : other.Sound) :
    (lib.extend other).Sound := by
  rw [Sound, extend_eq]
  exact h.layTags hother.sound

/-- A tag or a source can be added to a layer or over it. -/
lemma extend_add (lib : Taglib) (h : layer.Sound) (item : TaglibItem) :
    lib.extend (layer.add item) = (lib.extend layer).add item := by
  cases item with
  | source p =>
    rw [extend_eq, extend_eq, add, add, ← append_assoc]
  | tag t =>
    rw [extend_eq, extend_eq, add, add, insert, insert, layTags_insertIn t lib.tags h]

lemma Sound.add (h : layer.Sound) {item : TaglibItem}
    (hitem : ∀ t, item = .tag t → t.Sound) : (layer.add item).Sound := by
  cases item with
  | source p => exact h
  | tag t => exact h.insertIn (hitem t rfl)

lemma Sound.addAll (h : layer.Sound) {r : TaglibReading} (hr : r.Sound) :
    (layer.addAll r).Sound := by
  obtain ⟨items, error⟩ := r
  induction items generalizing layer with
  | nil => exact h
  | cons item items ih =>
    refine ih (h.add ?_) fun t ht => hr t (mem_cons_of_mem item ht)
    rintro t rfl
    exact hr t mem_cons_self

/-- What was read can be added to a layer or over it. -/
lemma extend_addAll (lib : Taglib) (h : layer.Sound) {r : TaglibReading}
    (hr : r.Sound) : lib.extend (layer.addAll r) = (lib.extend layer).addAll r := by
  obtain ⟨items, error⟩ := r
  induction items generalizing layer with
  | nil => rfl
  | cons item items ih =>
    have hitem : ∀ t, item = .tag t → t.Sound := by
      rintro t rfl
      exact hr t mem_cons_self
    have hrest := ih (h.add hitem) fun t ht => hr t (mem_cons_of_mem item ht)
    rw [extend_add lib h] at hrest
    exact hrest

/-- To add what was read is to add it to an empty library and to lay that over the other one. -/
lemma addAll_eq_extend (lib : Taglib) {r : TaglibReading} (hr : r.Sound) :
    lib.addAll r = lib.extend (({} : Taglib).addAll r) := by
  rw [extend_addAll lib sound_empty hr, extend_empty]

/-- Libraries can be laid over each other in either grouping. -/
lemma extend_assoc (lib : Taglib) {upper last : Taglib} (hupper : upper.Sound)
    (hlast : last.Sound) :
    (lib.extend upper).extend last = lib.extend (upper.extend last) := by
  simp only [extend_eq]
  rw [layTags_assoc lib.tags hupper hlast.sound, append_assoc]

/-- The libraries that can be built from HTML, texts, files, folders and other libraries. What was
read before an error stays. -/
inductive Built : Taglib → Prop
  | empty : Built {}
  | html : Built Taglib.html
  | text {lib : Taglib} (tree : FileTree) (text : Text) (file : Path) :
      Built lib → Built (lib.loadText tree text file).1
  | file {lib : Taglib} (tree : FileTree) (file : Path) :
      Built lib → Built (lib.loadFile tree file).1
  | folder {lib : Taglib} (tree : FileTree) (folder : Path) :
      Built lib → Built (lib.loadFolder tree folder).1
  | extend {lib other : Taglib} : Built lib → Built other → Built (lib.extend other)

lemma sound_html : Sound html := by
  have htag : ∀ openTagOnly name, (Html.tagDef openTagOnly name).Sound := fun _ _ =>
    TagDef.Sound.foldl_setAttribute (TagDef.sound_of_nil rfl) _
  -- the attributes of all tags are put there at once, so that their table must not repeat a name
  have hglobal : Html.globalTag.Sound :=
    TagDef.Sound.foldl_setAttribute (by unfold TagDef.Sound; decide +kernel) _
  have hall : ∀ t ∈ Html.contentTags.map (Html.tagDef false) ++
      Html.voidTags.map (Html.tagDef true) ++ [Html.globalTag], t.Sound := by
    intro t ht
    simp only [mem_append, mem_map, mem_singleton] at ht
    rcases ht with (⟨name, -, rfl⟩ | ⟨name, -, rfl⟩) | rfl
    · exact htag false name
    · exact htag true name
    · exact hglobal
  rw [html]
  exact sound_empty.foldl_insert hall

/-- What one step of building a library keeps holds of all libraries that can be built. -/
lemma Built.sound {lib : Taglib} (h : lib.Built) : lib.Sound := by
  induction h with
  | empty => exact sound_empty
  | html => exact sound_html
  | text tree text file _ ih => exact ih.addAll (TaglibReading.sound_ofText tree text file)
  | file tree file _ ih => exact ih.addAll (TaglibReading.sound_ofFile tree file)
  | folder tree folder _ ih => exact ih.addAll (TaglibReading.sound_ofFolder tree folder)
  | extend _ _ ih ihother => exact ih.extend ihother

/-- **Layers can be grouped in any way.** To load a text into a library is to load it into an empty
one and to lay that over the library, also if the text cannot be read to its end; and libraries that
can be built give the same whether the third is laid over the second or over both. -/
theorem extend_layers (tree : FileTree) (lib : Taglib) :
    (∀ (text : Text) (file : Path) (layer : Taglib) (error : Option TaglibError),
      ({} : Taglib).loadText tree text file = (layer, error) →
      lib.loadText tree text file = (lib.extend layer, error)) ∧
    ∀ upper last : Taglib, upper.Built → last.Built →
      (lib.extend upper).extend last = lib.extend (upper.extend last) := by
  refine ⟨fun text file layer error hload => ?_, fun upper last hupper hlast => ?_⟩
  · obtain ⟨rfl, rfl⟩ := Prod.mk.inj hload
    exact Prod.ext (addAll_eq_extend lib (TaglibReading.sound_ofText tree text file)) rfl
  · exact extend_assoc lib hupper.sound hlast.sound

/-- A library that defines a tag of HTML twice. -/
def sampleText : Text :=
  ("\x7b\"<b>\":\x7b\"@k\":\"string\",\"@l\":\"number\",\"html\":true\x7d," ++
    "\"tags\":\x7b\"b\":\x7b\"@k\":\"boolean\"\x7d\x7d\x7d").toList

/-- What the text says on its own. -/
def sampleLayer : Taglib := (({} : Taglib).loadText {} sampleText (.ofString "m.json")).1

theorem extend_layers_sampleLayer :
    ({} : Taglib).loadText {} sampleText (.ofString "m.json") = (sampleLayer, none) ∧
      sampleLayer.tags.map (fun t => (t.name, t.html, t.attributes.map (·.name))) =
        [("b", false, ["k", "l"])] ∧
      html.loadText {} sampleText (.ofString "m.json") = (html.extend sampleLayer, none) ∧
      (html.extend sampleLayer).extend html = html.extend (sampleLayer.extend html) := by
  have hload : ({} : Taglib).loadText {} sampleText (.ofString "m.json") = (sampleLayer, none) :=
    Prod.ext rfl (by decide +kernel)
  obtain ⟨htext, hassoc⟩ := extend_layers {} html
  exact ⟨hload, by decide +kernel, htext sampleText _ sampleLayer none hload,
    hassoc sampleLayer html (.text {} sampleText _ .empty) .html⟩

end Taglib

end TemplateEditing
