import TemplateEditing.Proofs.Taglib.Layers

/-!
# The attributes of a tag

What may be used on a tag is told in two ways: as the list of its attributes and those of all tags
(`Taglib.attributesOf`), and by name (`Taglib.attribute?`). In a library in which no two tags and no
two attributes of a tag have the same name, finding by name is being listed with that name
(`find?_name_eq_some_iff`), and the two ways agree: the list leaves out just those attributes of all
tags that the search by name does not get to.
-/

namespace TemplateEditing

open List

variable {t : TagDef} {a : AttributeDef}

/-- Where names do not repeat, what is found under a name is what is there and has that name. -/
lemma find?_name_eq_some_iff {α : Type} {key : α → String} {l : List α} (h : (l.map key).Nodup)
    {name : String} {a : α} : l.find? (key · == name) = some a ↔ a ∈ l ∧ key a = name := by
  constructor
  · intro hfind
    exact ⟨mem_of_find?_eq_some hfind, by simpa using find?_some hfind⟩
  · rintro ⟨hmem, hname⟩
    induction l with
    | nil => exact absurd hmem not_mem_nil
    | cons b l ih =>
      rw [map_cons, nodup_cons] at h
      rcases mem_cons.1 hmem with rfl | hmem
      · exact find?_cons_of_pos (by simpa using hname)
      · have hne : key b ≠ name := by
          rintro rfl
          exact h.1 (hname ▸ mem_map_of_mem hmem)
        rw [find?_cons_of_neg (by simpa using hne)]
        exact ih h.2 hmem

lemma TagDef.Sound.attribute?_eq_some_iff (h : t.Sound) {name : String} :
    t.attribute? name = some a ↔ a ∈ t.attributes ∧ a.name = name :=
  find?_name_eq_some_iff h

namespace Taglib

variable {lib : Taglib} {tagName name : String}

lemma Sound.nodup_names (h : lib.Sound) : (lib.tags.map TagDef.name).Nodup :=
  pairwise_map.2 (h.ordered.imp fun hlt => hlt.ne)

lemma Sound.tag?_eq_some_iff (h : lib.Sound) :
    lib.tag? name = some t ↔ t ∈ lib.tags ∧ t.name = name :=
  find?_name_eq_some_iff h.nodup_names

/-- A tag that is found has no two attributes of the same name. -/
lemma Sound.sound_of_tag? (h : lib.Sound) (ht : lib.tag? name = some t) : t.Sound :=
  h.sound t (h.tag?_eq_some_iff.1 ht).1

/-! ## The list -/

/-- The attributes of a tag itself, with the tag. -/
def ownAttributes (lib : Taglib) (tagName : String) : List (AttributeDef × TagDef) :=
  match lib.tag? tagName with
  | some t => t.attributes.map (·, t)
  | none => []

/-- The attributes of all tags that a tag does not declare anew. -/
def sharedAttributes (lib : Taglib) (tagName : String) : List (AttributeDef × TagDef) :=
  match lib.globalTag? with
  | some g =>
    (g.attributes.filter fun a => ((lib.tag? tagName).bind (·.attribute? a.name)).isNone).map (·, g)
  | none => []

lemma attributesOf_eq_append (lib : Taglib) (tagName : String) :
    lib.attributesOf tagName = lib.ownAttributes tagName ++ lib.sharedAttributes tagName := rfl

lemma mem_ownAttributes :
    (a, t) ∈ lib.ownAttributes tagName ↔ lib.tag? tagName = some t ∧ a ∈ t.attributes := by
  unfold ownAttributes
  cases lib.tag? tagName with
  | none => simp
  | some u =>
    simp only [mem_map, Prod.mk.injEq, Option.some.injEq]
    constructor
    · rintro ⟨b, hb, rfl, rfl⟩
      exact ⟨rfl, hb⟩
    · rintro ⟨rfl, ha⟩
      exact ⟨a, ha, rfl, rfl⟩

lemma mem_sharedAttributes :
    (a, t) ∈ lib.sharedAttributes tagName ↔
      lib.globalTag? = some t ∧ a ∈ t.attributes ∧
        (lib.tag? tagName).bind (·.attribute? a.name) = none := by
  unfold sharedAttributes
  cases lib.globalTag? with
  | none => simp
  | some g =>
    simp only [mem_map, mem_filter, Option.isNone_iff_eq_none, Prod.mk.injEq,
      Option.some.injEq]
    constructor
    · rintro ⟨b, hb, rfl, rfl⟩
      exact ⟨rfl, hb⟩
    · rintro ⟨rfl, ha⟩
      exact ⟨a, ha, rfl, rfl⟩

lemma nodup_ownAttributes (h : lib.Sound) :
    ((lib.ownAttributes tagName).map (·.1.name)).Nodup := by
  unfold ownAttributes
  cases ht : lib.tag? tagName with
  | none => exact nodup_nil
  | some t =>
    rw [map_map]
    exact h.sound_of_tag? ht

lemma nodup_sharedAttributes (h : lib.Sound) :
    ((lib.sharedAttributes tagName).map (·.1.name)).Nodup := by
  unfold sharedAttributes
  cases hg : lib.globalTag? with
  | none => exact nodup_nil
  | some g =>
    rw [map_map]
    exact (h.sound_of_tag? hg).sublist (filter_sublist.map AttributeDef.name)

/-- No two attributes in the list have the same name: those of all tags are left out where the tag
has one of that name. -/
lemma nodup_attributesOf (h : lib.Sound) :
    ((lib.attributesOf tagName).map (·.1.name)).Nodup := by
  rw [attributesOf_eq_append, map_append, nodup_append]
  refine ⟨nodup_ownAttributes h, nodup_sharedAttributes h, ?_⟩
  intro own hown shared hshared heq
  obtain ⟨⟨a, t⟩, ha, rfl⟩ := mem_map.1 hown
  obtain ⟨⟨b, g⟩, hb, rfl⟩ := mem_map.1 hshared
  obtain ⟨ht, ha⟩ := mem_ownAttributes.1 ha
  obtain ⟨-, -, hnone⟩ := mem_sharedAttributes.1 hb
  have hfound : t.attribute? b.name = some a :=
    (h.sound_of_tag? ht).attribute?_eq_some_iff.2 ⟨ha, heq⟩
  rw [ht, Option.bind_some, hfound] at hnone
  cases hnone

/-! ## The search by name -/

/-- The search by name finds what is in the list. -/
lemma attribute?_eq_some_iff (h : lib.Sound) :
    lib.attribute? tagName name = some a ↔
      a.name = name ∧ ∃ t, (a, t) ∈ lib.attributesOf tagName := by
  have hsearch : ∀ {key : String} {b : AttributeDef},
      (lib.tag? key).bind (·.attribute? name) = some b ↔
        ∃ t, lib.tag? key = some t ∧ b ∈ t.attributes ∧ b.name = name := by
    intro key b
    rw [Option.bind_eq_some_iff]
    refine exists_congr fun t => and_congr_right fun ht => ?_
    exact (h.sound_of_tag? ht).attribute?_eq_some_iff
  simp only [attributesOf_eq_append, mem_append, mem_ownAttributes, mem_sharedAttributes]
  rw [attribute?, Option.or_eq_some_iff, hsearch, globalTag?, hsearch]
  constructor
  · rintro (⟨t, ht, ha, hname⟩ | ⟨hnone, g, hg, ha, hname⟩)
    · exact ⟨hname, t, .inl ⟨ht, ha⟩⟩
    · exact ⟨hname, g, .inr ⟨hg, ha, hname ▸ hnone⟩⟩
  · rintro ⟨hname, t, ⟨ht, ha⟩ | ⟨hg, ha, hnone⟩⟩
    · exact .inl ⟨t, ht, ha, hname⟩
    · exact .inr ⟨hname ▸ hnone, t, hg, ha, hname⟩

/-- The attributes of the tag itself come first. -/
lemma pairwise_attributesOf (lib : Taglib) (tagName : String) :
    (lib.attributesOf tagName).Pairwise fun x y =>
      lib.tag? tagName = some y.2 → lib.tag? tagName = some x.2 := by
  rw [attributesOf_eq_append, pairwise_append]
  refine ⟨?_, ?_, ?_⟩
  · exact pairwise_of_forall_mem_list fun x hx y _ _ => (mem_ownAttributes.1 hx).1
  · refine pairwise_of_forall_mem_list fun x hx y hy hown => ?_
    have hx := (mem_sharedAttributes.1 hx).1
    have hy := (mem_sharedAttributes.1 hy).1
    rw [hown, ← hy, hx]
  · exact fun x hx y _ _ => (mem_ownAttributes.1 hx).1

/-- **The list and the search by name agree.** In every library that can be built a tag is found
under a name exactly if it is there and has that name, no two tags and no two attributes of a tag
have the same name; and for every tag name the list has no two attributes of the same name, an
attribute is found by its name exactly if it is in the list, each stands there with the tag that
declares it, and those of the tag itself come before those of all tags. -/
theorem attribute?_iff_listed (h : lib.Built) :
    (lib.tags.map (·.name)).Nodup ∧
    (∀ name t, lib.tag? name = some t ↔ t ∈ lib.tags ∧ t.name = name) ∧
    (∀ t ∈ lib.tags, (t.attributes.map (·.name)).Nodup) ∧
    ∀ tagName,
      ((lib.attributesOf tagName).map (·.1.name)).Nodup ∧
      (∀ name a, lib.attribute? tagName name = some a ↔
        a.name = name ∧ ∃ t, (a, t) ∈ lib.attributesOf tagName) ∧
      (∀ x ∈ lib.attributesOf tagName, x.1 ∈ x.2.attributes ∧
        (lib.tag? tagName = some x.2 ∨ lib.globalTag? = some x.2)) ∧
      (lib.attributesOf tagName).Pairwise fun x y =>
        lib.tag? tagName = some y.2 → lib.tag? tagName = some x.2 := by
  have hsound := h.sound
  refine ⟨hsound.nodup_names, fun _ _ => hsound.tag?_eq_some_iff, hsound.sound, fun tagName =>
    ⟨nodup_attributesOf hsound, fun _ _ => attribute?_eq_some_iff hsound, ?_,
      pairwise_attributesOf lib tagName⟩⟩
  intro x hx
  rw [attributesOf_eq_append, mem_append] at hx
  rcases hx with hx | hx
  · obtain ⟨ht, ha⟩ := mem_ownAttributes.1 hx
    exact ⟨ha, .inl ht⟩
  · obtain ⟨hg, ha, -⟩ := mem_sharedAttributes.1 hx
    exact ⟨ha, .inr hg⟩

/-- A tag that declares an attribute twice, which is declared for all tags, too. -/
def sampleShadow : Taglib :=
  (({} : Taglib).loadText {}
    ("\x7b\"<*>\":\x7b\"@k\":\"any\",\"@m\":\"any\"\x7d,\"<u>\":\x7b\"@k\":\"string\"," ++
      "\"attributes\":\x7b\"@k\":\"number\",\"l\":\"string\"\x7d\x7d\x7d").toList
    (.ofString "m.json")).1

theorem attribute?_iff_listed_sampleShadow :
    sampleShadow.Built ∧
      (sampleShadow.attributesOf "u").map (fun x => (x.1.name, x.1.valueType, x.2.name)) =
        [("k", some "number", "u"), ("l", some "string", "u"), ("m", some "any", "*")] ∧
      (sampleShadow.attributesOf "*").map (fun x => (x.1.name, x.1.valueType, x.2.name)) =
        [("k", some "any", "*"), ("m", some "any", "*")] ∧
      ∀ a, sampleShadow.attribute? "u" "k" = some a ↔
        a.name = "k" ∧ ∃ t, (a, t) ∈ sampleShadow.attributesOf "u" := by
  have hbuilt : sampleShadow.Built := .text {} _ _ .empty
  obtain ⟨-, -, -, hlisted⟩ := attribute?_iff_listed hbuilt
  exact ⟨hbuilt, by decide +kernel, by decide +kernel, (hlisted "u").2.1 "k"⟩

end Taglib

end TemplateEditing
