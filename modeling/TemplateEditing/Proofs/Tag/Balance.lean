import TemplateEditing.Proofs.Tag.Scans
import TemplateEditing.Tag.Partner

/-!
# Partners in any text

A search for a partner ends at the first tag that it meets with all elements closed that were opened
since (`balancingTag?_eq_some_iff`). What lies between two such tags is balanced, from either end
(`Balanced.reverse`), and a scan backwards finds the tags that a scan forwards finds. So also in a
text that is no well-formed markup the partner of a tag's partner is the tag itself, and the elements
that partners enclose do not cross (`Document.partner?_paired`).
-/

namespace TemplateEditing

open List

/-! ## Heights -/

/-- How much deeper a search is behind a tag than before it. -/
def TagSpan.rise (outer inner : TagKind) (s : TagSpan) : Int :=
  if s.kind = outer then 1 else if s.kind = inner then -1 else 0

/-- How much deeper a search is behind tags than before them. -/
def height (outer inner : TagKind) (spans : List TagSpan) : Int :=
  spans.foldr (fun s height => s.rise outer inner + height) 0

section
variable {outer inner : TagKind}

@[simp] lemma height_nil : height outer inner [] = 0 := rfl

@[simp] lemma height_cons (s : TagSpan) (spans : List TagSpan) :
    height outer inner (s :: spans) = s.rise outer inner + height outer inner spans := rfl

@[simp] lemma height_append (a b : List TagSpan) :
    height outer inner (a ++ b) = height outer inner a + height outer inner b := by
  induction a with
  | nil => simp
  | cons s a ih => rw [cons_append, height_cons, height_cons, ih, Int.add_assoc]

@[simp] lemma height_reverse (spans : List TagSpan) :
    height outer inner spans.reverse = height outer inner spans := by
  induction spans with
  | nil => rfl
  | cons s spans ih =>
    rw [reverse_cons, height_append, ih, height_cons, height_cons, height_nil, Int.add_zero,
      Int.add_comm]

/-- In the other direction a search rises where it fell. -/
lemma height_swap (hne : outer ≠ inner) (spans : List TagSpan) :
    height inner outer spans = -height outer inner spans := by
  induction spans with
  | nil => rfl
  | cons s spans ih =>
    have hrise : s.rise inner outer = -s.rise outer inner := by
      unfold TagSpan.rise
      by_cases houter : s.kind = outer
      · have hinner : s.kind ≠ inner := fun h => hne (houter.symm.trans h)
        rw [if_neg hinner, if_pos houter, if_pos houter]
      · rw [if_neg houter, if_neg houter]
        split <;> rfl
    rw [height_cons, height_cons, ih, hrise]
    omega

/-- Behind these tags a search is `n` less deep, and not less deep than that before. -/
def Falls (outer inner : TagKind) (n : Int) (spans : List TagSpan) : Prop :=
  height outer inner spans = -n ∧ ∀ front, front <+: spans → -n ≤ height outer inner front

lemma falls_nil {n : Int} : Falls outer inner n [] ↔ n = 0 := by
  constructor
  · rintro ⟨hheight, -⟩
    rw [height_nil] at hheight
    omega
  · rintro rfl
    refine ⟨rfl, fun front hfront => ?_⟩
    obtain rfl := prefix_nil.1 hfront
    exact Int.le_of_eq rfl

lemma falls_cons {n : Int} {s : TagSpan} {spans : List TagSpan} :
    Falls outer inner n (s :: spans) ↔
      0 ≤ n ∧ Falls outer inner (n + s.rise outer inner) spans := by
  constructor
  · rintro ⟨hheight, hfront⟩
    have hnil := hfront [] List.nil_prefix
    rw [height_nil] at hnil
    rw [height_cons] at hheight
    refine ⟨by omega, by omega, fun front hprefix => ?_⟩
    have := hfront (s :: front) (cons_prefix_cons.2 ⟨rfl, hprefix⟩)
    rw [height_cons] at this
    omega
  · rintro ⟨hn, hheight, hfront⟩
    refine ⟨by rw [height_cons]; omega, fun front hprefix => ?_⟩
    rcases prefix_cons_iff.1 hprefix with rfl | ⟨front, rfl, hlater⟩
    · rw [height_nil]
      omega
    · have := hfront front hlater
      rw [height_cons]
      omega

/-- Where a search ends: at a tag that ends an element, with all other elements ended before. -/
lemma balancingTag?_eq_some_iff (hne : outer ≠ inner) {n : Nat} {spans : List TagSpan}
    {t : TagSpan} :
    balancingTag? outer inner (n + 1) spans = some t ↔
      ∃ seen rest, spans = seen ++ t :: rest ∧ t.kind = inner ∧ Falls outer inner n seen := by
  induction spans generalizing n with
  | nil => simp [balancingTag?]
  | cons s spans ih =>
    -- the tag found is the first one, or the search goes on behind it
    have hsplit : (∃ seen rest, s :: spans = seen ++ t :: rest ∧ t.kind = inner ∧
          Falls outer inner n seen) ↔
        s = t ∧ t.kind = inner ∧ n = 0 ∨
          ∃ seen rest, spans = seen ++ t :: rest ∧ t.kind = inner ∧
            Falls outer inner (n + s.rise outer inner) seen := by
      constructor
      · rintro ⟨seen, rest, hspans, hkind, hfalls⟩
        cases seen with
        | nil =>
          rw [falls_nil] at hfalls
          exact .inl ⟨(List.cons.inj hspans).1, hkind, by omega⟩
        | cons u seen =>
          obtain ⟨rfl, hlater⟩ := List.cons.inj hspans
          exact .inr ⟨seen, rest, hlater, hkind, (falls_cons.1 hfalls).2⟩
      · rintro (⟨rfl, hkind, rfl⟩ | ⟨seen, rest, rfl, hkind, hfalls⟩)
        · exact ⟨[], spans, rfl, hkind, falls_nil.2 rfl⟩
        · exact ⟨s :: seen, rest, rfl, hkind, falls_cons.2 ⟨by omega, hfalls⟩⟩
    rw [hsplit, balancingTag?]
    by_cases houter : s.kind = outer
    · have hrise : s.rise outer inner = 1 := if_pos houter
      rw [if_pos houter, ih, hrise]
      constructor
      · exact .inr
      · rintro (⟨rfl, hkind, -⟩ | hlater)
        · exact absurd (houter.symm.trans hkind) hne
        · exact hlater
    · rw [if_neg houter]
      by_cases hinner : s.kind = inner
      · have hrise : s.rise outer inner = -1 := by
          rw [TagSpan.rise, if_neg houter, if_pos hinner]
        rw [if_pos hinner, hrise]
        cases n with
        | zero =>
          -- a search does not go on below the elements that it started with
          rw [if_pos (Nat.le_refl 1), Option.some.injEq]
          constructor
          · rintro rfl
            exact .inl ⟨rfl, hinner, rfl⟩
          · rintro (⟨rfl, -, -⟩ | ⟨seen, rest, -, -, -, hfront⟩)
            · rfl
            · have := hfront [] List.nil_prefix
              rw [height_nil] at this
              omega
        | succ n =>
          rw [if_neg (by omega), Nat.add_sub_cancel, ih,
            show ((n + 1 : Nat) : Int) + -1 = n by omega]
          constructor
          · exact .inr
          · rintro (⟨-, -, hzero⟩ | hlater)
            · omega
            · exact hlater
      · have hrise : s.rise outer inner = 0 := by
          rw [TagSpan.rise, if_neg houter, if_neg hinner]
        rw [if_neg hinner, ih, hrise, Int.add_zero]
        constructor
        · exact .inr
        · rintro (⟨rfl, hkind, -⟩ | hlater)
          · exact absurd hkind hinner
          · exact hlater

/-- All elements that start in these tags end in them, and the other way round. -/
def Balanced (outer inner : TagKind) (spans : List TagSpan) : Prop := Falls outer inner 0 spans

/-- Tags are balanced from either end. -/
lemma Balanced.reverse (hne : outer ≠ inner) {spans : List TagSpan}
    (h : Balanced outer inner spans) : Balanced inner outer spans.reverse := by
  obtain ⟨hheight, hfront⟩ := h
  refine ⟨by rw [height_reverse, height_swap hne, hheight]; rfl, ?_⟩
  rintro back ⟨front, hback⟩
  have hspans : spans = front.reverse ++ back.reverse := by
    rw [← reverse_append, hback, reverse_reverse]
  have hle := hfront front.reverse ⟨back.reverse, hspans.symm⟩
  rw [hspans, height_append, height_reverse] at hheight
  rw [height_reverse] at hle hheight
  rw [height_swap hne]
  omega

/-- An element that starts among balanced tags ends among them. -/
lemma Balanced.not_front {lead more inside : List TagSpan} {s : TagSpan}
    (h : Balanced outer inner (lead ++ s :: more)) (hs : s.kind = outer)
    (hinside : Balanced outer inner inside) : ¬ more <+: inside := by
  intro hmore
  obtain ⟨hheight, hfront⟩ := h
  have hlead := hfront lead (prefix_append _ _)
  have hmore := hinside.2 more hmore
  have hrise : s.rise outer inner = 1 := if_pos hs
  rw [height_append, height_cons, hrise] at hheight
  omega

end

/-! ## Counters -/

/-- A search for a balancing tag with a counter that nothing keeps from going below zero: the tag
found, and the values of the counter behind each tag that is read. -/
def countedSearch (outer inner : TagKind) (depth : Int) : List TagSpan → Option TagSpan × List Int
  | [] => (none, [])
  | t :: rest =>
    let depth := depth + t.rise outer inner
    if t.kind = inner ∧ depth = 0 then (some t, [depth])
    else
      let later := countedSearch outer inner depth rest
      (later.1, depth :: later.2)

/-- The counter does not go below zero, and the search with it finds the same tag. -/
lemma countedSearch_eq {outer inner : TagKind} {depth : Nat} (hdepth : 1 ≤ depth)
    (spans : List TagSpan) :
    (countedSearch outer inner depth spans).1 = balancingTag? outer inner depth spans ∧
      ∀ value ∈ (countedSearch outer inner depth spans).2, 0 ≤ value := by
  induction spans generalizing depth with
  | nil => exact ⟨rfl, fun value hvalue => absurd hvalue not_mem_nil⟩
  | cons t spans ih =>
    -- the search goes on with a counter that is still positive
    have hlater : ∀ {next : Nat}, 1 ≤ next → (depth : Int) + t.rise outer inner = next →
        (countedSearch outer inner depth (t :: spans)).1 = balancingTag? outer inner next spans ∧
          ∀ value ∈ (countedSearch outer inner depth (t :: spans)).2, 0 ≤ value := by
      intro next hnext hrise
      obtain ⟨hfound, hvalues⟩ := ih hnext
      rw [countedSearch, hrise]
      simp only
      rw [if_neg (by omega)]
      refine ⟨hfound, fun value hvalue => ?_⟩
      rcases mem_cons.1 hvalue with rfl | hvalue
      · omega
      · exact hvalues value hvalue
    rw [balancingTag?]
    by_cases houter : t.kind = outer
    · have hrise : t.rise outer inner = 1 := if_pos houter
      rw [if_pos houter]
      exact hlater (by omega) (by rw [hrise]; omega)
    · rw [if_neg houter]
      by_cases hinner : t.kind = inner
      · have hrise : t.rise outer inner = -1 := by
          rw [TagSpan.rise, if_neg houter, if_pos hinner]
        rw [if_pos hinner]
        by_cases hone : depth ≤ 1
        · obtain rfl : depth = 1 := by omega
          rw [if_pos hone, countedSearch, hrise]
          simp only
          rw [if_pos ⟨hinner, rfl⟩]
          refine ⟨rfl, fun value hvalue => ?_⟩
          rw [mem_singleton.1 hvalue]
          decide
        · rw [if_neg hone]
          exact hlater (by omega) (by rw [hrise]; omega)
      · have hrise : t.rise outer inner = 0 := by
          rw [TagSpan.rise, if_neg houter, if_neg hinner]
        rw [if_neg hinner]
        exact hlater hdepth (by rw [hrise]; omega)

/-! ## Documents -/

namespace Document

/-- As `counterpart?`, with the values of the counter. -/
def countedCounterpart (d : Document) (s : TagSpan) : Option TagSpan × List Int :=
  match s.kind with
  | .selfClosing => (none, [])
  | .opening => countedSearch .opening .closing 1 (d.tagsFrom s.range.stop)
  | .closing => countedSearch .closing .opening 1 (d.tagsBefore s.range.start)

lemma countedCounterpart_eq (d : Document) (s : TagSpan) :
    (d.countedCounterpart s).1 = d.counterpart? s ∧
      ∀ value ∈ (d.countedCounterpart s).2, 0 ≤ value := by
  unfold countedCounterpart counterpart?
  cases s.kind with
  | selfClosing => exact ⟨rfl, fun value hvalue => absurd hvalue not_mem_nil⟩
  | opening => exact countedSearch_eq (Nat.le_refl 1) _
  | closing => exact countedSearch_eq (Nat.le_refl 1) _

/-- An open tag and a close tag behind it, with balanced tags between them. -/
def Enclose (d : Document) (o c : TagSpan) : Prop :=
  ∃ before inside behind, d.tagsFrom .origin = before ++ o :: (inside ++ c :: behind) ∧
    o.kind = .opening ∧ c.kind = .closing ∧ Balanced .opening .closing inside

/-- The elements from an open tag to a close tag are the same, apart, or one is in the other. -/
inductive Uncrossed (o c o' c' : TagSpan) : Prop where
  | same (ho : o = o') (hc : c = c')
  | before (hle : c.range.stop ≤ o'.range.start)
  | behind (hle : c'.range.stop ≤ o.range.start)
  | around (ho : o.range.stop ≤ o'.range.start) (hc : c'.range.stop ≤ c.range.start)
  | inside (ho : o'.range.stop ≤ o.range.start) (hc : c.range.stop ≤ c'.range.start)

lemma Uncrossed.symm {o c o' c' : TagSpan} (h : Uncrossed o c o' c') : Uncrossed o' c' o c := by
  cases h with
  | same ho hc => exact .same ho.symm hc.symm
  | before hle => exact .behind hle
  | behind hle => exact .before hle
  | around ho hc => exact .inside ho hc
  | inside ho hc => exact .around ho hc

namespace Inked

variable {d : Document} {ink : List InkedChar} (h : d.Inked ink) {o c o' c' : TagSpan}

include h

/-- The tags of an element are each other's counterparts. -/
lemma counterpart?_of_enclose (hoc : d.Enclose o c) :
    d.counterpart? o = some c ∧ d.counterpart? c = some o := by
  obtain ⟨before, inside, behind, htags, ho, hc, hinside⟩ := hoc
  have hclosing : d.tagsFrom .origin = (before ++ o :: inside) ++ c :: behind := by
    rw [htags, append_assoc]
    rfl
  unfold counterpart?
  rw [ho, hc, (h.tagsFrom_split htags).1, (h.tagsFrom_split hclosing).2]
  refine ⟨?_, ?_⟩
  · exact (balancingTag?_eq_some_iff (by decide)).2 ⟨inside, behind, rfl, hc, hinside⟩
  · refine (balancingTag?_eq_some_iff (by decide)).2
      ⟨inside.reverse, before.reverse, ?_, ho, hinside.reverse (by decide)⟩
    rw [reverse_append, reverse_cons, append_assoc]
    rfl

/-- A tag and its counterpart are the tags of an element. -/
lemma enclose_of_counterpart? {s p : TagSpan} (hs : s ∈ d.tagsFrom .origin)
    (hp : d.counterpart? s = some p) : d.Enclose s p ∨ d.Enclose p s := by
  obtain ⟨before, behind, htags⟩ := append_of_mem hs
  obtain ⟨hbehind, hbefore⟩ := h.tagsFrom_split htags
  unfold counterpart? at hp
  cases hkind : s.kind with
  | selfClosing =>
    rw [hkind] at hp
    cases hp
  | opening =>
    rw [hkind, hbehind] at hp
    obtain ⟨inside, rest, rfl, hclosing, hinside⟩ :=
      (balancingTag?_eq_some_iff (by decide) (n := 0)).1 hp
    exact .inl ⟨before, inside, rest, htags, hkind, hclosing, hinside⟩
  | closing =>
    rw [hkind, hbefore] at hp
    obtain ⟨inside, rest, hreverse, hopening, hinside⟩ :=
      (balancingTag?_eq_some_iff (by decide) (n := 0)).1 hp
    refine .inr ⟨rest.reverse, inside.reverse, behind, ?_, hopening, hkind,
      Balanced.reverse (by decide) hinside⟩
    rw [htags, reverse_eq_iff.1 hreverse, reverse_append, reverse_cons,
      append_assoc, append_assoc]
    rfl

/-- An element that starts behind the start of another one starts behind its end, or ends inside. -/
lemma uncrossed_of_later {before inside behind lead inside' behind' : List TagSpan}
    (htags : d.tagsFrom .origin = before ++ o :: (inside ++ c :: behind))
    (hc : c.kind = .closing) (hinside : Balanced .opening .closing inside)
    (htags' : inside ++ c :: behind = lead ++ o' :: (inside' ++ c' :: behind'))
    (ho' : o'.kind = .opening) (hinside' : Balanced .opening .closing inside') :
    Uncrossed o c o' c' := by
  have hne : c ≠ o' := by
    rintro rfl
    rw [hc] at ho'
    cases ho'
  rcases append_eq_append_iff.1 htags' with ⟨more, rfl, hlater⟩ | ⟨more, rfl, hlater⟩
  · -- the other element starts behind the end
    cases more with
    | nil => exact absurd (List.cons.inj hlater).1 hne
    | cons first more =>
      obtain ⟨rfl, hmore⟩ := List.cons.inj hlater
      have hsplit : d.tagsFrom .origin =
          (before ++ o :: inside) ++ c :: (more ++ o' :: (inside' ++ c' :: behind')) := by
        rw [htags, hmore, append_assoc]
        rfl
      exact .before (h.stop_le_start hsplit)
  · -- it starts inside
    cases more with
    | nil => exact absurd (List.cons.inj hlater).1.symm hne
    | cons first more =>
      obtain ⟨rfl, hmore⟩ := List.cons.inj hlater
      rcases append_eq_append_iff.1 hmore with ⟨last, rfl, hend⟩ | ⟨last, rfl, -⟩
      · cases last with
        | nil =>
          rw [append_nil] at hinside
          exact absurd prefix_rfl (hinside.not_front ho' hinside')
        | cons first last =>
          obtain ⟨rfl, hlast⟩ := List.cons.inj hend
          have hstart : d.tagsFrom .origin = before ++ o :: (lead ++ o' ::
              ((inside' ++ c' :: last) ++ c :: behind)) := by
            rw [htags, append_assoc]
            rfl
          have hstop : d.tagsFrom .origin = (before ++ o :: (lead ++ o' :: inside')) ++ c' ::
              (last ++ c :: behind) := by
            rw [hstart]
            simp only [append_assoc, cons_append]
          exact .around (h.stop_le_start hstart) (h.stop_le_start hstop)
      · exact absurd (prefix_append _ _) (hinside.not_front ho' hinside')

/-- Elements do not cross. -/
lemma uncrossed_of_enclose (hoc : d.Enclose o c) (hoc' : d.Enclose o' c') : Uncrossed o c o' c' := by
  have hcounterpart := (h.counterpart?_of_enclose hoc).1
  have hcounterpart' := (h.counterpart?_of_enclose hoc').1
  have hsame : o = o' → Uncrossed o c o' c' := by
    rintro rfl
    rw [hcounterpart, Option.some.injEq] at hcounterpart'
    exact .same rfl hcounterpart'
  obtain ⟨before, inside, behind, htags, ho, hc, hinside⟩ := hoc
  obtain ⟨before', inside', behind', htags', ho', hc', hinside'⟩ := hoc'
  rcases append_eq_append_iff.1 (htags.symm.trans htags') with
    ⟨more, -, hmore⟩ | ⟨more, -, hmore⟩
  · cases more with
    | nil => exact hsame (List.cons.inj hmore).1
    | cons first more =>
      exact h.uncrossed_of_later htags hc hinside (List.cons.inj hmore).2 ho' hinside'
  · cases more with
    | nil => exact hsame (List.cons.inj hmore).1.symm
    | cons first more =>
      exact (h.uncrossed_of_later htags' hc' hinside' (List.cons.inj hmore).2 ho hinside).symm

end Inked

/-- Two tags that are each other's partners. -/
structure Paired (d : Document) (o c : TagSpan) : Prop where
  opening_mem : o ∈ d.tagsFrom .origin
  closing_mem : c ∈ d.tagsFrom .origin
  opening_kind : o.kind = .opening
  closing_kind : c.kind = .closing
  stop_le_start : o.range.stop ≤ c.range.start
  partner?_opening : d.partner? o = some c
  partner?_closing : d.partner? c = some o

lemma partner?_eq_some_iff {d : Document} {s p : TagSpan} :
    d.partner? s = some p ↔ d.counterpart? s = some p ∧ p.name? d = s.name? d := by
  rw [partner?, Option.filter_eq_some_iff, beq_iff_eq]

/-- The tags of an element are partners if they have the same name. -/
lemma Inked.paired_of_enclose {d : Document} {ink : List InkedChar} (h : d.Inked ink)
    {o c : TagSpan} (hoc : d.Enclose o c) (hname : o.name? d = c.name? d) : d.Paired o c := by
  obtain ⟨ho, hc⟩ := h.counterpart?_of_enclose hoc
  obtain ⟨before, inside, behind, htags, hopening, hclosing, -⟩ := hoc
  exact
    { opening_mem := by
        rw [htags]
        exact mem_append_right _ mem_cons_self
      closing_mem := by
        rw [htags]
        exact mem_append_right _ (mem_cons_of_mem _
          (mem_append_right _ mem_cons_self))
      opening_kind := hopening
      closing_kind := hclosing
      stop_le_start := h.stop_le_start htags
      partner?_opening := partner?_eq_some_iff.2 ⟨ho, hname.symm⟩
      partner?_closing := partner?_eq_some_iff.2 ⟨hc, hname⟩ }

/-- **Partners pair up and do not cross.** In every text whose rows end in line feeds, a tag that has
a partner is the partner of that one, both are among the tags of the text, and one of them is an
open tag and the other a close tag behind it. Any two such pairs are the same, apart, or one is inside
the other. A search for a partner never counts below zero. -/
theorem partner?_paired (d : Document) (honly : d.text.OnlyLineFeeds)
    (hscopes : d.scopes = d.grammar.tokenize d.text) :
    (∀ s ∈ d.tagsFrom .origin, ∀ p, d.partner? s = some p → d.Paired s p ∨ d.Paired p s) ∧
      (∀ o c o' c', d.Paired o c → d.Paired o' c' → Uncrossed o c o' c') ∧
      ∀ s, (d.countedCounterpart s).1 = d.counterpart? s ∧
        ∀ value ∈ (d.countedCounterpart s).2, 0 ≤ value := by
  obtain ⟨ink, hdrawn⟩ := exists_drawn honly hscopes
  have h := hdrawn.toInked
  refine ⟨?_, ?_, d.countedCounterpart_eq⟩
  · intro s hs p hp
    obtain ⟨hcounterpart, hname⟩ := partner?_eq_some_iff.1 hp
    rcases h.enclose_of_counterpart? hs hcounterpart with hsp | hps
    · exact .inl (h.paired_of_enclose hsp hname.symm)
    · exact .inr (h.paired_of_enclose hps hname)
  · -- an open tag is in front of its counterpart
    have henclose : ∀ {o c}, d.Paired o c → d.Enclose o c := by
      intro o c hoc
      rcases h.enclose_of_counterpart? hoc.opening_mem
        (partner?_eq_some_iff.1 hoc.partner?_opening).1 with hsp | ⟨_, _, _, -, hopening, -⟩
      · exact hsp
      · rw [hoc.closing_kind] at hopening
        cases hopening
    intro o c o' c' hoc hoc'
    exact h.uncrossed_of_enclose (henclose hoc) (henclose hoc')

/-- Between tags that have no partners, `p` is found from its close tag, and `u` around it. -/
theorem partner?_paired_sampleTangled :
    let d := Document.ofText .marko "</i><u><p>\n<p/></p></u><b></a>".toList
    let u : TagSpan := ⟨.opening, ⟨⟨0, 4⟩, ⟨0, 7⟩⟩, some ⟨⟨0, 5⟩, ⟨0, 6⟩⟩, false⟩
    let u' : TagSpan := ⟨.closing, ⟨⟨1, 8⟩, ⟨1, 12⟩⟩, some ⟨⟨1, 10⟩, ⟨1, 11⟩⟩, false⟩
    let p : TagSpan := ⟨.opening, ⟨⟨0, 7⟩, ⟨0, 10⟩⟩, some ⟨⟨0, 8⟩, ⟨0, 9⟩⟩, false⟩
    let p' : TagSpan := ⟨.closing, ⟨⟨1, 4⟩, ⟨1, 8⟩⟩, some ⟨⟨1, 6⟩, ⟨1, 7⟩⟩, false⟩
    d.text.OnlyLineFeeds ∧ d.scopes = d.grammar.tokenize d.text ∧ d.Paired p p' ∧
      Uncrossed u u' p p' ∧ d.countedCounterpart u = (some u', [2, 2, 1, 0]) := by
  intro d u u' p p'
  have honly : d.text.OnlyLineFeeds := by decide
  obtain ⟨hpaired, huncrossed, -⟩ := partner?_paired d honly rfl
  obtain ⟨⟨hmem, hpartner⟩, ⟨hmem', hpartner'⟩, hcounted⟩ :
      (p' ∈ d.tagsFrom .origin ∧ d.partner? p' = some p) ∧
      (u ∈ d.tagsFrom .origin ∧ d.partner? u = some u') ∧
      d.countedCounterpart u = (some u', [2, 2, 1, 0]) := by decide +kernel
  have hp : d.Paired p p' := by
    rcases hpaired p' hmem p hpartner with hclosing | hp
    · exact absurd hclosing.opening_kind (by decide)
    · exact hp
  have hu : d.Paired u u' := by
    rcases hpaired u hmem' u' hpartner' with hu | hclosing
    · exact hu
    · exact absurd hclosing.opening_kind (by decide)
  exact ⟨honly, rfl, hp, huncrossed u u' p p' hu hp, hcounted⟩

end Document

end TemplateEditing
