import TemplateEditing.Proofs.Tag.Drafts

/-!
# What a search through tokens has passed

A search backwards for the start of a tag, or forwards for its end, stops at certain tokens; so what
it comes to tells which tokens it has met and which it has not (`walkBack_start`, `findEnd_cases`).
The same holds of the spans that tokens make up: each goes from a bracket in front of a tag to a
bracket behind one, with no other bracket in front between them (`exists_of_mem_spansOf`,
`exists_of_mem_spansBackOf`).
-/

namespace TemplateEditing

open List

variable {s : TagSpan} {tokens : List TokenHit}

/-- Tokens none of which is a bracket in front of a tag. -/
def NoStart (tokens : List TokenHit) : Prop := ∀ t ∈ tokens, t.kind.isStart = false

/-- What an end makes of a tag, if not all is known of its start. -/
def TokenKind.spanKind (kind : TokenKind) (opening : Bool) : TagKind :=
  match kind with
  | .selfClosingEnd => .selfClosing
  | .openTagEnd => .opening
  | _ => if opening then .opening else .closing

/-! ## Searches for one tag -/

section
variable {row : Nat} {name : Option Range} {opening : Bool} {tokens : List TokenHit}

/-- The start of a tag is the last one before, and no tag ends behind it. The name is one that is
met on the way. -/
lemma walkBack_start {draft : TagDraft} (h : walkBack row name opening tokens = .start draft) :
    ∃ passed first rest, tokens = passed ++ first :: rest ∧ first.kind.isStart = true ∧
      (∀ t ∈ passed, t.kind.isStart = false ∧ t.kind.isEnd = false) ∧
      draft.start = first.range.start ∧
      (draft.name = name ∨ ∃ t ∈ passed, t.kind.isName = true ∧ draft.name = some t.range) ∧
      (draft.opening = true → opening = true ∨ first.kind = .openTagStart ∨
        ∃ t ∈ passed, t.kind = .openTagName) ∧
      draft.stop = none ∧ draft.selfClosing = false ∧ draft.concise = false := by
  induction tokens generalizing name opening with
  | nil => cases h
  | cons t tokens ih =>
    rw [walkBack] at h
    split at h
    · cases h
    next hend =>
    split at h
    · split at h <;> cases h
    split at h
    · -- a name is passed
      next hname =>
      obtain ⟨passed, first, rest, rfl, hfirst, hpassed, hstart, hname', hopening, hdraft⟩ := ih h
      refine ⟨t :: passed, first, rest, rfl, hfirst, ?_, hstart, ?_, ?_, hdraft⟩
      · intro t' ht'
        rcases mem_cons.1 ht' with rfl | ht'
        · refine ⟨?_, Bool.eq_false_iff.2 hend⟩
          revert hname
          cases t'.kind <;> decide
        · exact hpassed t' ht'
      · rcases hname' with hname' | ⟨t', ht', hname', hrange⟩
        · exact .inr ⟨t, mem_cons_self, hname, hname'⟩
        · exact .inr ⟨t', mem_cons_of_mem t ht', hname', hrange⟩
      · intro htrue
        rcases hopening htrue with hopening | hopening | ⟨t', ht', hkind⟩
        · rcases Bool.or_eq_true_iff.1 hopening with hopening | hopening
          · exact .inl hopening
          · exact .inr (.inr ⟨t, mem_cons_self, eq_of_beq hopening⟩)
        · exact .inr (.inl hopening)
        · exact .inr (.inr ⟨t', mem_cons_of_mem t ht', hkind⟩)
    split at h
    · -- the start
      next hstart =>
      cases h
      refine ⟨[], t, tokens, rfl, hstart, by simp, rfl, .inl rfl, ?_, rfl, rfl, rfl⟩
      intro htrue
      rcases Bool.or_eq_true_iff.1 htrue with hopening | hopening
      · exact .inl hopening
      · exact .inr (.inl (eq_of_beq hopening))
    · -- an attribute is passed
      next hstart =>
      obtain ⟨passed, first, rest, rfl, hfirst, hpassed, hdraft, hname', hopening, hrest⟩ := ih h
      refine ⟨t :: passed, first, rest, rfl, hfirst, ?_, hdraft, ?_, ?_, hrest⟩
      · intro t' ht'
        rcases mem_cons.1 ht' with rfl | ht'
        · exact ⟨Bool.eq_false_iff.2 hstart, Bool.eq_false_iff.2 hend⟩
        · exact hpassed t' ht'
      · rcases hname' with hname' | ⟨t', ht', hname'⟩
        · exact .inl hname'
        · exact .inr ⟨t', mem_cons_of_mem t ht', hname'⟩
      · intro htrue
        rcases hopening htrue with hopening | hopening | ⟨t', ht', hkind⟩
        · exact .inl hopening
        · exact .inr (.inl hopening)
        · exact .inr (.inr ⟨t', mem_cons_of_mem t ht', hkind⟩)

/-- A tag without brackets is only found in its own row. -/
lemma walkBack_concise {p : Position} (h : walkBack row name opening tokens = .concise p) :
    ∃ t ∈ tokens, t.kind = .openTagName ∧ t.token.concise = true ∧ t.range.start = p ∧
      p.row = row := by
  induction tokens generalizing name opening with
  | nil => cases h
  | cons t tokens ih =>
    have hlater : ∀ {name opening}, walkBack row name opening tokens = .concise p →
        ∃ t' ∈ t :: tokens, t'.kind = .openTagName ∧ t'.token.concise = true ∧
          t'.range.start = p ∧ p.row = row := by
      intro name opening h
      obtain ⟨t', ht', hrest⟩ := ih h
      exact ⟨t', mem_cons_of_mem t ht', hrest⟩
    rw [walkBack] at h
    split at h
    · cases h
    split at h
    · next hname =>
      split at h
      · next hrow =>
        cases h
        rw [Bool.and_eq_true] at hname
        exact ⟨t, mem_cons_self, eq_of_beq hname.1, hname.2, rfl, hrow⟩
      · cases h
    split at h
    · exact hlater h
    split at h
    · cases h
    · exact hlater h

end

namespace Document

/-- The end of a tag is the first one behind, and no tag starts before it. -/
lemma findEnd_cases (draft : TagDraft) (tokens : List TokenHit) :
    findEnd draft tokens = draft ∨
      ∃ passed last rest, tokens = passed ++ last :: rest ∧ last.kind.isEnd = true ∧
        NoStart passed ∧ (findEnd draft tokens).stop = some last.range.stop ∧
        (draft.selfClosing = false →
          (if (findEnd draft tokens).selfClosing then TagKind.selfClosing
            else if (findEnd draft tokens).opening then .opening else .closing) =
              last.kind.spanKind draft.opening) ∧
        (findEnd draft tokens).start = draft.start ∧
        (findEnd draft tokens).concise = draft.concise := by
  induction tokens with
  | nil => exact .inl rfl
  | cons t tokens ih =>
    -- a token that is passed
    have hlater : t.kind.isStart = false → findEnd draft (t :: tokens) = findEnd draft tokens →
        findEnd draft (t :: tokens) = draft ∨ ∃ passed last rest,
          t :: tokens = passed ++ last :: rest ∧ last.kind.isEnd = true ∧ NoStart passed ∧
          (findEnd draft (t :: tokens)).stop = some last.range.stop ∧
          (draft.selfClosing = false →
            (if (findEnd draft (t :: tokens)).selfClosing then TagKind.selfClosing
              else if (findEnd draft (t :: tokens)).opening then .opening else .closing) =
                last.kind.spanKind draft.opening) ∧
          (findEnd draft (t :: tokens)).start = draft.start ∧
          (findEnd draft (t :: tokens)).concise = draft.concise := by
      intro hstart heq
      rw [heq]
      rcases ih with ih | ⟨passed, last, rest, rfl, hlast, hpassed, hrest⟩
      · exact .inl ih
      · refine .inr ⟨t :: passed, last, rest, rfl, hlast, ?_, hrest⟩
        intro t' ht'
        rcases mem_cons.1 ht' with rfl | ht'
        · exact hstart
        · exact hpassed t' ht'
    cases hkind : t.kind with
    | openTagEnd =>
      refine .inr ⟨[], t, tokens, rfl, by rw [hkind]; rfl, by simp [NoStart], ?_⟩
      simp [findEnd, hkind, TokenKind.spanKind]
    | selfClosingEnd =>
      refine .inr ⟨[], t, tokens, rfl, by rw [hkind]; rfl, by simp [NoStart], ?_⟩
      simp [findEnd, hkind, TokenKind.spanKind]
    | closeTagEnd =>
      refine .inr ⟨[], t, tokens, rfl, by rw [hkind]; rfl, by simp [NoStart], ?_⟩
      simp +contextual [findEnd, hkind, TokenKind.spanKind]
    | openTagStart => exact .inl (by simp [findEnd, hkind])
    | closeTagStart => exact .inl (by simp [findEnd, hkind])
    | openTagName => exact hlater (by rw [hkind]; rfl) (by simp [findEnd, hkind])
    | closeTagName => exact hlater (by rw [hkind]; rfl) (by simp [findEnd, hkind])
    | attributeName => exact hlater (by rw [hkind]; rfl) (by simp [findEnd, hkind])

/-- A tag is completed by the end it was found from, or by the first one behind its name. -/
lemma completeTag?_cases {d : Document} {draft : TagDraft} (h : d.completeTag? draft = some s) :
    ∃ name, draft.name = some name ∧ s.nameRange = some name ∧ s.concise = draft.concise ∧
      ((∃ stop, draft.stop = some stop ∧ s.range = .ofEnds draft.start stop ∧
        s.kind = if draft.selfClosing then .selfClosing
          else if draft.opening then .opening else .closing) ∨
      (draft.stop = none ∧ ∃ passed last rest, d.tokensFrom name.stop = passed ++ last :: rest ∧
        last.kind.isEnd = true ∧ NoStart passed ∧ s.range = .ofEnds draft.start last.range.stop ∧
        (draft.selfClosing = false → s.kind = last.kind.spanKind draft.opening))) := by
  unfold completeTag? at h
  obtain ⟨name, hname, h⟩ := Option.bind_eq_some_iff.1 h
  obtain ⟨stop, hstop, h⟩ := Option.bind_eq_some_iff.1 h
  refine ⟨name, hname, ?_⟩
  cases hdraft : draft.stop with
  | some stop' =>
    simp only [hdraft, Option.isNone_some, Bool.false_eq_true, if_false, Option.some.injEq]
      at hstop h
    subst hstop h
    exact ⟨rfl, rfl, .inl ⟨stop', rfl, rfl, rfl⟩⟩
  | none =>
    simp only [hdraft, Option.isNone_none, if_true, Option.some.injEq] at hstop h
    subst h
    rcases findEnd_cases draft (d.tokensFrom name.stop) with hfound |
      ⟨passed, last, rest, htokens, hlast, hpassed, hfound, hkind, hstart, hconcise⟩
    · rw [hfound, hdraft] at hstop
      cases hstop
    · rw [hfound] at hstop
      obtain rfl := Option.some.inj hstop
      rw [hstart]
      exact ⟨rfl, hconcise, .inr ⟨rfl, passed, last, rest, htokens, hlast, hpassed, rfl, hkind⟩⟩

end Document

/-! ## Spans -/

/-- A span made up by two brackets and what is passed between them. -/
structure MadeUp (s : TagSpan) (first : TokenHit) (passed : List TokenHit) (last : TokenHit) :
    Prop where
  isStart : first.kind.isStart = true
  isEnd : last.kind.isEnd = true
  noStart : NoStart passed
  range_eq : s.range = .ofEnds first.range.start last.range.stop
  concise_eq : s.concise = false
  nameRange : s.nameRange = none ∨ ∃ t ∈ passed, t.kind.isName = true ∧ s.nameRange = some t.range
  kind : ∃ opening, s.kind = last.kind.spanKind opening ∧
    (opening = true → first.kind = .openTagStart ∨ ∃ t ∈ passed, t.kind = .openTagName)

/-- The parts of a tag after some tokens are read that are no brackets. -/
structure TagParts.Grown (parts : TagParts) (passed : List TokenHit) (parts' : TagParts) :
    Prop where
  start_eq : parts'.start = parts.start
  name : parts'.name = parts.name ∨ ∃ t ∈ passed, t.kind.isName = true ∧ parts'.name = some t.range
  opening : parts'.opening = true → parts.opening = true ∨ ∃ t ∈ passed, t.kind = .openTagName

namespace TagParts.Grown

variable {parts parts' : TagParts} {passed : List TokenHit}

lemma refl (parts : TagParts) : parts.Grown [] parts := ⟨rfl, .inl rfl, .inl⟩

lemma skip (h : parts.Grown passed parts') (t : TokenHit) : parts.Grown (t :: passed) parts' := by
  refine ⟨h.start_eq, ?_, fun htrue => ?_⟩
  · rcases h.name with hname | ⟨t', ht', hname⟩
    · exact .inl hname
    · exact .inr ⟨t', mem_cons_of_mem t ht', hname⟩
  · rcases h.opening htrue with hopening | ⟨t', ht', hkind⟩
    · exact .inl hopening
    · exact .inr ⟨t', mem_cons_of_mem t ht', hkind⟩

/-- A name is read first. -/
lemma name_cons {named : TagParts} {t : TokenHit} (h : named.Grown passed parts')
    (ht : t.kind.isName = true) (hstart : named.start = parts.start)
    (hname : named.name = parts.name ∨ named.name = some t.range)
    (hopening : named.opening = (parts.opening || t.kind == .openTagName)) :
    parts.Grown (t :: passed) parts' := by
  refine ⟨h.start_eq.trans hstart, ?_, fun htrue => ?_⟩
  · rcases h.name with hname' | ⟨t', ht', hname'⟩
    · rcases hname with hname | hname
      · exact .inl (hname'.trans hname)
      · exact .inr ⟨t, mem_cons_self, ht, hname'.trans hname⟩
    · exact .inr ⟨t', mem_cons_of_mem t ht', hname'⟩
  · rcases h.opening htrue with hopening' | ⟨t', ht', hkind⟩
    · rw [hopening, Bool.or_eq_true] at hopening'
      rcases hopening' with hopening' | hopening'
      · exact .inl hopening'
      · exact .inr ⟨t, mem_cons_self, eq_of_beq hopening'⟩
    · exact .inr ⟨t', mem_cons_of_mem t ht', hkind⟩

end TagParts.Grown

lemma NoStart.cons {t : TokenHit} (h : NoStart tokens)
    (ht : t.kind.isStart = false) : NoStart (t :: tokens) := by
  intro t' ht'
  rcases mem_cons.1 ht' with rfl | ht'
  · exact ht
  · exact h t' ht'

/-- What a last bracket completes, from the parts seen before it. -/
lemma TagParts.finish?_eq_some {parts : TagParts} {stop : Position} {kind : TokenKind}
    (h : parts.finish? stop kind = some s) :
    ∃ start, parts.start = some start ∧ s.range = .ofEnds start stop ∧ s.concise = false ∧
      s.nameRange = parts.name ∧ s.kind = kind.spanKind parts.opening := by
  obtain ⟨start, hstart, rfl⟩ := Option.map_eq_some_iff.1 h
  refine ⟨start, hstart, rfl, rfl, rfl, ?_⟩
  cases kind <;> rfl

/-- The spans that tokens make up are made up by some of them, or begin with what was seen
before. -/
lemma exists_of_mem_spansOf' {parts : TagParts} (h : s ∈ spansOf parts tokens) :
    (∃ passed last rest parts', tokens = passed ++ last :: rest ∧ NoStart passed ∧
      last.kind.isEnd = true ∧ parts.Grown passed parts' ∧
      parts'.finish? last.range.stop last.kind = some s) ∨
    ∃ skipped first passed last rest, tokens = skipped ++ first :: (passed ++ last :: rest) ∧
      MadeUp s first passed last := by
  induction tokens generalizing parts with
  | nil => cases h
  | cons t tokens ih =>
    rw [spansOf] at h
    split at h
    · -- a tag starts
      next hstart =>
      rcases ih h with ⟨passed, last, rest, parts', rfl, hpassed, hlast, hgrown, hfinish⟩ |
        ⟨skipped, first, passed, last, rest, rfl, hmade⟩
      · refine .inr ⟨[], t, passed, last, rest, rfl, ?_⟩
        obtain ⟨start, hstart', hrange, hconcise, hname, hkind⟩ := TagParts.finish?_eq_some hfinish
        have hfirst := hgrown.start_eq
        rw [hstart'] at hfirst
        cases hfirst
        refine ⟨hstart, hlast, hpassed, hrange, hconcise, ?_, parts'.opening, hkind, ?_⟩
        · rw [hname]
          exact hgrown.name
        · intro htrue
          exact (hgrown.opening htrue).imp_left eq_of_beq
      · exact .inr ⟨t :: skipped, first, passed, last, rest, rfl, hmade⟩
    next hstart =>
    have hstart : t.kind.isStart = false := Bool.eq_false_iff.2 hstart
    split at h
    · -- a name
      next hname =>
      rcases ih h with ⟨passed, last, rest, parts', rfl, hpassed, hlast, hgrown, hfinish⟩ |
        ⟨skipped, first, passed, last, rest, rfl, hmade⟩
      · refine .inl ⟨t :: passed, last, rest, parts', rfl, hpassed.cons hstart, hlast, ?_, hfinish⟩
        refine hgrown.name_cons hname rfl ?_ rfl
        cases hparts : parts.name with
        | none => exact .inr rfl
        | some r => exact .inl rfl
      · exact .inr ⟨t :: skipped, first, passed, last, rest, rfl, hmade⟩
    split at h
    · -- a tag ends
      next hend =>
      rcases mem_append.1 h with h | h
      · exact .inl ⟨[], t, tokens, parts, rfl, by simp [NoStart], hend, .refl parts,
          Option.mem_toList.1 h⟩
      · rcases ih h with ⟨passed, last, rest, parts', -, -, -, hgrown, hfinish⟩ |
          ⟨skipped, first, passed, last, rest, rfl, hmade⟩
        · -- it would have no start
          obtain ⟨start, hstart', -⟩ := TagParts.finish?_eq_some hfinish
          rw [hgrown.start_eq] at hstart'
          cases hstart'
        · exact .inr ⟨t :: skipped, first, passed, last, rest, rfl, hmade⟩
    · rcases ih h with ⟨passed, last, rest, parts', rfl, hpassed, hlast, hgrown, hfinish⟩ |
        ⟨skipped, first, passed, last, rest, rfl, hmade⟩
      · exact .inl ⟨t :: passed, last, rest, parts', rfl, hpassed.cons hstart, hlast,
          hgrown.skip t, hfinish⟩
      · exact .inr ⟨t :: skipped, first, passed, last, rest, rfl, hmade⟩

/-- The spans that tokens make up. -/
lemma exists_of_mem_spansOf (h : s ∈ spansOf {} tokens) :
    ∃ skipped first passed last rest, tokens = skipped ++ first :: (passed ++ last :: rest) ∧
      MadeUp s first passed last := by
  rcases exists_of_mem_spansOf' h with ⟨passed, last, rest, parts', -, -, -, hgrown, hfinish⟩ | h
  · obtain ⟨start, hstart, -⟩ := TagParts.finish?_eq_some hfinish
    rw [hgrown.start_eq] at hstart
    cases hstart
  · exact h

/-- The spans that tokens make up against the order of the text, the bracket behind the first of
them seen before or not. -/
lemma exists_of_mem_spansBackOf' {parts : TagParts} {last : Option (Position × TokenKind)}
    (h : s ∈ spansBackOf parts last tokens) :
    (∃ passed first rest parts' stop kind, tokens = passed ++ first :: rest ∧ NoStart passed ∧
      first.kind.isStart = true ∧ parts.Grown passed parts' ∧ last = some (stop, kind) ∧
      TagParts.finish?
        { parts' with
          start := some first.range.start
          opening := parts'.opening || first.kind == .openTagStart } stop kind = some s) ∨
    ∃ skipped final passed first rest, tokens = skipped ++ final :: (passed ++ first :: rest) ∧
      MadeUp s first passed final := by
  induction tokens generalizing parts last with
  | nil => cases h
  | cons t tokens ih =>
    rw [spansBackOf] at h
    split at h
    · -- a tag ends
      next hend =>
      rcases ih h with
        ⟨passed, first, rest, parts', stop, kind, rfl, hpassed, hfirst, hgrown, hlast, hfinish⟩ |
        ⟨skipped, final, passed, first, rest, rfl, hmade⟩
      · cases hlast
        refine .inr ⟨[], t, passed, first, rest, rfl, ?_⟩
        obtain ⟨start, hstart, hrange, hconcise, hname, hkind⟩ := TagParts.finish?_eq_some hfinish
        cases hstart
        refine ⟨hfirst, hend, hpassed, hrange, hconcise, ?_, _, hkind, ?_⟩
        · rw [hname]
          exact hgrown.name
        · intro htrue
          rcases Bool.or_eq_true_iff.1 htrue with htrue | htrue
          · exact (hgrown.opening htrue).elim (by simp) .inr
          · exact .inl (eq_of_beq htrue)
      · exact .inr ⟨t :: skipped, final, passed, first, rest, rfl, hmade⟩
    next hend =>
    split at h
    · -- a name
      next hname =>
      have hstart : t.kind.isStart = false := by
        revert hname
        cases t.kind <;> decide
      rcases ih h with
        ⟨passed, first, rest, parts', stop, kind, rfl, hpassed, hfirst, hgrown, hlast, hfinish⟩ |
        ⟨skipped, final, passed, first, rest, rfl, hmade⟩
      · exact .inl ⟨t :: passed, first, rest, parts', stop, kind, rfl, hpassed.cons hstart, hfirst,
          hgrown.name_cons hname rfl (.inr rfl) rfl, hlast, hfinish⟩
      · exact .inr ⟨t :: skipped, final, passed, first, rest, rfl, hmade⟩
    split at h
    · -- a tag starts
      next hstart =>
      rcases mem_append.1 h with h | h
      · obtain ⟨⟨stop, kind⟩, hlast, hfinish⟩ := Option.bind_eq_some_iff.1 (Option.mem_toList.1 h)
        exact .inl ⟨[], t, tokens, parts, stop, kind, rfl, by simp [NoStart], hstart, .refl parts,
          hlast, hfinish⟩
      · rcases ih h with ⟨_, _, _, _, _, _, -, -, -, -, hlast, -⟩ |
          ⟨skipped, final, passed, first, rest, rfl, hmade⟩
        · cases hlast
        · exact .inr ⟨t :: skipped, final, passed, first, rest, rfl, hmade⟩
    · next hstart =>
      rcases ih h with
        ⟨passed, first, rest, parts', stop, kind, rfl, hpassed, hfirst, hgrown, hlast, hfinish⟩ |
        ⟨skipped, final, passed, first, rest, rfl, hmade⟩
      · exact .inl ⟨t :: passed, first, rest, parts', stop, kind, rfl,
          hpassed.cons (Bool.eq_false_iff.2 hstart), hfirst, hgrown.skip t, hlast, hfinish⟩
      · exact .inr ⟨t :: skipped, final, passed, first, rest, rfl, hmade⟩

/-- The spans that tokens make up against the order of the text. -/
lemma exists_of_mem_spansBackOf (h : s ∈ spansBackOf {} none tokens) :
    ∃ skipped last passed first rest, tokens = skipped ++ last :: (passed ++ first :: rest) ∧
      MadeUp s first passed last := by
  rcases exists_of_mem_spansBackOf' h with ⟨_, _, _, _, _, _, -, -, -, -, hlast, -⟩ | h
  · cases hlast
  · exact h

/-- The tag that balances another one is one of those searched, and of the other kind. -/
lemma mem_of_balancingTag? {outer inner : TagKind} {depth : Nat} {spans : List TagSpan}
    (h : balancingTag? outer inner depth spans = some s) :
    s ∈ spans ∧ s.kind = inner := by
  induction spans generalizing depth with
  | nil => cases h
  | cons t spans ih =>
    have hlater : ∀ {depth}, balancingTag? outer inner depth spans = some s →
        s ∈ t :: spans ∧ s.kind = inner := by
      intro depth h
      exact ⟨mem_cons_of_mem t (ih h).1, (ih h).2⟩
    rw [balancingTag?] at h
    split at h
    · exact hlater h
    split at h
    · next hkind =>
      split at h
      · cases h
        exact ⟨mem_cons_self, hkind⟩
      · exact hlater h
    · exact hlater h

end TemplateEditing
