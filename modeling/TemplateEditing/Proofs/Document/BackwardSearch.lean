import TemplateEditing.Completion.Context
import TemplateEditing.Link.Click
import TemplateEditing.Proofs.Text.Walk

/-!
# Searches that go back through a document

The names around a position, the tag before a blank, the owner of an attribute and the attribute of
a string are all searched for in the same way: a cursor looks at one position after the other, and
goes one step back until a look gives the answer or the text has no position any more. Such a
search is a machine (`BackwardSearch.step`) that knows nothing of the walk as a whole. It comes to
the answer that the list of all positions on the walk gives, in no more steps than there are
positions and one (`BackwardSearch.iterate_step`); so the four searches end on every document.
-/

namespace TemplateEditing

variable {q : Position}

/-- The positions that a cursor comes to, its own first. -/
def Text.walkFrom (t : Text) : Option Position → List Position
  | none => []
  | some p => p :: t.walkBack p

lemma Text.walkFrom_before? (t : Text) (p : Position) :
    t.walkFrom (t.before? p) = t.walkBack p := by
  cases hbefore : t.before? p with
  | none => rw [walkFrom, walkBack_of_none hbefore]
  | some q => rw [walkFrom, walkBack_of_some hbefore]

/-- What a search makes of a position: the answer, or a note to go on with. -/
inductive Look (σ α : Type) where
  | found (answer : α)
  | goOn (note : σ)
deriving DecidableEq, Repr

/-- The answer that a look leads to, if the search goes on like this. -/
def Look.answer {σ α : Type} (further : σ → α) : Look σ α → α
  | .found answer => answer
  | .goOn note => further note

/-- A search back through a text. -/
structure BackwardSearch (σ α : Type) where
  /-- The look at a position, with the note taken at the positions behind it. -/
  look : σ → Position → Look σ α
  /-- The answer once there is nothing left to look at. -/
  missed : α

/-- How far a search has come. -/
inductive SearchState (σ α : Type) where
  | looking (cursor : Option Position) (note : σ)
  | done (answer : α)
deriving DecidableEq, Repr

namespace BackwardSearch

variable {σ α : Type} {s : BackwardSearch σ α} {t : Text}

/-- One look, and one step back if that was not enough. -/
def step (s : BackwardSearch σ α) (t : Text) : SearchState σ α → SearchState σ α
  | .looking none _ => .done s.missed
  | .looking (some q) note =>
    match s.look note q with
    | .found answer => .done answer
    | .goOn note => .looking (t.before? q) note
  | .done answer => .done answer

/-- The answer if these are the positions to look at. -/
def answerOn (s : BackwardSearch σ α) (note : σ) : List Position → α
  | [] => s.missed
  | q :: rest => (s.look note q).answer fun note => s.answerOn note rest

lemma step_of_found {note : σ} {answer : α} (h : s.look note q = .found answer) :
    s.step t (.looking (some q) note) = .done answer := by
  rw [step, h]

lemma step_of_goOn {note note' : σ} (h : s.look note q = .goOn note') :
    s.step t (.looking (some q) note) = .looking (t.before? q) note' := by
  rw [step, h]

lemma answerOn_of_found {note : σ} {answer : α} (h : s.look note q = .found answer)
    (rest : List Position) : s.answerOn note (q :: rest) = answer := by
  rw [answerOn, h, Look.answer]

lemma answerOn_of_goOn {note note' : σ} (h : s.look note q = .goOn note')
    (rest : List Position) : s.answerOn note (q :: rest) = s.answerOn note' rest := by
  rw [answerOn, h, Look.answer]

/-- A function that takes a list as the looks take it gives the answers of the search. -/
lemma answerOn_eq {f : σ → List Position → α} (hnil : ∀ note, f note [] = s.missed)
    (hcons : ∀ note q rest, f note (q :: rest) = (s.look note q).answer fun note => f note rest)
    (note : σ) (qs : List Position) : s.answerOn note qs = f note qs := by
  induction qs generalizing note with
  | nil => exact (hnil note).symm
  | cons q rest ih =>
    rw [answerOn, hcons]
    simp only [ih]

/-- An answer is not taken back. -/
lemma iterate_step_done (answer : α) (n : Nat) : (s.step t)^[n] (.done answer) = .done answer :=
  Function.iterate_fixed rfl n

/-- A search has its answer after a step for every position that the cursor comes to, and one to
see that there are none left. -/
lemma iterate_step (cursor : Option Position) (note : σ) {n : Nat}
    (hn : (t.walkFrom cursor).length < n) :
    (s.step t)^[n] (.looking cursor note) = .done (s.answerOn note (t.walkFrom cursor)) := by
  induction n generalizing cursor note with
  | zero => exact absurd hn (Nat.not_lt_zero _)
  | succ n ih =>
    rw [Function.iterate_succ_apply]
    cases cursor with
    | none => exact iterate_step_done s.missed n
    | some q =>
      rw [Text.walkFrom] at hn ⊢
      cases hlook : s.look note q with
      | found answer => rw [step_of_found hlook, answerOn_of_found hlook, iterate_step_done]
      | goOn note' =>
        rw [step_of_goOn hlook, answerOn_of_goOn hlook, ← Text.walkFrom_before?]
        apply ih
        rw [Text.walkFrom_before?]
        exact Nat.lt_of_succ_lt_succ hn

end BackwardSearch

namespace Document

open CompletionContext

/-! ## The four searches -/

/-- The search for the names around a position. It notes the name of the first attribute. -/
def namesSearch (d : Document) : BackwardSearch (Option Text) (Option EnclosingNames) where
  look passed q :=
    if (d.text.charAt? q).any isNameChar then
      match (d.scopesAt q).named? passed.isNone with
      | none => .goOn passed
      | some (.tag concise) =>
        let name := d.text.runThrough isTagChar q
        .found (if name.isEmpty then none else some ⟨name, passed, concise⟩)
      | some .attribute =>
        let name := d.text.runThrough isAttributeChar q
        if name.isEmpty then .found none else .goOn (some name)
    else .goOn passed
  missed := none

/-- The search for a part of a tag before blanks. It notes whether there were blanks, and does not
leave the row. -/
def tagContentSearch (d : Document) : BackwardSearch Bool Bool where
  look blanks q :=
    let further (blanks : Bool) : Look Bool Bool :=
      if q.column = 0 then .found false else .goOn blanks
    let other : Look Bool Bool :=
      let chain := d.scopesAt q
      if 1 < chain.length then .found (blanks && chain.isTagContent) else further blanks
    match d.text.charAt? q with
    | none => other
    | some c =>
      if c == '/' || c == '<' then .found false
      else if Text.isBlank c then further true
      else other
  missed := false

/-- The search for the name of the tag that an attribute belongs to. -/
def tagNameSearch (d : Document) : BackwardSearch Unit (Option Text) where
  look _ q :=
    let name := d.text.runThrough (fun c => Click.isNameChar c || c == '#') q
    if (d.text.charAt? q).any isOwnerTagChar && d.clickRegion? q == some .tag && !name.isEmpty then
      .found (some name)
    else .goOn ()
  missed := none

/-- The search for the attribute that a string belongs to. -/
def attributeSearch (d : Document) : BackwardSearch Unit (Option (Text × Bool)) where
  look _ q :=
    if (d.text.charAt? q).any isOwnerChar then
      match d.clickRegion? q with
      | some .attributeName =>
        let name := d.text.runThrough Click.isNameChar q
        .found (if name.isEmpty then none
          else some (name, (d.text.rowFrom (q.right 1)).trimStart.head? == some '('))
      | some .tag => .found none
      | _ => .goOn ()
    else .goOn ()
  missed := none

lemma namesOn_cons (d : Document) (passed : Option Text) (q : Position) (rest : List Position) :
    d.namesOn passed (q :: rest) =
      (d.namesSearch.look passed q).answer fun passed => d.namesOn passed rest := by
  rw [namesOn]
  unfold namesSearch
  dsimp only
  split
  · rcases (d.scopesAt q).named? passed.isNone with _ | concise | _
    · rfl
    · rfl
    · dsimp only
      split <;> rfl
  · rfl

lemma meetsTagContent_cons (d : Document) (blanks : Bool) (q : Position) (rest : List Position) :
    d.meetsTagContent blanks (q :: rest) =
      (d.tagContentSearch.look blanks q).answer fun blanks => d.meetsTagContent blanks rest := by
  -- a look that goes on does so unless it is at the start of the row
  have hfurther (blanks : Bool) :
      (if q.column = 0 then false else d.meetsTagContent blanks rest) =
        (if q.column = 0 then Look.found false else .goOn blanks).answer
          fun blanks => d.meetsTagContent blanks rest := by
    split <;> rfl
  have hother :
      (if 1 < (d.scopesAt q).length then blanks && (d.scopesAt q).isTagContent
        else if q.column = 0 then false else d.meetsTagContent blanks rest) =
        (if 1 < (d.scopesAt q).length then .found (blanks && (d.scopesAt q).isTagContent)
          else if q.column = 0 then Look.found false else .goOn blanks).answer
          fun blanks => d.meetsTagContent blanks rest := by
    split
    · rfl
    · exact hfurther blanks
  rw [meetsTagContent]
  unfold tagContentSearch
  dsimp only
  cases d.text.charAt? q with
  | none => exact hother
  | some c =>
    dsimp only
    split
    · rfl
    · split
      · exact hfurther true
      · exact hother

lemma attributeOn?_cons (d : Document) (q : Position) (rest : List Position) :
    d.attributeOn? (q :: rest) =
      (d.attributeSearch.look () q).answer fun _ => d.attributeOn? rest := by
  rw [attributeOn?]
  unfold attributeSearch
  dsimp only
  split
  · cases d.clickRegion? q with
    | none => rfl
    | some region => cases region <;> rfl
  · rfl

lemma answerOn_namesSearch (d : Document) (p : Position) :
    d.namesSearch.answerOn none (d.text.walkBack p) = d.enclosingNames? p :=
  BackwardSearch.answerOn_eq (fun _ => rfl) d.namesOn_cons none _

lemma answerOn_tagContentSearch (d : Document) (p : Position) :
    d.tagContentSearch.answerOn false (d.text.walkBack p) = d.followsTagContent p :=
  BackwardSearch.answerOn_eq (fun _ => rfl) d.meetsTagContent_cons false _

lemma answerOn_tagNameSearch (d : Document) (p : Position) :
    d.tagNameSearch.answerOn () (p :: d.text.walkBack p) = d.tagNameFrom? p := by
  refine BackwardSearch.answerOn_eq (f := fun _ qs => qs.findSome? _) (fun _ => rfl) ?_ () _
  intro _ q rest
  rw [List.findSome?_cons]
  unfold tagNameSearch
  dsimp only
  generalize ((d.text.charAt? q).any isOwnerTagChar && _ && _) = found
  cases found <;> rfl

lemma answerOn_attributeSearch (d : Document) (qs : List Position) :
    d.attributeSearch.answerOn () qs = d.attributeOn? qs :=
  BackwardSearch.answerOn_eq (f := fun _ => d.attributeOn?) (fun _ => rfl)
    (fun _ => d.attributeOn?_cons) () qs

/-! ## Every search ends -/

/-- **The walk back is complete, and the searches end.** Step after step back leads through the
positions of the walk, each before the last one, until there is none. In a text whose rows end at
line feeds these are the positions of all characters before the start but line feeds, and column 0
of all empty rows before it. The four searches take such steps, on whatever document, and have come
to their answers after as many of them as the text and the start allow. -/
theorem walkBack_complete_searches_end :
    (∀ (t : Text) (p : Position),
      (∀ k, (Option.bind · t.before?)^[k] (some p) = (p :: t.walkBack p)[k]?) ∧
      (p :: t.walkBack p).Pairwise (· > ·) ∧
      (t.OnlyLineFeeds → t.clip p = p → ∀ q, q ∈ t.walkBack p ↔ q < p ∧
        ((∃ i c, t[i]? = some c ∧ c ≠ '\n' ∧ t.positionOf i = q) ∨
          q.row < t.rowCount ∧ t.line q.row = [] ∧ q.column = 0))) ∧
    (∀ (d : Document) (p : Position) (n : Nat), p.row + p.column + d.text.length + 2 ≤ n →
      (d.namesSearch.step d.text)^[n] (.looking (d.text.before? p) none) =
        .done (d.enclosingNames? p) ∧
      (d.tagContentSearch.step d.text)^[n] (.looking (d.text.before? p) false) =
        .done (d.followsTagContent p) ∧
      (d.tagNameSearch.step d.text)^[n] (.looking (some p) ()) = .done (d.tagNameFrom? p) ∧
      (d.attributeSearch.step d.text)^[n] (.looking (some p) ()) =
        .done (d.attributeOn? (p :: d.text.walkBack p))) := by
  refine ⟨fun t p => ⟨t.iterate_before? p, t.pairwise_walkBack p, fun h hp =>
    Text.mem_walkBack_iff h hp⟩, fun d p n hn => ?_⟩
  have hlength := d.text.length_walkBack_le p
  have hbefore : (d.text.walkFrom (d.text.before? p)).length < n := by
    rw [Text.walkFrom_before?]
    omega
  have hat : (d.text.walkFrom (some p)).length < n := by
    rw [Text.walkFrom, List.length_cons]
    omega
  rw [BackwardSearch.iterate_step _ _ hbefore, BackwardSearch.iterate_step _ _ hbefore,
    BackwardSearch.iterate_step _ _ hat, BackwardSearch.iterate_step _ _ hat,
    Text.walkFrom_before?, Text.walkFrom, answerOn_namesSearch, answerOn_tagContentSearch,
    answerOn_tagNameSearch, answerOn_attributeSearch]
  exact ⟨rfl, rfl, rfl, rfl⟩

/-- A tag with an empty row between its name and its attribute. -/
def sampleGap : Document := .ofText .marko "<ab\n\nc=\"d\">".toList

/-- The walk from the attribute comes by the empty row and the tag's name, and passes over the line
feed behind the name; so the attribute's tag is found, and the string's attribute. -/
theorem walkBack_complete_searches_end_sampleGap :
    sampleGap.text.OnlyLineFeeds ∧ sampleGap.text.clip ⟨2, 0⟩ = ⟨2, 0⟩ ∧
      (⟨1, 0⟩ : Position) ∈ sampleGap.text.walkBack ⟨2, 0⟩ ∧
      (⟨0, 2⟩ : Position) ∈ sampleGap.text.walkBack ⟨2, 0⟩ ∧
      (⟨0, 3⟩ : Position) ∉ sampleGap.text.walkBack ⟨2, 0⟩ ∧
      (sampleGap.text.walkBack ⟨2, 0⟩)[3]? = some .origin ∧
      (sampleGap.text.walkBack ⟨2, 0⟩)[4]? = none ∧
      sampleGap.tagNameFrom? ⟨2, 0⟩ = some "ab".toList ∧
      sampleGap.attributeOn? (⟨2, 2⟩ :: sampleGap.text.walkBack ⟨2, 2⟩) =
        some ("c".toList, false) := by
  obtain ⟨hwalk, hsearches⟩ := walkBack_complete_searches_end
  obtain ⟨hsteps, -, hmem⟩ := hwalk sampleGap.text ⟨2, 0⟩
  have honly : sampleGap.text.OnlyLineFeeds := by decide
  have hclip : sampleGap.text.clip ⟨2, 0⟩ = ⟨2, 0⟩ := by decide
  have hmem := hmem honly hclip
  obtain ⟨-, -, htag, -⟩ := hsearches sampleGap ⟨2, 0⟩ 20 (by decide)
  obtain ⟨-, -, -, hattribute⟩ := hsearches sampleGap ⟨2, 2⟩ 20 (by decide)
  refine ⟨honly, hclip, (hmem _).2 ⟨by decide, .inr (by decide)⟩,
    (hmem _).2 ⟨by decide, .inl ⟨2, 'b', by decide⟩⟩, fun hfeed => ?_,
    (hsteps 4).symm.trans (by decide), (hsteps 5).symm.trans (by decide),
    SearchState.done.inj (htag.symm.trans (by decide +kernel)),
    SearchState.done.inj (hattribute.symm.trans (by decide +kernel))⟩
  -- only a line feed stands there, and its row is not empty
  have hfeeds : ∀ i < sampleGap.text.length, sampleGap.text.positionOf i = ⟨0, 3⟩ →
      sampleGap.text[i]? = some '\n' := by decide
  obtain ⟨-, ⟨i, c, hc, hn, hi⟩ | ⟨-, hline, -⟩⟩ := (hmem _).1 hfeed
  · have hfeed := hfeeds i (List.getElem?_eq_some_iff.1 hc).1 hi
    exact hn (Option.some.inj (hc.symm.trans hfeed))
  · exact absurd hline (by decide)

end Document

end TemplateEditing
