import TemplateEditing.Proofs.Markup.Ink

/-!
# Markup that is cut off

A tree can be cut off in the content of one of its elements. What stands before the cut is then a
row of elements that are still open, each inside the one before it, with the whole nodes that stand
in each of them (`Cut`). Text that the cut goes through is text before it. The close tag that is
missing first is that of the innermost element (`Cut.exists_tree`).

The lexer reads what stands before the cut as it reads the whole tree (`Cut.inks`). The tag that
stands last before the cut is that of the last element among the siblings before it, and only if
there is none it is the open tag of the innermost element (`Cut.lastTagName?_segments`).
-/

namespace TemplateEditing

open List

namespace Markup

open Lexer (Inks)

/-! ## Cuts -/

/-- An element that has not been closed yet, and the nodes in it so far. -/
structure OpenElement where
  name : ElementName
  attributes : List Attribute
  before : List Node

/-- The elements that are open where a tree is cut off, from the outside to the inside. -/
structure Cut where
  outer : List OpenElement
  innermost : OpenElement

lemma renderAll_append (a b : List Node) : renderAll (a ++ b) = renderAll a ++ renderAll b := by
  induction a with
  | nil => rw [renderAll, nil_append, nil_append]
  | cons node a ih => rw [cons_append, renderAll, renderAll, ih, append_assoc]

namespace OpenElement

/-- The open tag and the nodes behind it as they are written. -/
def render (e : OpenElement) : Text := (openTag e.name e.attributes).render ++ renderAll e.before

/-- The segments of an open element. -/
def segments (e : OpenElement) : List Segment :=
  .tag (openTag e.name e.attributes) :: segmentsAll e.before

/-- The element with some more nodes, closed. -/
def close (e : OpenElement) (after : List Node) : Tree :=
  ⟨e.name, e.attributes, e.before ++ after⟩

lemma render_eq (e : OpenElement) : e.render = renderSegments e.segments := by
  rw [render, segments, renderSegments_cons, renderAll_eq]
  rfl

lemma render_close (e : OpenElement) (after : List Node) :
    (e.close after).render = e.render ++ renderAll after ++ (closeTag e.name).render := by
  rw [Tree.render, Tree.root, Node.render, close, renderAll_append, render]
  simp only [append_assoc]

/-- The lexer reads an open element, and is one element deeper behind it. -/
lemma inks (e : OpenElement) (depth : Nat) (t : Text) :
    Inks ⟨.content, depth⟩ (inkSegments e.segments) ⟨.content, depth + 1⟩ t := by
  have htag := (openTag e.name e.attributes).inks (fun _ => e.name.ordinary) depth
  exact (htag _).trans ((content_segmentsAll e.before).inks (Nat.succ_pos depth) t)

end OpenElement

namespace Cut

/-- All elements that are open. -/
def elements (cut : Cut) : List OpenElement := cut.outer ++ [cut.innermost]

/-- What stands before the cut. -/
def render (cut : Cut) : Text := cut.elements.flatMap OpenElement.render

/-- The segments before the cut. -/
def segments (cut : Cut) : List Segment := cut.elements.flatMap OpenElement.segments

lemma render_cons (e : OpenElement) (outer : List OpenElement) (innermost : OpenElement) :
    render ⟨e :: outer, innermost⟩ = e.render ++ render ⟨outer, innermost⟩ := rfl

/-- Whatever nodes follow in the innermost element, its close tag comes next, and what stands before
the cut is the start of a tree. -/
theorem exists_tree (cut : Cut) (after : List Node) : ∃ (tree : Tree) (rest : Text),
    tree.render =
      cut.render ++ renderAll after ++ (closeTag cut.innermost.name).render ++ rest := by
  obtain ⟨outer, innermost⟩ := cut
  induction outer with
  | nil =>
    refine ⟨innermost.close after, [], ?_⟩
    rw [innermost.render_close]
    simp [render, elements]
  | cons e outer ih =>
    obtain ⟨tree, rest, htree⟩ := ih
    refine ⟨e.close [tree.root], rest ++ (closeTag e.name).render, ?_⟩
    have hroot : renderAll [tree.root] = tree.render := by
      rw [renderAll, renderAll, append_nil]
      rfl
    rw [e.render_close, hroot, htree, render_cons]
    simp only [append_assoc]

lemma render_eq (cut : Cut) : cut.render = renderSegments cut.segments := by
  rw [render, segments, renderSegments, flatMap_assoc]
  exact congrArg (cut.elements.flatMap ·) (funext OpenElement.render_eq)

lemma inks_flatMap (elements : List OpenElement) (depth : Nat) (t : Text) :
    Inks ⟨.content, depth⟩ (inkSegments (elements.flatMap OpenElement.segments))
      ⟨.content, depth + elements.length⟩ t := by
  induction elements generalizing depth with
  | nil => exact .refl _ _
  | cons e elements ih =>
    rw [flatMap_cons, inkSegments_append, length_cons, Nat.add_comm elements.length,
      ← Nat.add_assoc]
    exact (e.inks depth _).trans (ih (depth + 1))

/-- The lexer reads what stands before the cut, and is as deep then as elements are open. -/
theorem inks (cut : Cut) (t : Text) :
    Inks ⟨.content, 0⟩ (inkSegments cut.segments) ⟨.content, cut.elements.length⟩ t := by
  have h := inks_flatMap cut.elements 0 t
  rwa [Nat.zero_add] at h

end Cut

/-! ## The last name -/

/-- The name of an element, whether it has content or closes itself. -/
def Node.name? : Node → Option Name
  | .element name _ _ => some name.toName
  | .selfClosing name _ => some name
  | .comment _ | .text _ => none

/-- The name of the last element. -/
def lastName? (nodes : List Node) : Option Name := (nodes.filterMap Node.name?).getLast?

/-- The name in a tag. -/
def Segment.name? : Segment → Option Name
  | .tag mark => some mark.name
  | .comment _ | .text _ => none

/-- The name in the last tag. -/
def lastTagName? (segments : List Segment) : Option Name :=
  (segments.filterMap Segment.name?).getLast?

lemma lastTagName?_append (a b : List Segment) :
    lastTagName? (a ++ b) = (lastTagName? b).or (lastTagName? a) := by
  rw [lastTagName?, filterMap_append, getLast?_append]
  rfl

/-- The last tag of an element has its name. -/
lemma Node.lastTagName?_segments (node : Node) : lastTagName? node.segments = node.name? := by
  cases node with
  | element name attributes children =>
    rw [Node.segments, lastTagName?_append]
    rfl
  | selfClosing name attributes =>
    rw [Node.segments]
    rfl
  | comment c =>
    rw [Node.segments]
    rfl
  | text p =>
    rw [Node.segments]
    rfl

lemma lastTagName?_segmentsAll (nodes : List Node) :
    lastTagName? (segmentsAll nodes) = lastName? nodes := by
  induction nodes with
  | nil =>
    rw [segmentsAll]
    rfl
  | cons node nodes ih =>
    rw [segmentsAll, lastTagName?_append, ih, node.lastTagName?_segments, lastName?, lastName?,
      ← singleton_append, filterMap_append, getLast?_append]
    cases node <;> rfl

/-- No tag stands behind the last one. -/
lemma exists_of_lastTagName? {segments : List Segment} {name : Name}
    (h : lastTagName? segments = some name) :
    ∃ a mark b, segments = a ++ .tag mark :: b ∧ mark.name = name ∧ ∀ s ∈ b, s.name? = none := by
  rw [lastTagName?, getLast?_filterMap, findSome?_eq_some_iff] at h
  obtain ⟨b, s, a, hsplit, hname, hb⟩ := h
  cases s with
  | tag mark =>
    refine ⟨a.reverse, mark, b.reverse, ?_, Option.some.inj hname, ?_⟩
    · rw [reverse_eq_iff.1 hsplit]
      simp
    · intro s hs
      exact hb s (mem_reverse.1 hs)
  | comment | text => cases hname

/-- The name that stands last before the cut: that of the last element among the siblings, or that
of the innermost element if there is none. -/
def Cut.lastName (cut : Cut) : Name :=
  (lastName? cut.innermost.before).getD cut.innermost.name.toName

lemma Cut.lastTagName?_segments (cut : Cut) : lastTagName? cut.segments = some cut.lastName := by
  rw [Cut.segments, Cut.elements, flatMap_append, flatMap_singleton,
    OpenElement.segments, lastTagName?_append, ← singleton_append, lastTagName?_append,
    lastTagName?_segmentsAll, Cut.lastName]
  cases lastName? cut.innermost.before <;> rfl

end Markup

end TemplateEditing
