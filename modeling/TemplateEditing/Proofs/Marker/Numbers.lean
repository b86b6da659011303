import Mathlib.Tactic.Lemma
import TemplateEditing.Marker

/-!
# Numbers of markers

Markers are numbered in order, and no number is given twice (`MarkerSet.Numbered`). So a new marker
is found by its number, and the others as before (`get?_mark_next`, `get?_mark_of_some`).
-/

namespace TemplateEditing

open List

namespace MarkerSet

/-- The numbers in use and the next one. -/
def numbers (ms : MarkerSet) : List MarkerId × MarkerId := (ms.ids, ms.next)

/-- Numbers are given in order, and all are below the next one. -/
structure Numbered (ms : MarkerSet) : Prop where
  increasing : ms.ids.Pairwise (· < ·)
  below : ∀ id ∈ ms.ids, id < ms.next

lemma numbers_follow (ms : MarkerSet) (c : Change) : (ms.follow c).numbers = ms.numbers := by
  unfold numbers follow ids
  rw [map_map]
  rfl

lemma numbers_decorate (ms : MarkerSet) (id : MarkerId) (style : String) :
    (ms.decorate id style).numbers = ms.numbers := by
  unfold numbers decorate modify ids
  rw [map_map]
  congr 2
  funext entry
  show (if entry.1 = id then _ else entry).1 = entry.1
  split <;> rfl

lemma ids_mark (ms : MarkerSet) (r : Range) : (ms.mark r).2.ids = ms.ids ++ [ms.next] := by
  unfold mark ids
  rw [map_append]
  rfl

lemma ids_erase (ms : MarkerSet) (id : MarkerId) : (ms.erase id).ids = ms.ids.filter (· != id) := by
  unfold erase ids
  rw [filter_map]
  rfl

namespace Numbered

variable {ms : MarkerSet} (h : ms.Numbered)

include h

lemma nodup : ms.ids.Nodup := h.increasing.imp Nat.ne_of_lt

lemma of_numbers {ms' : MarkerSet} (hsame : ms'.numbers = ms.numbers) : ms'.Numbered := by
  have hids : ms'.ids = ms.ids := congrArg Prod.fst hsame
  have hnext : ms'.next = ms.next := congrArg Prod.snd hsame
  obtain ⟨hincreasing, hbelow⟩ := h
  rw [← hids] at hincreasing hbelow
  rw [← hnext] at hbelow
  exact ⟨hincreasing, hbelow⟩

lemma mark (r : Range) : (ms.mark r).2.Numbered := by
  refine ⟨?_, ?_⟩
  · rw [ids_mark, pairwise_append]
    refine ⟨h.increasing, pairwise_singleton _ _, ?_⟩
    intro id hid next hnext
    rw [mem_singleton.1 hnext]
    exact h.below id hid
  · intro id hid
    rw [ids_mark, mem_append, mem_singleton] at hid
    show id < ms.next + 1
    rcases hid with hid | rfl
    · exact Nat.lt_succ_of_lt (h.below id hid)
    · exact Nat.lt_succ_self _

lemma erase (id : MarkerId) : (ms.erase id).Numbered := by
  refine ⟨?_, ?_⟩
  · rw [ids_erase]
    exact h.increasing.filter _
  · intro other hother
    rw [ids_erase] at hother
    exact h.below other (mem_filter.1 hother).1

end Numbered

/-- A marker stays what it is when another one is made. -/
lemma get?_mark_of_some {ms : MarkerSet} {id : MarkerId} {m : Marker} (h : ms.get? id = some m)
    (r : Range) : (ms.mark r).2.get? id = some m := by
  unfold get? mark at *
  rw [lookup_append, h]
  rfl

/-- A new marker is found by its number. -/
lemma Numbered.get?_mark_next {ms : MarkerSet} (h : ms.Numbered) (r : Range) :
    (ms.mark r).2.get? ms.next = some { range := r } := by
  have hnone : ms.entries.lookup ms.next = none := by
    rw [lookup_eq_none_iff]
    intro entry hentry
    have hlt := h.below entry.1 (mem_map_of_mem hentry)
    rw [bne_iff_ne]
    exact Nat.ne_of_gt hlt
  unfold get? MarkerSet.mark
  rw [lookup_append, hnone]
  show List.lookup ms.next [(ms.next, _)] = _
  rw [lookup_cons_self]

/-- A style class changes neither where a marker is nor whether it is valid. -/
lemma get?_decorate_of_some {ms : MarkerSet} {id : MarkerId} {m : Marker} (h : ms.get? id = some m)
    (other : MarkerId) (style : String) :
    ∃ m', (ms.decorate other style).get? id = some m' ∧ m'.range = m.range ∧ m'.valid = m.valid := by
  obtain ⟨front, back, hentries, hfront⟩ := lookup_eq_some_iff.1 h
  refine ⟨if id = other then { m with decoration := some style } else m, ?_, ?_, ?_⟩
  · refine lookup_eq_some_iff.2 ⟨front.map fun e => if e.1 = other then
      (e.1, { e.2 with decoration := some style }) else e, back.map fun e => if e.1 = other then
      (e.1, { e.2 with decoration := some style }) else e, ?_, ?_⟩
    · rw [decorate, modify, hentries, map_append, map_cons]
      split <;> rfl
    · intro entry hentry
      obtain ⟨old, hold, rfl⟩ := mem_map.1 hentry
      have := hfront old hold
      split <;> exact this
  · split <;> rfl
  · split <;> rfl

end MarkerSet

end TemplateEditing
