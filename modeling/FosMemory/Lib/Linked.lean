import Mathlib.Data.List.Basic
import Mathlib.Logic.Function.Basic

/-!
# Linked — doubly linked segments

Elements of any type carry one pair of links.  `Seg l p xs q` says that following the links of `l`
from the first element of `xs` visits `xs` in order, that the first element points back to `p` and
the last one on to `q`.  Several lists may share the links: a segment only depends on the links of
its own elements.
-/

namespace FosMemory
namespace Lib

variable {α : Type}

/-- The link fields of all elements. -/
structure Links (α : Type) where
  next : α → Option α
  prev : α → Option α

/-- The elements of `xs` are linked in order, between `p` and `q`. -/
def Seg (l : Links α) : Option α → List α → Option α → Prop
  | _, [], _ => True
  | p, x :: xs, q => l.prev x = p ∧ l.next x = xs.head?.or q ∧ Seg l (some x) xs q

/-- A segment depends on the links of its elements. -/
theorem Seg.congr {l m : Links α} {p q : Option α} {xs : List α} (h : Seg l p xs q)
    (hlinks : ∀ x ∈ xs, m.next x = l.next x ∧ m.prev x = l.prev x) : Seg m p xs q := by
  induction xs generalizing p with
  | nil => trivial
  | cons x xs ih =>
    obtain ⟨hprev, hnext, hrest⟩ := h
    obtain ⟨hn, hp⟩ := hlinks x List.mem_cons_self
    refine ⟨hp.trans hprev, hn.trans hnext, ih hrest fun y hy => hlinks y ?_⟩
    exact List.mem_cons_of_mem _ hy

theorem seg_append {l : Links α} {p q : Option α} {xs ys : List α} :
    Seg l p (xs ++ ys) q ↔
      Seg l p xs (ys.head?.or q) ∧ Seg l (xs.getLast?.or p) ys q := by
  induction xs generalizing p with
  | nil => simp [Seg]
  | cons x xs ih =>
    have hlast : (x :: xs).getLast?.or p = xs.getLast?.or (some x) := by
      rw [List.getLast?_cons]
      cases xs.getLast? <;> rfl
    simp only [List.cons_append, Seg, ih, List.head?_append, Option.or_assoc, hlast]
    tauto

/-- The links around an element in the middle. -/
theorem seg_middle {l : Links α} {p q : Option α} {as bs : List α} {x : α} :
    Seg l p (as ++ x :: bs) q ↔ Seg l p as (some x) ∧ l.prev x = as.getLast?.or p ∧
      l.next x = bs.head?.or q ∧ Seg l (some x) bs q := by
  rw [seg_append]
  exact Iff.rfl

variable [DecidableEq α]

/-- Store one link. -/
def Links.setNext (l : Links α) (x : α) (q : Option α) : Links α :=
  { l with next := Function.update l.next x q }

def Links.setPrev (l : Links α) (x : α) (p : Option α) : Links α :=
  { l with prev := Function.update l.prev x p }

@[simp] theorem Links.setNext_next (l : Links α) (x : α) (q : Option α) (y : α) :
    (l.setNext x q).next y = if y = x then q else l.next y := by
  simp [Links.setNext, Function.update_apply]

@[simp] theorem Links.setNext_prev (l : Links α) (x : α) (q : Option α) (y : α) :
    (l.setNext x q).prev y = l.prev y :=
  rfl

@[simp] theorem Links.setPrev_prev (l : Links α) (x : α) (p : Option α) (y : α) :
    (l.setPrev x p).prev y = if y = x then p else l.prev y := by
  simp [Links.setPrev, Function.update_apply]

@[simp] theorem Links.setPrev_next (l : Links α) (x : α) (p : Option α) (y : α) :
    (l.setPrev x p).next y = l.next y :=
  rfl

/-- Links of elements outside a segment may change. -/
theorem Seg.setNext_of_notMem {l : Links α} {p q : Option α} {xs : List α} (h : Seg l p xs q)
    {x : α} (hx : x ∉ xs) (r : Option α) : Seg (l.setNext x r) p xs q := by
  refine h.congr fun y hy => ⟨?_, rfl⟩
  rw [Links.setNext_next, if_neg]
  rintro rfl
  exact hx hy

theorem Seg.setPrev_of_notMem {l : Links α} {p q : Option α} {xs : List α} (h : Seg l p xs q)
    {x : α} (hx : x ∉ xs) (r : Option α) : Seg (l.setPrev x r) p xs q := by
  refine h.congr fun y hy => ⟨rfl, ?_⟩
  rw [Links.setPrev_prev, if_neg]
  rintro rfl
  exact hx hy

/-- The last element is linked on to something else. -/
theorem Seg.setLast {l : Links α} {p q : Option α} {xs : List α} {y : α} (h : Seg l p xs q)
    (hnodup : xs.Nodup) (hy : xs.getLast? = some y) (r : Option α) :
    Seg (l.setNext y r) p xs r := by
  obtain ⟨as, rfl⟩ := List.getLast?_eq_some_iff.1 hy
  rw [seg_append] at h ⊢
  have hnot : y ∉ as := by
    intro hmem
    exact (List.nodup_append.1 hnodup).2.2 y hmem y (List.mem_singleton.2 rfl) rfl
  refine ⟨h.1.setNext_of_notMem hnot r, h.2.1, ?_, trivial⟩
  simp

/-- The first element is linked back to something else. -/
theorem Seg.setFirst {l : Links α} {p q : Option α} {xs : List α} {y : α} (h : Seg l p xs q)
    (hnodup : xs.Nodup) (hy : xs.head? = some y) (r : Option α) :
    Seg (l.setPrev y r) r xs q := by
  obtain ⟨bs, rfl⟩ := List.head?_eq_some_iff.1 hy
  obtain ⟨-, hnext, hrest⟩ := h
  refine ⟨by simp, hnext, hrest.setPrev_of_notMem ?_ r⟩
  exact (List.nodup_cons.1 hnodup).1

end Lib
end FosMemory
