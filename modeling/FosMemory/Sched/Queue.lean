import Mathlib.Data.List.Nodup
import FosMemory.Layout
import FosMemory.Lib.Linked

/-!
# Queue — the list macros of `inc/queue.h`

Every `LIST_*` macro is a function on the links of all elements and the head of one list.
`IsList` says that a head and the links represent a sequence; each macro turns the representation
of one sequence into that of another and touches no link outside its list.
-/

namespace FosMemory

open Lib

variable {α : Type}

/-! ## Heads and macros -/

/-- `LIST_HEAD`.  `ptrNext` is the field `___ptr_next` that `LIST_FOREACH` keeps its place in. -/
structure ListHead (α : Type) where
  lhFirst : Option α
  lhLast : Option α
  ptrNext : Option α
  size : Nat

/-- `LIST_INIT`. -/
def listInit (h : ListHead α) : ListHead α :=
  { h with lhFirst := none, lhLast := none, size := 0 }

/-- `((list)->size)++`. -/
def incSize (n : Nat) : Nat :=
  (n + 1) % wordMod

/-- `((list)->size)--`. -/
def decSize (n : Nat) : Nat :=
  (n + (wordMod - 1)) % wordMod

section Macros

variable [DecidableEq α]

/-- `LIST_INSERT_HEAD`. -/
def listInsertHead (l : Links α) (h : ListHead α) (elm : α) : Links α × ListHead α :=
  let l := l.setNext elm h.lhFirst
  match h.lhFirst with
  | some first =>
    ((l.setPrev first (some elm)).setPrev elm none,
      { h with lhFirst := some elm, size := incSize h.size })
  | none =>
    (l.setPrev elm none,
      { h with lhFirst := some elm, lhLast := some elm, size := incSize h.size })

/-- `LIST_INSERT_TAIL`. -/
def listInsertTail (l : Links α) (h : ListHead α) (elm : α) : Links α × ListHead α :=
  let l := l.setPrev elm h.lhLast
  match h.lhLast with
  | some last =>
    ((l.setNext last (some elm)).setNext elm none,
      { h with lhLast := some elm, size := incSize h.size })
  | none =>
    (l.setNext elm none,
      { h with lhFirst := some elm, lhLast := some elm, size := incSize h.size })

/-- `LIST_INSERT_BEFORE`. -/
def listInsertBefore (l : Links α) (h : ListHead α) (listelm elm : α) : Links α × ListHead α :=
  let l := (l.setPrev elm (l.prev listelm)).setNext elm (some listelm)
  match l.prev listelm with
  | some before =>
    ((l.setNext before (some elm)).setPrev listelm (some elm), { h with size := incSize h.size })
  | none =>
    (l.setPrev listelm (some elm), { h with lhFirst := some elm, size := incSize h.size })

/-- The first half of `LIST_REMOVE`: the element after `elm`, or the end of the list. -/
def unlinkNext (l : Links α) (h : ListHead α) (elm : α) : Links α × ListHead α :=
  match l.next elm with
  | some after => (l.setPrev after (l.prev elm), h)
  | none => (l, { h with lhLast := l.prev elm })

/-- The second half: the element before `elm`, or the start of the list. -/
def unlinkPrev (l : Links α) (h : ListHead α) (elm : α) : Links α × ListHead α :=
  match l.prev elm with
  | some before => (l.setNext before (l.next elm), h)
  | none => (l, { h with lhFirst := l.next elm })

/-- `LIST_REMOVE`. -/
def listRemove (l : Links α) (h : ListHead α) (elm : α) : Links α × ListHead α :=
  let (l, h) := unlinkNext l h elm
  let (l, h) := unlinkPrev l h elm
  ((l.setNext elm none).setPrev elm none, { h with size := decSize h.size })

end Macros

/-! ## The sequence of a list -/

/-- The head and the links represent the sequence `xs`. -/
structure IsList (l : Links α) (h : ListHead α) (xs : List α) : Prop where
  nodup : xs.Nodup
  first : h.lhFirst = xs.head?
  last : h.lhLast = xs.getLast?
  size : h.size = xs.length % wordMod
  seg : Seg l none xs none

theorem isList_init (l : Links α) (h : ListHead α) : IsList l (listInit h) [] :=
  ⟨List.nodup_nil, rfl, rfl, rfl, trivial⟩

/-- A list depends on the links of its own elements, and not on `ptrNext`. -/
theorem IsList.congr {l m : Links α} {h g : ListHead α} {xs : List α} (hl : IsList l h xs)
    (hlinks : ∀ x ∈ xs, m.next x = l.next x ∧ m.prev x = l.prev x)
    (hfirst : g.lhFirst = h.lhFirst) (hlast : g.lhLast = h.lhLast) (hsize : g.size = h.size) :
    IsList m g xs :=
  ⟨hl.nodup, hfirst.trans hl.first, hlast.trans hl.last, hsize.trans hl.size, hl.seg.congr hlinks⟩

/-- What a macro leaves alone: the links outside `xs` and `elm`. -/
def SameOff (xs : List α) (elm : α) (l m : Links α) : Prop :=
  ∀ y, y ∉ xs → y ≠ elm → m.next y = l.next y ∧ m.prev y = l.prev y

/-- A list that shares no element with the changed one is still there. -/
theorem IsList.of_sameOff {l m : Links α} {h : ListHead α} {xs ys : List α} {elm : α}
    (hl : IsList l h ys) (hm : SameOff xs elm l m) (hdisj : ∀ y ∈ ys, y ∉ xs)
    (helm : elm ∉ ys) : IsList m h ys := by
  refine hl.congr (fun y hy => hm y (hdisj y hy) ?_) rfl rfl rfl
  rintro rfl
  exact helm hy

theorem incSize_length (xs : List α) : incSize (xs.length % wordMod) = (xs.length + 1) % wordMod := by
  simp only [incSize, wordMod]
  omega

variable {l : Links α} {h : ListHead α} {xs : List α} {elm : α}

/-- The element after `x`. -/
theorem IsList.next_eq {as bs : List α} {x : α} (hl : IsList l h (as ++ x :: bs)) :
    l.next x = bs.head? := by
  have := (seg_middle.1 hl.seg).2.2.1
  rwa [Option.or_none] at this

theorem IsList.first_eq_none_iff (hl : IsList l h xs) : h.lhFirst = none ↔ xs = [] := by
  rw [hl.first, List.head?_eq_none_iff]

/-! ## Insertions -/

variable [DecidableEq α]

/-- `LIST_INSERT_TAIL` appends. -/
theorem IsList.insertTail (hl : IsList l h xs) (helm : elm ∉ xs) :
    IsList (listInsertTail l h elm).1 (listInsertTail l h elm).2 (xs ++ [elm]) ∧
      SameOff xs elm l (listInsertTail l h elm).1 := by
  have hnodup : (xs ++ [elm]).Nodup := by
    refine List.nodup_append.2 ⟨hl.nodup, List.nodup_singleton _, ?_⟩
    rintro x hx y hy rfl
    exact helm (List.mem_singleton.1 hy ▸ hx)
  cases hlast : xs.getLast? with
  | none =>
    have hnil : xs = [] := List.getLast?_eq_none_iff.1 hlast
    subst hnil
    have hl' : h.lhLast = none := hl.last.trans hlast
    have hsize := hl.size
    simp only [listInsertTail, hl']
    refine ⟨⟨hnodup, rfl, rfl, ?_, ⟨?_, ?_, trivial⟩⟩, ?_⟩
    · rw [hsize]
      exact incSize_length []
    · simp
    · simp
    · intro y _ hy
      simp [hy]
  | some last =>
    have hl' : h.lhLast = some last := hl.last.trans hlast
    have hmem : last ∈ xs := List.mem_of_getLast? hlast
    have hne : last ≠ elm := by
      rintro rfl
      exact helm hmem
    simp only [listInsertTail, hl']
    refine ⟨⟨hnodup, ?_, ?_, ?_, ?_⟩, ?_⟩
    · rw [hl.first]
      cases xs with
      | nil => cases hlast
      | cons x xs => rfl
    · simp
    · rw [hl.size, incSize_length, List.length_append]
      rfl
    · rw [seg_append]
      refine ⟨?_, ?_, ?_, trivial⟩
      · have hseg := (hl.seg.setPrev_of_notMem helm (some last)).setLast hl.nodup hlast (some elm)
        exact hseg.setNext_of_notMem helm none
      · simp [hlast]
      · simp
    · intro y hy hye
      have hyl : y ≠ last := by
        rintro rfl
        exact hy hmem
      simp [hye, hyl]

/-- `LIST_INSERT_HEAD` prepends. -/
theorem IsList.insertHead (hl : IsList l h xs) (helm : elm ∉ xs) :
    IsList (listInsertHead l h elm).1 (listInsertHead l h elm).2 (elm :: xs) ∧
      SameOff xs elm l (listInsertHead l h elm).1 := by
  have hnodup : (elm :: xs).Nodup := List.nodup_cons.2 ⟨helm, hl.nodup⟩
  cases hfirst : xs.head? with
  | none =>
    have hnil : xs = [] := List.head?_eq_none_iff.1 hfirst
    subst hnil
    have hl' : h.lhFirst = none := hl.first
    simp only [listInsertHead, hl']
    refine ⟨⟨hnodup, rfl, rfl, ?_, ⟨?_, ?_, trivial⟩⟩, ?_⟩
    · rw [hl.size]
      exact incSize_length []
    · simp
    · simp
    · intro y _ hy
      simp [hy]
  | some first =>
    have hl' : h.lhFirst = some first := hl.first.trans hfirst
    have hmem : first ∈ xs := List.mem_of_head? hfirst
    have hne : first ≠ elm := by
      rintro rfl
      exact helm hmem
    simp only [listInsertHead, hl']
    refine ⟨⟨hnodup, rfl, ?_, ?_, ⟨?_, ?_, ?_⟩⟩, ?_⟩
    · rw [hl.last]
      cases xs with
      | nil => cases hfirst
      | cons x xs => rw [List.getLast?_cons_cons]
    · rw [hl.size, incSize_length]
      rfl
    · simp
    · simp [hfirst]
    · have hseg := (hl.seg.setNext_of_notMem helm (some first)).setFirst hl.nodup hfirst (some elm)
      exact hseg.setPrev_of_notMem helm none
    · intro y hy hye
      have hyf : y ≠ first := by
        rintro rfl
        exact hy hmem
      simp [hye, hyf]

/-- `LIST_INSERT_BEFORE` inserts in front of an element of the list. -/
theorem IsList.insertBefore {as bs : List α} {x : α} (hl : IsList l h (as ++ x :: bs))
    (helm : elm ∉ as ++ x :: bs) :
    IsList (listInsertBefore l h x elm).1 (listInsertBefore l h x elm).2 (as ++ elm :: x :: bs) ∧
      SameOff (as ++ x :: bs) elm l (listInsertBefore l h x elm).1 := by
  have hex : x ≠ elm := by
    rintro rfl
    exact helm (by simp)
  have hnodup : (as ++ elm :: x :: bs).Nodup := by
    rw [List.nodup_middle]
    exact List.nodup_cons.2 ⟨helm, hl.nodup⟩
  have helma : elm ∉ as := fun hx => helm (List.mem_append_left _ hx)
  have helmb : elm ∉ x :: bs := fun hx => helm (List.mem_append_right _ hx)
  obtain ⟨hnd₁, hnd₂, hdisj⟩ := List.nodup_append.1 hl.nodup
  have hxa : x ∉ as := fun hx => hdisj x hx x List.mem_cons_self rfl
  obtain ⟨hsega, hprev, hnext, hsegb⟩ := seg_middle.1 hl.seg
  rw [Option.or_none] at hprev
  have hlast : (as ++ elm :: x :: bs).getLast? = (as ++ x :: bs).getLast? := by
    rw [List.getLast?_append, List.getLast?_append, List.getLast?_cons_cons]
  have hsize : incSize h.size = (as ++ elm :: x :: bs).length % wordMod := by
    rw [hl.size, incSize_length]
    simp only [List.length_append, List.length_cons]
    rfl
  have hp : ((l.setPrev elm (l.prev x)).setNext elm (some x)).prev x = as.getLast? := by
    simp [hex, hprev]
  simp only [listInsertBefore]
  rw [hp]
  cases has : as.getLast? with
  | none =>
    have hnil : as = [] := List.getLast?_eq_none_iff.1 has
    subst hnil
    refine ⟨⟨hnodup, rfl, ?_, hsize, ⟨?_, ?_, ?_, ?_, ?_⟩⟩, ?_⟩
    · rw [hl.last, ← hlast]
    · simp [Ne.symm hex, hprev]
    · simp
    · simp
    · simpa [hex] using hnext
    · refine hsegb.congr fun y hy => ?_
      have hyx : y ≠ x := by
        rintro rfl
        exact (List.nodup_cons.1 hnd₂).1 hy
      have hye : y ≠ elm := by
        rintro rfl
        exact helmb (List.mem_cons_of_mem _ hy)
      simp [hyx, hye]
    · intro y hy hye
      have hyx : y ≠ x := by
        rintro rfl
        exact hy (by simp)
      simp [hyx, hye]
  | some before =>
    have hmem : before ∈ as := List.mem_of_getLast? has
    have hbe : before ≠ elm := by
      rintro rfl
      exact helma hmem
    have hbx : before ≠ x := by
      rintro rfl
      exact hxa hmem
    have hbb : before ∉ bs := fun hx => hdisj before hmem before (List.mem_cons_of_mem _ hx) rfl
    refine ⟨⟨hnodup, ?_, ?_, hsize, ?_⟩, ?_⟩
    · rw [hl.first]
      cases as with
      | nil => cases has
      | cons a as => rfl
    · rw [hl.last, ← hlast]
    · rw [seg_middle]
      refine ⟨?_, ?_, ?_, ⟨?_, ?_, ?_⟩⟩
      · -- the part in front now ends at the new element
        have h₁ := (hsega.setPrev_of_notMem helma (l.prev x)).setNext_of_notMem helma (some x)
        exact (h₁.setLast hnd₁ has (some elm)).setPrev_of_notMem hxa (some elm)
      · simp [Ne.symm hex, hprev, has]
      · simp [Ne.symm hbe]
      · simp
      · simpa [hex, Ne.symm hbx] using hnext
      · refine hsegb.congr fun y hy => ?_
        have hyx : y ≠ x := by
          rintro rfl
          exact (List.nodup_cons.1 hnd₂).1 hy
        have hye : y ≠ elm := by
          rintro rfl
          exact helmb (List.mem_cons_of_mem _ hy)
        have hyb : y ≠ before := by
          rintro rfl
          exact hbb hy
        simp [hyx, hye, hyb]
    · intro y hy hye
      have hyx : y ≠ x := by
        rintro rfl
        exact hy (by simp)
      have hyb : y ≠ before := by
        rintro rfl
        exact hy (List.mem_append_left _ hmem)
      simp [hyx, hye, hyb]

/-! ## LIST_REMOVE -/

section Remove

variable {as bs : List α}

/-- The links after both halves of `LIST_REMOVE`. -/
theorem unlink_links (hl : IsList l h (as ++ elm :: bs)) :
    ∃ l', (unlinkPrev (unlinkNext l h elm).1 (unlinkNext l h elm).2 elm).1 = l' ∧
      Seg l' none as bs.head? ∧ Seg l' as.getLast? bs none ∧
      SameOff (as ++ elm :: bs) elm l l' := by
  obtain ⟨hnda, hndb, hdisj⟩ := List.nodup_append.1 hl.nodup
  obtain ⟨hsega, hprev, hnext, hsegb⟩ := seg_middle.1 hl.seg
  rw [Option.or_none] at hprev hnext
  have heb : elm ∉ bs := (List.nodup_cons.1 hndb).1
  have hea : elm ∉ as := fun hx => hdisj elm hx elm List.mem_cons_self rfl
  have hab : ∀ y ∈ as, y ∉ bs := fun y hy hyb => hdisj y hy y (List.mem_cons_of_mem _ hyb) rfl
  -- the first half: the part behind points back to the part in front
  obtain ⟨m, hm⟩ : ∃ m, m = (unlinkNext l h elm).1 := ⟨_, rfl⟩
  have hmseg : Seg m none as (some elm) ∧ Seg m as.getLast? bs none ∧ m.prev elm = as.getLast? ∧
      m.next elm = bs.head? ∧ SameOff (as ++ elm :: bs) elm l m := by
    cases hbs : bs.head? with
    | none =>
      have hnil : bs = [] := List.head?_eq_none_iff.1 hbs
      subst hnil
      have hml : m = l := by
        rw [hm, unlinkNext, hnext]
        rfl
      rw [hml]
      exact ⟨hsega, trivial, hprev, hnext, fun _ _ _ => ⟨rfl, rfl⟩⟩
    | some after =>
      have hmem : after ∈ bs := List.mem_of_head? hbs
      have hml : m = l.setPrev after as.getLast? := by
        rw [hm, unlinkNext, hnext, hbs, hprev]
      have hne : after ≠ elm := by
        rintro rfl
        exact heb hmem
      have hna : after ∉ as := fun hx => hab after hx hmem
      rw [hml]
      refine ⟨hsega.setPrev_of_notMem hna _, hsegb.setFirst (List.nodup_cons.1 hndb).2 hbs _, ?_, ?_,
        ?_⟩
      · simp [Ne.symm hne, hprev]
      · rw [Links.setPrev_next, hnext, hbs]
      · intro y hy _
        have hya : y ≠ after := by
          rintro rfl
          exact hy (by simp [hmem])
        simp [hya]
  obtain ⟨hma, hmb, hmp, hmn, hmo⟩ := hmseg
  obtain ⟨g, hg⟩ : ∃ g, g = (unlinkNext l h elm).2 := ⟨_, rfl⟩
  rw [← hm, ← hg]
  -- the second half: the part in front points on to the part behind
  cases has : as.getLast? with
  | none =>
    have hnil : as = [] := List.getLast?_eq_none_iff.1 has
    subst hnil
    refine ⟨m, ?_, trivial, hmb, hmo⟩
    rw [unlinkPrev, hmp]
    rfl
  | some before =>
    have hmem : before ∈ as := List.mem_of_getLast? has
    have hne : before ≠ elm := by
      rintro rfl
      exact hea hmem
    have hnb : before ∉ bs := hab before hmem
    refine ⟨m.setNext before bs.head?, ?_, hma.setLast hnda has _, ?_, ?_⟩
    · rw [unlinkPrev, hmp, has, hmn]
    · rw [has] at hmb
      exact hmb.setNext_of_notMem hnb _
    · intro y hy hye
      have hyb : y ≠ before := by
        rintro rfl
        exact hy (List.mem_append_left _ hmem)
      obtain ⟨h₁, h₂⟩ := hmo y hy hye
      simp [hyb, h₁, h₂]

/-- The head after both halves of `LIST_REMOVE`. -/
theorem unlink_head (hl : IsList l h (as ++ elm :: bs)) :
    (unlinkPrev (unlinkNext l h elm).1 (unlinkNext l h elm).2 elm).2.lhFirst = (as ++ bs).head? ∧
    (unlinkPrev (unlinkNext l h elm).1 (unlinkNext l h elm).2 elm).2.lhLast = (as ++ bs).getLast? ∧
    (unlinkPrev (unlinkNext l h elm).1 (unlinkNext l h elm).2 elm).2.size = h.size ∧
    (unlinkPrev (unlinkNext l h elm).1 (unlinkNext l h elm).2 elm).2.ptrNext = h.ptrNext := by
  obtain ⟨hnda, hndb, hdisj⟩ := List.nodup_append.1 hl.nodup
  obtain ⟨-, hprev, hnext, -⟩ := seg_middle.1 hl.seg
  rw [Option.or_none] at hprev hnext
  have heb : elm ∉ bs := (List.nodup_cons.1 hndb).1
  have hfirst := hl.first
  have hlast := hl.last
  rw [List.head?_append] at hfirst
  rw [List.getLast?_append] at hlast
  -- after the first half the end of the list is right
  have hnextHead : (unlinkNext l h elm).2.lhLast = (as ++ bs).getLast? ∧
      (unlinkNext l h elm).2.lhFirst = h.lhFirst ∧ (unlinkNext l h elm).2.size = h.size ∧
      (unlinkNext l h elm).2.ptrNext = h.ptrNext ∧
      (unlinkNext l h elm).1.prev elm = as.getLast? ∧
      (unlinkNext l h elm).1.next elm = bs.head? := by
    rw [unlinkNext, hnext]
    cases bs with
    | nil => simp [hprev, hnext]
    | cons b bs =>
      have hne : elm ≠ b := by
        rintro rfl
        exact heb List.mem_cons_self
      refine ⟨?_, rfl, rfl, rfl, by simp [hne, hprev], by simp [hnext]⟩
      show h.lhLast = _
      rw [hlast, List.getLast?_append, List.getLast?_cons_cons]
  obtain ⟨h₁, h₂, h₃, h₄, h₅, h₆⟩ := hnextHead
  rw [unlinkPrev, h₅]
  cases as with
  | nil => exact ⟨h₆, h₁, h₃, h₄⟩
  | cons a as =>
    cases hx : (a :: as).getLast? with
    | none => simp at hx
    | some before =>
      refine ⟨?_, h₁, h₃, h₄⟩
      simp only
      rw [h₂, hfirst]
      rfl

/-- `LIST_REMOVE` takes the element out. -/
theorem IsList.remove (hl : IsList l h (as ++ elm :: bs)) :
    IsList (listRemove l h elm).1 (listRemove l h elm).2 (as ++ bs) ∧
      SameOff (as ++ elm :: bs) elm l (listRemove l h elm).1 ∧
      (listRemove l h elm).2.ptrNext = h.ptrNext := by
  obtain ⟨l', hl', hsega, hsegb, hoff⟩ := unlink_links hl
  obtain ⟨hfirst, hlast, hsize, hptr⟩ := unlink_head hl
  obtain ⟨hnda, hndb, hdisj⟩ := List.nodup_append.1 hl.nodup
  have heb : elm ∉ bs := (List.nodup_cons.1 hndb).1
  have hea : elm ∉ as := fun hx => hdisj elm hx elm List.mem_cons_self rfl
  have hlen : (as ++ elm :: bs).length = (as ++ bs).length + 1 := by
    simp only [List.length_append, List.length_cons]
    omega
  simp only [listRemove, hl']
  refine ⟨⟨?_, hfirst, hlast, ?_, ?_⟩, ?_, hptr⟩
  · refine List.nodup_append.2 ⟨hnda, (List.nodup_cons.1 hndb).2, fun x hx y hy => ?_⟩
    exact hdisj x hx y (List.mem_cons_of_mem _ hy)
  · simp only [hsize, hl.size, hlen, decSize, wordMod]
    omega
  · rw [seg_append, Option.or_none, Option.or_none]
    exact ⟨(hsega.setNext_of_notMem hea none).setPrev_of_notMem hea none,
      (hsegb.setNext_of_notMem heb none).setPrev_of_notMem heb none⟩
  · intro y hy hye
    obtain ⟨h₁, h₂⟩ := hoff y hy hye
    simp [hye, h₁, h₂]

end Remove

end FosMemory
