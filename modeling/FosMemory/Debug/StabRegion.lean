import FosMemory.Debug.StabSearch

/-!
# StabRegion — when `stab_binsearch` finds the stab that contains an address

The comment of the function promises the last stab of the type at or below the address, and the
place before the next one.  `addr++` was written for an integer; on a `uint32*` the search goes on
four bytes further, and a next stab within these four bytes is taken for the containing one.  A
range with stabs of the type above the address only is not answered with an empty region either.
-/

namespace FosMemory
namespace Debug

open Lib

section Spec

variable (stabs : Int → Stab) (type addr : Nat) (left right : Int)

/-- Some stab of the type in the range is at or below the address. -/
def Contained : Prop :=
  ∃ i, left ≤ i ∧ i ≤ right ∧ (stabs i).nType = type ∧ (stabs i).nValue ≤ addr

/-- `k` is the last stab of the type in the range that is at or below the address. -/
def IsLast (k : Int) : Prop :=
  left ≤ k ∧ k ≤ right ∧ (stabs k).nType = type ∧ (stabs k).nValue ≤ addr ∧
    ∀ i, k < i → i ≤ right → (stabs i).nType = type → addr < (stabs i).nValue

/-- `q` is one less than the index of the next stab of the type, or the end of the range. -/
def IsEnd (k q : Int) : Prop :=
  k ≤ q ∧ (∀ i, k < i → i ≤ q → (stabs i).nType ≠ type) ∧
    (q = right ∨ q + 1 ≤ right ∧ (stabs (q + 1)).nType = type)

/-- The region that the comment of `stab_binsearch` describes. -/
structure IsRegion (p q : Int) : Prop where
  found : Contained stabs type addr left right →
    IsLast stabs type addr left right p ∧ IsEnd stabs type right p q
  absent : ¬ Contained stabs type addr left right → q < p

/-- The stab right behind `k` is met by the first `addr++`, and the second one wraps around, so
that the search comes back to `k`. -/
def Corner (k r : Int) : Prop :=
  wordMod ≤ addr + 8 ∧ k + 1 ≤ r ∧ (stabs (k + 1)).nType = type ∧
    (stabs (k + 1)).nValue = addr + 4

/-- After the exact match at `k` no stab of the type that is still in the range lies within the
four bytes of `addr++`, the corner apart. -/
def Clear (k : Int) : Prop :=
  addr + 4 < wordMod ∧
    ((∀ j, k < j → j ≤ hitEnd stabs type k (right - left + 1).toNat left right →
        (stabs j).nType = type → addr + 4 < (stabs j).nValue) ∨
      Corner stabs type addr k (hitEnd stabs type k (right - left + 1).toNat left right))

/-- The addresses that the search answers as its comment says. -/
def Findable : Prop :=
  (∃ i, left ≤ i ∧ i ≤ right ∧ (stabs i).nType = type) →
    Contained stabs type addr left right ∧
      ∀ k, left ≤ k → k ≤ right → (stabs k).nType = type → (stabs k).nValue = addr →
        Clear stabs type addr left right k

end Spec

section Results

variable {stabs : Int → Stab} {type addr : Nat} {left right : Int}

/-- The loop's end is the function's. -/
theorem Search.Ends.result {t : Search}
    (h : (Search.start addr left right).Ends stabs type t) :
    EndsWith (stabBinsearch stabs type addr left right) (t.region stabs type) := by
  obtain ⟨n, hn⟩ := h
  refine ⟨n, fun fuel hfuel => ?_⟩
  have hloop := hn fuel hfuel
  dsimp only at hloop
  rw [stabBinsearch, hloop, Option.map_some]

theorem IsLast.unique {j k : Int} (h : IsLast stabs type addr left right j)
    (h' : IsLast stabs type addr left right k) : j = k := by
  obtain ⟨-, hjr, hjtype, hjvalue, hj⟩ := h
  obtain ⟨-, hkr, hktype, hkvalue, hk⟩ := h'
  rcases Int.lt_trichotomy j k with hlt | heq | hlt
  · exact absurd hkvalue (Nat.not_le.2 (hj k hlt hkr hktype))
  · exact heq
  · exact absurd hjvalue (Nat.not_le.2 (hk j hlt hjr hjtype))

/-- Where `k` is the containing stab, the region is `k` and its end. -/
theorem IsLast.isRegion_iff {k p q : Int} (h : IsLast stabs type addr left right k) :
    IsRegion stabs type addr left right p q ↔ p = k ∧ IsEnd stabs type right k q := by
  have hcontained : Contained stabs type addr left right :=
    ⟨k, h.1, h.2.1, h.2.2.1, h.2.2.2.1⟩
  constructor
  · intro hregion
    obtain ⟨hlast, hend⟩ := hregion.found hcontained
    obtain rfl := hlast.unique h
    exact ⟨rfl, hend⟩
  · rintro ⟨rfl, hend⟩
    exact ⟨fun _ => ⟨h, hend⟩, fun hnot => absurd hcontained hnot⟩

/-! ## Without an exact match -/

theorem isRegion_of_miss (hleft : 0 ≤ left) (hinc : Increasing stabs type left right)
    (hmiss : ∀ i, left ≤ i → i ≤ right → (stabs i).nType = type → (stabs i).nValue ≠ addr) :
    ∃ t, (Search.start addr left right).Ends stabs type t ∧
      (IsRegion stabs type addr left right (t.region stabs type).1 (t.region stabs type).2 ↔
        Findable stabs type addr left right) := by
  obtain ⟨t, ht, hb⟩ := Search.ends_miss (s := .start addr left right) hleft hinc hmiss
  refine ⟨t, ht, ?_⟩
  -- no hit in the range, so the clause on exact matches is empty
  have hfindable : Findable stabs type addr left right ↔
      ((∃ i, left ≤ i ∧ i ≤ right ∧ (stabs i).nType = type) →
        Contained stabs type addr left right) :=
    imp_congr_right fun _ => and_iff_left fun k hlk hkr htype hvalue =>
      absurd hvalue (hmiss k hlk hkr htype)
  rw [hfindable]
  by_cases hsome : ∃ i, left ≤ i ∧ i ≤ right ∧ (stabs i).nType = type
  · by_cases hcontained : Contained stabs type addr left right
    · -- some stab of the type is below the address
      refine iff_of_true ?_ fun _ => hcontained
      obtain ⟨b, hlb, hbr, hbtype, hbvalue⟩ := hcontained
      have hlt : (stabs b).nValue < addr :=
        Nat.lt_of_le_of_ne hbvalue (hmiss b hlb hbr hbtype)
      have hregion := hb.region rfl hinc ⟨b, hlb, hbr, hbtype, hlt⟩
      have hlast : IsLast stabs type addr left right (t.region stabs type).1 :=
        ⟨hregion.lower, hregion.le.trans hregion.upper, hregion.ofType, hregion.value.le,
          hregion.above⟩
      exact hlast.isRegion_iff.2 ⟨rfl, hregion.le, hregion.between, hregion.next⟩
    · -- all of them are above it, and the region still has its left end
      refine iff_of_false (fun hregion => ?_) fun h => hcontained (h hsome)
      have hany : t.anyMatches = true := hb.matched.2 (.inr hsome)
      have hle := @Search.region_le stabs type t hany
      exact absurd (hregion.absent hcontained) (Int.not_lt.2 hle)
  · -- no stab of the type at all
    refine iff_of_true ?_ fun h => absurd h hsome
    have hany : t.anyMatches ≠ true := by
      rw [Ne, hb.matched]
      rintro (hfalse | h)
      · exact Bool.false_ne_true hfalse
      · exact hsome h
    have hrl : t.regionLeft = left := by
      rcases hb.left with ⟨heq, -⟩ | ⟨hlp, hpr, hptype, -⟩
      · exact heq
      · exact absurd ⟨_, hlp, hpr, hptype⟩ hsome
    rw [Search.region, if_neg hany]
    refine ⟨?_, fun _ => Int.sub_one_lt_of_le le_rfl⟩
    rintro ⟨i, hli, hir, htype, -⟩
    exact absurd ⟨i, hli, hir, htype⟩ hsome

/-! ## Behind an exact match -/

section Hit

variable {k r : Int}

/-- `addr++` wraps around: the search closes in on the left of `k`. -/
theorem region_of_wrap (hk : 0 ≤ k) (hkr : k ≤ r) (hinc : Increasing stabs type k r)
    (htype : (stabs k).nType = type) (hvalue : (stabs k).nValue = addr)
    (hwrap : (addr + 4) % wordMod < addr) {s : Search} (hs : s.addr = addr) :
    ∃ t, (s.hit k r).Ends stabs type t ∧ t.region stabs type = (k - 1, k - 1) := by
  -- every stab of the type from `k` on is above the wrapped address
  have hall : ∀ i, k ≤ i → i ≤ r → (stabs i).nType = type →
      (s.addr + 4) % wordMod < (stabs i).nValue := by
    intro i hki hir hi
    rw [hs]
    rcases Int.lt_or_eq_of_le hki with hlt | rfl
    · exact hwrap.trans (hvalue ▸ hinc k i le_rfl hlt hir htype hi)
    · exact hvalue ▸ hwrap
  obtain ⟨t, ht, hb⟩ := (s.hit k r).ends_miss hk hinc fun i hki hir hi =>
    Nat.ne_of_gt (hall i hki hir hi)
  obtain ⟨hany, hleft, hlow, hlt⟩ := hb.region_above hall (le_refl k) hkr htype
  have hrl : t.regionLeft = k := hleft
  have hrr : t.regionRight = k - 1 := by
    have hlow' : k - 1 ≤ t.regionRight := hlow
    omega
  obtain ⟨hright, hcross, -⟩ := @Search.region_spec stabs type t hany
  refine ⟨t, ht, Prod.ext ?_ ?_⟩
  · rw [hcross (by omega), hrr]
  · rw [hright, hrr]

/-- The stabs of the type right of `k` are more than four bytes above: the region is found. -/
theorem region_of_clear (hk : 0 ≤ k) (hkr : k ≤ r) (hinc : Increasing stabs type k r)
    (htype : (stabs k).nType = type) (hvalue : (stabs k).nValue = addr) (hfit : addr + 4 < wordMod)
    (hclear : ∀ j, k < j → j ≤ r → (stabs j).nType = type → addr + 4 < (stabs j).nValue)
    {s : Search} (hs : s.addr = addr) :
    ∃ t, (s.hit k r).Ends stabs type t ∧ (t.region stabs type).1 = k ∧
      Region stabs type (addr + 4) k r k (t.region stabs type).2 := by
  have haddr : (s.hit k r).addr = addr + 4 := by
    show (s.addr + 4) % wordMod = addr + 4
    rw [hs, Nat.mod_eq_of_lt hfit]
  have hmiss : ∀ i, k ≤ i → i ≤ r → (stabs i).nType = type →
      (stabs i).nValue ≠ (s.hit k r).addr := by
    intro i hki hir hi
    rw [haddr]
    rcases Int.lt_or_eq_of_le hki with hlt | rfl
    · exact Nat.ne_of_gt (hclear i hlt hir hi)
    · omega
  obtain ⟨t, ht, hb⟩ := (s.hit k r).ends_miss hk hinc hmiss
  have hregion := hb.region rfl hinc ⟨k, le_refl k, hkr, htype, by omega⟩
  rw [haddr] at hregion
  have hp : (t.region stabs type).1 = k := by
    by_contra hne
    have hgt : k < (t.region stabs type).1 :=
      lt_of_le_of_ne hregion.lower (Ne.symm hne)
    exact Nat.lt_asymm hregion.value
      (hclear _ hgt (hregion.le.trans hregion.upper) hregion.ofType)
  rw [hp] at hregion
  exact ⟨t, ht, hp, hregion⟩

/-- A stab `j` of the type within the four bytes: the region starts right of `k`, except in the
corner. -/
theorem region_of_close (hk : 0 ≤ k) (hinc : Increasing stabs type k r)
    (htype : (stabs k).nType = type) (hvalue : (stabs k).nValue = addr) (hfit : addr + 4 < wordMod)
    {j : Int} (hkj : k < j) (hjr : j ≤ r) (hjtype : (stabs j).nType = type)
    (hjvalue : (stabs j).nValue ≤ addr + 4) {s : Search} (hs : s.addr = addr) :
    ∃ t, (s.hit k r).Ends stabs type t ∧
      (Corner stabs type addr k r → t.region stabs type = (k, k)) ∧
      (¬ Corner stabs type addr k r → k < (t.region stabs type).1) := by
  have haddr : (s.hit k r).addr = addr + 4 := by
    show (s.addr + 4) % wordMod = addr + 4
    rw [hs, Nat.mod_eq_of_lt hfit]
  rcases miss_or_hit stabs type (s.hit k r) with hmiss | ⟨m, hkm, hmr, hmtype, hmvalue⟩
  · -- no stab has the address `addr + 4`: the region starts at `j` or right of it
    rw [haddr] at hmiss
    obtain ⟨t, ht, hb⟩ := (s.hit k r).ends_miss hk hinc (by rw [haddr]; exact hmiss)
    have hregion := hb.region rfl hinc ⟨k, le_refl k, (hkj.trans_le hjr).le, htype, by omega⟩
    rw [haddr] at hregion
    refine ⟨t, ht, fun ⟨_, hr₁, htype₁, hvalue₁⟩ => ?_, fun _ => ?_⟩
    · exact absurd hvalue₁ (hmiss (k + 1) (show k ≤ k + 1 by omega) hr₁ htype₁)
    · by_contra hle
      have hp : (t.region stabs type).1 < j := (Int.not_lt.1 hle).trans_lt hkj
      exact absurd hjvalue (Nat.not_le.2 (hregion.above j hp hjr hjtype))
  · -- the exact match at `m` is right of `k`
    rw [haddr] at hmvalue
    have hkm' : k < m := by
      refine lt_of_le_of_ne hkm fun heq => ?_
      subst heq
      omega
    have hm : 0 ≤ m := hk.trans hkm
    obtain ⟨q, hhit⟩ : ∃ q, HitAt stabs type (s.hit k r) m q :=
      ⟨_, (s.hit k r).ends_hit hk hinc rfl hkm hmr hmtype (hmvalue.trans haddr.symm)
        (Nat.le_refl _)⟩
    have hincm : Increasing stabs type m q := hinc.mono hkm hhit.upper
    -- the corner is the match right behind `k`
    have hcorner : Corner stabs type addr k r ↔ wordMod ≤ addr + 8 ∧ m = k + 1 := by
      constructor
      · rintro ⟨hwrap, hr₁, htype₁, hvalue₁⟩
        refine ⟨hwrap, ?_⟩
        rcases Int.lt_trichotomy m (k + 1) with hlt | heq | hlt
        · omega
        · exact heq
        · have := hinc (k + 1) m (by omega) hlt hmr htype₁ hmtype
          omega
      · rintro ⟨hwrap, rfl⟩
        exact ⟨hwrap, hmr, hmtype, hmvalue⟩
    rw [hcorner]
    by_cases hwrap : wordMod ≤ addr + 8
    · have hback : (addr + 4 + 4) % wordMod < addr + 4 := by
        simp only [wordMod] at hwrap hfit ⊢
        omega
      obtain ⟨t, ht, heq⟩ := region_of_wrap hm hhit.le hincm hmtype hmvalue hback haddr
      refine ⟨t, hhit.ends t ht, fun ⟨_, hm₁⟩ => ?_, fun hnot => ?_⟩
      · rw [heq, hm₁, Int.add_sub_cancel]
      · have hne : m ≠ k + 1 := fun hm₁ => hnot ⟨hwrap, hm₁⟩
        rw [heq]
        show k < m - 1
        omega
    · have hnext : (addr + 4 + 4) % wordMod = addr + 8 := Nat.mod_eq_of_lt (Nat.not_le.1 hwrap)
      have hpast : (stabs m).nValue < ((s.hit k r).hit m q).addr := by
        show (stabs m).nValue < ((s.hit k r).addr + 4) % wordMod
        rw [haddr, hnext, hmvalue]
        omega
      obtain ⟨t, ht, hle⟩ := Search.ends_past (s := (s.hit k r).hit m q) rfl rfl hm hhit.le hincm
        hmtype hpast
      exact ⟨t, hhit.ends t ht, fun ⟨h, _⟩ => absurd h hwrap, fun _ => hkm'.trans_le hle⟩

theorem isRegion_of_hit (hleft : 0 ≤ left) (hinc : Increasing stabs type left right)
    (haddr : addr < wordMod) (hlk : left ≤ k) (hkr : k ≤ right) (htype : (stabs k).nType = type)
    (hvalue : (stabs k).nValue = addr) :
    ∃ t, (Search.start addr left right).Ends stabs type t ∧
      (IsRegion stabs type addr left right (t.region stabs type).1 (t.region stabs type).2 ↔
        Findable stabs type addr left right) := by
  have hlast : IsLast stabs type addr left right k :=
    ⟨hlk, hkr, htype, hvalue.le, fun i hki hir hi => hvalue ▸ hinc k i hlk hki hir htype hi⟩
  -- `k` is the only exact match
  have hfindable : Findable stabs type addr left right ↔ Clear stabs type addr left right k := by
    constructor
    · intro h
      exact (h ⟨k, hlk, hkr, htype⟩).2 k hlk hkr htype hvalue
    · intro h _
      refine ⟨⟨k, hlk, hkr, htype, hvalue.le⟩, fun i hli hir hi hivalue => ?_⟩
      have hi' : IsLast stabs type addr left right i :=
        ⟨hli, hir, hi, hivalue.le, fun j hij hjr hj => hivalue ▸ hinc i j hli hij hjr hi hj⟩
      exact hi'.unique hlast ▸ h
  obtain ⟨r, hr⟩ : ∃ r, r = hitEnd stabs type k (right - left + 1).toNat left right := ⟨_, rfl⟩
  have hhit : HitAt stabs type (.start addr left right) k r := hr ▸
    Search.ends_hit (s := .start addr left right) hleft hinc rfl hlk hkr htype hvalue
      (Nat.le_refl _)
  have hk : 0 ≤ k := hleft.trans hlk
  have hinck : Increasing stabs type k r := hinc.mono hlk hhit.upper
  rw [hfindable, Clear, ← hr]
  by_cases hfit : addr + 4 < wordMod
  · by_cases hall : ∀ j, k < j → j ≤ r → (stabs j).nType = type → addr + 4 < (stabs j).nValue
    · obtain ⟨t, ht, hp, hregion⟩ :=
        region_of_clear hk hhit.le hinck htype hvalue hfit hall
          (show (Search.start addr left right).addr = addr from rfl)
      refine ⟨t, hhit.ends t ht, ?_⟩
      rw [hlast.isRegion_iff]
      refine iff_of_true ⟨hp, hregion.le, hregion.between, ?_⟩ ⟨hfit, .inl hall⟩
      -- the right end of the range of `k` is the old one or lies before a stab of the type
      rcases hregion.next with heq | ⟨hle, hnext⟩
      · rw [heq]
        exact hhit.bound
      · exact .inr ⟨hle.trans hhit.upper, hnext⟩
    · obtain ⟨j, hkj, hjr, hjtype, hjvalue⟩ : ∃ j, k < j ∧ j ≤ r ∧ (stabs j).nType = type ∧
          ¬ addr + 4 < (stabs j).nValue := by
        simpa only [not_forall, exists_prop] using hall
      obtain ⟨t, ht, hcorner, hpast⟩ :=
        region_of_close hk hinck htype hvalue hfit hkj hjr hjtype (Nat.not_lt.1 hjvalue)
          (show (Search.start addr left right).addr = addr from rfl)
      refine ⟨t, hhit.ends t ht, ?_⟩
      rw [hlast.isRegion_iff]
      by_cases hc : Corner stabs type addr k r
      · rw [hcorner hc]
        refine iff_of_true ⟨rfl, le_refl k, fun i hki hik => absurd hik (Int.not_le.2 hki), ?_⟩
          ⟨hfit, .inr hc⟩
        exact .inr ⟨hc.2.1.trans hhit.upper, hc.2.2.1⟩
      · refine iff_of_false (fun h => ?_) fun h => ?_
        · exact absurd h.1 (ne_of_gt (hpast hc))
        · exact h.2.elim hall hc
  · -- the address four bytes further is past the end of memory
    have hwrap : (addr + 4) % wordMod < addr := by
      simp only [wordMod] at hfit haddr ⊢
      omega
    obtain ⟨t, ht, heq⟩ := region_of_wrap hk hhit.le hinck htype hvalue hwrap
      (show (Search.start addr left right).addr = addr from rfl)
    refine ⟨t, hhit.ends t ht, ?_⟩
    rw [hlast.isRegion_iff, heq]
    refine iff_of_false (fun h => ?_) fun h => hfit h.1
    exact absurd h.1 (Int.ne_of_lt (Int.sub_one_lt_of_le le_rfl))

end Hit

/-! ## The result -/

/-- The search always ends, and its region is the promised one exactly for the findable
addresses. -/
theorem stabBinsearch_iff (hleft : 0 ≤ left) (haddr : addr < wordMod)
    (hinc : Increasing stabs type left right) :
    ∃ p q, EndsWith (stabBinsearch stabs type addr left right) (p, q) ∧
      (IsRegion stabs type addr left right p q ↔ Findable stabs type addr left right) := by
  rcases miss_or_hit stabs type (.start addr left right) with hmiss | ⟨k, hlk, hkr, htype, hvalue⟩
  · obtain ⟨t, ht, hiff⟩ := isRegion_of_miss hleft hinc hmiss
    exact ⟨_, _, ht.result, hiff⟩
  · obtain ⟨t, ht, hiff⟩ := isRegion_of_hit hleft hinc haddr hlk hkr htype hvalue
    exact ⟨_, _, ht.result, hiff⟩

/-- Three `N_SO` stabs with another one between them. -/
def soStabs (i : Int) : Stab :=
  if i = 0 then ⟨100, 4096⟩ else if i = 1 then ⟨68, 4100⟩ else if i = 2 then ⟨100, 4104⟩
  else ⟨100, 4106⟩

theorem soStabs_increasing : Increasing soStabs 100 0 3 := by
  have hall : ∀ i ∈ [(0 : Int), 1, 2, 3], ∀ j ∈ [(0 : Int), 1, 2, 3], i < j →
      (soStabs i).nType = 100 → (soStabs j).nType = 100 →
      (soStabs i).nValue < (soStabs j).nValue := by decide
  intro i j hi hij hj
  have hmem : ∀ i : Int, 0 ≤ i → i ≤ 3 → i ∈ [(0 : Int), 1, 2, 3] := by
    intro i h₀ h₃
    have : i = 0 ∨ i = 1 ∨ i = 2 ∨ i = 3 := by omega
    simpa using this
  exact hall i (hmem i hi (by omega)) j (hmem j (by omega) hj) hij

/-- An address inside the first region. -/
theorem stabBinsearch_between :
    ∃ p q, EndsWith (stabBinsearch soStabs 100 4098 0 3) (p, q) ∧
      (IsRegion soStabs 100 4098 0 3 p q ↔ Findable soStabs 100 4098 0 3) :=
  stabBinsearch_iff (by decide) (by decide) soStabs_increasing

/-- The address of the stab at 2 is answered with the stab at 3, two bytes further. -/
theorem stabBinsearch_overshoots :
    ¬ ∀ (stabs : Int → Stab) (type addr : Nat) (left right : Int), 0 ≤ left → addr < wordMod →
      Increasing stabs type left right →
      ∃ p q, EndsWith (stabBinsearch stabs type addr left right) (p, q) ∧
        IsRegion stabs type addr left right p q := by
  intro h
  obtain ⟨p, q, hends, hregion⟩ :=
    h soStabs 100 4104 0 3 (by decide) (by decide) soStabs_increasing
  have hrun : (Search.start 4104 0 3).Ends soStabs 100
      { l := 4, r := 3, anyMatches := true, regionLeft := 3, regionRight := 3, addr := 4108 } :=
    Halts.of_run (n := 5) (by decide)
  have hpq : (p, q) = (3, 3) := hends.unique hrun.result
  obtain ⟨rfl, rfl⟩ := Prod.mk.inj hpq
  have hlast := (hregion.found ⟨2, by decide⟩).1
  exact absurd hlast.2.2.2.1 (by decide)

end Results

end Debug
end FosMemory
