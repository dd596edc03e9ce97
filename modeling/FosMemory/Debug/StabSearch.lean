import FosMemory.Lib.WhileLoop
import FosMemory.Layout

/-!
# StabSearch — `stab_binsearch` of `kern/kdebug.c`

The stabs of one type are in increasing order of address, with stabs of other types between them.
The search halves a range of indices, and after an exact match it goes on with a larger address to
find the end of the region.  `Stab.n_value` and the address are pointers to `uint32`, so the step of
`addr++` is four bytes.
-/

namespace FosMemory
namespace Debug

open Lib

/-! ## The search -/

/-- The fields of `struct Stab` that the search reads. -/
structure Stab where
  nType : Nat
  nValue : Nat
  deriving DecidableEq, Repr

section Source

variable (stabs : Int → Stab) (type : Nat)

/-- `while (m >= l && stabs[m].n_type != type) m--;` goes down at most to `l - 1`. -/
def scanDown (l : Int) : Nat → Int → Int
  | 0, m => m
  | n + 1, m => if l ≤ m ∧ (stabs m).nType ≠ type then scanDown l n (m - 1) else m

/-- The variables of `stab_binsearch`. -/
structure Search where
  l : Int
  r : Int
  anyMatches : Bool
  regionLeft : Int
  regionRight : Int
  addr : Nat
  deriving DecidableEq, Repr

/-- `true_m`. -/
def Search.trueM (s : Search) : Int :=
  (s.l + s.r).tdiv 2

/-- `m` after the scan for a stab of the right type. -/
def Search.m (s : Search) : Int :=
  scanDown stabs type s.l (s.trueM - s.l + 1).toNat s.trueM

/-- One round of the loop.  `addr` is a `uint32*`, so `addr++` adds four. -/
def Search.round (s : Search) : Search :=
  let m := s.m stabs type
  if m < s.l then { s with l := s.trueM + 1 }
  else if (stabs m).nValue < s.addr then
    { s with anyMatches := true, regionLeft := m, l := s.trueM + 1 }
  else if s.addr < (stabs m).nValue then
    { s with anyMatches := true, regionRight := m - 1, r := m - 1 }
  else
    { s with anyMatches := true, regionLeft := m, l := m, addr := (s.addr + 4) % wordMod }

/-- The two statements behind the loop. -/
def Search.region (s : Search) : Int × Int :=
  if s.anyMatches then
    (scanDown stabs type (s.regionLeft + 1) (s.regionRight - s.regionLeft).toNat s.regionRight,
      s.regionRight)
  else (s.regionLeft, s.regionLeft - 1)

/-- The variables at the start. -/
def Search.start (addr : Nat) (left right : Int) : Search :=
  { l := left, r := right, anyMatches := false, regionLeft := left, regionRight := right,
    addr := addr }

/-- `stab_binsearch`: the region for `addr` within `[left, right]`. -/
def stabBinsearch (addr : Nat) (left right : Int) (fuel : Nat) : Option (Int × Int) :=
  (whileLoop (fun s => s.l ≤ s.r) (Search.round stabs type) fuel
    (Search.start addr left right)).map (Search.region stabs type)

/-- The right end of the range in which the halving of `[l, r]` meets index `k`. -/
def hitEnd (k : Int) : Nat → Int → Int → Int
  | 0, _, r => r
  | n + 1, l, r =>
    let trueM := (l + r).tdiv 2
    let m := scanDown stabs type l (trueM - l + 1).toNat trueM
    if m < k then hitEnd k n (trueM + 1) r
    else if k < m then hitEnd k n l (m - 1)
    else r

/-- The stabs of the type in `[left, right]` have increasing addresses. -/
def Increasing (left right : Int) : Prop :=
  ∀ i j, left ≤ i → i < j → j ≤ right → (stabs i).nType = type → (stabs j).nType = type →
    (stabs i).nValue < (stabs j).nValue

end Source

section Rules

variable {stabs : Int → Stab} {type : Nat}

theorem Increasing.mono {left right l r : Int} (h : Increasing stabs type left right)
    (hl : left ≤ l) (hr : r ≤ right) : Increasing stabs type l r :=
  fun i j hi hij hj => h i j (hl.trans hi) hij (hj.trans hr)

/-! ## The scan for the type -/

variable (stabs type)

theorem scanDown_spec {l m : Int} {n : Nat} (hn : m - l + 1 ≤ n) :
    scanDown stabs type l n m ≤ m ∧ (l ≤ m + 1 → l - 1 ≤ scanDown stabs type l n m) ∧
      (∀ i, scanDown stabs type l n m < i → i ≤ m → (stabs i).nType ≠ type) ∧
      (l ≤ scanDown stabs type l n m → (stabs (scanDown stabs type l n m)).nType = type) := by
  induction n generalizing m with
  | zero =>
    rw [scanDown]
    exact ⟨le_rfl, fun h => by omega, fun i hi him => by omega, fun h => by omega⟩
  | succ n ih =>
    rw [scanDown]
    split
    · next hgo =>
      obtain ⟨hle, hge, hbetween, htype⟩ := ih (m := m - 1) (by omega)
      refine ⟨by omega, fun _ => hge (by omega), fun i hi him => ?_, htype⟩
      rcases Int.lt_or_eq_of_le him with hlt | rfl
      · exact hbetween i hi (by omega)
      · exact hgo.2
    · next hstop =>
      refine ⟨le_rfl, fun h => by omega, fun i hi him => by omega, fun hl => ?_⟩
      by_contra htype
      exact hstop ⟨hl, htype⟩

/-- The midpoint is inside the range. -/
theorem tdiv_two_bounds {l r : Int} (hl : 0 ≤ l) (h : l ≤ r) :
    l ≤ (l + r).tdiv 2 ∧ (l + r).tdiv 2 ≤ r := by
  rw [Int.tdiv_eq_ediv_of_nonneg (by omega)]
  omega

/-- The last stab of the type in `[l, true_m]`, or `l - 1`. -/
theorem Search.m_spec {s : Search} (hl : 0 ≤ s.l) (h : s.l ≤ s.r) :
    s.m stabs type ≤ s.trueM ∧ s.l - 1 ≤ s.m stabs type ∧
      (∀ i, s.m stabs type < i → i ≤ s.trueM → (stabs i).nType ≠ type) ∧
      (s.l ≤ s.m stabs type → (stabs (s.m stabs type)).nType = type) := by
  obtain ⟨hlow, -⟩ := tdiv_two_bounds hl h
  have hlow' : s.l ≤ s.trueM := hlow
  obtain ⟨hle, hge, hbetween, htype⟩ := scanDown_spec stabs type (l := s.l)
    (m := s.trueM) (n := (s.trueM - s.l + 1).toNat) (by omega)
  exact ⟨hle, hge (by omega), hbetween, htype⟩

/-- What one round does to the variables, by the stab it looks at. -/
inductive RoundCase (stabs : Int → Stab) (type : Nat) (s : Search) : Search → Prop
  | noMatch {c : Int} (lower : s.l ≤ c) (upper : c ≤ s.r)
      (none : ∀ i, s.l ≤ i → i ≤ c → (stabs i).nType ≠ type) :
      RoundCase stabs type s { s with l := c + 1 }
  | below {c m : Int} (lower : s.l ≤ m) (le : m ≤ c) (upper : c ≤ s.r)
      (ofType : (stabs m).nType = type) (last : ∀ i, m < i → i ≤ c → (stabs i).nType ≠ type)
      (value : (stabs m).nValue < s.addr) :
      RoundCase stabs type s { s with anyMatches := true, regionLeft := m, l := c + 1 }
  | above {m : Int} (lower : s.l ≤ m) (upper : m ≤ s.r) (ofType : (stabs m).nType = type)
      (value : s.addr < (stabs m).nValue) :
      RoundCase stabs type s { s with anyMatches := true, regionRight := m - 1, r := m - 1 }
  | exact {m : Int} (lower : s.l ≤ m) (upper : m ≤ s.r) (ofType : (stabs m).nType = type)
      (value : (stabs m).nValue = s.addr) :
      RoundCase stabs type s
        { s with anyMatches := true, regionLeft := m, l := m, addr := (s.addr + 4) % wordMod }

theorem Search.round_cases {s : Search} (hl : 0 ≤ s.l) (h : s.l ≤ s.r) :
    RoundCase stabs type s (s.round stabs type) := by
  obtain ⟨hlow, hhigh⟩ : s.l ≤ s.trueM ∧ s.trueM ≤ s.r := tdiv_two_bounds hl h
  obtain ⟨hle, hge, hbetween, htype⟩ := s.m_spec stabs type hl h
  rw [Search.round]
  split
  · next hnone =>
    exact .noMatch hlow hhigh fun i hi hic => hbetween i (by omega) hic
  · next hsome =>
    have hm := htype (Int.not_lt.1 hsome)
    split
    · next hlt => exact .below (Int.not_lt.1 hsome) hle hhigh hm hbetween hlt
    · next hge' =>
      split
      · next hgt => exact .above (Int.not_lt.1 hsome) (hle.trans hhigh) hm hgt
      · next hle' =>
        have hvalue : (stabs (s.m stabs type)).nValue = s.addr :=
          Nat.le_antisymm (Nat.not_lt.1 hle') (Nat.not_lt.1 hge')
        exact .exact (Int.not_lt.1 hsome) (hle.trans hhigh) hm hvalue

variable {stabs type}

/-! ## Searches without an exact match -/

/-- The loop of `stab_binsearch` ends in `t`. -/
def Search.Ends (stabs : Int → Stab) (type : Nat) (s t : Search) : Prop :=
  Halts (fun s => s.l ≤ s.r) (Search.round stabs type) s t

/-- What a search over `[l, r]` leaves when no stab of the type in it has the address `a`: the
region brackets the stabs below and above the address. -/
structure Bracket (stabs : Int → Stab) (type : Nat) (s t : Search) : Prop where
  matched : t.anyMatches = true ↔ s.anyMatches = true ∨
    ∃ i, s.l ≤ i ∧ i ≤ s.r ∧ (stabs i).nType = type
  left : t.regionLeft = s.regionLeft ∧
      (∀ i, s.l ≤ i → i ≤ s.r → (stabs i).nType = type → s.addr < (stabs i).nValue) ∨
    (s.l ≤ t.regionLeft ∧ t.regionLeft ≤ s.r ∧ (stabs t.regionLeft).nType = type ∧
      (stabs t.regionLeft).nValue < s.addr ∧
      ∀ i, t.regionLeft < i → i ≤ s.r → (stabs i).nType = type → s.addr < (stabs i).nValue)
  right : t.regionRight = s.regionRight ∧
      (∀ i, s.l ≤ i → i ≤ s.r → (stabs i).nType = type → (stabs i).nValue < s.addr) ∨
    (s.l ≤ t.regionRight + 1 ∧ t.regionRight + 1 ≤ s.r ∧
      (stabs (t.regionRight + 1)).nType = type ∧ s.addr < (stabs (t.regionRight + 1)).nValue ∧
      ∀ i, s.l ≤ i → i ≤ t.regionRight → (stabs i).nType = type → (stabs i).nValue < s.addr)

section Miss

variable {s t : Search} {c m : Int}

theorem Bracket.noMatch (h : Bracket stabs type { s with l := c + 1 } t) (lower : s.l ≤ c)
    (none : ∀ i, s.l ≤ i → i ≤ c → (stabs i).nType ≠ type) : Bracket stabs type s t := by
  have hskip : ∀ i, s.l ≤ i → (stabs i).nType = type → c + 1 ≤ i := by
    intro i hi htype
    by_contra hlt
    exact none i hi (by omega) htype
  obtain ⟨hany, hleft, hright⟩ := h
  dsimp only at hany hleft hright
  constructor
  case matched =>
    rw [hany]
    refine or_congr_right ⟨fun ⟨i, hi, hir, htype⟩ => ⟨i, by omega, hir, htype⟩, ?_⟩
    exact fun ⟨i, hi, hir, htype⟩ => ⟨i, hskip i hi htype, hir, htype⟩
  case left =>
    rcases hleft with ⟨heq, hall⟩ | ⟨hl, hr, htype, hlt, hall⟩
    · exact .inl ⟨heq, fun i hi hir ht => hall i (hskip i hi ht) hir ht⟩
    · exact .inr ⟨by omega, hr, htype, hlt, hall⟩
  case right =>
    rcases hright with ⟨heq, hall⟩ | ⟨hl, hr, htype, hgt, hall⟩
    · exact .inl ⟨heq, fun i hi hir ht => hall i (hskip i hi ht) hir ht⟩
    · exact .inr ⟨by omega, hr, htype, hgt, fun i hi hir ht => hall i (hskip i hi ht) hir ht⟩

theorem Bracket.below
    (h : Bracket stabs type { s with anyMatches := true, regionLeft := m, l := c + 1 } t)
    (hinc : Increasing stabs type s.l s.r) (lower : s.l ≤ m) (le : m ≤ c) (upper : c ≤ s.r)
    (ofType : (stabs m).nType = type) (last : ∀ i, m < i → i ≤ c → (stabs i).nType ≠ type)
    (value : (stabs m).nValue < s.addr) : Bracket stabs type s t := by
  -- a stab of the range is right of `c`, or at most `m` and then below the address
  have hsplit : ∀ i, s.l ≤ i → i ≤ s.r → (stabs i).nType = type →
      c + 1 ≤ i ∨ (stabs i).nValue < s.addr := by
    intro i hi hir htype
    rcases Int.lt_or_le c i with hc | hc
    · exact .inl hc
    · rcases Int.lt_trichotomy i m with him | rfl | him
      · exact .inr ((hinc i m hi him (le.trans upper) htype ofType).trans value)
      · exact .inr value
      · exact absurd htype (last i him hc)
  obtain ⟨hany, hleft, hright⟩ := h
  dsimp only at hany hleft hright
  constructor
  case matched =>
    refine ⟨fun _ => .inr ⟨m, lower, le.trans upper, ofType⟩, fun _ => hany.2 (.inl rfl)⟩
  case left =>
    rcases hleft with ⟨heq, hall⟩ | ⟨hl, hr, htype, hlt, hall⟩
    · rw [heq]
      refine .inr ⟨lower, le.trans upper, ofType, value, fun i hi hir ht => hall i ?_ hir ht⟩
      by_contra hlt
      exact last i hi (by omega) ht
    · exact .inr ⟨by omega, hr, htype, hlt, hall⟩
  case right =>
    rcases hright with ⟨heq, hall⟩ | ⟨hl, hr, htype, hgt, hall⟩
    · refine .inl ⟨heq, fun i hi hir ht => ?_⟩
      rcases hsplit i hi hir ht with hc | hlt
      · exact hall i hc hir ht
      · exact hlt
    · refine .inr ⟨by omega, hr, htype, hgt, fun i hi hir ht => ?_⟩
      rcases hsplit i hi (by omega) ht with hc | hlt
      · exact hall i hc hir ht
      · exact hlt

theorem Bracket.above
    (h : Bracket stabs type { s with anyMatches := true, regionRight := m - 1, r := m - 1 } t)
    (hinc : Increasing stabs type s.l s.r) (lower : s.l ≤ m) (upper : m ≤ s.r)
    (ofType : (stabs m).nType = type) (value : s.addr < (stabs m).nValue) :
    Bracket stabs type s t := by
  have hsplit : ∀ i, i ≤ s.r → (stabs i).nType = type →
      i ≤ m - 1 ∨ s.addr < (stabs i).nValue := by
    intro i hir htype
    rcases Int.lt_trichotomy i m with him | rfl | him
    · exact .inl (by omega)
    · exact .inr value
    · exact .inr (value.trans (hinc m i lower him hir ofType htype))
  obtain ⟨hany, hleft, hright⟩ := h
  dsimp only at hany hleft hright
  constructor
  case matched =>
    refine ⟨fun _ => .inr ⟨m, lower, upper, ofType⟩, fun _ => hany.2 (.inl rfl)⟩
  case left =>
    rcases hleft with ⟨heq, hall⟩ | ⟨hl, hr, htype, hlt, hall⟩
    · refine .inl ⟨heq, fun i hi hir ht => ?_⟩
      exact (hsplit i hir ht).elim (fun hm => hall i hi hm ht) id
    · refine .inr ⟨hl, by omega, htype, hlt, fun i hi hir ht => ?_⟩
      exact (hsplit i hir ht).elim (fun hm => hall i hi hm ht) id
  case right =>
    rcases hright with ⟨heq, hall⟩ | ⟨hl, hr, htype, hgt, hall⟩
    · have hm : t.regionRight + 1 = m := by omega
      rw [hm]
      refine .inr ⟨lower, upper, ofType, value, fun i hi hir ht => hall i hi (by omega) ht⟩
    · exact .inr ⟨hl, by omega, htype, hgt, hall⟩

/-- The search for an address that no stab of the type has. -/
theorem Search.ends_miss (hl : 0 ≤ s.l) (hinc : Increasing stabs type s.l s.r)
    (hmiss : ∀ i, s.l ≤ i → i ≤ s.r → (stabs i).nType = type → (stabs i).nValue ≠ s.addr) :
    ∃ t, s.Ends stabs type t ∧ Bracket stabs type s t := by
  obtain ⟨n, hn⟩ : ∃ n, n = (s.r - s.l + 1).toNat := ⟨_, rfl⟩
  induction n using Nat.strong_induction_on generalizing s with
  | _ n ih =>
    by_cases h : s.l ≤ s.r
    · obtain ⟨u, hu⟩ : ∃ u, u = s.round stabs type := ⟨_, rfl⟩
      have hround := s.round_cases stabs type hl h
      rw [← hu] at hround
      have hstep : ∀ t, u.Ends stabs type t → s.Ends stabs type t := fun t ht =>
        Halts.round h (by rw [← hu]; exact ht)
      cases hround with
      | @noMatch c lower upper none =>
        have hlt : (s.r - (c + 1) + 1).toNat < n := by omega
        have hle : s.l ≤ c + 1 := by omega
        obtain ⟨t, ht, hb⟩ := ih _ hlt (s := { s with l := c + 1 }) (hl.trans hle)
          (hinc.mono hle le_rfl) (fun i hi hir => hmiss i (hle.trans hi) hir) rfl
        exact ⟨t, hstep t ht, hb.noMatch lower none⟩
      | @below c m lower le upper ofType last value =>
        have hlt : (s.r - (c + 1) + 1).toNat < n := by omega
        have hle : s.l ≤ c + 1 := by omega
        obtain ⟨t, ht, hb⟩ := ih _ hlt
          (s := { s with anyMatches := true, regionLeft := m, l := c + 1 }) (hl.trans hle)
          (hinc.mono hle le_rfl) (fun i hi hir => hmiss i (hle.trans hi) hir) rfl
        exact ⟨t, hstep t ht, hb.below hinc lower le upper ofType last value⟩
      | @above m lower upper ofType value =>
        have hlt : (m - 1 - s.l + 1).toNat < n := by omega
        have hle : m - 1 ≤ s.r := by omega
        obtain ⟨t, ht, hb⟩ := ih _ hlt
          (s := { s with anyMatches := true, regionRight := m - 1, r := m - 1 }) hl
          (hinc.mono le_rfl hle) (fun i hi hir => hmiss i hi (hir.trans hle)) rfl
        exact ⟨t, hstep t ht, hb.above hinc lower upper ofType value⟩
      | exact lower upper ofType value => exact absurd value (hmiss _ lower upper ofType)
    · refine ⟨s, Halts.stop h, ?_, .inl ⟨rfl, ?_⟩, .inl ⟨rfl, ?_⟩⟩
      · refine ⟨Or.inl, ?_⟩
        rintro (hany | ⟨i, hi, hir, -⟩)
        · exact hany
        · omega
      · intro i hi hir _
        omega
      · intro i hi hir _
        omega

end Miss

/-! ## The exact match -/

/-- The state in which the loop goes on after an exact match at `k` with right end `r`. -/
def Search.hit (s : Search) (k r : Int) : Search :=
  { l := k, r := r, anyMatches := true, regionLeft := k, regionRight := r,
    addr := (s.addr + 4) % wordMod }

/-- What is known when the halving has met `k`: every stab right of the range is right of one that
the search has looked at. -/
structure HitAt (stabs : Int → Stab) (type : Nat) (s : Search) (k r : Int) : Prop where
  le : k ≤ r
  upper : r ≤ s.r
  bound : r = s.r ∨ r + 1 ≤ s.r ∧ (stabs (r + 1)).nType = type
  ends : ∀ t, (s.hit k r).Ends stabs type t → s.Ends stabs type t

theorem Search.ends_hit {s : Search} {k : Int} {n : Nat} (hl : 0 ≤ s.l)
    (hinc : Increasing stabs type s.l s.r) (hr : s.r = s.regionRight) (hlk : s.l ≤ k)
    (hkr : k ≤ s.r) (htype : (stabs k).nType = type) (hvalue : (stabs k).nValue = s.addr)
    (hn : (s.r - s.l + 1).toNat ≤ n) :
    HitAt stabs type s k (hitEnd stabs type k n s.l s.r) := by
  induction n generalizing s with
  | zero => omega
  | succ n ih =>
    have h : s.l ≤ s.r := hlk.trans hkr
    obtain ⟨hlow, hhigh⟩ : s.l ≤ s.trueM ∧ s.trueM ≤ s.r := tdiv_two_bounds hl h
    obtain ⟨hle, hge, hbetween, hm⟩ := s.m_spec stabs type hl h
    have hend : hitEnd stabs type k (n + 1) s.l s.r =
        if s.m stabs type < k then hitEnd stabs type k n (s.trueM + 1) s.r
        else if k < s.m stabs type then hitEnd stabs type k n s.l (s.m stabs type - 1)
        else s.r := rfl
    have hstep : ∀ t, (s.round stabs type).Ends stabs type t → s.Ends stabs type t :=
      fun t ht => Halts.round h ht
    rw [hend]
    rcases Int.lt_trichotomy (s.m stabs type) k with hlt | heq | hgt
    · -- `k` is in the right half
      rw [if_pos hlt]
      have hck : s.trueM + 1 ≤ k := by
        by_contra hc
        exact hbetween k hlt (by omega) htype
      have hsmall : (s.r - (s.trueM + 1) + 1).toNat ≤ n := by omega
      have hleft : s.l ≤ s.trueM + 1 := by omega
      by_cases hnone : s.m stabs type < s.l
      · have hround : s.round stabs type = { s with l := s.trueM + 1 } := by
          rw [Search.round]
          exact if_pos hnone
        obtain ⟨h₁, h₂, h₃, h₄⟩ := ih (s := { s with l := s.trueM + 1 }) (hl.trans hleft)
          (hinc.mono hleft le_rfl) hr hck hkr hvalue hsmall
        exact ⟨h₁, h₂, h₃, fun t ht => hstep t (by rw [hround]; exact h₄ t ht)⟩
      · have hbelow : (stabs (s.m stabs type)).nValue < s.addr := by
          rw [← hvalue]
          exact hinc _ k (Int.not_lt.1 hnone) hlt hkr (hm (Int.not_lt.1 hnone)) htype
        have hround : s.round stabs type =
            { s with anyMatches := true, regionLeft := s.m stabs type, l := s.trueM + 1 } := by
          rw [Search.round, if_neg hnone, if_pos hbelow]
        obtain ⟨h₁, h₂, h₃, h₄⟩ := ih
          (s := { s with anyMatches := true, regionLeft := s.m stabs type, l := s.trueM + 1 })
          (hl.trans hleft) (hinc.mono hleft le_rfl) hr hck hkr hvalue hsmall
        exact ⟨h₁, h₂, h₃, fun t ht => hstep t (by rw [hround]; exact h₄ t ht)⟩
    · -- the halving meets `k`
      rw [if_neg (by omega), if_neg (by omega)]
      have hround : s.round stabs type = s.hit k s.r := by
        rw [Search.round, if_neg (by omega), heq, if_neg (by omega), if_neg (by omega), Search.hit,
          hr]
      exact ⟨hkr, le_rfl, .inl rfl, fun t ht => hstep t (by rw [hround]; exact ht)⟩
    · -- `k` is in the left half
      rw [if_neg (by omega), if_pos hgt]
      have hsome : ¬ s.m stabs type < s.l := by omega
      have hms := hm (Int.not_lt.1 hsome)
      have habove : s.addr < (stabs (s.m stabs type)).nValue := by
        rw [← hvalue]
        exact hinc k _ hlk hgt (hle.trans hhigh) htype hms
      have hround : s.round stabs type = { s with
          anyMatches := true, regionRight := s.m stabs type - 1, r := s.m stabs type - 1 } := by
        rw [Search.round, if_neg hsome, if_neg (Nat.not_lt.2 habove.le), if_pos habove]
      have hupper : s.m stabs type - 1 ≤ s.r := by omega
      have hsmall : (s.m stabs type - 1 - s.l + 1).toNat ≤ n := by omega
      obtain ⟨h₁, h₂, h₃, h₄⟩ := ih (s := { s with
          anyMatches := true, regionRight := s.m stabs type - 1, r := s.m stabs type - 1 })
        hl (hinc.mono le_rfl hupper) rfl hlk (by dsimp only; omega) hvalue hsmall
      dsimp only at h₂ h₃
      refine ⟨h₁, by omega, ?_, fun t ht => hstep t (by rw [hround]; exact h₄ t ht)⟩
      rcases h₃ with heq | ⟨hlt, hty⟩
      · rw [heq]
        refine .inr ⟨by omega, ?_⟩
        rw [Int.sub_add_cancel]
        exact hms
      · exact .inr ⟨by omega, hty⟩

/-! ## The end of every search -/

/-- The statements behind the loop go from the right end of the region down to the stab on its
left. -/
theorem Search.region_spec {t : Search} (hany : t.anyMatches = true) :
    (t.region stabs type).2 = t.regionRight ∧
      (t.regionRight < t.regionLeft → (t.region stabs type).1 = t.regionRight) ∧
      (t.regionLeft ≤ t.regionRight → t.regionLeft ≤ (t.region stabs type).1 ∧
        (t.region stabs type).1 ≤ t.regionRight ∧
        ((t.region stabs type).1 = t.regionLeft ∨
          (stabs (t.region stabs type).1).nType = type)) := by
  obtain ⟨hle, hge, -, htype⟩ := scanDown_spec stabs type (l := t.regionLeft + 1)
    (m := t.regionRight) (n := (t.regionRight - t.regionLeft).toNat) (by omega)
  rw [Search.region, if_pos hany]
  refine ⟨rfl, fun hlt => ?_, fun hlr => ⟨?_, hle, ?_⟩⟩
  · have hzero : (t.regionRight - t.regionLeft).toNat = 0 := by omega
    dsimp only
    rw [hzero, scanDown]
  · have := hge (by omega)
    dsimp only
    omega
  · have hlow := hge (by omega)
    dsimp only
    rcases Int.lt_or_eq_of_le hlow with hlt | heq
    · exact .inr (htype (by omega))
    · exact .inl (by omega)

/-- Where a search over `[l, r]` ends, whatever addresses it met. -/
structure Within (s t : Search) : Prop where
  matched : s.anyMatches = true → t.anyMatches = true
  lower : s.l - 1 ≤ t.regionRight
  upper : t.regionRight ≤ s.r
  left : t.regionLeft = s.regionLeft ∨ s.l ≤ t.regionLeft

theorem Bracket.within {s t : Search} (h : Bracket stabs type s t) (hr : s.r = s.regionRight)
    (hle : s.l ≤ s.r + 1) : Within s t := by
  refine ⟨fun hany => h.matched.2 (.inl hany), ?_, ?_, ?_⟩
  · rcases h.right with ⟨heq, -⟩ | ⟨hl, -⟩ <;> omega
  · rcases h.right with ⟨heq, -⟩ | ⟨-, hu, -⟩ <;> omega
  · exact h.left.imp And.left And.left

/-- A stab at which the search continues for a larger address is not met again as an exact match. -/
theorem addr_ne {a : Nat} : (a + 4) % wordMod ≠ a := by
  simp only [wordMod]
  omega

/-- Either no stab of the range has the address, or one has. -/
theorem miss_or_hit (stabs : Int → Stab) (type : Nat) (s : Search) :
    (∀ i, s.l ≤ i → i ≤ s.r → (stabs i).nType = type → (stabs i).nValue ≠ s.addr) ∨
      ∃ k, s.l ≤ k ∧ k ≤ s.r ∧ (stabs k).nType = type ∧ (stabs k).nValue = s.addr := by
  by_cases h : ∃ k, s.l ≤ k ∧ k ≤ s.r ∧ (stabs k).nType = type ∧ (stabs k).nValue = s.addr
  · exact .inr h
  · exact .inl fun i hi hir ht hv => h ⟨i, hi, hir, ht, hv⟩

theorem Search.ends_within {s : Search} (hl : 0 ≤ s.l) (hinc : Increasing stabs type s.l s.r)
    (hr : s.r = s.regionRight) (hle : s.l ≤ s.r + 1) :
    ∃ t, s.Ends stabs type t ∧ Within s t := by
  obtain ⟨n, hn⟩ : ∃ n, n = (s.r - s.l + 1).toNat := ⟨_, rfl⟩
  induction n using Nat.strong_induction_on generalizing s with
  | _ n ih =>
    rcases miss_or_hit stabs type s with hmiss | ⟨k, hlk, hkr, htype, hvalue⟩
    · obtain ⟨t, ht, hb⟩ := s.ends_miss hl hinc hmiss
      exact ⟨t, ht, hb.within hr hle⟩
    · obtain ⟨r, hhit⟩ : ∃ r, HitAt stabs type s k r :=
        ⟨_, s.ends_hit hl hinc hr hlk hkr htype hvalue (Nat.le_refl _)⟩
      have hkr₁ := hhit.le
      have hr₁ := hhit.upper
      have hinc₁ : Increasing stabs type k r := hinc.mono hlk hr₁
      -- the search goes on in `[k, r]`, and the next exact match is right of `k`
      suffices hnext : ∃ t, (s.hit k r).Ends stabs type t ∧ Within (s.hit k r) t by
        obtain ⟨t, ht, hw⟩ := hnext
        obtain ⟨hm, hlow, hup, hleft⟩ := hw
        dsimp only [Search.hit] at hm hlow hup hleft
        refine ⟨t, hhit.ends t ht, fun _ => hm rfl, by omega, by omega, .inr ?_⟩
        omega
      rcases miss_or_hit stabs type (s.hit k r) with hmiss | ⟨j, hkj, hjr, hjtype, hjvalue⟩
      · obtain ⟨t, ht, hb⟩ := (s.hit k r).ends_miss (hl.trans hlk) hinc₁ hmiss
        exact ⟨t, ht, hb.within rfl (show k ≤ r + 1 by omega)⟩
      · have hjr' : j ≤ r := hjr
        have hkj' : k ≤ j := hkj
        have hne : j ≠ k := by
          rintro rfl
          rw [hvalue] at hjvalue
          exact addr_ne hjvalue.symm
        obtain ⟨q, hhit₁⟩ : ∃ q, HitAt stabs type (s.hit k r) j q :=
          ⟨_, (s.hit k r).ends_hit (hl.trans hlk) hinc₁ rfl hkj hjr hjtype hjvalue (Nat.le_refl _)⟩
        have hjq := hhit₁.le
        have hqr : q ≤ r := hhit₁.upper
        have hsmall : (q - j + 1).toNat < n := by omega
        obtain ⟨t, ht, hm, hlow, hup, hleft⟩ := ih _ hsmall (s := (s.hit k r).hit j q)
          ((hl.trans hlk).trans hkj) (hinc₁.mono hkj' hqr) rfl (show j ≤ q + 1 by omega)
          rfl
        dsimp only [Search.hit] at hm hlow hup hleft
        refine ⟨t, hhit₁.ends t ht, fun _ => hm rfl, ?_, ?_, .inr ?_⟩
        · show k - 1 ≤ _
          omega
        · exact hup.trans hqr
        · show k ≤ _
          omega

/-- A search that has met a stab never leaves an empty region. -/
theorem Search.region_le {t : Search} (hany : t.anyMatches = true) :
    (t.region stabs type).1 ≤ (t.region stabs type).2 := by
  obtain ⟨hright, hcross, hordered⟩ := @Search.region_spec stabs type t hany
  rcases Int.lt_or_le t.regionRight t.regionLeft with hlt | hle
  · rw [hright, hcross hlt]
  · rw [hright]
    exact (hordered hle).2.1

/-- The left end of the region stays right of what both brackets are right of. -/
theorem Search.le_region {t : Search} {m : Int} (hany : t.anyMatches = true)
    (hleft : m ≤ t.regionLeft) (hright : m ≤ t.regionRight) : m ≤ (t.region stabs type).1 := by
  obtain ⟨-, hcross, hordered⟩ := @Search.region_spec stabs type t hany
  rcases Int.lt_or_le t.regionRight t.regionLeft with hlt | hle
  · rw [hcross hlt]
    exact hright
  · exact hleft.trans (hordered hle).1

/-! ## The region of a search -/

/-- `[p, q]` are the last stab of the type below `addr` in `[l, r]` and what follows it up to the
next stab of the type. -/
structure Region (stabs : Int → Stab) (type addr : Nat) (l r p q : Int) : Prop where
  lower : l ≤ p
  le : p ≤ q
  upper : q ≤ r
  ofType : (stabs p).nType = type
  value : (stabs p).nValue < addr
  above : ∀ i, p < i → i ≤ r → (stabs i).nType = type → addr < (stabs i).nValue
  between : ∀ i, p < i → i ≤ q → (stabs i).nType ≠ type
  next : q = r ∨ q + 1 ≤ r ∧ (stabs (q + 1)).nType = type

/-- Without an exact match the brackets are the region, once a stab of the type is below. -/
theorem Bracket.region {s t : Search} (h : Bracket stabs type s t) (hr : s.r = s.regionRight)
    (hinc : Increasing stabs type s.l s.r)
    (hbelow : ∃ i, s.l ≤ i ∧ i ≤ s.r ∧ (stabs i).nType = type ∧ (stabs i).nValue < s.addr) :
    Region stabs type s.addr s.l s.r (t.region stabs type).1 (t.region stabs type).2 := by
  obtain ⟨b, hlb, hbr, hbtype, hbvalue⟩ := hbelow
  have hany : t.anyMatches = true := h.matched.2 (.inr ⟨b, hlb, hbr, hbtype⟩)
  have hleft := h.left.resolve_left fun hnone =>
    Nat.lt_asymm hbvalue (hnone.2 b hlb hbr hbtype)
  obtain ⟨hlp, hpr, hptype, hpvalue, habove⟩ := hleft
  -- the right bracket: not before the left one, and no stab of the type between them
  have hbracket : t.regionLeft ≤ t.regionRight ∧ t.regionRight ≤ s.r ∧
      (∀ i, t.regionLeft < i → i ≤ t.regionRight → (stabs i).nType ≠ type) ∧
      (t.regionRight = s.r ∨
        t.regionRight + 1 ≤ s.r ∧ (stabs (t.regionRight + 1)).nType = type) := by
    rcases h.right with ⟨heq, hall⟩ | ⟨hlq, hqr, hqtype, hqvalue, hall⟩
    · have hq : t.regionRight = s.r := heq.trans hr.symm
      rw [hq]
      refine ⟨hpr, le_rfl, fun i hpi hir htype => ?_, .inl rfl⟩
      exact Nat.lt_asymm (habove i hpi hir htype) (hall i (hlp.trans hpi.le) hir htype)
    · refine ⟨?_, by omega, fun i hpi hiq htype => ?_, .inr ⟨hqr, hqtype⟩⟩
      · by_contra hlt
        rcases Int.lt_or_eq_of_le (show t.regionRight + 1 ≤ t.regionLeft by omega) with hqp | hqp
        · exact Nat.lt_asymm (hqvalue.trans (hinc _ _ hlq hqp hpr hqtype hptype)) hpvalue
        · rw [hqp] at hqvalue
          exact Nat.lt_asymm hqvalue hpvalue
      · exact Nat.lt_asymm (habove i hpi (by omega) htype) (hall i (hlp.trans hpi.le) hiq htype)
  obtain ⟨hle, hqr, hbetween, hnext⟩ := hbracket
  obtain ⟨hright, -, hordered⟩ := @Search.region_spec stabs type t hany
  obtain ⟨hge, hup, htype⟩ := hordered hle
  have hp : (t.region stabs type).1 = t.regionLeft := by
    rcases htype with heq | htype
    · exact heq
    · by_contra hne
      exact hbetween _ (by omega) hup htype
  rw [hp, hright]
  exact ⟨hlp, hle, hqr, hptype, hpvalue, habove, hbetween, hnext⟩

/-- Without an exact match and with every stab of the type above, the region ends just before the
first of them. -/
theorem Bracket.region_above {s t : Search} (h : Bracket stabs type s t)
    (hall : ∀ i, s.l ≤ i → i ≤ s.r → (stabs i).nType = type → s.addr < (stabs i).nValue)
    {k : Int} (hlk : s.l ≤ k) (hkr : k ≤ s.r) (htype : (stabs k).nType = type) :
    t.anyMatches = true ∧ t.regionLeft = s.regionLeft ∧ s.l - 1 ≤ t.regionRight ∧
      t.regionRight < k := by
  have hany : t.anyMatches = true := h.matched.2 (.inr ⟨k, hlk, hkr, htype⟩)
  have hleft : t.regionLeft = s.regionLeft := by
    rcases h.left with ⟨heq, -⟩ | ⟨hlp, hpr, hptype, hpvalue, -⟩
    · exact heq
    · exact absurd hpvalue (Nat.lt_asymm (hall _ hlp hpr hptype))
  refine ⟨hany, hleft, ?_⟩
  rcases h.right with ⟨-, hbelow⟩ | ⟨hlq, -, -, -, hbelow⟩
  · exact absurd (hbelow k hlk hkr htype) (Nat.lt_asymm (hall k hlk hkr htype))
  · refine ⟨by omega, ?_⟩
    by_contra hle
    exact Nat.lt_asymm (hbelow k hlk (by omega) htype) (hall k hlk hkr htype)

/-- A search that continues from a stab `m` below the address ends at `m` or right of it. -/
theorem Search.ends_past {s : Search} {m : Int} (hl : s.l = m) (hr : s.r = s.regionRight)
    (hm : 0 ≤ m) (hmr : m ≤ s.r) (hinc : Increasing stabs type m s.r)
    (htype : (stabs m).nType = type) (hvalue : (stabs m).nValue < s.addr) :
    ∃ t, s.Ends stabs type t ∧ m ≤ (t.region stabs type).1 := by
  subst hl
  rcases miss_or_hit stabs type s with hmiss | ⟨k, hlk, hkr, hktype, hkvalue⟩
  · obtain ⟨t, ht, hb⟩ := s.ends_miss hm hinc hmiss
    exact ⟨t, ht, (hb.region hr hinc ⟨_, le_rfl, hmr, htype, hvalue⟩).lower⟩
  · -- the exact match is right of `m`
    have hne : s.l ≠ k := by
      intro heq
      rw [heq, hkvalue] at hvalue
      exact Nat.lt_irrefl _ hvalue
    obtain ⟨r, hhit⟩ : ∃ r, HitAt stabs type s k r :=
      ⟨_, s.ends_hit hm hinc hr hlk hkr hktype hkvalue (Nat.le_refl _)⟩
    have hkr₁ := hhit.le
    obtain ⟨t, ht, hw⟩ := Search.ends_within (s := s.hit k r) (hm.trans hlk)
      (hinc.mono hlk hhit.upper) rfl (show k ≤ r + 1 by omega)
    obtain ⟨hmatched, hlow, -, hstay⟩ := hw
    dsimp only [Search.hit] at hmatched hlow hstay
    refine ⟨t, hhit.ends t ht, Search.le_region (hmatched rfl) ?_ (by omega)⟩
    rcases hstay with heq | hge
    · exact heq ▸ hlk
    · exact hlk.trans hge

end Rules

end Debug
end FosMemory
