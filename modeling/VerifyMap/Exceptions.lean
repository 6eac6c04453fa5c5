import VerifyMap.Engine

/-! When the run raises. Three rules print sizes read from the map: `dgroup_size / 1024`
overflows a float from `2 ^ 1034 - 2 ^ 980` on, and `{size:,}` refuses an int of more
than 4300 digits. The run raises exactly when one of the sizes it prints is that large,
and which sizes it prints depends on the size and segment tables alone. -/
namespace VerifyMap
open Regex Python Catalog

/-- No print of the six rules raises: the DGROUP size stays under the float bound of
`dgroup_size / 1024`, and each size printed with `,` has at most 4300 digits. -/
structure PrintsSafely (v : MapVerifier) : Prop where
  size_float : v.dgroupSize < 2 ^ 1034 - 2 ^ 980
  root_sizes : ∀ sd ∈ requiredRootSegments, ∀ s, v.segments.get? sd.1 = some s →
    s.group = "AUTO" → s.«class» = "CODE" → s.size < 10 ^ 4300
  dgroup_sizes : ∀ e ∈ v.segments.items, e.2.group = "DGROUP" → e.2.size < 10 ^ 4300

theorem strDigitsExceeded_iff (n : Nat) :
    strDigitsExceeded n = true ↔ 10 ^ maxStrDigits ≤ n := by
  rw [strDigitsExceeded, decide_eq_true_iff, Int.natAbs_ofNat]

namespace MapVerifier
variable (v : MapVerifier)

theorem dgroupSizeRaised_of_le (h : 2 ^ 1034 - 2 ^ 980 ≤ v.dgroupSize) :
    v.dgroupSizeRaised = some .overflowError := by
  have h0 : v.dgroupSize ≠ 0 := by
    have : 0 < 2 ^ 1034 - 2 ^ 980 := by norm_num
    omega
  rw [dgroupSizeRaised, if_neg h0, trueDivOverflows_1024, decide_eq_true h, if_pos rfl]

theorem dgroupSizeRaised_eq_none_iff :
    v.dgroupSizeRaised = none ↔ v.dgroupSize < 2 ^ 1034 - 2 ^ 980 := by
  have hB : (65536 : Nat) < 2 ^ 1034 - 2 ^ 980 := by norm_num
  by_cases hD : 2 ^ 1034 - 2 ^ 980 ≤ v.dgroupSize
  · rw [dgroupSizeRaised_of_le v hD]
    exact iff_of_false (by simp) (by omega)
  have hlt := Nat.lt_of_not_le hD
  have hh : ((dgroupMaxSize : Int) - v.dgroupSize).natAbs < 2 ^ 1034 - 2 ^ 980 := by
    rw [dgroupMaxSize]; generalize 2 ^ 1034 - 2 ^ 980 = B at *; omega
  simp only [dgroupSizeRaised, trueDivOverflows_eq_false hlt,
    strDigitsExceeded_eq_false (show (v.dgroupSize : Int).natAbs < _ from hlt),
    strDigitsExceeded_eq_false hh, trueDivOverflows_eq_false hh, Bool.or_false,
    Bool.false_eq_true, if_false, ite_self, hlt]

theorem requiredSegmentRaised1_eq_none_iff (sd : String × String) :
    v.requiredSegmentRaised1 sd = none ↔ ∀ s, v.segments.get? sd.1 = some s →
      s.group = "AUTO" → s.«class» = "CODE" → s.size < 10 ^ maxStrDigits := by
  unfold requiredSegmentRaised1 isSegmentRoot
  cases h : v.segments.get? sd.1 with
  | none => simp
  | some s =>
    simp only [Option.map_some', Option.getD_some, Option.some.injEq, forall_eq']
    cases hr : s.isRoot <;>
      simp_all [Segment.isRoot, strDigitsExceeded_iff]

theorem mem_dgroupSegments {x : String × Nat} :
    x ∈ v.dgroupSegments ↔ ∃ e ∈ v.segments.items, e.2.group = "DGROUP" ∧ (e.1, e.2.size) = x := by
  simp [dgroupSegments, and_assoc]

/-- The composition print raises exactly when some DGROUP segment is too large to
format: sorted largest first, such a segment makes the first one printed too large. -/
theorem foldingRaised_eq_none_iff :
    v.foldingRaised = none ↔
      ∀ e ∈ v.segments.items, e.2.group = "DGROUP" → e.2.size < 10 ^ maxStrDigits := by
  let r : String × Nat → String × Nat → Prop := fun a b => b.2 ≤ a.2
  have : IsTotal _ r := ⟨fun a b => le_total b.2 a.2⟩
  have : IsTrans _ r := ⟨fun _ _ _ hab hbc => le_trans hbc hab⟩
  have hperm := List.perm_insertionSort r v.dgroupSegments
  have hsorted := List.sorted_insertionSort r v.dgroupSegments
  have hsmall : ∀ x : String × Nat, (if strDigitsExceeded x.2 then some PyException.valueError
      else none) = none ↔ x.2 < 10 ^ maxStrDigits := fun x => by
    simp [strDigitsExceeded_iff]
  unfold foldingRaised
  rw [List.findSome?_eq_none_iff]
  simp only [hsmall]
  constructor
  · intro h e he hg
    have hx : (e.1, e.2.size) ∈ v.dgroupSegments.insertionSort r :=
      hperm.mem_iff.mpr ((v.mem_dgroupSegments).mpr ⟨e, he, hg, rfl⟩)
    obtain ⟨y, ys, hy⟩ := List.exists_cons_of_ne_nil (List.ne_nil_of_mem hx)
    rw [hy] at hx hsorted h
    have hhead := h y (by simp)
    rcases List.mem_cons.mp hx with rfl | hx
    · exact hhead
    · exact lt_of_le_of_lt (List.rel_of_sorted_cons hsorted _ hx) hhead
  · intro h x hx
    obtain ⟨e, he, hg, rfl⟩ :=
      (v.mem_dgroupSegments).mp (hperm.mem_iff.mp (List.mem_of_mem_take hx))
    exact h e he hg

theorem raised_eq_none_iff : v.raised = none ↔ PrintsSafely v := by
  rw [raised, Option.orElse_eq_none, Option.orElse_eq_none, dgroupSizeRaised_eq_none_iff,
    List.findSome?_eq_none_iff, foldingRaised_eq_none_iff]
  simp only [requiredSegmentRaised1_eq_none_iff]
  rw [maxStrDigits]
  exact ⟨fun ⟨h₁, h₂, h₃⟩ => ⟨h₁, h₂, h₃⟩, fun ⟨h₁, h₂, h₃⟩ => ⟨h₁, h₂, h₃⟩⟩

theorem raised_congr {v w : MapVerifier} (hd : v.dgroupSize = w.dgroupSize)
    (hs : v.segments = w.segments) : v.raised = w.raised := by
  have hr : v.requiredSegmentRaised1 = w.requiredSegmentRaised1 := by
    funext sd
    simp only [requiredSegmentRaised1, isSegmentRoot, hs]
  simp only [raised, dgroupSizeRaised, hr, foldingRaised, dgroupSegments, hd, hs]

end MapVerifier

theorem PrintsSafely.congr {v w : MapVerifier} (h : PrintsSafely v)
    (hd : v.dgroupSize = w.dgroupSize) (hs : ∀ e, e ∈ v.segments.items ↔ e ∈ w.segments.items) :
    PrintsSafely w where
  size_float := hd ▸ h.size_float
  root_sizes := fun sd hsd s hget => h.root_sizes sd hsd s ((Dict.get?_congr hs _).trans hget)
  dgroup_sizes := fun e he => h.dgroup_sizes e ((hs e).mpr he)

end VerifyMap
