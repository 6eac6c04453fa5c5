import VerifyMap.RequiredSymbols
import VerifyMap.Exceptions

/-! Marking more segment bases as overlay can only add errors: every error the
rules record with overlay set `O` is recorded, in the same order, with any larger
set. Only the two symbol rules read the set, and each of their iterations records
either nothing or what it records with the larger set. -/
namespace VerifyMap
open Regex Python Catalog

theorem flatMap_sublist_flatMap {α β : Type} {f g : α → List β} :
    ∀ {l : List α}, (∀ x ∈ l, List.Sublist (f x) (g x)) → List.Sublist (l.flatMap f) (l.flatMap g)
  | [], _ => List.Sublist.slnil
  | x :: l, h => by
    simpa using (h x (by simp)).append (flatMap_sublist_flatMap fun y hy => h y (by simp [hy]))

theorem sublist_of_nil_or_eq {α : Type} {a b : List α} (h : a = [] ∨ a = b) : List.Sublist a b := by
  rcases h with rfl | rfl
  · exact List.nil_sublist _
  · exact List.Sublist.refl _

section
variable (v : MapVerifier) {O O' : List String} (hO : O ⊆ O')
include hO

theorem isSymbolInOverlay_mono {info : SymbolInfo}
    (h : { v with overlaySegments := O }.isSymbolInOverlay info) :
    { v with overlaySegments := O' }.isSymbolInOverlay info := by
  simp only [MapVerifier.isSymbolInOverlay, decide_eq_true_eq] at h ⊢
  exact hO h

theorem inRoot_anti {a : String} (h : { v with overlaySegments := O' }.inRoot a) :
    { v with overlaySegments := O }.inRoot a := by
  simp only [MapVerifier.inRoot] at h ⊢
  cases hs : v.symbols.get? a with
  | none => simp_all
  | some info =>
    cases ho : { v with overlaySegments := O }.isSymbolInOverlay info
    · simp [ho]
    · simp_all [isSymbolInOverlay_mono v hO ho]

theorem requiredGroupRecords_mono (gl : String × List String) :
    { v with overlaySegments := O }.requiredGroupRecords gl = [] ∨
      { v with overlaySegments := O }.requiredGroupRecords gl =
        { v with overlaySegments := O' }.requiredGroupRecords gl := by
  obtain ⟨g, L⟩ := gl
  simp only [MapVerifier.requiredGroupRecords_eq]
  by_cases hr : L.any { v with overlaySegments := O }.inRoot
  · simp [hr]
  · have hr' : ¬ L.any { v with overlaySegments := O' }.inRoot := by
      simp only [List.any_eq_true, not_exists, not_and] at hr ⊢
      exact fun a ha h => hr a ha (inRoot_anti v hO h)
    right
    simp only [hr, hr', Bool.false_eq_true, if_false]
    rfl

theorem probeVariants_mono (ws : List String) :
    { v with overlaySegments := O }.probeVariants ws = [] ∨
      { v with overlaySegments := O }.probeVariants ws =
        { v with overlaySegments := O' }.probeVariants ws := by
  induction ws with
  | nil => simp [MapVerifier.probeVariants]
  | cons w ws ih =>
    simp only [MapVerifier.probeVariants]
    cases v.symbols.get? w with
    | none => exact ih
    | some info =>
      cases ho : { v with overlaySegments := O }.isSymbolInOverlay info
      · simp [ho]
      · simp [ho, isSymbolInOverlay_mono v hO ho]

theorem records_mono :
    List.Sublist { v with overlaySegments := O }.records
      { v with overlaySegments := O' }.records := by
  simp only [MapVerifier.records]
  refine (((((List.Sublist.refl _).append ?_).append (List.Sublist.refl _)).append ?_).append
    (List.Sublist.refl _)).append (List.Sublist.refl _)
  · exact flatMap_sublist_flatMap fun gl _ =>
      sublist_of_nil_or_eq (requiredGroupRecords_mono v hO gl)
  · exact flatMap_sublist_flatMap fun s _ => sublist_of_nil_or_eq (probeVariants_mono v hO _)

/-- Every error recorded with overlay bases `O` is recorded with `O' ⊇ O`, in the
same order; so a map that passes with `O'` passes with `O`. -/
theorem overlay_errors_sublist :
    List.Sublist { v with overlaySegments := O }.verifyAll.errors
        { v with overlaySegments := O' }.verifyAll.errors ∧
      ({ v with overlaySegments := O' }.verifyAll.printSummary →
        { v with overlaySegments := O }.verifyAll.printSummary) := by
  have h : List.Sublist { v with overlaySegments := O }.verifyAll.errors
      { v with overlaySegments := O' }.verifyAll.errors := by
    simp only [MapVerifier.verifyAll_errors]
    exact (List.Sublist.refl _).append ((records_mono v hO).filterMap _)
  refine ⟨h, fun hp => ?_⟩
  rw [MapVerifier.printSummary_iff] at hp ⊢
  exact List.eq_nil_of_sublist_nil (hp ▸ h)

/-- The whole run, exceptions included: the checks that raise never read the overlay set,
so both runs raise alike, and a run that passes with `O'` passes with `O`. -/
theorem run_overlay_mono :
    (∀ e, { v with overlaySegments := O }.runRules = .error e ↔
      { v with overlaySegments := O' }.runRules = .error e) ∧
    ({ v with overlaySegments := O' }.run = .ok true →
      { v with overlaySegments := O }.run = .ok true) := by
  have hr : { v with overlaySegments := O }.raised = { v with overlaySegments := O' }.raised :=
    MapVerifier.raised_congr rfl rfl
  refine ⟨fun e => ?_, fun h => ?_⟩
  · rw [MapVerifier.runRules_eq, MapVerifier.runRules_eq, hr]
    cases { v with overlaySegments := O' }.raised <;> simp [raiseOr]
  · rw [MapVerifier.run_eq_ok_true, MapVerifier.verifyAll_errors] at h ⊢
    refine ⟨hr.trans h.1, List.eq_nil_of_sublist_nil (h.2 ▸ ?_)⟩
    exact (List.Sublist.refl _).append ((records_mono v hO).filterMap _)

end

theorem overlay_errors_sublist_at_1000 :
    let v := { MapVerifier.init "3cpd.map" "debug" with
      symbols := Dict.empty.set "packet_driver_isr" (SymbolInfo.mk "1000" "0010") }
    ([] : List String) ⊆ ["1000"] ∧
      (List.Sublist { v with overlaySegments := [] }.verifyAll.errors
          { v with overlaySegments := ["1000"] }.verifyAll.errors ∧
        ({ v with overlaySegments := ["1000"] }.verifyAll.printSummary →
          { v with overlaySegments := [] }.verifyAll.printSummary)) :=
  ⟨List.nil_subset _, overlay_errors_sublist _ (List.nil_subset _)⟩

theorem run_overlay_mono_at_1000 :
    let v := { MapVerifier.init "3cpd.map" "debug" with
      symbols := Dict.empty.set "packet_driver_isr" (SymbolInfo.mk "1000" "0010") }
    ([] : List String) ⊆ ["1000"] ∧
      ((∀ e, { v with overlaySegments := [] }.runRules = .error e ↔
          { v with overlaySegments := ["1000"] }.runRules = .error e) ∧
        ({ v with overlaySegments := ["1000"] }.run = .ok true →
          { v with overlaySegments := [] }.run = .ok true)) :=
  ⟨List.nil_subset _, run_overlay_mono _ (List.nil_subset _)⟩

end VerifyMap
