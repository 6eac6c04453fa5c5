import VerifyMap.Rules

/-! The rule engine. The six rules read only the parsed tables and thresholds, which
recording leaves alone. So the run in `main` either raises, as soon as a check on
those tables fails, or appends what each rule records on the parsed state, one rule
after the other; `print_summary` cannot raise once the size rule has passed. -/
namespace VerifyMap
open Regex Python Catalog

namespace MapVerifier
variable (v : MapVerifier) (rs rs' : List Record)

@[simp] theorem record_errors : (v.record rs).errors = v.errors ++ rs.filterMap Record.error? := rfl

theorem record_record : (v.record rs).record rs' = v.record (rs ++ rs') := by
  simp [record, List.filterMap_append, List.append_assoc]

/-! Recording leaves every check's input alone. -/

@[simp] theorem dgroupSize_record : (v.record rs).dgroupSize = v.dgroupSize := rfl
@[simp] theorem dgroupSizeRecords_record : (v.record rs).dgroupSizeRecords = v.dgroupSizeRecords :=
  rfl
@[simp] theorem dgroupSizeRaised_record : (v.record rs).dgroupSizeRaised = v.dgroupSizeRaised := rfl
theorem scanAliases_record (L : List String) (st : AliasScan) :
    (v.record rs).scanAliases L st = v.scanAliases L st := by
  induction L generalizing st with
  | nil => rfl
  | cons a L ih => simp only [scanAliases, ih]; rfl

@[simp] theorem requiredGroupRecords_record :
    (v.record rs).requiredGroupRecords = v.requiredGroupRecords := by
  funext gl
  simp only [requiredGroupRecords, scanAliases_record]
@[simp] theorem requiredSegmentRecords1_record :
    (v.record rs).requiredSegmentRecords1 = v.requiredSegmentRecords1 := rfl
@[simp] theorem requiredSegmentRaised1_record :
    (v.record rs).requiredSegmentRaised1 = v.requiredSegmentRaised1 := rfl
@[simp] theorem probeVariants_record : (v.record rs).probeVariants = v.probeVariants := by
  funext ws
  induction ws with
  | nil => rfl
  | cons w ws ih => simp only [probeVariants, ih]; rfl
@[simp] theorem forbiddenRecords1_record :
    (v.record rs).forbiddenRecords1 = v.forbiddenRecords1 := rfl
@[simp] theorem foldingRecords_record : (v.record rs).foldingRecords = v.foldingRecords := rfl
@[simp] theorem foldingRaised_record : (v.record rs).foldingRaised = v.foldingRaised := rfl

/-- What the six rules raise, whichever rule it comes from. -/
def raised : Option PyException :=
  v.dgroupSizeRaised <|> requiredRootSegments.findSome? v.requiredSegmentRaised1 <|>
    v.foldingRaised

/-- No rule short-circuits another: the run raises what the checks on the parsed tables
raise, and otherwise each rule records, on the state the earlier ones leave, what it
records on `v`. -/
theorem runRules_eq : v.runRules = raiseOr v.raised v.verifyAll := by
  simp only [runRules, verifyDgroupSize, verifyRequiredSymbols, verifyRequiredSegments,
    verifyOptionalSymbols, verifyForbiddenInOverlay, verifyDgroupFolding, raiseOr_bind, ok_bind,
    dgroupSizeRecords_record, requiredGroupRecords_record, requiredSegmentRecords1_record,
    requiredSegmentRaised1_record, probeVariants_record, forbiddenRecords1_record,
    foldingRecords_record, foldingRaised_record, record_record]
  simp only [raiseOr_eq, raised, verifyAll, records, List.append_assoc]
  cases v.dgroupSizeRaised <;> cases requiredRootSegments.findSome? v.requiredSegmentRaised1 <;>
    cases v.foldingRaised <;> rfl

theorem verifyAll_errors : v.verifyAll.errors = v.errors ++ v.records.filterMap Record.error? :=
  record_errors _ _

theorem printSummary_iff : v.printSummary = true ↔ v.errors = [] := by
  simp [printSummary]

/-- Once `dgroup_size / 1024` has passed, the prints of `print_summary` cannot raise: they
format the size and headroom the size rule formats, or 0 and 65536. -/
theorem summaryRaised_eq_none (h : v.dgroupSizeRaised = none) : v.summaryRaised = none := by
  unfold dgroupSizeRaised at h
  unfold summaryRaised
  by_cases h0 : v.dgroupSize = 0
  · have hd : ((v.dgroupSize : Int)).natAbs < 2 ^ 1034 - 2 ^ 980 := by rw [h0]; norm_num
    have hh : ((dgroupMaxSize : Int) - v.dgroupSize).natAbs < 2 ^ 1034 - 2 ^ 980 := by
      rw [h0, dgroupMaxSize]; norm_num
    simp only [strDigitsExceeded_eq_false hd, strDigitsExceeded_eq_false hh,
      trueDivOverflows_eq_false hh, Bool.or_false, Bool.false_eq_true, if_false]
  · simp only [h0, if_false] at h
    split_ifs at h ⊢
    simp_all

theorem run_eq : v.run = raiseOr v.raised v.verifyAll.printSummary := by
  rw [run, runRules_eq, raiseOr_bind]
  cases hr : v.raised with
  | some e => rfl
  | none =>
    have hd : v.verifyAll.dgroupSizeRaised = none := by
      rw [verifyAll, dgroupSizeRaised_record]
      exact ((Option.orElse_eq_none _ _).mp hr).1
    rw [Option.map_none', Option.getD_none, summaryRaised_eq_none _ hd]

theorem run_eq_ok_true : v.run = .ok true ↔ v.raised = none ∧ v.verifyAll.errors = [] := by
  rw [run_eq, raiseOr_eq_ok, eq_comm, printSummary_iff]

end MapVerifier

@[simp] theorem load_errors (u : Unicode) (mapFile buildMode : String) (T : List Char) :
    (load u mapFile buildMode T).errors = [] := rfl

@[simp] theorem load_warnings (u : Unicode) (mapFile buildMode : String) (T : List Char) :
    (load u mapFile buildMode T).warnings = [] := rfl

/-- Once the map file reads as `T`, `main` exits with 0 exactly when the run passes. -/
theorem main_of_text (u : Unicode) (fs : String → MapFile) (prog path : String)
    (flags : List String) (T : List Char) (h : fs path = .text T) :
    main u fs (prog :: path :: flags) = 0 ↔
      (load u path (buildModeOf (prog :: path :: flags)) T).run = .ok true := by
  simp only [main, MapVerifier.parse, h]
  split <;> simp_all [load]

theorem main_of_missing (u : Unicode) (fs : String → MapFile) (prog path : String)
    (flags : List String) (h : fs path = .missing ∨ fs path = .unreadable) :
    main u fs (prog :: path :: flags) = 1 := by
  rcases h with h | h <;> simp [main, MapVerifier.parse, h]

end VerifyMap
