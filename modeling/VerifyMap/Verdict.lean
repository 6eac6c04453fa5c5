import VerifyMap.RequiredSymbols
import VerifyMap.Exceptions

/-! When a run passes: exactly when nothing raises and the six conditions of `RulesHold`
hold of the parsed tables, so `print_summary` and the exit status gate on all of them at
once. `RulesHold` writes out the build mode's limit and the optional symbols' spellings. -/
namespace VerifyMap
open Regex Python Catalog

/-- The six conditions under which no rule records an error. -/
structure RulesHold (v : MapVerifier) : Prop where
  size_under : v.dgroupSize <
    if v.buildMode = "production" then 0xE000
    else if v.buildMode = "release" then 0xE800 else 0x10000
  required : ∀ g ∈ requiredSymbols, ∃ a ∈ g.2, ∃ info,
    v.symbols.get? a = some info ∧ upper info.segment ∉ v.overlaySegments
  root_segments : ∀ sd ∈ requiredRootSegments, ∀ s,
    v.segments.get? sd.1 = some s → s.group = "AUTO" ∧ s.«class» = "CODE"
  optional : ∀ sym ∈ optionalSymbols, ∀ pre w post,
    [sym, rstrip sym '_', sym ++ "_"] = pre ++ w :: post →
    (∀ x ∈ pre, v.symbols.get? x = none) →
    ∀ info, v.symbols.get? w = some info → upper info.segment ∉ v.overlaySegments
  forbidden : ∀ obj ∈ forbiddenInOverlay, ∀ s,
    v.segments.get? (replace obj ".obj" "" ++ "_TEXT") = some s → s.«class» ≠ "_OVLCODE"
  folding : ∀ e ∈ v.segments.items, e.2.group = "DGROUP" →
    contains e.1 "OVL_" = false ∧ contains e.1 "INIT_" = false

theorem errors_flatMap_nil {α : Type} (l : List α) (f : α → List Record) :
    (l.flatMap f).filterMap Record.error? = [] ↔ ∀ x ∈ l, (f x).filterMap Record.error? = [] := by
  simp only [List.filterMap_eq_nil_iff, List.mem_flatMap]
  exact ⟨fun h x hx r hr => h r ⟨x, hx, hr⟩, fun h r ⟨x, hx, hr⟩ => h x hx r hr⟩

theorem limits_fst (buildMode : String) :
    (limits buildMode).1 = if buildMode = "production" then 0xE000
      else if buildMode = "release" then 0xE800 else 0x10000 := by
  unfold limits
  split_ifs <;> rfl

theorem limits_pos (buildMode : String) : 0 < (limits buildMode).1 := by
  rw [limits_fst]
  split_ifs <;> decide

theorem isSymbolInOverlay_eq_false (v : MapVerifier) (info : SymbolInfo) :
    v.isSymbolInOverlay info = false ↔ upper info.segment ∉ v.overlaySegments := by
  simp [MapVerifier.isSymbolInOverlay]

namespace MapVerifier
variable (v : MapVerifier)

theorem dgroupSizeRecords_noError (h : 0 < v.dgroupMax) :
    v.dgroupSizeRecords.filterMap Record.error? = [] ↔ v.dgroupSize < v.dgroupMax := by
  unfold dgroupSizeRecords
  split_ifs <;> simp [Record.error?] <;> omega

theorem requiredGroupRecords_noError (gl : String × List String) :
    (v.requiredGroupRecords gl).filterMap Record.error? = [] ↔
      ∃ a ∈ gl.2, ∃ info,
        v.symbols.get? a = some info ∧ upper info.segment ∉ v.overlaySegments := by
  obtain ⟨g, L⟩ := gl
  simp only [requiredGroupRecords_eq, ← isSymbolInOverlay_eq_false, ← inRoot_iff,
    ← List.any_eq_true]
  split_ifs with hr
  · simp [hr]
  · split <;> simp [Record.error?, hr]

theorem requiredSegmentRecords1_noError (sd : String × String) :
    (v.requiredSegmentRecords1 sd).filterMap Record.error? = [] ↔
      ∀ s, v.segments.get? sd.1 = some s → s.group = "AUTO" ∧ s.«class» = "CODE" := by
  unfold requiredSegmentRecords1 isSegmentRoot
  cases h : v.segments.get? sd.1 with
  | none => simp [Record.error?]
  | some s => cases hr : s.isRoot <;> simp [hr, Record.error?] <;> simp_all [Segment.isRoot]

theorem probeVariants_noError (ws : List String) :
    (v.probeVariants ws).filterMap Record.error? = [] ↔
      ∀ pre w post, ws = pre ++ w :: post → (∀ x ∈ pre, v.symbols.get? x = none) →
        ∀ info, v.symbols.get? w = some info → upper info.segment ∉ v.overlaySegments := by
  simp only [← isSymbolInOverlay_eq_false]
  induction ws with
  | nil => simp [probeVariants]
  | cons a ws ih =>
    simp only [List.cons_eq_append_iff]
    cases h : v.symbols.get? a with
    | none =>
      simp only [probeVariants, h, ih]
      constructor
      · rintro H pre w post (⟨rfl, hc⟩ | ⟨pre', rfl, rfl⟩) hpre info hw
        · obtain ⟨rfl, rfl⟩ := List.cons.inj hc
          simp [h] at hw
        · exact H pre' w post rfl (fun x hx => hpre x (by simp [hx])) info hw
      · intro H pre w post hs hpre info hw
        exact H (a :: pre) w post (.inr ⟨pre, rfl, hs⟩)
          (fun x hx => by rcases List.mem_cons.mp hx with rfl | hx; exacts [h, hpre x hx]) info hw
    | some info =>
      simp only [probeVariants, h]
      constructor
      · rintro H pre w post (⟨rfl, hc⟩ | ⟨pre', rfl, rfl⟩) hpre info' hw
        · obtain ⟨rfl, rfl⟩ := List.cons.inj hc
          obtain rfl : info = info' := Option.some.inj (h.symm.trans hw)
          cases ho : v.isSymbolInOverlay info <;> simp_all [Record.error?]
        · simp [hpre a (by simp)] at h
      · intro H
        simp [H [] a ws (.inl ⟨rfl, rfl⟩) (by simp) info h, Record.error?]

theorem forbiddenRecords1_noError (obj : String) :
    (v.forbiddenRecords1 obj).filterMap Record.error? = [] ↔
      ∀ s, v.segments.get? (objSegment obj) = some s → s.«class» ≠ "_OVLCODE" := by
  unfold forbiddenRecords1
  cases v.segments.get? (objSegment obj) with
  | none => simp
  | some s => by_cases hc : s.«class» = "_OVLCODE" <;> simp [hc, Record.error?]

theorem foldingRecords_noError :
    v.foldingRecords.filterMap Record.error? = [] ↔
      ∀ e ∈ v.segments.items, e.2.group = "DGROUP" →
        contains e.1 "OVL_" = false ∧ contains e.1 "INIT_" = false := by
  simp only [foldingRecords, dgroupSegments, List.filterMap_filterMap, List.filterMap_eq_nil_iff,
    List.forall_mem_map, List.mem_filter, decide_eq_true_eq, and_imp]
  refine forall_congr' fun e => imp_congr_right fun _ => imp_congr_right fun _ => ?_
  cases contains e.1 "OVL_" <;> cases contains e.1 "INIT_" <;> simp [Record.error?]

theorem records_noError_iff (h : v.dgroupMax = if v.buildMode = "production" then 0xE000
      else if v.buildMode = "release" then 0xE800 else 0x10000) :
    v.records.filterMap Record.error? = [] ↔ RulesHold v := by
  have hpos : 0 < v.dgroupMax := by rw [h, ← limits_fst]; exact limits_pos _
  simp only [records, List.filterMap_append, List.append_eq_nil, errors_flatMap_nil,
    dgroupSizeRecords_noError v hpos, requiredGroupRecords_noError,
    requiredSegmentRecords1_noError, probeVariants_noError, forbiddenRecords1_noError,
    foldingRecords_noError]
  constructor
  · rintro ⟨⟨⟨⟨⟨h1, h2⟩, h3⟩, h4⟩, h5⟩, h6⟩
    exact ⟨h ▸ h1, h2, h3, h4, h5, h6⟩
  · rintro ⟨h1, h2, h3, h4, h5, h6⟩
    exact ⟨⟨⟨⟨⟨h ▸ h1, h2⟩, h3⟩, h4⟩, h5⟩, h6⟩

/-- A freshly parsed state passes exactly when nothing raises and `RulesHold`. -/
theorem run_eq_ok_true_iff (h : v.errors = []) (hm : v.dgroupMax =
      if v.buildMode = "production" then 0xE000
      else if v.buildMode = "release" then 0xE800 else 0x10000) :
    v.run = .ok true ↔ RulesHold v ∧ PrintsSafely v := by
  rw [run_eq_ok_true, verifyAll_errors, h, List.nil_append, records_noError_iff v hm,
    raised_eq_none_iff, and_comm]

end MapVerifier

/-- A run over any map text in any build mode passes exactly when the six conditions hold
of what `parse` extracted and no size it prints is too large. -/
theorem load_passes_iff (u : Unicode) (mapFile buildMode : String) (T : List Char) :
    (load u mapFile buildMode T).run = .ok true ↔
      RulesHold (load u mapFile buildMode T) ∧ PrintsSafely (load u mapFile buildMode T) :=
  MapVerifier.run_eq_ok_true_iff _ rfl (limits_fst buildMode)

/-- `main` exits 0 exactly when it was given a map path that reads as a text on which the
six conditions hold and no printed size is too large, in the build mode its flags select. -/
theorem main_eq_zero_iff (u : Unicode) (fs : String → MapFile) (argv : List String) :
    main u fs argv = 0 ↔ ∃ prog path flags T, argv = prog :: path :: flags ∧ fs path = .text T ∧
      RulesHold (load u path (buildModeOf argv) T) ∧
      PrintsSafely (load u path (buildModeOf argv) T) := by
  match argv with
  | [] | [_] => simp [main]
  | prog :: path :: flags =>
    cases h : fs path with
    | missing | unreadable => simp [main_of_missing u fs prog path flags (by simp [h]), h]
    | text T =>
      rw [main_of_text u fs prog path flags T h,
        MapVerifier.run_eq_ok_true_iff _ rfl (limits_fst _)]
      constructor
      · exact fun hr => ⟨prog, path, flags, T, rfl, h, hr⟩
      · rintro ⟨_, _, _, T', he, hT, hr⟩
        obtain ⟨rfl, rfl, rfl⟩ : prog = _ ∧ path = _ ∧ flags = _ := by simpa using he
        obtain rfl : T = T' := by simpa [h] using hT
        exact hr

end VerifyMap
