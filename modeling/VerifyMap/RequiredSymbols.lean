import VerifyMap.Engine

/-! `verify_required_symbols` falls back: an alias found in an overlay is
remembered and the scan goes on, so a group passes as soon as any alias sits in
ROOT, and a failing group names the last alias it saw. -/
namespace VerifyMap
open Regex Python Catalog

namespace MapVerifier
variable (v : MapVerifier)

def present (a : String) : Bool := (v.symbols.get? a).isSome

def inRoot (a : String) : Bool :=
  match v.symbols.get? a with
  | some info => !v.isSymbolInOverlay info
  | none => false

theorem inRoot_iff (a : String) :
    v.inRoot a = true ↔
      ∃ info, v.symbols.get? a = some info ∧ v.isSymbolInOverlay info = false := by
  unfold inRoot
  cases v.symbols.get? a <;> simp

/-- While `found_in_root` is false the scan either meets a ROOT alias and stops
there, or sees every present alias and keeps the last. -/
theorem scanAliases_of_not_root (L : List String) (st : AliasScan)
    (hst : st.foundInRoot = false) :
    v.scanAliases L st =
      if L.any v.inRoot then ⟨true, true, L.find? v.inRoot⟩
      else ⟨st.foundAny || L.any v.present, false,
        (L.filter v.present).getLast?.or st.foundSymbol⟩ := by
  induction L generalizing st with
  | nil => obtain ⟨_, _, _⟩ := st; simp_all [scanAliases]
  | cons a L ih =>
    cases h : v.symbols.get? a with
    | none => simp [scanAliases, h, ih st hst, present, inRoot]
    | some info =>
      cases hov : v.isSymbolInOverlay info
      · simp [scanAliases, h, hov, inRoot]
      · have hr : v.inRoot a = false := by simp [inRoot, h, hov]
        have hp : v.present a = true := by simp [present, h]
        simp only [scanAliases, h, hov, Bool.not_true, Bool.false_eq_true, if_false,
          ih ⟨true, st.foundInRoot, some a⟩ hst, List.any_cons, hr, Bool.false_or]
        by_cases hL : L.any v.inRoot = true
        · simp [hL, List.find?_cons, hr]
        · cases hl : (L.filter v.present).getLast? <;>
            simp [hL, hp, List.filter_cons, hl, List.getLast?_cons]

theorem any_eq_isSome_getLast? {α : Type} (p : α → Bool) (L : List α) :
    L.any p = ((L.filter p).getLast?).isSome := by
  induction L with
  | nil => rfl
  | cons a L ih => cases h : p a <;> simp [List.filter_cons, h, ih, List.getLast?_cons]

theorem requiredGroupRecords_eq (g : String) (L : List String) :
    v.requiredGroupRecords (g, L) =
      if L.any v.inRoot then []
      else match (L.filter v.present).getLast? with
        | none => [.error (requiredNotFound g L)]
        | some a => [.error (requiredInOverlay g a)] := by
  simp only [requiredGroupRecords, scanAliases_of_not_root v L ⟨false, false, none⟩ rfl]
  by_cases hr : L.any v.inRoot = true
  · simp [hr]
  · rw [any_eq_isSome_getLast? v.present L]
    cases (L.filter v.present).getLast? <;> simp [hr]

/-- A group is decided by every alias, not by the first one present: it records
nothing when any alias is in ROOT; one 'No symbol found' error when no alias is in
the table; otherwise one 'in OVERLAY' error naming the last alias present. -/
theorem requiredGroupRecords_fallback (g : String) (L : List String) :
    (L.any v.inRoot → v.requiredGroupRecords (g, L) = []) ∧
    (L.filter v.present = [] → v.requiredGroupRecords (g, L) = [.error (requiredNotFound g L)]) ∧
    (∀ a, L.any v.inRoot = false → (L.filter v.present).getLast? = some a →
      v.requiredGroupRecords (g, L) = [.error (requiredInOverlay g a)]) := by
  rw [requiredGroupRecords_eq]
  refine ⟨fun h => by simp [h], fun h => ?_, fun a h ha => by simp [h, ha]⟩
  have hr : L.any v.inRoot = false := by
    rw [List.any_eq_false]
    intro a ha hr
    obtain ⟨info, hi, -⟩ := (inRoot_iff v a).mp hr
    exact List.filter_eq_nil_iff.mp h a ha (by simp [present, hi])
  simp [hr, h]

theorem requiredGroupRecords_fallback_overlay_only :
    let v := { MapVerifier.init "3cpd.map" "debug" with
      symbols := (Dict.empty.set "packet_driver_isr" (SymbolInfo.mk "1000" "0010")).set
        "_packet_driver_isr" (SymbolInfo.mk "1000" "0040"),
      overlaySegments := ["1000"] }
    ["packet_driver_isr", "_packet_driver_isr", "packet_api_entry"].any v.inRoot = false ∧
      (["packet_driver_isr", "_packet_driver_isr", "packet_api_entry"].filter v.present).getLast? =
        some "_packet_driver_isr" ∧
      v.requiredGroupRecords
          ("packet_api", ["packet_driver_isr", "_packet_driver_isr", "packet_api_entry"]) =
        [.error (requiredInOverlay "packet_api" "_packet_driver_isr")] := by
  intro v
  have h₁ : ["packet_driver_isr", "_packet_driver_isr", "packet_api_entry"].any v.inRoot =
      false := by
    decide
  have h₂ : (["packet_driver_isr", "_packet_driver_isr", "packet_api_entry"].filter
      v.present).getLast? = some "_packet_driver_isr" := by decide
  exact ⟨h₁, h₂, (requiredGroupRecords_fallback v _ _).2.2 _ h₁ h₂⟩

end MapVerifier

/-- With `packet_driver_isr` in the overlay at 1000 and `packet_api_entry` in ROOT,
the `packet_api` group records nothing: the overlay alias does not decide it. -/
theorem packet_api_falls_back :
    let v := { MapVerifier.init "3cpd.map" "debug" with
      symbols := (Dict.empty.set "packet_driver_isr" (SymbolInfo.mk "1000" "0010")).set
        "packet_api_entry" (SymbolInfo.mk "0000" "0020"),
      overlaySegments := ["1000"] }
    ("packet_api", ["packet_driver_isr", "_packet_driver_isr", "packet_api_entry"]) ∈
        requiredSymbols ∧
      v.symbols.get? "packet_driver_isr" = some ⟨"1000", "0010"⟩ ∧
      v.isSymbolInOverlay ⟨"1000", "0010"⟩ = true ∧
      v.requiredGroupRecords
        ("packet_api", ["packet_driver_isr", "_packet_driver_isr", "packet_api_entry"]) = [] := by
  decide

end VerifyMap
