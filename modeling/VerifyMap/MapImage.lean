import VerifyMap.MapLines
import VerifyMap.Verdict

/-! A map as the list of its lines, and what those lines say: the size in the first
`DGROUP` entry, the segment and symbol tables the entries fill in, and the overlay bases.
`parse` of a map's text gives back exactly what its lines say, so `main`'s verdict on a
map is the six rules checked against its lines. -/
namespace VerifyMap
open Regex Python

/-- A map's text: its lines, one after another, each ended by a line end but the last. -/
def render (ls : List MapLine) : List Char := ['\n'].intercalate (ls.map MapLine.text)

@[simp] theorem render_singleton (l : MapLine) : render [l] = l.text := by
  simp [render, List.intercalate]

theorem render_cons_cons (l l' : MapLine) (ls : List MapLine) :
    render (l :: l' :: ls) = l.text ++ '\n' :: render (l' :: ls) := by
  simp [render, List.intercalate]

def dgroupEntry (ls : List MapLine) : Option Nat := ls.findSome? MapLine.dgroupSize?

def dgroupFirst : List MapLine → Bool
  | [] => true
  | l :: ls => l.dgroupSize?.isSome || (!decide ("DGROUP".toList <:+: l.text) && dgroupFirst ls)

/-- What the lines of a map say, as the verifier's state after `parse`. -/
def mapState (mapFile buildMode : String) (ls : List MapLine) : MapVerifier :=
  { MapVerifier.init mapFile buildMode with
    content := render ls
    dgroupSize := (dgroupEntry ls).getD 0
    segments := ls.foldl (fun d l => l.segmentWrite d) .empty
    symbols := ls.foldl (fun d l => l.symbolWrite d) .empty
    overlaySegments := ls.foldl (fun o l => l.overlayWrite o) [] }

/-! ### The scans over a whole map -/

theorem foldl_finditer_render {β : Type} {f : β → List (List Char) → β} {g : MapLine → β → β}
    {ps : List Atom} {ls : List MapLine}
    (hflat : finditer ps (render ls) = (ls.map MapLine.text).flatMap (finditer ps))
    (hline : ∀ l ∈ ls, ∀ b, (finditer ps l.text).foldl f b = g l b) (b : β) :
    (finditer ps (render ls)).foldl f b = ls.foldl (fun b l => g l b) b := by
  rw [hflat, List.flatMap, List.foldl_flatten, List.foldl_map, List.foldl_map]
  exact List.foldl_ext _ _ _ fun b l hl => hline l hl b

theorem finditer_render_bol {qs : List Atom} (hq : ∀ a ∈ qs, a.readsPrev = false)
    (he : matchAt (.bol :: qs) none [] = none) {ls : List MapLine}
    (hnl : ∀ l ∈ ls, '\n' ∉ l.text) (hs : ∀ l ∈ ls, lineSafe (.bol :: qs) none l.text) :
    finditer (.bol :: qs) (render ls) = (ls.map MapLine.text).flatMap (finditer (.bol :: qs)) := by
  cases ls with
  | nil => simp [render, finditer, scan, he]
  | cons l ls =>
    rw [render, finditer, List.map_cons]
    refine scan_lines hq rfl (fun x hx => ?_) fun x hx => ?_
    · obtain ⟨l', hl', rfl⟩ := List.mem_map.mp (by simpa using hx : x ∈ (l :: ls).map MapLine.text)
      exact hnl l' hl'
    · obtain ⟨l', hl', rfl⟩ := List.mem_map.mp
        (List.mem_of_mem_dropLast (by simpa using hx : x ∈ ((l :: ls).map MapLine.text).dropLast))
      exact hs l' hl'

/-! ### The `DGROUP` search -/

theorem dgroupPattern_starts {prev : Option Char} {s : List Char}
    {m : List (List Char) × List Char} (h : matchAt dgroupPattern prev s = some m) :
    "DGROUP".toList <+: s := by
  obtain ⟨w₁, seg, off, w₂, size, rfl, -⟩ := matchAt_dgroupPattern.mp h
  simp only [List.append_assoc, List.cons_append]
  exact List.prefix_append _ _

theorem matchAt_dgroup_none {l t : List Char} (hl : ¬ "DGROUP".toList <:+: l) (p : Nat)
    (ht : "DGROUP".toList <+: t → "DGROUP".toList <+: l.drop p) (prev : Option Char) :
    matchAt dgroupPattern prev t = none := by
  cases hm : matchAt dgroupPattern prev t with
  | none => rfl
  | some m =>
    exact absurd ((ht (dgroupPattern_starts hm)).isInfix.trans (List.drop_suffix p l).isInfix) hl

theorem search_skip_line {l : List Char} (hl : ¬ "DGROUP".toList <:+: l) (R : List Char)
    (prev : Option Char) :
    ∃ prev', search dgroupPattern prev (l ++ '\n' :: R) = search dgroupPattern prev' R := by
  obtain ⟨prev', h⟩ := @search_drop dgroupPattern (l.length + 1) prev (l ++ '\n' :: R) (by simp)
    fun p hp => matchAt_dgroup_none hl p fun h => by
      rwa [List.drop_append_of_le_length (by omega), ← List.isPrefixOf_iff_prefix,
        isPrefixOf_append_newline (by decide), List.isPrefixOf_iff_prefix] at h
  exact ⟨prev', by simpa using h⟩

theorem search_last_line {l : List Char} (hl : ¬ "DGROUP".toList <:+: l) (prev : Option Char) :
    search dgroupPattern prev l = none :=
  search_eq_none fun p _ => matchAt_dgroup_none hl p id

theorem search_dgroupText {u : Unicode} {a n : String} {g₁ g₂ : Nat}
    (h : (MapLine.dgroup a n g₁ g₂).wf u) {tail : List Char} (ht : Ends isHex tail)
    (prev : Option Char) :
    (search dgroupPattern prev ((MapLine.dgroup a n g₁ g₂).text ++ tail)).map
      (fun m => hexValue (group dgroupPattern m.1 1)) = some (hexValue n.data) := by
  obtain ⟨⟨seg, off, hsplit, hseg, hoff⟩, hn⟩ := dgroup_fields h
  have hs : DgroupShape ((MapLine.dgroup a n g₁ g₂).text ++ tail) n.data :=
    ⟨blanks g₁, seg, off, blanks g₂, tail, by simp [MapLine.text, hsplit], run_blanks g₁, hseg,
      hoff, run_blanks g₂, hn, ht⟩
  obtain ⟨ts, r, hm, hg⟩ := (dgroupShape_iff prev).mp hs
  simp [search_of_matchAt hm, hg]

/-- The search over a map finds the first `DGROUP` entry, when no line before it mentions
`DGROUP`. -/
theorem search_render {u : Unicode} :
    ∀ {ls : List MapLine}, (∀ l ∈ ls, l.wf u) → dgroupFirst ls → ∀ prev,
      (search dgroupPattern prev (render ls)).map
        (fun m => hexValue (group dgroupPattern m.1 1)) = dgroupEntry ls
  | [], _, _, _ => rfl
  | l :: ls, hwf, hfirst, prev => by
    cases hl : l.dgroupSize? with
    | some v =>
      obtain ⟨a, n, g₁, g₂, rfl, rfl⟩ :
          ∃ a n g₁ g₂, l = .dgroup a n g₁ g₂ ∧ hexValue n.data = v := by
        cases l <;> simp only [MapLine.dgroupSize?, reduceCtorEq, Option.some.injEq] at hl
        exact ⟨_, _, _, _, rfl, hl⟩
      have ha := hwf _ (List.mem_cons_self _ _)
      rw [dgroupEntry, List.findSome?_cons, hl]
      cases ls with
      | nil => simpa using search_dgroupText ha (ends_nil isHex) prev
      | cons l' ls =>
        rw [render_cons_cons]
        exact search_dgroupText ha (ends_cons rfl _) prev
    | none =>
      simp only [dgroupFirst, hl, Option.isSome_none, Bool.false_or, Bool.and_eq_true,
        Bool.not_eq_true', decide_eq_false_iff_not] at hfirst
      rw [dgroupEntry, List.findSome?_cons, hl]
      cases ls with
      | nil => simp [search_last_line hfirst.1]
      | cons l' ls =>
        obtain ⟨prev', h⟩ := search_skip_line hfirst.1 (render (l' :: ls)) prev
        rw [render_cons_cons, h]
        exact search_render (fun l hl => hwf l (List.mem_cons_of_mem _ hl)) hfirst.2 prev'

/-! ### The round trip -/

section RoundTrip
variable {u : Unicode} (hu : u.WordNotSpace) {ls : List MapLine} (hwf : ∀ l ∈ ls, l.wf u)
include hwf

theorem symbols_render :
    (finditer symbolPattern (render ls)).foldl symbolEntry .empty =
      ls.foldl (fun d l => l.symbolWrite d) .empty :=
  foldl_finditer_render
    (finditer_render_bol symbolPattern_tail rfl (fun l hl => newline_not_mem_text (hwf l hl))
      fun l hl => (symbolScan_text (hwf l hl)).1)
    (fun l hl => (symbolScan_text (hwf l hl)).2) _

theorem overlays_render :
    (finditer (overlayPattern u) (render ls)).foldl (overlayEntry u) [] =
      ls.foldl (fun o l => l.overlayWrite o) [] :=
  foldl_finditer_render (finditer_overlay_lines _) (fun l hl => overlayScan_text (hwf l hl)) _

include hu

theorem segments_render :
    (finditer (segmentPattern u) (render ls)).foldl (segmentEntry u) .empty =
      ls.foldl (fun d l => l.segmentWrite d) .empty :=
  have hq : ∀ a ∈ (segmentPattern u).tail, a.readsPrev = false := readsPrev_of_all rfl
  foldl_finditer_render
    (finditer_render_bol hq rfl (fun l hl => newline_not_mem_text (hwf l hl))
      fun l hl => (segmentScan_text hu (hwf l hl)).1)
    (fun l hl => (segmentScan_text hu (hwf l hl)).2) _

theorem load_render_mapState (hfirst : dgroupFirst ls) (mapFile buildMode : String) :
    load u mapFile buildMode (render ls) = mapState mapFile buildMode ls := by
  simp only [load, MapVerifier.parseContent, MapVerifier.parseDgroupSize,
    MapVerifier.parseAllSegments, MapVerifier.parseSymbolTable,
    MapVerifier.identifyOverlaySegments, MapVerifier.init, mapState, segments_render hu hwf,
    symbols_render hwf, overlays_render hwf, ← search_render hwf hfirst none]
  cases search dgroupPattern none (render ls) <;> rfl

/-- Parsing the text of a well-formed map gives what its lines say: the size of the first
`DGROUP` entry (0 without one), each table as its entries write it line after line, and
the upper-cased overlay bases. -/
theorem load_render (hfirst : dgroupFirst ls) (mapFile buildMode : String) :
    load u mapFile buildMode (render ls) = mapState mapFile buildMode ls :=
  load_render_mapState hu hwf hfirst mapFile buildMode

def fiveLines : List MapLine :=
  [.other "Group                           Address          Size".toList,
   .dgroup "0a2b:0000" "0000e3b0" 25 9,
   .segment "_TEXT" "CODE" "AUTO" "0000:0000" "00001234" 17 11 11 3, .overlay "1" "1000",
   .symbol "0000" "0020" (some '+') 6 "packet_api_entry"]

omit hu hwf in
theorem load_render_five_lines :
    (⟨Char.isAlphanum, Char.isDigit⟩ : Unicode).WordNotSpace ∧
      (∀ l ∈ fiveLines, l.wf ⟨Char.isAlphanum, Char.isDigit⟩) ∧ dgroupFirst fiveLines ∧
      load ⟨Char.isAlphanum, Char.isDigit⟩ "3cpd.map" "debug" (render fiveLines) =
        mapState "3cpd.map" "debug" fiveLines :=
  ⟨wordNotSpace_ascii, by decide, by decide,
    load_render wordNotSpace_ascii (by decide) (by decide) _ _⟩

omit hu hwf in
theorem run_mapState_iff (mapFile buildMode : String) :
    (mapState mapFile buildMode ls).run = .ok true ↔
      RulesHold (mapState mapFile buildMode ls) ∧ PrintsSafely (mapState mapFile buildMode ls) :=
  MapVerifier.run_eq_ok_true_iff _ rfl (limits_fst buildMode)

/-- On a map of well-formed lines, `main` exits 0 exactly when the six rules hold of what
the lines say and no size they print is too large. -/
theorem main_render (hfirst : dgroupFirst ls) (fs : String → MapFile) (prog path : String)
    (flags : List String) (h : fs path = .text (render ls)) :
    main u fs (prog :: path :: flags) = 0 ↔
      RulesHold (mapState path (buildModeOf (prog :: path :: flags)) ls) ∧
        PrintsSafely (mapState path (buildModeOf (prog :: path :: flags)) ls) := by
  rw [main_of_text u fs prog path flags _ h, load_render_mapState hu hwf hfirst]
  exact run_mapState_iff _ _

omit hu hwf in
theorem main_render_five_lines :
    (⟨Char.isAlphanum, Char.isDigit⟩ : Unicode).WordNotSpace ∧
      (∀ l ∈ fiveLines, l.wf ⟨Char.isAlphanum, Char.isDigit⟩) ∧ dgroupFirst fiveLines ∧
      (fun _ => MapFile.text (render fiveLines)) "3cpd.map" = .text (render fiveLines) ∧
      (main ⟨Char.isAlphanum, Char.isDigit⟩ (fun _ => .text (render fiveLines))
          ["verify_map.py", "3cpd.map"] = 0 ↔
        RulesHold (mapState "3cpd.map" (buildModeOf ["verify_map.py", "3cpd.map"]) fiveLines) ∧
          PrintsSafely (mapState "3cpd.map" (buildModeOf ["verify_map.py", "3cpd.map"])
            fiveLines)) :=
  ⟨wordNotSpace_ascii, by decide, by decide, rfl,
    main_render wordNotSpace_ascii (by decide) (by decide) _ _ _ _ rfl⟩

end RoundTrip

/-! ### The order of a map's lines -/

theorem mem_foldl_overlayWrite {x : String} :
    ∀ (ls : List MapLine) (o : List String), x ∈ ls.foldl (fun o l => l.overlayWrite o) o ↔
      x ∈ o ∨ x ∈ (ls.filterMap MapLine.overlayBase?).map upper
  | [], o => by simp
  | l :: ls, o => by
    rw [List.foldl_cons, mem_foldl_overlayWrite ls, MapLine.overlayWrite, List.filterMap_cons]
    cases l.overlayBase? <;> simp only [Option.map_none', Option.getD_none, Option.map_some',
      Option.getD_some, List.map_cons, List.mem_cons, List.mem_insert_iff, or_assoc, or_left_comm]

theorem items_foldl_distinct {V : Type} {es : List (String × V)} (h : (es.map Prod.fst).Nodup) :
    (es.foldl (fun (d : Dict V) e => d.set e.1 e.2) .empty).items = es := by
  rw [Dict.items_foldl_fresh Prod.fst Prod.snd es _ h (by simp [Dict.empty])]
  simp [Dict.empty]

theorem rulesHold_congr {v w : MapVerifier} (h : RulesHold v) (hs : v.dgroupSize = w.dgroupSize)
    (hm : v.buildMode = w.buildMode) (hsym : ∀ e, e ∈ v.symbols.items ↔ e ∈ w.symbols.items)
    (hseg : ∀ e, e ∈ v.segments.items ↔ e ∈ w.segments.items)
    (hov : ∀ x, x ∈ v.overlaySegments ↔ x ∈ w.overlaySegments) : RulesHold w := by
  have hsy := Dict.get?_congr hsym
  have hsg := Dict.get?_congr hseg
  obtain ⟨h₁, h₂, h₃, h₄, h₅, h₆⟩ := h
  refine ⟨hs ▸ hm ▸ h₁, fun g hg => ?_, fun sd hsd s hs => h₃ sd hsd s ((hsg _).trans hs),
    fun sym hs' pre x post he hpre info hi => ?_, fun obj ho s hs => h₅ obj ho s ((hsg _).trans hs),
    fun e he => h₆ e ((hseg e).mpr he)⟩
  · obtain ⟨a, ha, info, hi, ho⟩ := h₂ g hg
    exact ⟨a, ha, info, (hsy a).symm.trans hi, by rwa [← hov]⟩
  · rw [← hov]
    exact h₄ sym hs' pre x post he (fun y hy => (hsy y).trans (hpre y hy)) info ((hsy x).trans hi)

theorem main_eq_zero_or_one (u : Unicode) (fs : String → MapFile) (argv : List String) :
    main u fs argv = 0 ∨ main u fs argv = 1 := by
  unfold main
  repeat' split
  all_goals simp

section Order
variable {ls ls' : List MapLine} (hp : ls.Perm ls')
  (hseg : ((ls.filterMap MapLine.segmentEntry?).map Prod.fst).Nodup)
  (hsym : ((ls.filterMap MapLine.symbolEntry?).map Prod.fst).Nodup)
include hp hseg hsym

theorem mapState_perm (hdg : dgroupEntry ls = dgroupEntry ls') (mapFile buildMode : String) :
    (mapState mapFile buildMode ls).dgroupSize = (mapState mapFile buildMode ls').dgroupSize ∧
    (∀ e, e ∈ (mapState mapFile buildMode ls).symbols.items ↔
      e ∈ (mapState mapFile buildMode ls').symbols.items) ∧
    (∀ e, e ∈ (mapState mapFile buildMode ls).segments.items ↔
      e ∈ (mapState mapFile buildMode ls').segments.items) ∧
    (∀ x, x ∈ (mapState mapFile buildMode ls).overlaySegments ↔
      x ∈ (mapState mapFile buildMode ls').overlaySegments) := by
  have hseg' := ((hp.filterMap _).map Prod.fst).nodup_iff.mp hseg
  have hsym' := ((hp.filterMap _).map Prod.fst).nodup_iff.mp hsym
  refine ⟨by simp [mapState, hdg], fun e => ?_, fun e => ?_, fun x => ?_⟩
  · simp only [mapState, MapLine.symbolWrite, Dict.foldl_writes, items_foldl_distinct hsym,
      items_foldl_distinct hsym']
    exact (hp.filterMap _).mem_iff
  · simp only [mapState, MapLine.segmentWrite, Dict.foldl_writes, items_foldl_distinct hseg,
      items_foldl_distinct hseg']
    exact (hp.filterMap _).mem_iff
  · simp only [mapState, mem_foldl_overlayWrite, ((hp.filterMap _).map upper).mem_iff]

theorem run_mapState_perm (hdg : dgroupEntry ls = dgroupEntry ls') (mapFile buildMode : String)
    (h : (mapState mapFile buildMode ls).run = .ok true) :
    (mapState mapFile buildMode ls').run = .ok true := by
  obtain ⟨hd, hsy, hsg, hov⟩ := mapState_perm hp hseg hsym hdg mapFile buildMode
  obtain ⟨hr, hs⟩ := (run_mapState_iff mapFile buildMode).mp h
  exact (run_mapState_iff mapFile buildMode).mpr
    ⟨rulesHold_congr hr hd rfl hsy hsg hov, hs.congr hd hsg⟩

/-- Whether `main` passes a well-formed map does not depend on the order of its lines, as
long as no two segment lines and no two symbol lines share a name, the first `DGROUP`
entry stays the same and no line before it mentions `DGROUP` in either order: the rules
look the tables up by name and read the overlay bases as a set. -/
theorem main_perm {u : Unicode} (hu : u.WordNotSpace) (hwf : ∀ l ∈ ls, l.wf u)
    (hfirst : dgroupFirst ls) (hfirst' : dgroupFirst ls') (hdg : dgroupEntry ls = dgroupEntry ls')
    (fs fs' : String → MapFile) (prog path : String) (flags : List String)
    (h : fs path = .text (render ls)) (h' : fs' path = .text (render ls')) :
    main u fs (prog :: path :: flags) = main u fs' (prog :: path :: flags) := by
  have hseg' := ((hp.filterMap _).map Prod.fst).nodup_iff.mp hseg
  have hsym' := ((hp.filterMap _).map Prod.fst).nodup_iff.mp hsym
  have hwf' : ∀ l ∈ ls', l.wf u := fun l hl => hwf l (hp.mem_iff.mpr hl)
  have hiff : main u fs (prog :: path :: flags) = 0 ↔ main u fs' (prog :: path :: flags) = 0 := by
    rw [main_of_text u fs prog path flags _ h, main_of_text u fs' prog path flags _ h',
      load_render_mapState hu hwf hfirst, load_render_mapState hu hwf' hfirst']
    exact ⟨run_mapState_perm hp hseg hsym hdg _ _,
      run_mapState_perm hp.symm hseg' hsym' hdg.symm _ _⟩
  have := main_eq_zero_or_one u fs (prog :: path :: flags)
  have := main_eq_zero_or_one u fs' (prog :: path :: flags)
  omega

end Order

set_option maxRecDepth 2000 in
theorem main_perm_reversed :
    (⟨Char.isAlphanum, Char.isDigit⟩ : Unicode).WordNotSpace ∧
      fiveLines.Perm fiveLines.reverse ∧
      ((fiveLines.filterMap MapLine.segmentEntry?).map Prod.fst).Nodup ∧
      ((fiveLines.filterMap MapLine.symbolEntry?).map Prod.fst).Nodup ∧
      (∀ l ∈ fiveLines, l.wf ⟨Char.isAlphanum, Char.isDigit⟩) ∧ dgroupFirst fiveLines ∧
      dgroupFirst fiveLines.reverse ∧ dgroupEntry fiveLines = dgroupEntry fiveLines.reverse ∧
      (main ⟨Char.isAlphanum, Char.isDigit⟩ (fun _ => .text (render fiveLines))
          ["verify_map.py", "3cpd.map", "--release"] =
        main ⟨Char.isAlphanum, Char.isDigit⟩ (fun _ => .text (render fiveLines.reverse))
          ["verify_map.py", "3cpd.map", "--release"]) :=
  ⟨wordNotSpace_ascii, by decide, by decide, by decide, by decide, by decide, by decide, by decide,
    main_perm (by decide) (by decide) (by decide) wordNotSpace_ascii (by decide) (by decide)
      (by decide) (by decide) _ _ _ _ _ rfl rfl⟩

end VerifyMap
