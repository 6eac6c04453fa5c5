import VerifyMap.LineScan
import VerifyMap.DgroupSize

/-! The lines of a Watcom map as the verifier's four scans see them: a `DGROUP` entry, a
segment, an overlay marker, a symbol, or anything else, with columns padded by any number
of blanks. Each scan reads each kind of line as the entry it holds or not at all, and the
two anchored scans stop at its end. -/
namespace VerifyMap
open Regex Python

def Regex.Unicode.WordNotSpace (u : Unicode) : Prop := ∀ c, isWord u c → isSpace c = false

theorem isWord_ascii (u : Unicode) {c : Char} (h : c.toNat < 128) :
    isWord u c = (c.isAlphanum || c == '_') := if_pos h

theorem isWord_of_isHex (u : Unicode) {c : Char} (h : isHex c) : isWord u c := by
  have hlt : c.toNat < 128 := by
    simp only [isHex, Bool.or_eq_true, Bool.and_eq_true, decide_eq_true_eq] at h
    omega
  have key : ∀ n < 128, isHex (Char.ofNat n) →
      ((Char.ofNat n).isAlphanum || Char.ofNat n == '_') := by decide
  rw [isWord_ascii u hlt, ← Char.ofNat_toNat c]
  exact key _ hlt (by rwa [Char.ofNat_toNat])

theorem isAlphanum_lt {c : Char} (h : c.isAlphanum) : c.toNat < 128 := by
  simp only [Char.isAlphanum, Char.isAlpha, Char.isUpper, Char.isLower, Char.isDigit,
    Bool.or_eq_true, Bool.and_eq_true, decide_eq_true_eq] at h
  rcases h with (⟨_, h⟩ | ⟨_, h⟩) | ⟨_, h⟩ <;>
    exact Nat.lt_of_le_of_lt (UInt32.toNat_le_of_le (by decide) h) (by decide)

theorem wordNotSpace_ascii : (⟨Char.isAlphanum, Char.isDigit⟩ : Unicode).WordNotSpace := by
  intro c hc
  have key : ∀ n < 128, ((Char.ofNat n).isAlphanum || Char.ofNat n == '_') →
      isSpace (Char.ofNat n) = false := by decide
  by_cases hlt : c.toNat < 128
  · rw [isWord_ascii _ hlt, ← Char.ofNat_toNat c] at hc
    rw [← Char.ofNat_toNat c]
    exact key _ hlt hc
  · simp only [isWord, hlt, ↓reduceIte] at hc
    exact absurd (isAlphanum_lt hc) hlt

def isRun (c : Char → Bool) (w : List Char) : Bool := !w.isEmpty && w.all c

theorem run_of_isRun {c : Char → Bool} {w : List Char} (h : isRun c w) : Run c w := by
  simp only [isRun, Bool.and_eq_true, Bool.not_eq_true', List.isEmpty_eq_false,
    List.all_eq_true] at h
  exact h

def hexAddress (t : List Char) : Bool :=
  isRun isHex (t.takeWhile isHex) &&
    match t.dropWhile isHex with
    | ':' :: off => isRun isHex off
    | _ => false

theorem hexAddress_split {t : List Char} (h : hexAddress t) :
    ∃ seg off, t = seg ++ ':' :: off ∧ Run isHex seg ∧ Run isHex off := by
  simp only [hexAddress, Bool.and_eq_true] at h
  obtain ⟨hseg, h⟩ := h
  split at h
  · next off heq =>
    exact ⟨_, off, by rw [← heq, List.takeWhile_append_dropWhile], run_of_isRun hseg,
      run_of_isRun h⟩
  · simp at h

theorem isDigit_ascii (u : Unicode) {c : Char} (h : c.toNat < 128) : isDigit u c = c.isDigit :=
  if_pos h

theorem isDigit_of_isDigit (u : Unicode) {c : Char} (h : c.isDigit) : isDigit u c := by
  have hlt : c.toNat < 128 := by
    simp only [Char.isDigit, Bool.and_eq_true, decide_eq_true_eq] at h
    exact Nat.lt_of_le_of_lt (UInt32.toNat_le_of_le (by decide) h.2) (by decide)
  rw [isDigit_ascii u hlt]
  exact h

def blanks (g : Nat) : List Char := List.replicate (g + 1) ' '

theorem run_blanks (g : Nat) : Run isSpace (blanks g) :=
  ⟨by simp [blanks], fun x hx => by rw [List.eq_of_mem_replicate hx]; rfl⟩

theorem not_mem_blanks {x : Char} (hx : x ≠ ' ') (g : Nat) : x ∉ blanks g :=
  fun h => hx (List.eq_of_mem_replicate h)

theorem blanks_append_ne_nil (g : Nat) (t : List Char) : blanks g ++ t ≠ [] := by
  simp [blanks]

theorem ends_blanks {c : Char → Bool} (hc : c ' ' = false) (g : Nat) (t : List Char) :
    Ends c (blanks g ++ t) :=
  ends_cons hc _

/-- A line of the map as the verifier's scans see it: `DGROUP`'s entry in the list of groups,
an entry of the list of segments, the start of an overlay section, an entry of the list of
symbols (with the `*` or `+` the linker may put after the address), or any other line. -/
inductive MapLine where
  | dgroup (address size : String) (gap₁ gap₂ : Nat)
  | segment (name «class» group address size : String) (gap₁ gap₂ gap₃ gap₄ : Nat)
  | overlay (number base : String)
  | symbol (segment offset : String) (marker : Option Char) (gap : Nat) (name : String)
  | other (text : List Char)
  deriving DecidableEq

namespace MapLine

/-- The line as the map lists it, each gap `gᵢ` standing for `gᵢ + 1` blanks. -/
def text : MapLine → List Char
  | .dgroup a n g₁ g₂ => "DGROUP".toList ++ blanks g₁ ++ a.data ++ blanks g₂ ++ n.data
  | .segment name c grp a n g₁ g₂ g₃ g₄ =>
    name.data ++ blanks g₁ ++ c.data ++ blanks g₂ ++ grp.data ++ blanks g₃ ++ a.data ++
      blanks g₄ ++ n.data
  | .overlay n b => "Overlay section ".toList ++ n.data ++ " address ".toList ++ b.data ++ [':']
  | .symbol seg off mk g name => seg.data ++ ':' :: off.data ++ mk.toList ++ blanks g ++ name.data
  | .other l => l

def dgroupSize? : MapLine → Option Nat
  | .dgroup _ n _ _ => some (hexValue n.data)
  | _ => none

def segmentEntry? : MapLine → Option (String × Segment)
  | .segment name c grp a n _ _ _ _ => some (name, ⟨c, grp, a, hexValue n.data⟩)
  | _ => none

def symbolEntry? : MapLine → Option (String × SymbolInfo)
  | .symbol seg off _ _ name => some (name, ⟨seg, off⟩)
  | _ => none

def overlayBase? : MapLine → Option String
  | .overlay _ b => some b
  | _ => none

def segmentWrite (l : MapLine) (d : Dict Segment) : Dict Segment :=
  (l.segmentEntry?.map fun e => d.set e.1 e.2).getD d

def symbolWrite (l : MapLine) (d : Dict SymbolInfo) : Dict SymbolInfo :=
  (l.symbolEntry?.map fun e => d.set e.1 e.2).getD d

def overlayWrite (l : MapLine) (o : List String) : List String :=
  (l.overlayBase?.map fun b => o.insert (upper b)).getD o

end MapLine

def ignored (u : Unicode) (l : List Char) : Bool :=
  decide ('\n' ∉ l) && (finditer (segmentPattern u) l).isEmpty &&
    lineSafe (segmentPattern u) none l && (finditer symbolPattern l).isEmpty &&
    lineSafe symbolPattern none l && (finditer (overlayPattern u) l).isEmpty

/-- Each field holds text the scan that reads it admits. -/
def MapLine.wf (u : Unicode) : MapLine → Bool
  | .dgroup a n _ _ => hexAddress a.data && isRun isHex n.data
  | .segment name c grp a n _ _ _ _ =>
    isRun (isWord u) name.data && decide (c ∈ segmentClasses) && isRun (isWord u) grp.data &&
      hexAddress a.data && isRun isHex n.data
  | .overlay n b => isRun Char.isDigit n.data && isRun isHex b.data
  | .symbol seg off mk _ name =>
    isRun isHex seg.data && isRun isHex off.data && mk.all (fun c => c == '*' || c == '+') &&
      isRun (fun c => !isSpace c) name.data
  | .other l => ignored u l

section Fields
variable {u : Unicode}

theorem ignored_spec {l : List Char} (h : ignored u l) :
    '\n' ∉ l ∧ finditer (segmentPattern u) l = [] ∧ lineSafe (segmentPattern u) none l ∧
      finditer symbolPattern l = [] ∧ lineSafe symbolPattern none l ∧
      finditer (overlayPattern u) l = [] := by
  simp only [ignored, Bool.and_eq_true, decide_eq_true_eq, List.isEmpty_iff] at h
  obtain ⟨⟨⟨⟨⟨h₁, h₂⟩, h₃⟩, h₄⟩, h₅⟩, h₆⟩ := h
  exact ⟨h₁, h₂, h₃, h₄, h₅, h₆⟩

theorem dgroup_fields {a n : String} {g₁ g₂ : Nat} (h : (MapLine.dgroup a n g₁ g₂).wf u) :
    (∃ seg off, a.data = seg ++ ':' :: off ∧ Run isHex seg ∧ Run isHex off) ∧
      Run isHex n.data := by
  simp only [MapLine.wf, Bool.and_eq_true] at h
  exact ⟨hexAddress_split h.1, run_of_isRun h.2⟩

theorem segment_fields {name c grp a n : String} {g₁ g₂ g₃ g₄ : Nat}
    (h : (MapLine.segment name c grp a n g₁ g₂ g₃ g₄).wf u) :
    Run (isWord u) name.data ∧ c ∈ segmentClasses ∧ Run (isWord u) grp.data ∧
      (∃ seg off, a.data = seg ++ ':' :: off ∧ Run isHex seg ∧ Run isHex off) ∧
      Run isHex n.data := by
  simp only [MapLine.wf, Bool.and_eq_true, decide_eq_true_eq] at h
  exact ⟨run_of_isRun h.1.1.1.1, h.1.1.1.2, run_of_isRun h.1.1.2, hexAddress_split h.1.2,
    run_of_isRun h.2⟩

theorem overlay_fields {n b : String} (h : (MapLine.overlay n b).wf u) :
    Run (isDigit u) n.data ∧ Run isHex b.data := by
  simp only [MapLine.wf, Bool.and_eq_true] at h
  obtain ⟨hn, hb⟩ := run_of_isRun h.1
  exact ⟨⟨hn, fun c hc => isDigit_of_isDigit u (hb c hc)⟩, run_of_isRun h.2⟩

theorem symbol_fields {seg off name : String} {mk : Option Char} {g : Nat}
    (h : (MapLine.symbol seg off mk g name).wf u) :
    Run isHex seg.data ∧ Run isHex off.data ∧
      (mk.toList = [] ∨ mk.toList = ['*'] ∨ mk.toList = ['+']) ∧
      Run (fun c => !isSpace c) name.data := by
  simp only [MapLine.wf, Bool.and_eq_true] at h
  obtain ⟨⟨⟨hseg, hoff⟩, hmk⟩, hname⟩ := h
  refine ⟨run_of_isRun hseg, run_of_isRun hoff, ?_, run_of_isRun hname⟩
  rcases mk with _ | c
  · exact .inl rfl
  · simp only [Option.all_some, Bool.or_eq_true, beq_iff_eq] at hmk
    rcases hmk with rfl | rfl
    · exact .inr (.inl rfl)
    · exact .inr (.inr rfl)

end Fields

theorem not_mem_of_forall {c : Char → Bool} {x : Char} {w : List Char} (hx : c x = false)
    (h : ∀ y ∈ w, c y) : x ∉ w := fun hm => by simpa [hx] using h x hm

theorem newline_not_mem_hex {w : List Char} (h : Run isHex w) : '\n' ∉ w :=
  not_mem_of_forall rfl h.2

theorem newline_not_mem_text {u : Unicode} {l : MapLine} (h : l.wf u) : '\n' ∉ l.text := by
  have hw : isWord u '\n' = false := rfl
  have hb := not_mem_blanks (by decide : '\n' ≠ ' ')
  cases l with
  | dgroup a n g₁ g₂ =>
    obtain ⟨⟨seg, off, ha, hseg, hoff⟩, hn⟩ := dgroup_fields h
    simp [MapLine.text, ha, hb, newline_not_mem_hex hseg, newline_not_mem_hex hoff,
      newline_not_mem_hex hn]
  | segment name c grp a n g₁ g₂ g₃ g₄ =>
    obtain ⟨hname, hcls, hgrp, ⟨seg, off, ha, hseg, hoff⟩, hn⟩ := segment_fields h
    have hc : '\n' ∉ c.data := by
      revert hcls; generalize c = c; revert c; decide
    simp [MapLine.text, ha, hb, not_mem_of_forall hw hname.2, hc, not_mem_of_forall hw hgrp.2,
      newline_not_mem_hex hseg, newline_not_mem_hex hoff, newline_not_mem_hex hn]
  | overlay n b =>
    obtain ⟨hn, hb'⟩ := overlay_fields h
    simp [MapLine.text, not_mem_of_forall (rfl : isDigit u '\n' = false) hn.2,
      newline_not_mem_hex hb']
  | symbol seg off mk g name =>
    obtain ⟨hseg, hoff, hmk, hname⟩ := symbol_fields h
    have hm : '\n' ∉ mk.toList := by rcases hmk with h | h | h <;> simp [h]
    simp [MapLine.text, hb, hm, newline_not_mem_hex hseg, newline_not_mem_hex hoff,
      not_mem_of_forall (rfl : (!isSpace '\n') = false) hname.2]
  | other l => exact (ignored_spec h).1

@[simp] theorem lineSafe_bol_none (ps : List Atom) (l : List Char) :
    lineSafe (.bol :: ps) none l = lineSafe ps none l := by
  simp [lineSafe, Atom.stepLocal, Atom.steps, lineStart, advance]

section SegmentScan

theorem alt_steps_blank {prev : Option Char} {x : Char} (hx : isSpace x) (s : List Char) :
    (Atom.alt (segmentClasses.map String.toList)).steps prev (x :: s) = [] := by
  have hs : ∀ t ∈ segmentClasses.map String.toList, t.head?.all (fun y => !isSpace y) ∧ t ≠ [] :=
    by decide
  simp only [Atom.steps, List.filterMap_eq_nil_iff, ite_eq_right_iff, reduceCtorEq, imp_false,
    Bool.not_eq_true]
  intro t ht
  obtain ⟨hy, hne⟩ := hs t ht
  obtain ⟨y, t, rfl⟩ := List.exists_cons_of_ne_nil hne
  have hxy : y ≠ x := by rintro rfl; simp_all
  simp [List.isPrefixOf, hxy]

theorem guarded_blank_class (ps : List Atom) :
    Guarded isSpace (.lpar :: .alt (segmentClasses.map String.toList) :: ps) := by
  intro prev x s hx
  rw [matchAt_mark, matchAt, alt_steps_blank hx]
  rfl

theorem alt_steps_class {prev : Option Char} {cls : String} (hc : cls ∈ segmentClasses)
    {s : List Char} (hs : s ≠ []) :
    (Atom.alt (segmentClasses.map String.toList)).steps prev (cls.data ++ s) = [(cls.data, s)] := by
  obtain ⟨x, z, rfl⟩ := List.exists_cons_of_ne_nil hs
  simp only [segmentClasses, List.mem_cons, List.mem_singleton, List.not_mem_nil,
    or_false] at hc
  rcases hc with rfl | rfl | rfl | rfl | rfl | rfl | rfl | rfl | rfl <;> rfl

theorem matchAt_class {ps : List Atom} {prev : Option Char} {cls : String}
    {s r : List Char} {ts : List (List Char)} (hc : cls ∈ segmentClasses) (hs : s ≠ [])
    (hm : matchAt ps (advance prev cls.data) s = some (ts, r)) :
    matchAt (.alt (segmentClasses.map String.toList) :: ps) prev (cls.data ++ s) =
      some (cls.data :: ts, r) := by
  rw [matchAt, alt_steps_class hc hs, findSome?_singleton]
  simp [hm]

theorem lineSafe_class {ps : List Atom} {prev : Option Char} {cls : String}
    (hc : cls ∈ segmentClasses) {s : List Char} (hs : s ≠ []) :
    lineSafe (.alt (segmentClasses.map String.toList) :: ps) prev (cls.data ++ s) =
      lineSafe ps (advance prev cls.data) s := by
  have hloc : (Atom.alt (segmentClasses.map String.toList)).stepLocal (cls.data ++ s) := by
    simp only [Atom.stepLocal]
    decide
  rw [lineSafe, alt_steps_class hc hs]
  simp [hloc]

theorem ne_of_mem_classes {cls : String} (hc : cls ∈ segmentClasses) : cls.data ≠ [] := by
  revert hc; revert cls; decide

theorem ends_class {cls : String} (hc : cls ∈ segmentClasses) (t : List Char) :
    Ends isSpace (cls.data ++ t) := by
  have h : ∀ c ∈ segmentClasses, c.data.head?.all (fun y => !isSpace y) ∧ c.data ≠ [] := by
    decide
  obtain ⟨hy, hne⟩ := h cls hc
  obtain ⟨y, c, hyc⟩ := List.exists_cons_of_ne_nil hne
  simp_all [Ends]

theorem matchAt_plus_whole {c : Char → Bool} {ps : List Atom} {prev : Option Char}
    {w r : List Char} {ts : List (List Char)} (hw : Run c w)
    (hm : matchAt ps (advance prev w) [] = some (ts, r)) :
    matchAt (.plus c :: ps) prev w = some (w :: ts, r) := by
  simpa using matchAt_plus_longest hw (ends_nil c) hm

theorem lineSafe_alt_blank {ps : List Atom} {prev : Option Char} {x : Char} (hx : isSpace x)
    (r : List Char) :
    lineSafe (.lpar :: .alt (segmentClasses.map String.toList) :: ps) prev (x :: r) := by
  have hloc : (Atom.alt (segmentClasses.map String.toList)).stepLocal [] := by decide
  rw [lineSafe_mark, lineSafe, alt_steps_blank hx]
  simpa using hloc

theorem lineSafe_colon {ps : List Atom} {prev : Option Char} (s : List Char) :
    lineSafe (.lit [':'] :: ps) prev (':' :: s) = lineSafe ps (advance prev [':']) s := by
  simp [lineSafe, Atom.stepLocal, Atom.steps, List.isPrefixOf]

theorem lineSafe_colon_hex {ps : List Atom} {prev : Option Char} {x : Char} (hx : isHex x)
    (r : List Char) : lineSafe (.lit [':'] :: ps) prev (x :: r) := by
  have hxc : ':' ≠ x := by rintro rfl; simp [isHex] at hx
  simp [lineSafe, Atom.stepLocal, Atom.steps, List.isPrefixOf, hxc]

theorem ends_hex {w : List Char} (h : Run isHex w) : Ends isSpace w := by
  simpa using @ends_of_run isSpace isHex (fun _ => isSpace_of_isHex) _ [] h

theorem lineSafe_blanks {ps : List Atom} {prev : Option Char} {s : List Char} (g : Nat)
    (hs : s ≠ []) (he : Ends isSpace s) (h : lineSafe ps (advance prev (blanks g)) s)
    (hshort : ∀ t x r, isSpace x → lineSafe ps (advance prev t) (x :: r)) :
    lineSafe (.plus isSpace :: ps) prev (blanks g ++ s) := by
  obtain ⟨y, s, rfl⟩ := List.exists_cons_of_ne_nil hs
  exact lineSafe_plus_run (run_blanks g) he (by simp [he y rfl]) h hshort

theorem dropWhile_ascii_word {u : Unicode} {w t : List Char}
    (hw : ∀ x ∈ w, x.toNat < 128 ∧ (x.isAlphanum || x == '_') = true) (ht : Ends (isWord u) t) :
    (w ++ t).dropWhile (isWord u) = t :=
  (takeWhile_run_append (fun x hx => by rw [isWord_ascii u (hw x hx).1]; exact (hw x hx).2) ht).2

variable {u : Unicode} (hu : u.WordNotSpace)
include hu

theorem not_word_of_space {x : Char} (hx : isSpace x) : isWord u x = false :=
  Bool.eq_false_iff.mpr fun hw => by simp [hu x hw] at hx

theorem matchAt_segmentText {name c grp a n : String} {g₁ g₂ g₃ g₄ : Nat}
    (h : (MapLine.segment name c grp a n g₁ g₂ g₃ g₄).wf u) :
    ∃ ts, matchAt (segmentPattern u) none (MapLine.segment name c grp a n g₁ g₂ g₃ g₄).text =
        some (ts, []) ∧
      ∀ d, segmentEntry u d ts = (MapLine.segment name c grp a n g₁ g₂ g₃ g₄).segmentWrite d := by
  obtain ⟨hname, hcls, hgrp, ⟨seg, off, hsplit, hseg, hoff⟩, hn⟩ := segment_fields h
  refine ⟨[[], [], name.data, [], blanks g₁, [], c.data, [], blanks g₂, [], grp.data, [],
    blanks g₃, [], seg, [':'], off, [], blanks g₄, [], n.data, []], ?_, fun d => ?_⟩
  · simp only [MapLine.text, hsplit, List.append_assoc, List.cons_append, segmentPattern]
    refine matchAt_bol_eq_some.mpr ⟨rfl, _, ?_, rfl⟩
    refine matchAt_mark_eq_some.mpr ⟨_, ?_, rfl⟩
    refine matchAt_plus_longest hname (ends_blanks rfl _ _) ?_
    refine matchAt_mark_eq_some.mpr ⟨_, ?_, rfl⟩
    refine matchAt_plus_longest (run_blanks g₁) (ends_class hcls _) ?_
    refine matchAt_mark_eq_some.mpr ⟨_, ?_, rfl⟩
    refine matchAt_class hcls (blanks_append_ne_nil _ _) ?_
    refine matchAt_mark_eq_some.mpr ⟨_, ?_, rfl⟩
    refine matchAt_plus_longest (run_blanks g₂) (ends_of_run hu hgrp) ?_
    refine matchAt_mark_eq_some.mpr ⟨_, ?_, rfl⟩
    refine matchAt_plus_longest hgrp (ends_blanks rfl _ _) ?_
    refine matchAt_mark_eq_some.mpr ⟨_, ?_, rfl⟩
    refine matchAt_plus_longest (run_blanks g₃) (ends_of_run (fun _ => isSpace_of_isHex) hseg) ?_
    refine matchAt_mark_eq_some.mpr ⟨_, ?_, rfl⟩
    refine matchAt_plus_longest hseg (ends_cons rfl _) ?_
    refine matchAt_lit_eq_some.mpr ⟨_, _, rfl, ?_, rfl⟩
    refine matchAt_plus_longest hoff (ends_blanks rfl _ _) ?_
    refine matchAt_mark_eq_some.mpr ⟨_, ?_, rfl⟩
    refine matchAt_plus_longest (run_blanks g₄) (ends_hex hn) ?_
    refine matchAt_mark_eq_some.mpr ⟨_, ?_, rfl⟩
    exact matchAt_plus_whole hn rfl
  · have ha : ([] ++ seg ++ [':'] ++ off : List Char) = a.data := by simp [hsplit]
    show d.set ⟨[] ++ name.data⟩ ⟨⟨[] ++ c.data⟩, ⟨[] ++ grp.data⟩, ⟨[] ++ seg ++ [':'] ++ off⟩,
      hexValue ([] ++ n.data)⟩ = _
    rw [ha]
    rfl

theorem lineSafe_segmentText {name c grp a n : String} {g₁ g₂ g₃ g₄ : Nat}
    (h : (MapLine.segment name c grp a n g₁ g₂ g₃ g₄).wf u) :
    lineSafe (segmentPattern u) none (MapLine.segment name c grp a n g₁ g₂ g₃ g₄).text := by
  obtain ⟨hname, hcls, hgrp, ⟨seg, off, hsplit, hseg, hoff⟩, hn⟩ := segment_fields h
  have hw : isWord u '\n' = false := rfl
  have hx : isHex '\n' = false := rfl
  have hshort : ∀ {ps : List Atom} {c : Char → Bool}, (∀ x, c x → isSpace x = false) →
      ∀ (prev : Option Char) t x r, c x →
        lineSafe (.rpar :: .plus isSpace :: ps) (advance prev t) (x :: r) :=
    fun hc _ _ x _ hcx => by rw [lineSafe_mark]; exact lineSafe_plus_none (hc x hcx)
  have hgap : ∀ {ps : List Atom} {c : Char → Bool}, (∀ x, isSpace x → c x = false) →
      ∀ (prev : Option Char) t x r, isSpace x →
        lineSafe (.lpar :: .plus c :: ps) (advance prev t) (x :: r) :=
    fun hc _ _ x _ hx => by rw [lineSafe_mark]; exact lineSafe_plus_none (hc x hx)
  simp only [MapLine.text, hsplit, List.append_assoc, List.cons_append, segmentPattern]
  rw [lineSafe_bol_none, lineSafe_mark]
  refine lineSafe_plus_run hname (ends_blanks rfl _ _) (by simp [hw]) ?_ (hshort hu _)
  rw [lineSafe_mark]
  refine lineSafe_blanks g₁ (by simp [ne_of_mem_classes hcls]) (ends_class hcls _) ?_
    fun _ _ r hx => lineSafe_alt_blank hx r
  rw [lineSafe_mark, lineSafe_class hcls (blanks_append_ne_nil _ _), lineSafe_mark]
  refine lineSafe_blanks g₂ (by simp [hgrp.1]) (ends_of_run hu hgrp) ?_
    (hgap (fun _ => not_word_of_space hu) _)
  rw [lineSafe_mark]
  refine lineSafe_plus_run hgrp (ends_blanks rfl _ _) (by simp [hw]) ?_ (hshort hu _)
  rw [lineSafe_mark]
  refine lineSafe_blanks g₃ (by simp) (ends_of_run (fun _ => isSpace_of_isHex) hseg) ?_
    (hgap (fun _ => isHex_of_isSpace) _)
  rw [lineSafe_mark]
  refine lineSafe_plus_run hseg (ends_cons rfl _) (by simp [hx]) ?_
    fun _ _ _ hx => lineSafe_colon_hex hx _
  rw [lineSafe_colon]
  refine lineSafe_plus_run hoff (ends_blanks rfl _ _) (by simp [hx]) ?_
    (hshort (fun _ => isSpace_of_isHex) _)
  rw [lineSafe_mark]
  refine lineSafe_blanks g₄ hn.1 (ends_hex hn) ?_ (hgap (fun _ => isHex_of_isSpace) _)
  refine lineSafe_of_local ?_ _ _
  simp [Atom.stepLocal, hx]

/-- A line whose first word and blanks are not followed by a segment class is no segment
entry, and the segment scan leaves it at its end. -/
theorem segmentPattern_no_class {l : List Char}
    (hne : (l.dropWhile (isWord u)).dropWhile isSpace ≠ [])
    (hc : ∀ t ∈ segmentClasses,
      t.data.isPrefixOf ((l.dropWhile (isWord u)).dropWhile isSpace) = false) :
    lineSafe (segmentPattern u) none l ∧ matchAt (segmentPattern u) none l = none := by
  have hw : isWord u '\n' = false := rfl
  have hsp : isSpace '\n' = true := by decide
  have hloc : (Atom.alt (segmentClasses.map String.toList)).stepLocal [] := by decide
  have halt : ∀ prev, (Atom.alt (segmentClasses.map String.toList)).steps prev
      ((l.dropWhile (isWord u)).dropWhile isSpace) = [] := by
    intro prev
    simp only [Atom.steps, List.filterMap_eq_nil_iff, List.mem_map, ite_eq_right_iff,
      reduceCtorEq, imp_false, Bool.not_eq_true]
    rintro _ ⟨t, ht, rfl⟩
    exact hc t ht
  have hany : ((l.dropWhile (isWord u)).any fun x => !isSpace x) = true := by
    obtain ⟨y, r, hyr⟩ := List.exists_cons_of_ne_nil hne
    have hy : isSpace y = false := by
      have h := ends_dropWhile isSpace (l.dropWhile (isWord u))
      rw [hyr] at h
      exact h y rfl
    have hmem : y ∈ l.dropWhile (isWord u) :=
      (List.dropWhile_suffix isSpace).subset (hyr ▸ List.mem_cons_self y r)
    exact List.any_eq_true.mpr ⟨y, hmem, by simp [hy]⟩
  constructor
  · rw [segmentPattern, lineSafe_bol_none, lineSafe_mark, lineSafe_plus, hw, Bool.not_false,
      Bool.true_or, Bool.true_and]
    refine plusSteps_all (fun _ => ?_) fun t x r hx => ?_
    · rw [lineSafe_mark, lineSafe_plus, hsp, hany, Bool.or_true, Bool.true_and]
      refine plusSteps_all (fun _ => ?_) fun t x r hx => ?_
      · rw [lineSafe_mark, lineSafe, halt]
        simpa using hloc
      · exact lineSafe_alt_blank hx _
    · rw [lineSafe_mark]
      exact lineSafe_plus_none (hu x hx)
  · have hl : lineStart none = true := rfl
    rw [segmentPattern, matchAt_bol, if_pos hl, matchAt_mark,
      matchAt_plus (.inl (guarded_mark (guarded_plus hu))),
      matchAt_mark, matchAt_plus (.inl (guarded_blank_class _)), matchAt_mark, matchAt, halt]
    split_ifs <;> rfl

end SegmentScan

/-- A line whose leading hex digits are not followed by a colon is no symbol entry, and
the symbol scan leaves it at its end. -/
theorem symbolPattern_no_colon {l : List Char} (h : (l.dropWhile isHex).head? ≠ some ':') :
    lineSafe symbolPattern none l ∧ matchAt symbolPattern none l = none := by
  have hx : isHex '\n' = false := by decide
  have hcolon : ∀ {ps : List Atom} {prev : Option Char} {r : List Char}, r.head? ≠ some ':' →
      lineSafe (.rpar :: .lit [':'] :: ps) prev r := by
    intro ps prev r hr
    rw [lineSafe_mark]
    cases r with
    | nil => simp [lineSafe, Atom.stepLocal, Atom.steps, List.isPrefixOf]
    | cons y r =>
      have hy : ':' ≠ y := fun e => hr (by simp [← e])
      simp [lineSafe, Atom.stepLocal, Atom.steps, List.isPrefixOf, hy]
  constructor
  · rw [symbolPattern, lineSafe_bol_none, lineSafe_mark, lineSafe_plus, hx, Bool.not_false,
      Bool.true_or, Bool.true_and]
    refine plusSteps_all (fun _ => hcolon h) fun t x r hx' => hcolon ?_
    rintro ⟨⟩
    simp [isHex] at hx'
  · cases hm : matchAt symbolPattern none l with
    | none => rfl
    | some m =>
      obtain ⟨-, seg, off, mk, w, name, hl, hseg, -⟩ := matchAt_symbolPattern.mp hm
      have hd : ∀ t, (seg ++ ':' :: t).dropWhile isHex = ':' :: t := fun t =>
        (takeWhile_run_append hseg.2 (ends_cons rfl _)).2
      exact absurd (by simp only [hl, List.append_assoc, List.cons_append, hd, List.head?_cons]) h

section OverlayScan
variable {u : Unicode}

theorem overlayPattern_local : ∀ a ∈ overlayPattern u, ∀ l, a.stepLocal l := by
  intro a ha l
  simp only [overlayPattern, List.mem_cons, List.mem_singleton, List.not_mem_nil,
    or_false] at ha
  rcases ha with rfl | rfl | rfl | rfl | rfl | rfl | rfl <;> rfl

theorem finditer_overlay_lines (ls : List (List Char)) :
    finditer (overlayPattern u) (['\n'].intercalate ls) =
      ls.flatMap (finditer (overlayPattern u)) :=
  finditer_intercalate overlayPattern_local (readsPrev_of_all rfl) (fun _ _ => rfl)
    (fun _ => rfl) ls

theorem overlay_match {prev : Option Char} {s r : List Char} {ts : List (List Char)}
    (h : matchAt (overlayPattern u) prev s = some (ts, r)) :
    ∃ d b, Run (isDigit u) d ∧ Run isHex b ∧
      s = "Overlay section ".toList ++ d ++ " address ".toList ++ b ++ [':'] ++ r := by
  obtain ⟨hf, hs⟩ := matchAt_sound h
  rcases hf with _ | ⟨h₁, _ | ⟨h₂, _ | ⟨h₃, _ | ⟨h₄, _ | ⟨h₅, _ | ⟨h₆, _ | ⟨h₇, _ | _⟩⟩⟩⟩⟩⟩⟩
  simp only [Atom.Accepts] at h₁ h₃ h₄ h₆ h₇
  subst h₁ h₃ h₄ h₆ h₇
  exact ⟨_, _, h₂, h₅, by simp [← hs]⟩

theorem finditer_overlay_nil {l : List Char}
    (h : ∀ d b, Run (isDigit u) d → Run isHex b →
      ¬ ("Overlay section ".toList ++ d ++ " address ".toList ++ b ++ [':']) <:+: l) :
    finditer (overlayPattern u) l = [] := by
  refine scan_eq_nil fun s hs prev => ?_
  cases hm : matchAt (overlayPattern u) prev s with
  | none => rfl
  | some m =>
    obtain ⟨d, b, hd, hb, he⟩ := overlay_match hm
    rw [he] at hs
    exact absurd ((List.prefix_append _ m.2).isInfix.trans hs.isInfix) (h d b hd hb)

/-- How often a character other than a blank is followed by a blank: the words of a line
that a blank ends. -/
def wordEnds : List Char → Nat
  | [] => 0
  | [_] => 0
  | x :: y :: r => (decide (x ≠ ' ' ∧ y = ' ')).toNat + wordEnds (y :: r)

theorem wordEnds_cons_cons (x y : Char) (r : List Char) :
    wordEnds (x :: y :: r) = (decide (x ≠ ' ' ∧ y = ' ')).toNat + wordEnds (y :: r) := rfl

theorem wordEnds_append_le : ∀ a b : List Char, wordEnds a + wordEnds b ≤ wordEnds (a ++ b)
  | [], b => by simp [wordEnds]
  | [_], [] => by simp [wordEnds]
  | [x], y :: r => by rw [List.singleton_append, wordEnds_cons_cons]; simp [wordEnds]
  | x :: y :: r, b => by
    have ih := wordEnds_append_le (y :: r) b
    rw [List.cons_append, List.cons_append, wordEnds_cons_cons, wordEnds_cons_cons,
      ← List.cons_append]
    omega

theorem wordEnds_le_of_infix {M l : List Char} (h : M <:+: l) : wordEnds M ≤ wordEnds l := by
  obtain ⟨s, t, rfl⟩ := h
  have h₁ := wordEnds_append_le s M
  have h₂ := wordEnds_append_le (s ++ M) t
  omega

theorem wordEnds_eq_zero : ∀ {w : List Char}, ' ' ∉ w → wordEnds w = 0
  | [], _ | [_], _ => rfl
  | x :: y :: r, h => by
    have hy : y ≠ ' ' := fun e => h (by simp [e])
    rw [wordEnds_cons_cons, wordEnds_eq_zero fun hr => h (List.mem_cons_of_mem _ hr)]
    simp [hy]

theorem wordEnds_blanks_append (g : Nat) (s : List Char) :
    wordEnds (blanks g ++ s) = wordEnds s := by
  have h : ∀ k, wordEnds (List.replicate k ' ' ++ s) = wordEnds s := fun k => by
    induction k with
    | zero => rfl
    | succ k ih =>
      rw [List.replicate_succ, List.cons_append, ← ih]
      cases hk : List.replicate k ' ' ++ s with
      | nil => rfl
      | cons y r => simp [wordEnds_cons_cons]
  exact h (g + 1)

theorem wordEnds_word_blanks : ∀ {w : List Char}, ' ' ∉ w → w ≠ [] → ∀ g s,
    wordEnds (w ++ (blanks g ++ s)) = wordEnds s + 1
  | [x], h, _, g, s => by
    have hx : x ≠ ' ' := fun e => h (by simp [e])
    have he : wordEnds ([x] ++ (blanks g ++ s)) =
        (decide (x ≠ ' ' ∧ ' ' = ' ')).toNat + wordEnds (blanks g ++ s) := rfl
    rw [he, wordEnds_blanks_append]
    simp [hx, Nat.add_comm]
  | x :: y :: r, h, _, g, s => by
    have hy : y ≠ ' ' := fun e => h (by simp [e])
    have he : wordEnds ((x :: y :: r) ++ (blanks g ++ s)) =
        (decide (x ≠ ' ' ∧ y = ' ')).toNat + wordEnds ((y :: r) ++ (blanks g ++ s)) := rfl
    rw [he, wordEnds_word_blanks (fun hr => h (List.mem_cons_of_mem _ hr)) (List.cons_ne_nil _ _)]
    simp [hy]

theorem wordEnds_marker {d b : List Char} (hd : Run (isDigit u) d) (hb : Run isHex b) :
    wordEnds ("Overlay section ".toList ++ d ++ " address ".toList ++ b ++ [':']) = 4 := by
  have e : "Overlay section ".toList ++ d ++ " address ".toList ++ b ++ [':'] =
      "Overlay".toList ++ (blanks 0 ++ ("section".toList ++ (blanks 0 ++ (d ++ (blanks 0 ++
        ("address".toList ++ (blanks 0 ++ (b ++ [':'])))))))) := by
    simp only [List.append_assoc]
    rfl
  have hd' : ' ' ∉ d := not_mem_of_forall rfl hd.2
  have hb' : ' ' ∉ b ++ [':'] := by simp [not_mem_of_forall (rfl : isHex ' ' = false) hb.2]
  rw [e, wordEnds_word_blanks (by decide) (by decide), wordEnds_word_blanks (by decide) (by decide),
    wordEnds_word_blanks hd' hd.1, wordEnds_word_blanks (by decide) (by decide),
    wordEnds_eq_zero hb']

theorem finditer_overlay_of_wordEnds {l : List Char} (h : wordEnds l < 4) :
    finditer (overlayPattern u) l = [] :=
  finditer_overlay_nil fun _ _ hd hb hi => by
    have := wordEnds_le_of_infix hi
    rw [wordEnds_marker hd hb] at this
    omega

theorem finditer_overlayText {n b : String} (h : (MapLine.overlay n b).wf u) :
    finditer (overlayPattern u) (MapLine.overlay n b).text =
      [["Overlay section ".toList, n.data, " address ".toList, [], b.data, [], [':']]] := by
  obtain ⟨hn, hb⟩ := overlay_fields h
  have hm : matchAt (overlayPattern u) none (MapLine.overlay n b).text =
      some (["Overlay section ".toList, n.data, " address ".toList, [], b.data, [], [':']],
        []) := by
    simp only [MapLine.text, List.append_assoc, overlayPattern]
    refine matchAt_lit_eq_some.mpr ⟨_, _, rfl, ?_, rfl⟩
    refine matchAt_plus_longest hn (ends_cons rfl _) ?_
    refine matchAt_lit_eq_some.mpr ⟨_, _, rfl, ?_, rfl⟩
    refine matchAt_mark_eq_some.mpr ⟨_, ?_, rfl⟩
    refine matchAt_plus_longest hb (ends_cons rfl _) ?_
    refine matchAt_mark_eq_some.mpr ⟨_, ?_, rfl⟩
    rfl
  obtain ⟨x, t, hxt⟩ : ∃ x t, (MapLine.overlay n b).text = x :: t := ⟨_, _, rfl⟩
  rw [hxt] at hm ⊢
  rw [finditer, scan, hm]
  simpa using scan_skip_all (fun _ => rfl : ∀ prev, matchAt (overlayPattern u) prev [] = none)
    (some x) t

end OverlayScan

/-! ### What each scan reads from one line -/

theorem isPrefixOf_hex_colon {t : List Char} (ht : ':' ∉ t) (hh : ∃ x ∈ t, isHex x = false) :
    ∀ {seg : List Char}, (∀ x ∈ seg, isHex x) → ∀ z, t.isPrefixOf (seg ++ ':' :: z) = false := by
  induction t with
  | nil => simp at hh
  | cons y t ih =>
    intro seg hs z
    cases seg with
    | nil =>
      have hy : y ≠ ':' := fun e => ht (e ▸ List.mem_cons_self _ _)
      simp [List.isPrefixOf, hy]
    | cons x seg =>
      by_cases hyx : y = x
      · subst hyx
        have hy := hs y (List.mem_cons_self _ _)
        obtain ⟨w, hw, hwx⟩ := hh
        have hh' : ∃ x ∈ t, isHex x = false := by
          rcases List.mem_cons.mp hw with rfl | hw
          · simp [hy] at hwx
          · exact ⟨w, hw, hwx⟩
        simpa [List.isPrefixOf] using
          ih (fun h => ht (List.mem_cons_of_mem _ h)) hh' (fun x hx => hs x (.tail _ hx)) z
      · simp [List.isPrefixOf, hyx]

theorem classes_not_hex_colon :
    ∀ t ∈ segmentClasses, ':' ∉ t.data ∧ ∃ x ∈ t.data, isHex x = false := by
  decide

theorem head_dropWhile_append_ne {p : Char → Bool} {w t : List Char} {x : Char} (hw : x ∉ w)
    (ht : (t.dropWhile p).head? ≠ some x) : ((w ++ t).dropWhile p).head? ≠ some x := by
  rw [List.dropWhile_append]
  split
  · exact ht
  · next hne =>
    obtain ⟨y, r, hyr⟩ :=
      List.exists_cons_of_ne_nil (show w.dropWhile p ≠ [] from fun e => hne (by simp [e]))
    rw [hyr, List.cons_append, List.head?_cons]
    rintro ⟨⟩
    exact hw ((List.dropWhile_suffix p).subset (hyr ▸ List.mem_cons_self _ r))

theorem infix_of_getLast_not_mem {M A B : List Char} {x : Char} (hM : M.getLast? = some x)
    (hx : x ∉ B) (h : M <:+: A ++ B) : M <:+: A := by
  obtain ⟨s, t, e⟩ := h
  rcases List.append_eq_append_iff.mp e with ⟨a', rfl, -⟩ | ⟨c', e', rfl⟩
  · exact ⟨s, a', rfl⟩
  · rcases List.eq_nil_or_concat c' with rfl | ⟨L, y, rfl⟩
    · exact ⟨s, [], by simpa using e'⟩
    · have hl := congrArg List.getLast? e'
      simp only [List.getLast?_append, hM, List.concat_eq_append, List.getLast?_singleton,
        Option.or_some, Option.some_inj] at hl
      exact absurd (by simp [hl]) hx

theorem classes_isPrefixOf_cons {x : Char} (hx : ∀ t ∈ segmentClasses, t.data.head? ≠ some x)
    (z : List Char) : ∀ t ∈ segmentClasses, t.data.isPrefixOf (x :: z) = false := by
  intro t ht
  obtain ⟨y, w, hyw⟩ := List.exists_cons_of_ne_nil (ne_of_mem_classes ht)
  have hy : y ≠ x := fun e => hx t ht (by simp [hyw, e])
  simp [hyw, List.isPrefixOf, hy]

theorem finditer_segmentPattern {u : Unicode} {l : List Char} (hnl : '\n' ∉ l) :
    finditer (segmentPattern u) l = ((matchAt (segmentPattern u) none l).map Prod.fst).toList :=
  finditer_line hnl

theorem finditer_symbolPattern {l : List Char} (hnl : '\n' ∉ l) :
    finditer symbolPattern l = ((matchAt symbolPattern none l).map Prod.fst).toList :=
  finditer_line hnl

theorem symbolScan_none {l : List Char} (hnl : '\n' ∉ l)
    (h : (l.dropWhile isHex).head? ≠ some ':') :
    lineSafe symbolPattern none l ∧ ∀ d, (finditer symbolPattern l).foldl symbolEntry d = d := by
  obtain ⟨hs, hm⟩ := symbolPattern_no_colon h
  exact ⟨hs, fun d => by rw [finditer_symbolPattern hnl, hm]; rfl⟩

theorem symbolScan_symbol {u : Unicode} {seg off name : String} {mk : Option Char} {g : Nat}
    (h : (MapLine.symbol seg off mk g name).wf u) :
    lineSafe symbolPattern none (MapLine.symbol seg off mk g name).text ∧
      ∀ d, (finditer symbolPattern (MapLine.symbol seg off mk g name).text).foldl symbolEntry d =
        (MapLine.symbol seg off mk g name).symbolWrite d := by
  obtain ⟨hseg, hoff, hmk, hname⟩ := symbol_fields h
  have htext : (MapLine.symbol seg off mk g name).text =
      seg.data ++ ':' :: off.data ++ mk.toList ++ (blanks g ++ name.data) := by
    simp [MapLine.text]
  have hm : matchAt symbolPattern none (MapLine.symbol seg off mk g name).text =
      some ([[], [], seg.data, [], [':'], [], off.data, [], mk.toList, blanks g, [], name.data, []],
        []) :=
    matchAt_symbolPattern.mpr ⟨rfl, _, _, _, _, _, by simp [MapLine.text], hseg, hoff, hmk,
      run_blanks g, hname, ends_nil _, rfl⟩
  refine ⟨lineSafe_symbolPattern ?_, fun d => ?_⟩
  · rw [htext, truncatedSymbolLine_eq hseg hoff hmk fun x hx => by cases hx; rfl]
    obtain ⟨y, hy⟩ := List.exists_mem_of_ne_nil _ hname.1
    have hy' : isSpace y = false := by simpa using hname.2 y hy
    exact Bool.eq_false_iff.mpr fun hall => by
      simp [List.all_eq_true.mp hall y (List.mem_append_right _ hy)] at hy'
  · rw [finditer_symbolPattern (newline_not_mem_text h), hm]
    rfl

/-- The symbol scan reads one line as the entry it holds, if it is a symbol line, and
leaves the line at its end. -/
theorem symbolScan_text {u : Unicode} {l : MapLine} (h : l.wf u) :
    lineSafe symbolPattern none l.text ∧
      ∀ d, (finditer symbolPattern l.text).foldl symbolEntry d = l.symbolWrite d := by
  have hnl := newline_not_mem_text h
  cases l with
  | dgroup => exact symbolScan_none hnl fun e => absurd (Option.some_inj.mp e) (by decide)
  | segment name =>
    refine symbolScan_none hnl ?_
    simp only [MapLine.text, List.append_assoc]
    exact head_dropWhile_append_ne (not_mem_of_forall rfl (segment_fields h).1.2)
      fun e => absurd (Option.some_inj.mp e) (by decide)
  | overlay => exact symbolScan_none hnl fun e => absurd (Option.some_inj.mp e) (by decide)
  | symbol => exact symbolScan_symbol h
  | other l =>
    obtain ⟨-, -, -, hf, hs, -⟩ := ignored_spec h
    exact ⟨hs, fun d => by rw [MapLine.text, hf]; rfl⟩

theorem finditer_overlay_segmentText {u : Unicode} {name c grp a n : String}
    {g₁ g₂ g₃ g₄ : Nat} (h : (MapLine.segment name c grp a n g₁ g₂ g₃ g₄).wf u) :
    finditer (overlayPattern u) (MapLine.segment name c grp a n g₁ g₂ g₃ g₄).text = [] := by
  obtain ⟨hname, hcls, hgrp, ⟨seg, off, hsplit, hseg, hoff⟩, hn⟩ := segment_fields h
  have hw : isWord u ' ' = false := rfl
  have hx : isHex ':' = false := rfl
  have hc : ' ' ∉ c.data ∧ c.data ≠ [] := by
    revert hcls; generalize c = c; revert c; decide
  have htext : (MapLine.segment name c grp a n g₁ g₂ g₃ g₄).text =
      (name.data ++ (blanks g₁ ++ (c.data ++ (blanks g₂ ++ (grp.data ++ (blanks g₃ ++
        (seg ++ [':']))))))) ++ (off ++ (blanks g₄ ++ n.data)) := by
    simp [MapLine.text, hsplit]
  have hA : wordEnds (name.data ++ (blanks g₁ ++ (c.data ++ (blanks g₂ ++ (grp.data ++
      (blanks g₃ ++ (seg ++ [':']))))))) = 3 := by
    rw [wordEnds_word_blanks (not_mem_of_forall hw hname.2) hname.1,
      wordEnds_word_blanks hc.1 hc.2, wordEnds_word_blanks (not_mem_of_forall hw hgrp.2) hgrp.1,
      wordEnds_eq_zero (by simp [not_mem_of_forall (rfl : isHex ' ' = false) hseg.2])]
  have hB : ':' ∉ off ++ (blanks g₄ ++ n.data) := by
    simp [not_mem_of_forall hx hoff.2, not_mem_blanks (by decide : ':' ≠ ' '),
      not_mem_of_forall hx hn.2]
  refine finditer_overlay_nil fun d b hd hb hi => ?_
  have hl : ("Overlay section ".toList ++ d ++ " address ".toList ++ b ++ [':']).getLast? =
      some ':' := by
    rw [List.getLast?_append]
    rfl
  have := wordEnds_le_of_infix (infix_of_getLast_not_mem hl hB (htext ▸ hi))
  rw [wordEnds_marker hd hb, hA] at this
  omega

theorem overlayScan_text {u : Unicode} {l : MapLine} (h : l.wf u) (o : List String) :
    (finditer (overlayPattern u) l.text).foldl (overlayEntry u) o = l.overlayWrite o := by
  have hx : isHex ' ' = false := rfl
  cases l with
  | dgroup a n g₁ g₂ =>
    obtain ⟨⟨seg, off, ha, hseg, hoff⟩, hn⟩ := dgroup_fields h
    have htext : (MapLine.dgroup a n g₁ g₂).text =
        "DGROUP".toList ++ (blanks g₁ ++ ((seg ++ ':' :: off) ++ (blanks g₂ ++ n.data))) := by
      simp [MapLine.text, ha]
    rw [finditer_overlay_of_wordEnds]
    · rfl
    rw [htext, wordEnds_word_blanks (by decide) (by decide),
      wordEnds_word_blanks (by simp [not_mem_of_forall hx hseg.2, not_mem_of_forall hx hoff.2])
        (by simp), wordEnds_eq_zero (not_mem_of_forall hx hn.2)]
    decide
  | segment =>
    rw [finditer_overlay_segmentText h]
    rfl
  | overlay =>
    rw [finditer_overlayText h]
    rfl
  | symbol seg off mk g name =>
    obtain ⟨hseg, hoff, hmk, hname⟩ := symbol_fields h
    have htext : (MapLine.symbol seg off mk g name).text =
        (seg.data ++ ':' :: off.data ++ mk.toList) ++ (blanks g ++ name.data) := by
      simp [MapLine.text]
    have hm : ' ' ∉ mk.toList := by rcases hmk with h | h | h <;> simp [h]
    rw [finditer_overlay_of_wordEnds]
    · rfl
    rw [htext, wordEnds_word_blanks (by simp [not_mem_of_forall hx hseg.2,
        not_mem_of_forall hx hoff.2, hm]) (by simp),
      wordEnds_eq_zero (not_mem_of_forall (rfl : (!isSpace ' ') = false) hname.2)]
    decide
  | other l =>
    rw [MapLine.text, (ignored_spec h).2.2.2.2.2]
    rfl

section LineScans
variable {u : Unicode} (hu : u.WordNotSpace)
include hu

theorem segmentScan_none {l r : List Char} (hnl : '\n' ∉ l)
    (hr : (l.dropWhile (isWord u)).dropWhile isSpace = r) (hne : r ≠ [])
    (hc : ∀ t ∈ segmentClasses, t.data.isPrefixOf r = false) :
    lineSafe (segmentPattern u) none l ∧
      ∀ d, (finditer (segmentPattern u) l).foldl (segmentEntry u) d = d := by
  subst hr
  obtain ⟨hs, hm⟩ := segmentPattern_no_class hu hne hc
  exact ⟨hs, fun d => by rw [finditer_segmentPattern hnl, hm]; rfl⟩

/-- The segment scan reads one line as the entry it holds, if it is a segment line, and
leaves the line at its end. -/
theorem segmentScan_text {l : MapLine} (h : l.wf u) :
    lineSafe (segmentPattern u) none l.text ∧
      ∀ d, (finditer (segmentPattern u) l.text).foldl (segmentEntry u) d = l.segmentWrite d := by
  have hnl := newline_not_mem_text h
  cases l with
  | dgroup a n g₁ g₂ =>
    obtain ⟨⟨seg, off, ha, hseg, -⟩, -⟩ := dgroup_fields h
    have hr : (((MapLine.dgroup a n g₁ g₂).text.dropWhile (isWord u)).dropWhile isSpace) =
        seg ++ ':' :: (off ++ (blanks g₂ ++ n.data)) := by
      simp only [MapLine.text, ha, List.append_assoc, List.cons_append]
      rw [dropWhile_ascii_word (by decide) (ends_blanks rfl _ _),
        (takeWhile_run_append (run_blanks g₁).2 (ends_of_run (fun _ => isSpace_of_isHex) hseg)).2]
    refine segmentScan_none hu hnl hr (by simp) fun t ht => ?_
    obtain ⟨hc, hx⟩ := classes_not_hex_colon t ht
    exact isPrefixOf_hex_colon hc hx hseg.2 _
  | segment =>
    obtain ⟨ts, hm, he⟩ := matchAt_segmentText hu h
    refine ⟨lineSafe_segmentText hu h, fun d => ?_⟩
    rw [finditer_segmentPattern hnl, hm]
    exact he d
  | overlay n b =>
    have hr : (((MapLine.overlay n b).text.dropWhile (isWord u)).dropWhile isSpace) =
        "section ".toList ++ (n.data ++ " address ".toList ++ b.data ++ [':']) := by
      simp only [MapLine.text, List.append_assoc]
      rfl
    exact segmentScan_none hu hnl hr (by simp) (classes_isPrefixOf_cons (by decide) _)
  | symbol seg off mk g name =>
    obtain ⟨hseg, -⟩ := symbol_fields h
    have hr : (((MapLine.symbol seg off mk g name).text.dropWhile (isWord u)).dropWhile
        isSpace) = ':' :: (off.data ++ mk.toList ++ blanks g ++ name.data) := by
      simp only [MapLine.text, List.append_assoc, List.cons_append]
      rw [(takeWhile_run_append (fun x hx => isWord_of_isHex u (hseg.2 x hx))
        (ends_cons rfl _)).2]
      rfl
    exact segmentScan_none hu hnl hr (by simp) (classes_isPrefixOf_cons (by decide) _)
  | other l =>
    obtain ⟨-, hf, hs, -⟩ := ignored_spec h
    exact ⟨hs, fun d => by rw [MapLine.text, hf]; rfl⟩

end LineScans

end VerifyMap
