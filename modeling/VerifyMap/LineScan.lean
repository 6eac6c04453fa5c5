import VerifyMap.Tables
import VerifyMap.Lines

/-! The segment and symbol scans are meant to read one line at a time: both
patterns are anchored by `^` under `re.MULTILINE`. But `\s+` also matches a
newline, so a line cut short after its first fields runs on into the next one.
That is the only way the two readings part: when no line but the last lets a
pattern reach the line end inside a blank run, the whole-text scan finds each
line's entries on its own. For the symbol table that condition is
`truncatedSymbolLine`. -/
namespace VerifyMap
open Regex Python

/-- The tables read line by line: `T.split('\n')`, each line scanned on its own,
in order, a later entry replacing an earlier one of the same name. -/
def symbolTableByLines (T : List Char) : Dict SymbolInfo :=
  (T.splitOn '\n').foldl (fun d l => (finditer symbolPattern l).foldl symbolEntry d) .empty

def segmentTableByLines (u : Unicode) (T : List Char) : Dict Segment :=
  (T.splitOn '\n').foldl
    (fun d l => (finditer (segmentPattern u) l).foldl (segmentEntry u) d) .empty

/-- A symbol line cut short: a hex `seg:off`, perhaps a marker, then nothing but
blanks, so that the pattern's `\s+` runs on across the line end. -/
def truncatedSymbolLine (l : List Char) : Bool :=
  match l.dropWhile isHex with
  | ':' :: r =>
    let t := r.dropWhile isHex
    let t := if t.head?.any (fun c => c == '*' || c == '+') then t.tail else t
    decide (l.takeWhile isHex ≠ []) && decide (r.takeWhile isHex ≠ []) && t.all isSpace
  | _ => false

theorem truncatedSymbolLine_eq {seg off mk t : List Char} (hseg : Run isHex seg)
    (hoff : Run isHex off) (hmk : mk = [] ∨ mk = ['*'] ∨ mk = ['+'])
    (ht : ∀ x ∈ t.head?, isSpace x) :
    truncatedSymbolLine (seg ++ ':' :: off ++ mk ++ t) = t.all isSpace := by
  have hmkt : Ends isHex (mk ++ t) ∧
      (if (mk ++ t).head?.any (fun c => c == '*' || c == '+') then (mk ++ t).tail
        else mk ++ t) = t := by
    rcases hmk with rfl | rfl | rfl
    · cases t with
      | nil => simp [Ends]
      | cons x t =>
        have hx := ht x rfl
        simp [Ends, isHex_of_isSpace hx, space_not_marker x hx]
    all_goals simp [Ends]; decide
  obtain ⟨h₁, h₂⟩ := takeWhile_run_append hseg.2 (by simp [Ends]; decide :
    Ends isHex (':' :: (off ++ (mk ++ t))))
  obtain ⟨h₃, h₄⟩ := takeWhile_run_append hoff.2 hmkt.1
  simp only [List.append_assoc, List.cons_append]
  rw [truncatedSymbolLine, h₂]
  simp only [h₁, h₃, h₄, hmkt.2, hseg.1, hoff.1, ne_eq, not_false_eq_true, decide_True,
    Bool.true_and]

section SymbolLines

theorem lineSafe_symbolName (prev : Option Char) (r : List Char) :
    lineSafe [.lpar, .plus (fun c => !isSpace c), .rpar] prev r := by
  have h : isSpace '\n' = true := by decide
  simp [lineSafe, Atom.stepLocal, Atom.steps, h]

theorem lineSafe_symbolBlanks {prev : Option Char} {r : List Char}
    (h : ∃ x ∈ r, isSpace x = false) :
    lineSafe (.plus isSpace :: [.lpar, .plus (fun c => !isSpace c), .rpar]) prev r := by
  have hany : (r.any fun x => !isSpace x) = true := by simpa using h
  rw [lineSafe, Atom.stepLocal, hany, Bool.or_true, Bool.true_and, List.all_eq_true]
  exact fun _ _ => lineSafe_symbolName _ _

theorem lineSafe_symbolMarker {prev : Option Char} {r : List Char}
    (h : ∃ x ∈ (if r.head?.any (fun c => c == '*' || c == '+') then r.tail else r),
      isSpace x = false) :
    lineSafe (.opt (fun c => c == '*' || c == '+') :: .plus isSpace ::
      [.lpar, .plus (fun c => !isSpace c), .rpar]) prev r := by
  cases r with
  | nil => simp at h
  | cons y r =>
    have hm : ('\n' == '*' || '\n' == '+') = false := by decide
    rw [lineSafe]
    by_cases hy : (y == '*' || y == '+')
    · simp only [List.head?_cons, Option.any_some, hy, ↓reduceIte, List.tail_cons] at h
      simp only [Atom.stepLocal, Atom.steps, hm, hy, ↓reduceIte, List.all_cons, List.all_nil,
        Bool.not_false, Bool.true_or, Bool.true_and, Bool.and_true, Bool.and_eq_true]
      exact ⟨lineSafe_symbolBlanks h,
        lineSafe_symbolBlanks ⟨y, List.mem_cons_self _ _, marker_not_space y hy⟩⟩
    · simp only [List.head?_cons, Option.any_some, hy, Bool.false_eq_true, ↓reduceIte] at h
      simp only [Atom.stepLocal, Atom.steps, hm, hy, Bool.false_eq_true, ↓reduceIte,
        List.all_cons, List.all_nil, Bool.not_false, Bool.true_or, Bool.true_and, Bool.and_true]
      exact lineSafe_symbolBlanks h

theorem lineSafe_symbolOffset {prev : Option Char} {r : List Char}
    (h : r.takeWhile isHex ≠ [] →
      ∃ x ∈ (if (r.dropWhile isHex).head?.any (fun c => c == '*' || c == '+')
        then (r.dropWhile isHex).tail else r.dropWhile isHex), isSpace x = false) :
    lineSafe (.lpar :: .plus isHex :: .rpar :: .opt (fun c => c == '*' || c == '+') ::
      .plus isSpace :: [.lpar, .plus (fun c => !isSpace c), .rpar]) prev r := by
  have hhex : isHex '\n' = false := by decide
  rw [lineSafe_mark, lineSafe_plus, hhex, Bool.not_false, Bool.true_or, Bool.true_and]
  refine plusSteps_all (fun hne => ?_) fun t x r hx => ?_
  · rw [lineSafe_mark]
    exact lineSafe_symbolMarker (h hne)
  · rw [lineSafe_mark]
    exact lineSafe_symbolMarker ⟨x, by simp [hex_not_marker x hx], isSpace_of_isHex hx⟩

theorem lineSafe_symbolPattern {l : List Char} (h : truncatedSymbolLine l = false) :
    lineSafe symbolPattern none l := by
  have hhex : isHex '\n' = false := by decide
  have hcolon : decide ('\n' ∉ [':']) = true := by decide
  rw [symbolPattern, lineSafe]
  simp only [Atom.stepLocal, Atom.steps, lineStart, ↓reduceIte, List.all_cons, List.all_nil,
    Bool.and_true, Bool.true_and, advance, List.getLast?_nil, Option.or_none, lineSafe_mark,
    lineSafe_plus, hhex, Bool.not_false, Bool.true_or]
  refine plusSteps_all (fun hne => ?_) fun t x r hx => ?_
  · rw [lineSafe, Atom.stepLocal, hcolon, Bool.true_and]
    rw [truncatedSymbolLine] at h
    split at h
    · next r heq =>
      simp only [heq, Atom.steps, List.isPrefixOf, beq_self_eq_true, Bool.true_and, ↓reduceIte,
        List.all_cons, List.all_nil, Bool.and_true, List.length_singleton, List.drop_one,
        List.tail_cons]
      refine lineSafe_symbolOffset fun hne' => ?_
      simp only [ne_eq, hne, not_false_eq_true, decide_True, hne', Bool.true_and] at h
      obtain ⟨x, hx, hxs⟩ := List.all_eq_false.mp h
      exact ⟨x, hx, by simpa using hxs⟩
    · next hd =>
      have hpre : ([':'] : List Char).isPrefixOf (l.dropWhile isHex) = false := by
        cases hdl : l.dropWhile isHex with
        | nil => rfl
        | cons y r =>
          have hy : ':' ≠ y := fun hy => hd r (hdl ▸ hy ▸ rfl)
          simp [List.isPrefixOf, hy]
      simp [Atom.steps, hpre]
  · rw [lineSafe, Atom.stepLocal, hcolon, Bool.true_and]
    have hx' : x ≠ ':' := by rintro rfl; simp [isHex] at hx
    simp [Atom.steps, List.isPrefixOf, hx'.symm]

theorem symbolPattern_tail : ∀ a ∈ symbolPattern.tail, a.readsPrev = false :=
  readsPrev_of_all rfl

/-- When no line but the last is a symbol line cut short, scanning the whole text
finds the symbols of each line on its own, in order. -/
theorem finditer_symbolPattern_lines (T : List Char)
    (htr : ∀ l ∈ (T.splitOn '\n').dropLast, truncatedSymbolLine l = false) :
    finditer symbolPattern T = (T.splitOn '\n').flatMap (finditer symbolPattern) :=
  finditer_lines symbolPattern_tail T fun l hl => lineSafe_symbolPattern (htr l hl)

/-- Then the symbol table `parse` builds is the one read line by line. -/
theorem load_symbols_eq_byLines (u : Unicode) (mapFile buildMode : String) (T : List Char)
    (htr : ∀ l ∈ (T.splitOn '\n').dropLast, truncatedSymbolLine l = false) :
    (load u mapFile buildMode T).symbols = symbolTableByLines T := by
  rw [show (load u mapFile buildMode T).symbols =
      (finditer symbolPattern T).foldl symbolEntry .empty from rfl,
    finditer_symbolPattern_lines T htr, List.flatMap, List.foldl_flatten, List.foldl_map]
  rfl

theorem load_symbols_eq_byLines_two_lines :
    (∀ l ∈ ("0000:1234 foo\n0000:5678 bar".toList.splitOn '\n').dropLast,
        truncatedSymbolLine l = false) ∧
      (load ⟨Char.isAlphanum, Char.isDigit⟩ "3cpd.map" "debug"
          "0000:1234 foo\n0000:5678 bar".toList).symbols =
        symbolTableByLines "0000:1234 foo\n0000:5678 bar".toList :=
  ⟨by decide, load_symbols_eq_byLines _ _ _ _ (by decide)⟩

end SymbolLines

section RoundTrip

variable {e : String × SymbolInfo} (h : SymbolWF e.1 e.2)
include h

end RoundTrip

/-- When no line but the last is unsafe for the segment pattern, the segment table
`parse` builds is the one read line by line. -/
theorem load_segments_eq_byLines (u : Unicode) (mapFile buildMode : String) (T : List Char)
    (hs : ∀ l ∈ (T.splitOn '\n').dropLast, lineSafe (segmentPattern u) none l) :
    (load u mapFile buildMode T).segments = segmentTableByLines u T := by
  have hq : ∀ a ∈ (segmentPattern u).tail, a.readsPrev = false := readsPrev_of_all rfl
  have hf :
      finditer (segmentPattern u) T = (T.splitOn '\n').flatMap (finditer (segmentPattern u)) :=
    finditer_lines hq T hs
  rw [show (load u mapFile buildMode T).segments =
      (finditer (segmentPattern u) T).foldl (segmentEntry u) .empty from rfl,
    hf, List.flatMap, List.foldl_flatten, List.foldl_map]
  rfl

theorem load_segments_eq_byLines_two_lines :
    (∀ l ∈ ("_TEXT CODE AUTO 0000:0000 10\n_DATA DATA DGROUP 0a2b:0000 20".toList.splitOn
          '\n').dropLast,
        lineSafe (segmentPattern ⟨Char.isAlphanum, Char.isDigit⟩) none l) ∧
      (load ⟨Char.isAlphanum, Char.isDigit⟩ "3cpd.map" "debug"
          "_TEXT CODE AUTO 0000:0000 10\n_DATA DATA DGROUP 0a2b:0000 20".toList).segments =
        segmentTableByLines ⟨Char.isAlphanum, Char.isDigit⟩
          "_TEXT CODE AUTO 0000:0000 10\n_DATA DATA DGROUP 0a2b:0000 20".toList :=
  ⟨by decide, load_segments_eq_byLines _ _ _ _ (by decide)⟩

/-- A line that matches neither pattern alone can swallow the next line. An address
with no name: scanning the text gives one entry named `0000:5678` at `0000:1234`,
while line by line the table holds `foo` at `0000:5678`, as without that line. A
segment name alone on its line: it takes the next line's fields, which form no
entry on their own line. -/
theorem address_line_swallows_next :
    finditer symbolPattern "0000:1234".toList = [] ∧
      ({ MapVerifier.init "3cpd.map" "debug" with
          content := "0000:5678 foo".toList }.parseSymbolTable).symbols.items =
        [("foo", ⟨"0000", "5678"⟩)] ∧
      ({ MapVerifier.init "3cpd.map" "debug" with
          content := "0000:1234\n0000:5678 foo".toList }.parseSymbolTable).symbols.items =
        [("0000:5678", ⟨"0000", "1234"⟩)] ∧
      (symbolTableByLines "0000:1234\n0000:5678 foo".toList).items =
        [("foo", ⟨"0000", "5678"⟩)] ∧
      ({ MapVerifier.init "3cpd.map" "debug" with
          content := "_TEXT\nCODE AUTO 0000:0000 10".toList }.parseAllSegments
            ⟨Char.isAlphanum, Char.isDigit⟩).segments.items =
        [("_TEXT", ⟨"CODE", "AUTO", "0000:0000", 16⟩)] ∧
      (segmentTableByLines ⟨Char.isAlphanum, Char.isDigit⟩
        "_TEXT\nCODE AUTO 0000:0000 10".toList).items = [] := by
  decide

end VerifyMap
