import VerifyMap.Backtrack
import VerifyMap.Parser

/-! What `parse` can put in its tables. Every entry is made of text the pattern
admits for its fields, whatever the map text, and at each name the table keeps
the last match, so a later occurrence replaces an earlier one. -/
namespace VerifyMap
open Regex Python

/-- A segment-table entry as the pattern admits it. -/
structure SegmentWF (u : Unicode) (name : String) (s : Segment) : Prop where
  name_word : Run (isWord u) name.data
  class_known : s.«class» ∈ segmentClasses
  group_word : Run (isWord u) s.group.data
  address_hex : ∃ seg off, s.address.data = seg ++ ':' :: off ∧ Run isHex seg ∧ Run isHex off
  size_hex : ∃ h, Run isHex h ∧ s.size = hexValue h

/-- A symbol-table entry as the pattern admits it. -/
structure SymbolWF (name : String) (info : SymbolInfo) : Prop where
  name_token : Run (fun c => !isSpace c) name.data
  segment_hex : Run isHex info.segment.data
  offset_hex : Run isHex info.offset.data

def segmentOf (u : Unicode) (ts : List (List Char)) : Segment :=
  let g := group (segmentPattern u) ts
  { «class» := ⟨g 2⟩, group := ⟨g 3⟩, address := ⟨g 4⟩, size := hexValue (g 5) }

def symbolOf (ts : List (List Char)) : SymbolInfo :=
  ⟨⟨group symbolPattern ts 1⟩, ⟨group symbolPattern ts 2⟩⟩

theorem groups_of_match {ps : List Atom} {prev : Option Char} {s r : List Char}
    {ts : List (List Char)} (h : matchAt ps prev s = some (ts, r)) :
    List.Forall₂ SeqAccepts (groupAtomsFrom none ps) (groupsFrom none ps ts) :=
  groupsFrom_accepts (matchAt_sound h).1 trivial

theorem symbol_match_wf {prev : Option Char} {s r : List Char} {ts : List (List Char)}
    (h : matchAt symbolPattern prev s = some (ts, r)) :
    SymbolWF ⟨group symbolPattern ts 3⟩ (symbolOf ts) := by
  have hg := groups_of_match h
  generalize hgs : groupsFrom none symbolPattern ts = gs at hg
  rcases hg with _ | ⟨h₁, _ | ⟨h₂, _ | ⟨h₃, _ | _⟩⟩⟩
  simp only [symbolOf, group, hgs]
  exact ⟨seqAccepts_single.mp h₃, seqAccepts_single.mp h₁, seqAccepts_single.mp h₂⟩

theorem segment_match_wf (u : Unicode) {prev : Option Char} {s r : List Char}
    {ts : List (List Char)} (h : matchAt (segmentPattern u) prev s = some (ts, r)) :
    SegmentWF u ⟨group (segmentPattern u) ts 1⟩ (segmentOf u ts) := by
  have hg := groups_of_match h
  have hga : groupAtomsFrom none (segmentPattern u) =
      [[.plus (isWord u)], [.alt (segmentClasses.map String.toList)], [.plus (isWord u)],
        [.plus isHex, .lit [':'], .plus isHex], [.plus isHex]] := rfl
  rw [hga] at hg
  generalize hgs : groupsFrom none (segmentPattern u) ts = gs at hg
  rcases hg with _ | ⟨h₁, _ | ⟨h₂, _ | ⟨h₃, _ | ⟨h₄, _ | ⟨h₅, _ | _⟩⟩⟩⟩⟩
  simp only [segmentOf, group, hgs]
  simp only [seqAccepts_single, Atom.Accepts] at h₁ h₂ h₃ h₅
  simp only [seqAccepts_cons, seqAccepts_nil, Atom.Accepts] at h₄
  obtain ⟨seg, _, hseg, ⟨_, _, rfl, ⟨off, _, hoff, rfl, rfl⟩, rfl⟩, rfl⟩ := h₄
  refine ⟨h₁, ?_, h₃, ⟨seg, off, by simp, hseg, hoff⟩, ⟨_, h₅, rfl⟩⟩
  obtain ⟨c, hc, he⟩ := List.mem_map.mp h₂
  simpa [← he] using hc

section SymbolLine

theorem marker_not_space : ∀ x, (x == '*' || x == '+') = true → isSpace x = false := by
  intro x hx
  simp only [Bool.or_eq_true, beq_iff_eq] at hx
  rcases hx with rfl | rfl <;> decide

theorem space_not_marker : ∀ x, isSpace x → (x == '*' || x == '+') = false := by
  intro x hx
  cases hm : (x == '*' || x == '+')
  · rfl
  · simp [marker_not_space x hm] at hx

theorem hex_not_marker : ∀ x, isHex x → (x == '*' || x == '+') = false := by
  intro x hx
  cases hm : (x == '*' || x == '+')
  · rfl
  · simp only [Bool.or_eq_true, beq_iff_eq] at hm
    rcases hm with rfl | rfl <;> simp_all [isHex]

theorem matchAt_symbolPattern {prev : Option Char} {s r : List Char} {ts : List (List Char)} :
    matchAt symbolPattern prev s = some (ts, r) ↔ lineStart prev ∧
      ∃ seg off mk w name, s = seg ++ ':' :: off ++ mk ++ w ++ name ++ r ∧
        Run isHex seg ∧ Run isHex off ∧ (mk = [] ∨ mk = ['*'] ∨ mk = ['+']) ∧
        Run isSpace w ∧ Run (fun c => !isSpace c) name ∧ Ends (fun c => !isSpace c) r ∧
        ts = [[], [], seg, [], [':'], [], off, [], mk, w, [], name, []] := by
  have g₁ (ps) : Guarded isHex (.rpar :: .lit [':'] :: ps) := guarded_mark (guarded_lit (by decide))
  have g₂ (ps) :
      Guarded isHex (.rpar :: .opt (fun c => c == '*' || c == '+') :: .plus isSpace :: ps) :=
    guarded_mark (guarded_opt hex_not_marker (guarded_plus fun _ => isSpace_of_isHex))
  have g₃ (ps) : Guarded (fun c => c == '*' || c == '+') (.plus isSpace :: ps) :=
    guarded_plus marker_not_space
  have g₄ (ps) : Guarded isSpace (.lpar :: .plus (fun c => !isSpace c) :: ps) :=
    guarded_mark (guarded_plus fun _ h => by simp [h])
  have g₅ : ∀ prev s, (matchAt [.rpar] prev s).isSome := fun _ _ => by
    rw [matchAt_mark]; simp [matchAt]
  constructor
  · intro h
    obtain ⟨hl, _, h₁, rfl⟩ := matchAt_bol_eq_some.mp h
    obtain ⟨_, h₂, rfl⟩ := matchAt_mark_eq_some.mp h₁
    obtain ⟨seg, _, _, rfl, hseg, -, h₃, rfl⟩ := (matchAt_plus_eq_some (.inl (g₁ _))).mp h₂
    obtain ⟨_, h₄, rfl⟩ := matchAt_mark_eq_some.mp h₃
    obtain ⟨_, _, rfl, h₅, rfl⟩ := matchAt_lit_eq_some.mp h₄
    obtain ⟨_, h₆, rfl⟩ := matchAt_mark_eq_some.mp h₅
    obtain ⟨off, _, _, rfl, hoff, -, h₇, rfl⟩ := (matchAt_plus_eq_some (.inl (g₂ _))).mp h₆
    obtain ⟨_, h₈, rfl⟩ := matchAt_mark_eq_some.mp h₇
    obtain ⟨mk, _, _, rfl, hmk, h₉, rfl⟩ := (matchAt_opt_eq_some (g₃ _)).mp h₈
    obtain ⟨w, _, _, rfl, hw, -, h₁₀, rfl⟩ := (matchAt_plus_eq_some (.inl (g₄ _))).mp h₉
    obtain ⟨_, h₁₁, rfl⟩ := matchAt_mark_eq_some.mp h₁₀
    obtain ⟨name, _, _, rfl, hname, hend, h₁₂, rfl⟩ := (matchAt_plus_eq_some (.inr g₅)).mp h₁₁
    obtain ⟨_, h₁₃, rfl⟩ := matchAt_mark_eq_some.mp h₁₂
    simp only [matchAt, Option.some.injEq, Prod.mk.injEq] at h₁₃
    obtain ⟨rfl, rfl⟩ := h₁₃
    refine ⟨hl, seg, off, mk, w, name, by simp, hseg, hoff, ?_, hw, hname, hend, rfl⟩
    rcases hmk with ⟨rfl, -⟩ | ⟨x, rfl, hx⟩
    · exact .inl rfl
    · simp only [Bool.or_eq_true, beq_iff_eq] at hx
      rcases hx with rfl | rfl <;> simp
  · rintro ⟨hl, seg, off, mk, w, name, rfl, hseg, hoff, hmk, hw, hname, hend, rfl⟩
    have hoffEnd : Ends isHex (mk ++ (w ++ (name ++ r))) := by
      rcases hmk with rfl | rfl | rfl
      · rw [List.nil_append]
        exact ends_of_run (fun _ => isHex_of_isSpace) hw
      all_goals simp [Ends]; decide
    have hmk' : mk = [] ∧ Ends (fun c => c == '*' || c == '+') (w ++ (name ++ r)) ∨
        ∃ x, mk = [x] ∧ (x == '*' || x == '+') := by
      rcases hmk with rfl | rfl | rfl
      · exact .inl ⟨rfl, ends_of_run space_not_marker hw⟩
      all_goals exact .inr ⟨_, rfl, rfl⟩
    simp only [List.append_assoc, List.cons_append]
    refine matchAt_bol_eq_some.mpr ⟨hl, _, ?_, rfl⟩
    refine matchAt_mark_eq_some.mpr ⟨_, ?_, rfl⟩
    refine (matchAt_plus_eq_some (.inl (g₁ _))).mpr ⟨seg, _, _, rfl, hseg, by simp [Ends]; decide,
      ?_, rfl⟩
    refine matchAt_mark_eq_some.mpr ⟨_, ?_, rfl⟩
    refine matchAt_lit_eq_some.mpr ⟨_, _, rfl, ?_, rfl⟩
    refine matchAt_mark_eq_some.mpr ⟨_, ?_, rfl⟩
    refine (matchAt_plus_eq_some (.inl (g₂ _))).mpr ⟨off, _, _, rfl, hoff, hoffEnd, ?_, rfl⟩
    refine matchAt_mark_eq_some.mpr ⟨_, ?_, rfl⟩
    refine (matchAt_opt_eq_some (g₃ _)).mpr ⟨mk, _, _, rfl, hmk', ?_, rfl⟩
    refine (matchAt_plus_eq_some (.inl (g₄ _))).mpr ⟨w, _, _, rfl, hw,
      ends_of_run (fun _ h => by simpa using h) hname, ?_, rfl⟩
    refine matchAt_mark_eq_some.mpr ⟨_, ?_, rfl⟩
    refine (matchAt_plus_eq_some (.inr g₅)).mpr ⟨name, r, _, rfl, hname, hend, ?_, rfl⟩
    rfl

end SymbolLine

/-- Every entry of the symbol table is made of a hex segment, a hex offset and a
name with no blank in it. -/
theorem load_symbols_wf (u : Unicode) (mapFile buildMode : String) (T : List Char) :
    ∀ e ∈ (load u mapFile buildMode T).symbols.items, SymbolWF e.1 e.2 := by
  intro e he
  rcases Dict.mem_items_foldl (fun ts => ⟨group symbolPattern ts 3⟩) symbolOf _ _ e he with
    h | ⟨ts, hts, rfl⟩
  · exact absurd h (List.not_mem_nil e)
  · obtain ⟨_, _, _, hm⟩ := mem_scan hts
    exact symbol_match_wf hm

theorem load_symbols_wf_foo :
    ("foo", SymbolInfo.mk "0000" "1234") ∈
        (load ⟨Char.isAlphanum, Char.isDigit⟩ "3cpd.map" "debug"
          "0000:1234 foo".toList).symbols.items ∧
      SymbolWF "foo" ⟨"0000", "1234"⟩ :=
  have h : ("foo", SymbolInfo.mk "0000" "1234") ∈
      (load ⟨Char.isAlphanum, Char.isDigit⟩ "3cpd.map" "debug"
        "0000:1234 foo".toList).symbols.items := by
    decide
  ⟨h, load_symbols_wf _ _ _ _ _ h⟩

/-- Every entry of the segment table has a word name, a known class, a word
group, a hex `seg:off` address and a size read from hex digits. -/
theorem load_segments_wf (u : Unicode) (mapFile buildMode : String) (T : List Char) :
    ∀ e ∈ (load u mapFile buildMode T).segments.items, SegmentWF u e.1 e.2 := by
  intro e he
  rcases Dict.mem_items_foldl (fun ts => ⟨group (segmentPattern u) ts 1⟩) (segmentOf u) _ _ e
    he with h | ⟨ts, hts, rfl⟩
  · exact absurd h (List.not_mem_nil e)
  · obtain ⟨_, _, _, hm⟩ := mem_scan hts
    exact segment_match_wf u hm

theorem load_segments_wf_text :
    ("_TEXT", Segment.mk "CODE" "AUTO" "0000:0000" 16) ∈
        (load ⟨Char.isAlphanum, Char.isDigit⟩ "3cpd.map" "debug"
          "_TEXT CODE AUTO 0000:0000 10".toList).segments.items ∧
      SegmentWF ⟨Char.isAlphanum, Char.isDigit⟩ "_TEXT" ⟨"CODE", "AUTO", "0000:0000", 16⟩ :=
  have h : ("_TEXT", Segment.mk "CODE" "AUTO" "0000:0000" 16) ∈
      (load ⟨Char.isAlphanum, Char.isDigit⟩ "3cpd.map" "debug"
        "_TEXT CODE AUTO 0000:0000 10".toList).segments.items := by
    decide
  ⟨h, load_segments_wf _ _ _ _ _ h⟩

end VerifyMap
