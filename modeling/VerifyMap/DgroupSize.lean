import VerifyMap.Backtrack
import VerifyMap.Parser

/-! `_parse_dgroup_size` searches the whole text rather than the start of each
line: the size comes from the leftmost `DGROUP` entry of the Groups-table shape,
wherever it starts, and the whitespace in it may run across line ends. -/
namespace VerifyMap
open Regex Python

/-- `s` starts with a DGROUP entry of the Groups-table shape whose size field is
`size`: `DGROUP`, blanks, a hex `seg:off`, blanks, then the longest run of hex digits. -/
def DgroupShape (s size : List Char) : Prop :=
  ∃ w₁ seg off w₂ rest, s = "DGROUP".toList ++ w₁ ++ seg ++ ':' :: off ++ w₂ ++ size ++ rest ∧
    Run isSpace w₁ ∧ Run isHex seg ∧ Run isHex off ∧ Run isSpace w₂ ∧ Run isHex size ∧
    Ends isHex rest

theorem matchAt_dgroupPattern {prev : Option Char} {s r : List Char} {ts : List (List Char)} :
    matchAt dgroupPattern prev s = some (ts, r) ↔
      ∃ w₁ seg off w₂ size, s = "DGROUP".toList ++ w₁ ++ seg ++ ':' :: off ++ w₂ ++ size ++ r ∧
        Run isSpace w₁ ∧ Run isHex seg ∧ Run isHex off ∧ Run isSpace w₂ ∧ Run isHex size ∧
        Ends isHex r ∧ ts = ["DGROUP".toList, w₁, seg, [':'], off, w₂, [], size, []] := by
  have g₁ (ps) : Guarded isSpace (.plus isHex :: ps) := guarded_plus fun _ => isHex_of_isSpace
  have g₂ (ps) : Guarded isHex (.lit [':'] :: ps) := guarded_lit (by decide)
  have g₃ (ps) : Guarded isHex (.plus isSpace :: ps) := guarded_plus fun _ => isSpace_of_isHex
  have g₄ (ps) : Guarded isSpace (.lpar :: .plus isHex :: ps) := guarded_mark (g₁ ps)
  have g₅ : ∀ prev s, (matchAt [.rpar] prev s).isSome := fun _ _ => by
    rw [matchAt_mark]; simp [matchAt]
  constructor
  · intro h
    obtain ⟨_, _, rfl, h₁, rfl⟩ := matchAt_lit_eq_some.mp h
    obtain ⟨w₁, _, _, rfl, hw₁, -, h₂, rfl⟩ := (matchAt_plus_eq_some (.inl (g₁ _))).mp h₁
    obtain ⟨seg, _, _, rfl, hseg, -, h₃, rfl⟩ := (matchAt_plus_eq_some (.inl (g₂ _))).mp h₂
    obtain ⟨_, _, rfl, h₄, rfl⟩ := matchAt_lit_eq_some.mp h₃
    obtain ⟨off, _, _, rfl, hoff, -, h₅, rfl⟩ := (matchAt_plus_eq_some (.inl (g₃ _))).mp h₄
    obtain ⟨w₂, _, _, rfl, hw₂, -, h₆, rfl⟩ := (matchAt_plus_eq_some (.inl (g₄ _))).mp h₅
    obtain ⟨⟨_, _⟩, h₇, he⟩ := Option.map_eq_some'.mp ((matchAt_mark _ _ _).symm.trans h₆)
    obtain ⟨size, _, _, rfl, hsize, hend, h₈, rfl⟩ := (matchAt_plus_eq_some (.inr g₅)).mp h₇
    simp only [matchAt_mark, matchAt, Option.map_some', Option.some.injEq, Prod.mk.injEq] at h₈
    obtain ⟨rfl, rfl⟩ := h₈
    simp only [Prod.mk.injEq] at he
    obtain ⟨rfl, rfl⟩ := he
    exact ⟨w₁, seg, off, w₂, size, by simp, hw₁, hseg, hoff, hw₂, hsize, hend, rfl⟩
  · rintro ⟨w₁, seg, off, w₂, size, rfl, hw₁, hseg, hoff, hw₂, hsize, hend, rfl⟩
    simp only [List.append_assoc, List.cons_append]
    refine matchAt_lit_eq_some.mpr ⟨_, _, rfl, ?_, rfl⟩
    refine (matchAt_plus_eq_some (.inl (g₁ _))).mpr ⟨w₁, _, _, rfl, hw₁,
      ends_of_run (fun _ => isSpace_of_isHex) hseg, ?_, rfl⟩
    refine (matchAt_plus_eq_some (.inl (g₂ _))).mpr ⟨seg, _, _, rfl, hseg, by simp [Ends]; decide,
      ?_, rfl⟩
    refine matchAt_lit_eq_some.mpr ⟨_, _, rfl, ?_, rfl⟩
    refine (matchAt_plus_eq_some (.inl (g₃ _))).mpr ⟨off, _, _, rfl, hoff,
      ends_of_run (fun _ => isHex_of_isSpace) hw₂, ?_, rfl⟩
    refine (matchAt_plus_eq_some (.inl (g₄ _))).mpr ⟨w₂, _, _, rfl, hw₂,
      ends_of_run (fun _ => isSpace_of_isHex) hsize, ?_, rfl⟩
    rw [matchAt_mark]
    refine Option.map_eq_some'.mpr ⟨([size, []], r), ?_, rfl⟩
    refine (matchAt_plus_eq_some (.inr g₅)).mpr ⟨size, r, _, rfl, hsize, hend, ?_, rfl⟩
    rw [matchAt_mark]
    rfl

theorem dgroupShape_iff (prev : Option Char) {s size : List Char} :
    DgroupShape s size ↔
      ∃ ts r, matchAt dgroupPattern prev s = some (ts, r) ∧ group dgroupPattern ts 1 = size := by
  constructor
  · rintro ⟨w₁, seg, off, w₂, rest, rfl, h₁, h₂, h₃, h₄, h₅, h₆⟩
    exact ⟨_, rest,
      matchAt_dgroupPattern.mpr ⟨w₁, seg, off, w₂, size, rfl, h₁, h₂, h₃, h₄, h₅, h₆, rfl⟩, rfl⟩
  · rintro ⟨ts, r, hm, rfl⟩
    obtain ⟨w₁, seg, off, w₂, size, rfl, h₁, h₂, h₃, h₄, h₅, h₆, rfl⟩ := matchAt_dgroupPattern.mp hm
    exact ⟨w₁, seg, off, w₂, r, rfl, h₁, h₂, h₃, h₄, h₅, h₆⟩

theorem load_dgroupSize (u : Unicode) (mapFile buildMode : String) (T : List Char) :
    (load u mapFile buildMode T).dgroupSize =
      match search dgroupPattern none T with
      | some (ts, _) => hexValue (group dgroupPattern ts 1)
      | none => 0 := rfl

/-- `_parse_dgroup_size` takes the size of the leftmost DGROUP entry of the
Groups-table shape, wherever in a line it starts, and leaves 0 when there is none. -/
theorem dgroupSize_leftmost_entry (u : Unicode) (mapFile buildMode : String) (T : List Char) :
    ((∀ p size, ¬ DgroupShape (T.drop p) size) → (load u mapFile buildMode T).dgroupSize = 0) ∧
    (∀ q size, DgroupShape (T.drop q) size → (∀ p < q, ∀ sz, ¬ DgroupShape (T.drop p) sz) →
      (load u mapFile buildMode T).dgroupSize = hexValue size) := by
  have hnone : ∀ p, (∀ sz, ¬ DgroupShape (T.drop p) sz) →
      ∀ prev, matchAt dgroupPattern prev (T.drop p) = none := by
    intro p hp prev
    cases hm : matchAt dgroupPattern prev (T.drop p) with
    | none => rfl
    | some m => exact absurd ((dgroupShape_iff prev).mpr ⟨m.1, m.2, hm, rfl⟩) (hp _)
  rw [load_dgroupSize]
  constructor
  · intro h
    rw [search_eq_none fun p _ => hnone p (h p)]
  · intro q size hq hleft
    have hlen : q ≤ T.length := by
      by_contra hlt
      obtain ⟨_, _, _, _, _, he, -⟩ := hq
      simp [List.drop_eq_nil_of_le (Nat.le_of_not_le hlt)] at he
    obtain ⟨prev', he⟩ := search_drop hlen fun p hp => hnone p (hleft p hp)
    obtain ⟨ts, r, hm, rfl⟩ := (dgroupShape_iff prev').mp hq
    rw [he, search_of_matchAt hm]

theorem dgroupSize_leftmost_entry_after_token :
    DgroupShape ("x DGROUP 0:0 1f".toList.drop 2) "1f".toList ∧
      (∀ p < 2, ∀ sz, ¬ DgroupShape ("x DGROUP 0:0 1f".toList.drop p) sz) ∧
      (load ⟨Char.isAlphanum, Char.isDigit⟩ "3cpd.map" "debug"
        "x DGROUP 0:0 1f".toList).dgroupSize = hexValue "1f".toList := by
  have hs : DgroupShape ("x DGROUP 0:0 1f".toList.drop 2) "1f".toList :=
    ⟨[' '], ['0'], ['0'], [' '], [], rfl, ⟨by simp, by decide⟩, ⟨by simp, by decide⟩,
      ⟨by simp, by decide⟩, ⟨by simp, by decide⟩, ⟨by simp, by decide⟩, ends_nil _⟩
  have hl : ∀ p < 2, ∀ sz, ¬ DgroupShape ("x DGROUP 0:0 1f".toList.drop p) sz := by
    intro p hp sz hshape
    obtain ⟨ts, r, hm, -⟩ := (dgroupShape_iff none).mp hshape
    have h0 : matchAt dgroupPattern none ("x DGROUP 0:0 1f".toList.drop p) = none := by
      rcases p with _ | _ | p
      · decide
      · decide
      · omega
    rw [h0] at hm
    cases hm
  exact ⟨hs, hl, (dgroupSize_leftmost_entry _ _ _ _).2 2 _ hs hl⟩

/-- A Segments-table line whose group column is DGROUP sets the size, though the
text is a single line whose first token is `_DATA`. -/
theorem dgroupSize_from_segment_line :
    '\n' ∉ "_DATA DATA DGROUP 0a2b:0000 00000010".toList ∧
      "_DATA DATA DGROUP 0a2b:0000 00000010".toList.takeWhile (fun c => !isSpace c) =
        "_DATA".toList ∧
      ({ MapVerifier.init "3cpd.map" "debug" with
          content := "_DATA DATA DGROUP 0a2b:0000 00000010".toList }.parseDgroupSize).dgroupSize =
        0x10 := by
  decide

end VerifyMap
