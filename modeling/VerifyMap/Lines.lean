import VerifyMap.Backtrack
import Mathlib.Data.List.Basic

/-! Patterns anchored by `^` read a text line by line, as long as no way of matching
a line runs into its end inside an atom that could go on past it. For the
verifier's patterns those atoms are the `\s+` runs, which also match a newline. A
pattern that can read no line end at all is read line by line however it is anchored. -/
namespace VerifyMap.Regex

def Atom.stepLocal : Atom → List Char → Bool
  | .lit t, _ => decide ('\n' ∉ t)
  | .alt ts, _ => ts.all fun t => decide ('\n' ∉ t)
  | .plus c, l => !c '\n' || l.any fun x => !c x
  | .opt c, l => !c '\n' || !l.isEmpty
  | .bol, _ | .mark _, _ => true

/-- No way of matching `ps` at the front of the line `l` reaches the line end inside
an atom that could go on past it. -/
def lineSafe : List Atom → Option Char → List Char → Bool
  | [], _, _ => true
  | a :: ps, prev, l =>
    a.stepLocal l && (a.steps prev l).all fun (t, r) => lineSafe ps (advance prev t) r

def Atom.readsPrev : Atom → Bool
  | .bol => true
  | _ => false

@[simp] theorem lineSafe_mark {b : Bool} (ps : List Atom) (prev : Option Char) (l : List Char) :
    lineSafe (.mark b :: ps) prev l = lineSafe ps prev l := by
  simp [lineSafe, Atom.stepLocal, Atom.steps, advance]

theorem lineSafe_plus (c : Char → Bool) (ps : List Atom) (prev : Option Char) (l : List Char) :
    lineSafe (.plus c :: ps) prev l =
      ((!c '\n' || l.any fun x => !c x) &&
        (plusSteps c l).all fun p => lineSafe ps (advance prev p.1) p.2) :=
  rfl

theorem plusSteps_all {c : Char → Bool} {s : List Char} {f : List Char × List Char → Bool}
    (hmax : s.takeWhile c ≠ [] → f (s.takeWhile c, s.dropWhile c))
    (hshort : ∀ t x r, c x → f (t, x :: r)) : (plusSteps c s).all f := by
  rcases plusSteps_cases c s with ⟨_, h⟩ | ⟨hne, tl, h, htl⟩
  · simp [h]
  · rw [h, List.all_cons, hmax hne, Bool.true_and, List.all_eq_true]
    intro ⟨t, r⟩ hp
    obtain ⟨x, r', hr, hx⟩ := htl _ hp
    simp only at hr
    subst hr
    exact hshort t x r' hx

/-- A pattern none of whose atoms can read a line end is safe on every line. -/
theorem lineSafe_of_local : ∀ {ps : List Atom}, (∀ a ∈ ps, ∀ l, a.stepLocal l) →
    ∀ prev l, lineSafe ps prev l
  | [], _, _, _ => rfl
  | a :: ps, h, prev, l => by
    have ih := @lineSafe_of_local ps fun b hb => h b (List.mem_cons_of_mem _ hb)
    simp [lineSafe, h a (List.mem_cons_self _ _) l, ih]

theorem lineSafe_plus_run {c : Char → Bool} {ps : List Atom} {prev : Option Char}
    {w s' : List Char} (hw : Run c w) (he : Ends c s')
    (hloc : (!c '\n' || (w ++ s').any fun x => !c x) = true)
    (hmax : lineSafe ps (advance prev w) s')
    (hshort : ∀ t x r, c x → lineSafe ps (advance prev t) (x :: r)) :
    lineSafe (.plus c :: ps) prev (w ++ s') := by
  obtain ⟨h₁, h₂⟩ := takeWhile_run_append hw.2 he
  rw [lineSafe_plus, hloc, Bool.true_and]
  exact plusSteps_all (fun _ => by rwa [h₁, h₂]) fun t x r hx => hshort t x r hx

theorem lineSafe_plus_none {c : Char → Bool} {ps : List Atom} {prev : Option Char} {x : Char}
    {r : List Char} (hx : c x = false) : lineSafe (.plus c :: ps) prev (x :: r) := by
  simp [lineSafe, Atom.stepLocal, Atom.steps, plusSteps, hx]

section Append
variable {rest : List Char}

theorem isPrefixOf_append_newline {t : List Char} (ht : '\n' ∉ t) :
    ∀ {l : List Char}, t.isPrefixOf (l ++ '\n' :: rest) = t.isPrefixOf l := by
  induction t with
  | nil => intro l; cases l <;> rfl
  | cons y t ih =>
    intro l
    have hy : y ≠ '\n' := fun h => ht (h ▸ List.mem_cons_self _ _)
    cases l with
    | nil => simp [List.isPrefixOf, hy]
    | cons x l => simp [List.isPrefixOf, ih (fun h => ht (List.mem_cons_of_mem _ h))]

theorem drop_append_newline {t l : List Char} (h : t.isPrefixOf l) :
    (l ++ '\n' :: rest).drop t.length = l.drop t.length ++ '\n' :: rest :=
  List.drop_append_of_le_length (List.isPrefixOf_iff_prefix.mp h).length_le

theorem plusSteps_append_newline {c : Char → Bool} :
    ∀ {l : List Char}, (!c '\n' || l.any fun x => !c x) →
      plusSteps c (l ++ '\n' :: rest) = (plusSteps c l).map fun p => (p.1, p.2 ++ '\n' :: rest)
  | [], h => by
    simp only [List.any_nil, Bool.or_false, Bool.not_eq_true'] at h
    simp [plusSteps, h]
  | x :: l, h => by
    by_cases hx : c x
    · have ih := @plusSteps_append_newline c l (by simpa [hx] using h)
      simp [plusSteps, hx, ih]
    · simp [plusSteps, hx]

theorem Atom.steps_append_newline {a : Atom} {prev : Option Char} {l : List Char}
    (h : a.stepLocal l) :
    a.steps prev (l ++ '\n' :: rest) =
      (a.steps prev l).map fun p => (p.1, p.2 ++ '\n' :: rest) := by
  cases a with
  | bol => by_cases hp : lineStart prev <;> simp [Atom.steps, hp]
  | lit t =>
    have ht : '\n' ∉ t := by simpa [Atom.stepLocal] using h
    simp only [Atom.steps, isPrefixOf_append_newline ht]
    split
    · simp [drop_append_newline ‹_›]
    · rfl
  | alt ts =>
    simp only [Atom.stepLocal, List.all_eq_true, decide_eq_true_eq] at h
    simp only [Atom.steps]
    induction ts with
    | nil => rfl
    | cons t ts ih =>
      have ih' := ih fun t' h' => h t' (List.mem_cons_of_mem _ h')
      rw [List.filterMap_cons, List.filterMap_cons,
        isPrefixOf_append_newline (h t (List.mem_cons_self _ _))]
      by_cases hpre : t.isPrefixOf l
      · simp only [hpre, ↓reduceIte, List.map_cons, drop_append_newline hpre, ih']
      · simp only [hpre, Bool.false_eq_true, ↓reduceIte, ih']
  | plus c => exact plusSteps_append_newline h
  | opt c =>
    cases l with
    | nil =>
      simp only [Atom.stepLocal, List.isEmpty_nil, Bool.not_true, Bool.or_false,
        Bool.not_eq_true'] at h
      simp [Atom.steps, h]
    | cons x l => by_cases hx : c x <;> simp [Atom.steps, hx]
  | mark _ => simp [Atom.steps]

theorem findSome?_map_of_forall {α β : Type} {xs : List α} {e : α → α}
    {f g : α → Option β} {h : β → β} (hf : ∀ p ∈ xs, f (e p) = (g p).map h) :
    (xs.map e).findSome? f = (xs.findSome? g).map h := by
  induction xs with
  | nil => rfl
  | cons p xs ih =>
    have ih' := ih fun q hq => hf q (List.mem_cons_of_mem _ hq)
    rw [List.map_cons, List.findSome?_cons, List.findSome?_cons, hf p (List.mem_cons_self _ _)]
    cases g p <;> simp [ih']

theorem matchAt_append_newline :
    ∀ {ps : List Atom} {prev : Option Char} {l : List Char}, lineSafe ps prev l →
      matchAt ps prev (l ++ '\n' :: rest) =
        (matchAt ps prev l).map fun m => (m.1, m.2 ++ '\n' :: rest)
  | [], _, _, _ => rfl
  | a :: ps, prev, l, h => by
    simp only [lineSafe, Bool.and_eq_true, List.all_eq_true] at h
    rw [matchAt, matchAt, Atom.steps_append_newline h.1]
    refine findSome?_map_of_forall fun ⟨t, r⟩ hp => ?_
    dsimp only
    rw [matchAt_append_newline (h.2 _ hp), Option.map_map, Option.map_map]
    rfl

end Append

section Prev

theorem readsPrev_of_all {ps : List Atom} (h : ps.all (fun a => !a.readsPrev) = true) :
    ∀ a ∈ ps, a.readsPrev = false := by
  simpa using List.all_eq_true.mp h

theorem Atom.steps_congr_prev {a : Atom} (h : a.readsPrev = false) (prev prev' : Option Char)
    (s : List Char) : a.steps prev s = a.steps prev' s := by
  cases a <;> first | rfl | simp [Atom.readsPrev] at h

theorem matchAt_congr_prev : ∀ {ps : List Atom}, (∀ a ∈ ps, a.readsPrev = false) →
    ∀ prev prev' s, matchAt ps prev s = matchAt ps prev' s
  | [], _, _, _, _ => rfl
  | a :: ps, h, prev, prev', s => by
    have ih := @matchAt_congr_prev ps fun b hb => h b (List.mem_cons_of_mem _ hb)
    simp only [matchAt, Atom.steps_congr_prev (h a (List.mem_cons_self _ _)) prev prev' s]
    congr 1
    funext p
    rw [ih (advance prev p.1) (advance prev' p.1)]

end Prev

def Anchored (ps : List Atom) : Prop :=
  ∀ prev s, lineStart prev = false → matchAt ps prev s = none

theorem anchored_bol (ps : List Atom) : Anchored (.bol :: ps) := by
  intro prev s hp
  simp [matchAt_bol, hp]

theorem lineStart_of_not_mem {x : Char} {l : List Char} (h : '\n' ∉ x :: l) :
    lineStart (some x) = false := by
  simp only [lineStart, beq_eq_false_iff_ne]
  rintro rfl
  exact h (List.mem_cons_self _ _)

/-- Inside a line an anchored pattern finds nothing, and after the line end the scan
starts afresh, whatever it still had to skip of the line. -/
theorem scan_within_line {ps : List Atom} (ha : Anchored ps) (rest : List Char) :
    ∀ {l : List Char} {k : Nat} {prev : Option Char}, '\n' ∉ l → lineStart prev = false →
      k ≤ l.length + 1 →
      scan ps k prev (l ++ '\n' :: rest) = scan ps 0 (some '\n') rest ∧ scan ps k prev l = []
  | [], 0, prev, _, hp, _ => by simp [scan, ha prev _ hp]
  | [], 1, _, _, _, _ => by simp [scan]
  | [], _ + 2, _, _, _, hk => by simp at hk
  | x :: l, 0, prev, hnl, hp, _ => by
    have hx := lineStart_of_not_mem hnl
    have ih := scan_within_line ha rest (fun h => hnl (List.mem_cons_of_mem x h)) hx (Nat.zero_le _)
    simpa [scan, ha prev _ hp] using ih
  | x :: l, k + 1, _, hnl, _, hk => by
    have hx := lineStart_of_not_mem hnl
    have ih :=
      scan_within_line ha rest (fun h => hnl (List.mem_cons_of_mem x h)) hx (by simpa using hk)
    simpa [scan] using ih

theorem scan_skip_all {ps : List Atom} (h : ∀ prev, matchAt ps prev [] = none) :
    ∀ (prev : Option Char) (s : List Char), scan ps s.length prev s = []
  | prev, [] => by simp [scan, h prev]
  | _, x :: s => by simpa [scan] using scan_skip_all h (some x) s

theorem finditer_line {qs : List Atom} {l : List Char} (hnl : '\n' ∉ l) :
    finditer (.bol :: qs) l = ((matchAt (.bol :: qs) none l).map Prod.fst).toList := by
  cases l with
  | nil =>
    cases hm : matchAt (.bol :: qs) none [] with
    | none => simp [finditer, scan, hm]
    | some m => simp [finditer, scan, hm]
  | cons x l =>
    have hin := fun k => @scan_within_line (.bol :: qs) (anchored_bol _) [] l k (some x)
      (fun h => hnl (List.mem_cons_of_mem x h)) (lineStart_of_not_mem hnl)
    cases hm : matchAt (.bol :: qs) none (x :: l) with
    | none => simp [finditer, scan, hm, (hin 0 (Nat.zero_le _)).2]
    | some m =>
      obtain ⟨ts, r⟩ := m
      simp [finditer, scan, hm, (hin (l.length - r.length) (by omega)).2]

theorem scan_congr_prev {ps : List Atom} {prev prev' : Option Char}
    (h : ∀ s, matchAt ps prev s = matchAt ps prev' s) (s : List Char) :
    scan ps 0 prev s = scan ps 0 prev' s := by
  cases s <;> simp only [scan, h]

theorem intercalate_newline_cons (l l' : List Char) (ls : List (List Char)) :
    ['\n'].intercalate (l :: l' :: ls) = l ++ '\n' :: ['\n'].intercalate (l' :: ls) := by
  simp [List.intercalate, List.intersperse_cons_cons]

theorem not_mem_of_mem_splitOn {x : Char} :
    ∀ {T : List Char} {l : List Char}, l ∈ T.splitOn x → x ∉ l
  | [], l, h => by simp_all
  | y :: T, l, h => by
    have ih := @not_mem_of_mem_splitOn x T
    rw [List.splitOn, List.splitOnP_cons] at h
    rw [List.splitOn] at ih
    split at h
    · rcases List.mem_cons.mp h with rfl | h
      · simp
      · exact ih h
    · obtain ⟨l₀, ls, hls⟩ := List.exists_cons_of_ne_nil (List.splitOnP_ne_nil (· == x) T)
      rw [hls] at h ih
      rcases List.mem_cons.mp h with rfl | h
      · simp only [List.mem_cons, not_or]
        exact ⟨fun he => by simp_all, ih (List.mem_cons_self _ _)⟩
      · exact ih (List.mem_cons_of_mem _ h)

section Anchored
variable {qs : List Atom} (hq : ∀ a ∈ qs, a.readsPrev = false)
include hq

theorem matchAt_bol_congr {prev prev' : Option Char} (h : lineStart prev = lineStart prev')
    (s : List Char) : matchAt (.bol :: qs) prev s = matchAt (.bol :: qs) prev' s := by
  rw [matchAt_bol, matchAt_bol, h, matchAt_congr_prev hq prev prev' s]

theorem scan_line {prev : Option Char} {l rest : List Char} (hnl : '\n' ∉ l) (hp : lineStart prev)
    (hs : lineSafe (.bol :: qs) none l) :
    scan (.bol :: qs) 0 prev (l ++ '\n' :: rest) =
      finditer (.bol :: qs) l ++ scan (.bol :: qs) 0 (some '\n') rest := by
  have hprev := matchAt_bol_congr hq (hp.trans rfl : lineStart prev = lineStart none)
  have hloc := @matchAt_append_newline rest _ none l hs
  cases l with
  | nil =>
    rw [List.nil_append] at hloc
    cases hm : matchAt (.bol :: qs) none [] with
    | none => simp [finditer, scan, hprev, hloc, hm]
    | some m =>
      obtain ⟨ts, r⟩ := m
      obtain rfl : r = [] := (List.append_eq_nil.mp (matchAt_sound hm).2).2
      simp [finditer, scan, hprev, hloc, hm]
  | cons x l =>
    have hin := fun k => @scan_within_line (.bol :: qs) (anchored_bol _) rest l k (some x)
      (fun h => hnl (List.mem_cons_of_mem x h)) (lineStart_of_not_mem hnl)
    rw [List.cons_append] at hloc
    cases hm : matchAt (.bol :: qs) none (x :: l) with
    | none =>
      rw [List.cons_append, finditer, scan, scan, hprev, hloc, hm, Option.map_none',
        (hin 0 (Nat.zero_le _)).1, (hin 0 (Nat.zero_le _)).2, List.nil_append]
    | some m =>
      obtain ⟨ts, r⟩ := m
      have hk : (l ++ '\n' :: rest).length - (r ++ '\n' :: rest).length = l.length - r.length := by
        simp only [List.length_append, List.length_cons]
        omega
      have hin' := hin (l.length - r.length) (by omega)
      rw [List.cons_append, finditer, scan, scan, hprev, hloc, hm, Option.map_some']
      dsimp only
      rw [hk, hin'.1, hin'.2]
      rfl

theorem scan_lines :
    ∀ {l : List Char} {ls : List (List Char)} {prev : Option Char}, lineStart prev →
      (∀ x ∈ l :: ls, '\n' ∉ x) → (∀ x ∈ (l :: ls).dropLast, lineSafe (.bol :: qs) none x) →
      scan (.bol :: qs) 0 prev (['\n'].intercalate (l :: ls)) =
        (l :: ls).flatMap (finditer (.bol :: qs))
  | l, [], prev, hp, _, _ => by
    simpa [List.intercalate] using
      scan_congr_prev (matchAt_bol_congr hq (hp.trans rfl : lineStart prev = lineStart none)) l
  | l, l' :: ls, prev, hp, hnl, hs => by
    have hrest := @scan_lines l' ls (some '\n') rfl
      (fun x hx => hnl x (List.mem_cons_of_mem _ hx))
      (fun x hx => hs x (by simpa using Or.inr hx))
    rw [intercalate_newline_cons, scan_line hq (hnl l (List.mem_cons_self _ _)) hp (hs l (by simp)),
      hrest]
    rfl

/-- When no line but the last is unsafe, scanning the whole text finds the matches of
each line on its own, in order. -/
theorem finditer_lines (T : List Char)
    (hs : ∀ l ∈ (T.splitOn '\n').dropLast, lineSafe (.bol :: qs) none l) :
    finditer (.bol :: qs) T = (T.splitOn '\n').flatMap (finditer (.bol :: qs)) := by
  obtain ⟨l, ls, hls⟩ := List.exists_cons_of_ne_nil (List.splitOnP_ne_nil (· == '\n') T)
  have hls' : T.splitOn '\n' = l :: ls := hls
  rw [hls'] at hs
  have h := @scan_lines qs hq l ls none rfl (fun _ hx => not_mem_of_mem_splitOn (hls' ▸ hx)) hs
  rwa [← hls', List.intercalate_splitOn] at h

end Anchored

section Local
variable {ps : List Atom} (hl : ∀ a ∈ ps, ∀ l, a.stepLocal l)
  (hp : ∀ a ∈ ps, a.readsPrev = false) (hn : ∀ prev r, matchAt ps prev ('\n' :: r) = none)
  (he : ∀ prev, matchAt ps prev [] = none)
include hl hp hn he

theorem scan_append_newline (rest : List Char) :
    ∀ {l : List Char} {k : Nat} {prev : Option Char}, k ≤ l.length →
      scan ps k prev (l ++ '\n' :: rest) = scan ps k prev l ++ finditer ps rest
  | [], 0, prev, _ => by
    have h0 : scan ps 0 prev [] = [] := by simp [scan, he]
    rw [h0, List.nil_append, List.nil_append, finditer]
    simp only [scan, hn]
    exact scan_congr_prev (fun s => matchAt_congr_prev hp _ _ s) rest
  | [], _ + 1, _, hk => by simp at hk
  | x :: l, k + 1, _, hk => by
    simpa [scan] using scan_append_newline rest (by simpa using hk : k ≤ l.length)
  | x :: l, 0, prev, _ => by
    have hloc := @matchAt_append_newline rest ps prev (x :: l) (lineSafe_of_local hl prev _)
    rw [List.cons_append] at hloc
    cases hm : matchAt ps prev (x :: l) with
    | none =>
      rw [List.cons_append, scan, scan, hloc, hm, Option.map_none']
      exact scan_append_newline rest (Nat.zero_le _)
    | some m =>
      obtain ⟨ts, r⟩ := m
      have hk : (l ++ '\n' :: rest).length - (r ++ '\n' :: rest).length =
          l.length - r.length := by
        simp only [List.length_append, List.length_cons]
        omega
      rw [List.cons_append, scan, scan, hloc, hm, Option.map_some']
      dsimp only
      rw [hk, scan_append_newline rest (Nat.sub_le _ _)]
      rfl

theorem finditer_intercalate :
    ∀ ls : List (List Char), finditer ps (['\n'].intercalate ls) = ls.flatMap (finditer ps)
  | [] => by simp [finditer, scan, he]
  | [l] => by simp [List.intercalate]
  | l :: l' :: ls => by
    rw [intercalate_newline_cons, finditer, scan_append_newline hl hp hn he _ (Nat.zero_le _),
      finditer_intercalate (l' :: ls)]
    simp [finditer]

end Local

end VerifyMap.Regex
