import VerifyMap.Regex
import Mathlib.Data.List.Forall2

/-! What the backtracking engine guarantees. A match splits the text into the
atoms' texts, each of a shape its atom allows (`matchAt_sound`). Behind a guard
a greedy `+` never gives a character back, so it reads the longest run
(`matchAt_plus`). `search` returns the match at the leftmost position. -/
namespace VerifyMap.Regex

def Run (c : Char → Bool) (w : List Char) : Prop := w ≠ [] ∧ ∀ x ∈ w, c x

def Ends (c : Char → Bool) (s : List Char) : Prop := ∀ x ∈ s.head?, c x = false

theorem ends_nil (c : Char → Bool) : Ends c [] := fun _ h => nomatch h

theorem ends_cons {c : Char → Bool} {x : Char} (h : c x = false) (t : List Char) :
    Ends c (x :: t) := fun _ hy => by cases hy; exact h

def Atom.Accepts : Atom → List Char → Prop
  | .bol, t | .mark _, t => t = []
  | .lit l, t => t = l
  | .alt ls, t => t ∈ ls
  | .plus c, t => Run c t
  | .opt c, t => t = [] ∨ ∃ x, t = [x] ∧ c x

theorem takeWhile_run_append {c : Char → Bool} {w s : List Char} (hw : ∀ x ∈ w, c x)
    (hs : Ends c s) : (w ++ s).takeWhile c = w ∧ (w ++ s).dropWhile c = s := by
  induction w with
  | nil =>
    cases s with
    | nil => simp
    | cons y s => simp [List.takeWhile_cons, List.dropWhile_cons, hs y rfl]
  | cons x w ih =>
    obtain ⟨h₁, h₂⟩ := ih fun y hy => hw y (List.mem_cons_of_mem _ hy)
    simp [List.takeWhile_cons, List.dropWhile_cons, hw x (List.mem_cons_self _ _), h₁, h₂]

theorem run_takeWhile (c : Char → Bool) (s : List Char) : ∀ x ∈ s.takeWhile c, c x :=
  fun _ hx => List.mem_takeWhile_imp hx

theorem ends_dropWhile (c : Char → Bool) (s : List Char) : Ends c (s.dropWhile c) := by
  induction s with
  | nil => simp [Ends]
  | cons x s ih => by_cases hx : c x <;> simp_all [Ends, List.dropWhile_cons]

theorem isSpace_of_isHex {x : Char} (h : isHex x) : isSpace x = false := by
  simp only [isHex, Bool.or_eq_true, Bool.and_eq_true, decide_eq_true_eq] at h
  unfold isSpace
  simp only [Bool.or_eq_false_iff, Bool.and_eq_false_iff, decide_eq_false_iff_not,
    beq_eq_false_iff_ne]
  omega

theorem isHex_of_isSpace {x : Char} (h : isSpace x) : isHex x = false := by
  cases hx : isHex x
  · rfl
  · simp [isSpace_of_isHex hx] at h

theorem ends_of_run {c d : Char → Bool} (h : ∀ x, d x → c x = false) {w t : List Char}
    (hw : Run d w) : Ends c (w ++ t) := by
  obtain ⟨hne, hall⟩ := hw
  cases w with
  | nil => contradiction
  | cons x w => simp [Ends, h x (hall x (by simp))]

theorem mem_plusSteps {c : Char → Bool} {s t r : List Char} (h : (t, r) ∈ plusSteps c s) :
    t ++ r = s ∧ Run c t := by
  induction s generalizing t r with
  | nil => simp [plusSteps] at h
  | cons x s ih =>
    simp only [plusSteps] at h
    split at h
    · simp only [List.mem_append, List.mem_map, List.mem_singleton, Prod.mk.injEq] at h
      rcases h with ⟨⟨t', r'⟩, hm, rfl, rfl⟩ | ⟨rfl, rfl⟩
      · obtain ⟨rfl, -, h3⟩ := ih hm
        exact ⟨rfl, List.cons_ne_nil _ _, by simp_all⟩
      · exact ⟨rfl, List.cons_ne_nil _ _, by simp_all⟩
    · simp at h

theorem plusSteps_cases (c : Char → Bool) (s : List Char) :
    (s.takeWhile c = [] ∧ plusSteps c s = []) ∨
    (s.takeWhile c ≠ [] ∧ ∃ tl, plusSteps c s = (s.takeWhile c, s.dropWhile c) :: tl ∧
      ∀ p ∈ tl, ∃ x r, p.2 = x :: r ∧ c x) := by
  induction s with
  | nil => simp [plusSteps]
  | cons x s ih =>
    by_cases hx : c x
    · right
      refine ⟨by simp [List.takeWhile_cons, hx], ?_⟩
      rcases ih with ⟨h0, h1⟩ | ⟨h0, tl, h1, h2⟩
      · refine ⟨[], ?_, by simp⟩
        have hd : s.dropWhile c = s := by
          simpa [h0] using List.takeWhile_append_dropWhile c s
        simp [plusSteps, hx, h1, List.takeWhile_cons, List.dropWhile_cons, h0, hd]
      · refine ⟨tl.map (fun p => (x :: p.1, p.2)) ++ [([x], s)], ?_, ?_⟩
        · simp [plusSteps, hx, h1, List.takeWhile_cons, List.dropWhile_cons]
        · intro p hp
          simp only [List.mem_append, List.mem_map, List.mem_singleton] at hp
          rcases hp with ⟨q, hq, rfl⟩ | rfl
          · exact h2 q hq
          · cases s with
            | nil => simp at h0
            | cons y s =>
              by_cases hy : c y
              · exact ⟨y, s, rfl, hy⟩
              · simp [List.takeWhile_cons, hy] at h0
    · left
      simp [plusSteps, hx, List.takeWhile_cons]

theorem findSome?_singleton {α β : Type} (f : α → Option β) (a : α) :
    [a].findSome? f = f a := by
  cases h : f a <;> simp [List.findSome?_cons, h]

theorem findSome?_pair {α β : Type} (f : α → Option β) (a b : α) (hb : f b = none) :
    [a, b].findSome? f = f a := by
  cases h : f a <;> simp [List.findSome?_cons, h, hb]

theorem Atom.mem_steps {a : Atom} {prev : Option Char} {s t r : List Char}
    (h : (t, r) ∈ a.steps prev s) : a.Accepts t ∧ t ++ r = s := by
  cases a with
  | bol => simp only [Atom.steps] at h; split at h <;> simp_all [Atom.Accepts]
  | lit l =>
    simp only [Atom.steps] at h
    split at h
    · simp only [List.mem_singleton, Prod.mk.injEq] at h
      obtain ⟨rfl, rfl⟩ := h
      exact ⟨rfl, List.prefix_iff_eq_append.mp (List.isPrefixOf_iff_prefix.mp ‹_›)⟩
    · simp at h
  | alt ls =>
    simp only [Atom.steps, List.mem_filterMap] at h
    obtain ⟨l, hl, he⟩ := h
    split at he
    · simp only [Option.some.injEq, Prod.mk.injEq] at he
      obtain ⟨rfl, rfl⟩ := he
      exact ⟨hl, List.prefix_iff_eq_append.mp (List.isPrefixOf_iff_prefix.mp ‹_›)⟩
    · simp at he
  | plus c => exact (mem_plusSteps h).symm
  | opt c =>
    cases s with
    | nil => simp_all [Atom.steps, Atom.Accepts]
    | cons x s =>
      simp only [Atom.steps] at h
      split at h
      · simp only [List.mem_cons, List.mem_singleton, Prod.mk.injEq, List.not_mem_nil,
          or_false] at h
        rcases h with ⟨rfl, rfl⟩ | ⟨rfl, rfl⟩ <;> simp_all [Atom.Accepts]
      · simp_all [Atom.Accepts]
  | mark _ => simp_all [Atom.steps, Atom.Accepts]

/-- Every match splits the text into what each atom may consume, and the rest. -/
theorem matchAt_sound {ps : List Atom} {prev : Option Char} {s r : List Char}
    {ts : List (List Char)} (h : matchAt ps prev s = some (ts, r)) :
    List.Forall₂ Atom.Accepts ps ts ∧ ts.flatten ++ r = s := by
  induction ps generalizing prev s ts with
  | nil =>
    simp only [matchAt, Option.some.injEq, Prod.mk.injEq] at h
    obtain ⟨rfl, rfl⟩ := h
    simp
  | cons a ps ih =>
    obtain ⟨⟨t, r₀⟩, hmem, hk⟩ := List.exists_of_findSome?_eq_some h
    obtain ⟨⟨ts', r'⟩, hm, he⟩ := Option.map_eq_some'.mp hk
    simp only [Prod.mk.injEq] at he
    obtain ⟨rfl, rfl⟩ := he
    obtain ⟨ha, rfl⟩ := Atom.mem_steps hmem
    obtain ⟨hf, rfl⟩ := ih hm
    exact ⟨.cons ha hf, by simp⟩

/-- `ps` fails on every text that starts with a `c` character, so a greedy `c+`
just before it gains nothing by giving characters back. -/
def Guarded (c : Char → Bool) (ps : List Atom) : Prop :=
  ∀ prev x s, c x → matchAt ps prev (x :: s) = none

theorem matchAt_plus {c : Char → Bool} {ps : List Atom}
    (h : Guarded c ps ∨ ∀ prev s, (matchAt ps prev s).isSome)
    (prev : Option Char) (s : List Char) :
    matchAt (.plus c :: ps) prev s =
      if s.takeWhile c = [] then none
      else (matchAt ps (advance prev (s.takeWhile c)) (s.dropWhile c)).map
        fun m => (s.takeWhile c :: m.1, m.2) := by
  rcases plusSteps_cases c s with ⟨h0, h1⟩ | ⟨h0, tl, h1, h2⟩
  · simp [matchAt, Atom.steps, h0, h1]
  · simp only [matchAt, Atom.steps, h1, h0, if_false, List.findSome?_cons]
    cases hF : matchAt ps (advance prev (s.takeWhile c)) (s.dropWhile c) with
    | some m => simp [hF]
    | none =>
      rcases h with hg | hs
      · simp only [hF, Option.map_none', List.findSome?_eq_none_iff]
        intro p hp
        obtain ⟨x, r, hr, hx⟩ := h2 p hp
        obtain ⟨t, r'⟩ := p
        simp only at hr
        simp [hr, hg _ x r hx]
      · simpa [hF] using hs (advance prev (s.takeWhile c)) (s.dropWhile c)

theorem matchAt_plus_eq_some {c : Char → Bool} {ps : List Atom}
    (h : Guarded c ps ∨ ∀ prev s, (matchAt ps prev s).isSome) {prev : Option Char}
    {s r : List Char} {ts : List (List Char)} :
    matchAt (.plus c :: ps) prev s = some (ts, r) ↔
      ∃ w s' ts', s = w ++ s' ∧ Run c w ∧ Ends c s' ∧
        matchAt ps (advance prev w) s' = some (ts', r) ∧ ts = w :: ts' := by
  rw [matchAt_plus h]
  constructor
  · intro hm
    split at hm
    · simp at hm
    obtain ⟨⟨ts', r'⟩, hm', he⟩ := Option.map_eq_some'.mp hm
    simp only [Prod.mk.injEq] at he
    obtain ⟨rfl, rfl⟩ := he
    exact ⟨_, _, ts', (List.takeWhile_append_dropWhile c s).symm,
      ⟨‹_›, run_takeWhile c s⟩, ends_dropWhile c s, hm', rfl⟩
  · rintro ⟨w, s', ts', rfl, ⟨hw, hc⟩, he, hm, rfl⟩
    obtain ⟨h1, h2⟩ := takeWhile_run_append hc he
    simp [h1, h2, hw, hm]

/-- The longest run of a greedy `+` is tried first, so it wins when what follows matches. -/
theorem matchAt_plus_longest {c : Char → Bool} {ps : List Atom} {prev : Option Char}
    {w s' r : List Char} {ts : List (List Char)} (hw : Run c w) (he : Ends c s')
    (hm : matchAt ps (advance prev w) s' = some (ts, r)) :
    matchAt (.plus c :: ps) prev (w ++ s') = some (w :: ts, r) := by
  obtain ⟨h₁, h₂⟩ := takeWhile_run_append hw.2 he
  rcases plusSteps_cases c (w ++ s') with ⟨h, -⟩ | ⟨-, tl, h, -⟩
  · exact absurd (h₁ ▸ h) hw.1
  · simp [matchAt, Atom.steps, h, h₁, h₂, hm]

theorem matchAt_lit_eq_some {l : List Char} {ps : List Atom} {prev : Option Char}
    {s r : List Char} {ts : List (List Char)} :
    matchAt (.lit l :: ps) prev s = some (ts, r) ↔
      ∃ s' ts', s = l ++ s' ∧ matchAt ps (advance prev l) s' = some (ts', r) ∧
        ts = l :: ts' := by
  simp only [matchAt, Atom.steps]
  split
  · rename_i hp
    obtain ⟨s', rfl⟩ : ∃ s', s = l ++ s' :=
      ⟨_, (List.prefix_iff_eq_append.mp (List.isPrefixOf_iff_prefix.mp hp)).symm⟩
    simp only [List.drop_left, findSome?_singleton, Option.map_eq_some', Prod.mk.injEq]
    constructor
    · rintro ⟨⟨ts', r'⟩, hm, rfl, rfl⟩
      exact ⟨s', ts', rfl, hm, rfl⟩
    · rintro ⟨s'', ts', he, hm, rfl⟩
      obtain rfl := List.append_cancel_left he
      exact ⟨(ts', r), hm, rfl, rfl⟩
  · rename_i hp
    simp only [List.findSome?_nil, false_iff, not_exists, not_and, reduceCtorEq]
    rintro s' ts' rfl
    simp at hp

theorem matchAt_mark {b : Bool} (ps : List Atom) (prev : Option Char) (s : List Char) :
    matchAt (.mark b :: ps) prev s = (matchAt ps prev s).map fun m => ([] :: m.1, m.2) := by
  simp [matchAt, Atom.steps, advance, findSome?_singleton]

theorem matchAt_bol (ps : List Atom) (prev : Option Char) (s : List Char) :
    matchAt (.bol :: ps) prev s =
      if lineStart prev then (matchAt ps prev s).map fun m => ([] :: m.1, m.2) else none := by
  by_cases h : lineStart prev <;> simp [matchAt, Atom.steps, h, advance, findSome?_singleton]

theorem map_cons_nil_eq_some {o : Option (List (List Char) × List Char)} {ts : List (List Char)}
    {r : List Char} :
    o.map (fun m => ([] :: m.1, m.2)) = some (ts, r) ↔
      ∃ ts', o = some (ts', r) ∧ ts = [] :: ts' := by
  cases o with
  | none => simp
  | some m =>
    obtain ⟨ts', r'⟩ := m
    simp only [Option.map_some', Option.some.injEq, Prod.mk.injEq]
    constructor
    · rintro ⟨rfl, rfl⟩
      exact ⟨ts', ⟨rfl, rfl⟩, rfl⟩
    · rintro ⟨_, ⟨rfl, rfl⟩, rfl⟩
      exact ⟨rfl, rfl⟩

theorem matchAt_mark_eq_some {b : Bool} {ps : List Atom} {prev : Option Char} {s r : List Char}
    {ts : List (List Char)} :
    matchAt (.mark b :: ps) prev s = some (ts, r) ↔
      ∃ ts', matchAt ps prev s = some (ts', r) ∧ ts = [] :: ts' := by
  rw [matchAt_mark, map_cons_nil_eq_some]

theorem matchAt_bol_eq_some {ps : List Atom} {prev : Option Char} {s r : List Char}
    {ts : List (List Char)} :
    matchAt (.bol :: ps) prev s = some (ts, r) ↔
      lineStart prev ∧ ∃ ts', matchAt ps prev s = some (ts', r) ∧ ts = [] :: ts' := by
  rw [matchAt_bol]
  by_cases h : lineStart prev
  · simp only [h, if_true, map_cons_nil_eq_some, true_and]
  · simp [h]

theorem matchAt_opt_eq_some {d : Char → Bool} {ps : List Atom} (hg : Guarded d ps)
    {prev : Option Char} {s r : List Char} {ts : List (List Char)} :
    matchAt (.opt d :: ps) prev s = some (ts, r) ↔
      ∃ mk s' ts', s = mk ++ s' ∧ (mk = [] ∧ Ends d s' ∨ ∃ x, mk = [x] ∧ d x) ∧
        matchAt ps (advance prev mk) s' = some (ts', r) ∧ ts = mk :: ts' := by
  cases s with
  | nil =>
    simp only [matchAt, Atom.steps, findSome?_singleton, Option.map_eq_some', Prod.mk.injEq]
    constructor
    · rintro ⟨⟨ts', r'⟩, hm, rfl, rfl⟩
      exact ⟨[], [], ts', rfl, .inl ⟨rfl, by simp [Ends]⟩, hm, rfl⟩
    · rintro ⟨mk, s', ts', he, -, hm, rfl⟩
      obtain ⟨rfl, rfl⟩ := List.append_eq_nil.mp he.symm
      exact ⟨(ts', r), hm, rfl, rfl⟩
  | cons x s =>
    by_cases hx : d x
    · simp only [matchAt, Atom.steps, hx, if_true]
      rw [findSome?_pair]
      swap; · simp [hg _ x s hx]
      simp only [Option.map_eq_some', Prod.mk.injEq]
      constructor
      · rintro ⟨⟨ts', r'⟩, hm, rfl, rfl⟩
        exact ⟨[x], s, ts', rfl, .inr ⟨x, rfl, hx⟩, hm, rfl⟩
      · rintro ⟨mk, s', ts', he, (⟨rfl, hend⟩ | ⟨y, rfl, -⟩), hm, rfl⟩
        · rw [List.nil_append] at he
          simp [Ends, ← he, hx] at hend
        · obtain ⟨rfl, rfl⟩ := List.cons.inj he
          exact ⟨_, hm, rfl, rfl⟩
    · simp only [matchAt, Atom.steps, hx, Bool.false_eq_true, if_false, findSome?_singleton,
        Option.map_eq_some', Prod.mk.injEq]
      constructor
      · rintro ⟨⟨ts', r'⟩, hm, rfl, rfl⟩
        exact ⟨[], x :: s, ts', rfl, .inl ⟨rfl, by simpa [Ends] using hx⟩, hm, rfl⟩
      · rintro ⟨mk, s', ts', he, (⟨rfl, -⟩ | ⟨y, rfl, hy⟩), hm, rfl⟩
        · rw [List.nil_append] at he
          subst he
          exact ⟨_, hm, rfl, rfl⟩
        · obtain ⟨rfl, rfl⟩ := List.cons.inj he
          exact absurd hy hx

theorem guarded_plus {c d : Char → Bool} {ps : List Atom} (h : ∀ x, c x → d x = false) :
    Guarded c (.plus d :: ps) := by
  intro prev x s hx
  simp [matchAt, Atom.steps, plusSteps, h x hx]

theorem guarded_lit {c : Char → Bool} {y : Char} {l : List Char} {ps : List Atom}
    (h : c y = false) :
    Guarded c (.lit (y :: l) :: ps) := by
  intro prev x s hx
  have hxy : y ≠ x := by rintro rfl; simp_all
  simp [matchAt, Atom.steps, List.isPrefixOf_cons₂, hxy]

theorem guarded_mark {c : Char → Bool} {b : Bool} {ps : List Atom} (h : Guarded c ps) :
    Guarded c (.mark b :: ps) := by
  intro prev x s hx
  simp [matchAt_mark, h prev x s hx]

theorem guarded_opt {c d : Char → Bool} {ps : List Atom} (hd : ∀ x, c x → d x = false)
    (h : Guarded c ps) : Guarded c (.opt d :: ps) := by
  intro prev x s hx
  simp [matchAt, Atom.steps, hd x hx, advance, h prev x s hx]

theorem search_of_matchAt {ps : List Atom} {prev : Option Char} {s : List Char}
    {m : List (List Char) × List Char} (h : matchAt ps prev s = some m) :
    search ps prev s = some m := by
  cases s <;> simp [search, h]

theorem search_drop {ps : List Atom} : ∀ {q : Nat} {prev : Option Char} {T : List Char},
    q ≤ T.length → (∀ p < q, ∀ prev', matchAt ps prev' (T.drop p) = none) →
    ∃ prev', search ps prev T = search ps prev' (T.drop q)
  | 0, prev, _, _, _ => ⟨prev, rfl⟩
  | _ + 1, _, [], hq, _ => by simp at hq
  | q + 1, prev, x :: T, hq, h => by
    obtain ⟨prev', he⟩ := @search_drop ps q (some x) T (by simpa using hq)
      (fun p hp prev' => by simpa using h (p + 1) (by omega) prev')
    have h0 : matchAt ps prev (x :: T) = none := h 0 (by omega) prev
    exact ⟨prev', by simpa [search, h0] using he⟩

theorem search_eq_none {ps : List Atom} {prev : Option Char} {T : List Char}
    (h : ∀ p ≤ T.length, ∀ prev', matchAt ps prev' (T.drop p) = none) :
    search ps prev T = none := by
  induction T generalizing prev with
  | nil => simpa [search] using h 0 (by simp) prev
  | cons x T ih =>
    have h0 : matchAt ps prev (x :: T) = none := h 0 (by simp) prev
    simp only [search, h0, Option.none_or]
    exact ih fun p hp prev' => by simpa using h (p + 1) (by simpa using hp) prev'

theorem mem_scan {ps : List Atom} {ts : List (List Char)} :
    ∀ {k prev s}, ts ∈ scan ps k prev s → ∃ prev' s' r, matchAt ps prev' s' = some (ts, r)
  | 0, prev, [], h => by
    unfold scan at h
    split at h
    · rename_i heq
      obtain rfl := List.mem_singleton.mp h
      exact ⟨_, _, _, heq⟩
    · simp at h
  | _ + 1, _, [], h => by simp [scan] at h
  | _ + 1, _, _ :: _, h => mem_scan (by simpa [scan] using h)
  | 0, prev, x :: s, h => by
    unfold scan at h
    split at h
    · rename_i heq
      rcases List.mem_cons.mp h with rfl | h
      · exact ⟨_, _, _, heq⟩
      · exact mem_scan h
    · exact mem_scan h

theorem scan_eq_nil {ps : List Atom} :
    ∀ {k : Nat} {prev : Option Char} {s : List Char},
      (∀ s', s' <:+ s → ∀ prev', matchAt ps prev' s' = none) → scan ps k prev s = []
  | 0, prev, [], h => by simp [scan, h [] (List.suffix_refl _) prev]
  | _ + 1, _, [], _ => by simp [scan]
  | _ + 1, _, x :: s, h => by
    rw [scan]
    exact scan_eq_nil fun s' hs => h s' (hs.trans (List.suffix_cons x s))
  | 0, prev, x :: s, h => by
    rw [scan, h _ (List.suffix_refl _) prev]
    exact scan_eq_nil fun s' hs => h s' (hs.trans (List.suffix_cons x s))

def SeqAccepts (as : List Atom) (t : List Char) : Prop :=
  ∃ ts, List.Forall₂ Atom.Accepts as ts ∧ t = ts.flatten

def groupAtomsFrom : Option (List Atom) → List Atom → List (List Atom)
  | _, .lpar :: ps => groupAtomsFrom (some []) ps
  | some g, .rpar :: ps => g :: groupAtomsFrom none ps
  | some g, a :: ps => groupAtomsFrom (some (g ++ [a])) ps
  | none, _ :: ps => groupAtomsFrom none ps
  | _, [] => []

def AccAccepts : Option (List Atom) → Option (List Char) → Prop
  | none, none => True
  | some as, some t => SeqAccepts as t
  | _, _ => False

theorem seqAccepts_snoc {as : List Atom} {a : Atom} {g t : List Char} (hg : SeqAccepts as g)
    (ha : a.Accepts t) : SeqAccepts (as ++ [a]) (g ++ t) := by
  obtain ⟨ts, hf, rfl⟩ := hg
  exact ⟨ts ++ [t], List.rel_append hf (.cons ha .nil), by simp⟩

theorem seqAccepts_nil {t : List Char} : SeqAccepts [] t ↔ t = [] := by
  constructor
  · rintro ⟨ts, hf, rfl⟩
    obtain rfl := List.forall₂_nil_left_iff.mp hf
    rfl
  · rintro rfl
    exact ⟨[], .nil, rfl⟩

theorem seqAccepts_cons {a : Atom} {as : List Atom} {t : List Char} :
    SeqAccepts (a :: as) t ↔
      ∃ t₁ t₂, a.Accepts t₁ ∧ SeqAccepts as t₂ ∧ t = t₁ ++ t₂ := by
  constructor
  · rintro ⟨ts, hf, rfl⟩
    obtain ⟨t₁, ts', ha, hf', rfl⟩ := List.forall₂_cons_left_iff.mp hf
    exact ⟨t₁, _, ha, ⟨ts', hf', rfl⟩, rfl⟩
  · rintro ⟨t₁, _, ha, ⟨ts', hf', rfl⟩, rfl⟩
    exact ⟨t₁ :: ts', .cons ha hf', rfl⟩

theorem seqAccepts_single {a : Atom} {t : List Char} : SeqAccepts [a] t ↔ a.Accepts t := by
  simp [seqAccepts_cons, seqAccepts_nil]

/-- Each group's text is what the atoms between its parentheses accept. -/
theorem groupsFrom_accepts {ps : List Atom} {ts : List (List Char)}
    (h : List.Forall₂ Atom.Accepts ps ts) :
    ∀ {oa ot}, AccAccepts oa ot →
      List.Forall₂ SeqAccepts (groupAtomsFrom oa ps) (groupsFrom ot ps ts) := by
  induction h with
  | nil => intro oa ot _; cases oa <;> cases ot <;> exact .nil
  | @cons a t ps ts hat _ ih =>
    intro oa ot hacc
    have hnil : AccAccepts (some []) (some []) := ⟨[], .nil, rfl⟩
    cases oa <;> cases ot <;> simp only [AccAccepts] at hacc
    · cases a
      case mark b =>
        cases b
        · exact ih trivial
        · exact ih hnil
      all_goals exact ih trivial
    · cases a
      case mark b =>
        cases b
        · exact .cons hacc (ih trivial)
        · exact ih hnil
      all_goals exact ih (seqAccepts_snoc hacc hat)

end VerifyMap.Regex
