import VerifyMap.Regex
import Mathlib.Data.List.Nodup
import Mathlib.Data.List.Infix
import Mathlib.Tactic.NormNum

/-! The Python built-ins the verifier leans on: `int(s, 16)` (`hexValue`), the `X` and `,`
format specs, the `repr` of a list, `str.upper`, `rstrip`, `replace` and `in`, and `dict`
with its insertion order (`d[k] = v` is `setItem`: a new key goes last, an old one keeps its
place). Two of them raise on a huge int: `a / b` past the float range, and `format(n, ',')`
past `sys.int_info.default_max_str_digits`. -/
namespace VerifyMap.Python
open Regex

def hexDigitValue (c : Char) : Nat :=
  if c ≤ '9' then c.toNat - '0'.toNat
  else if c ≤ 'F' then c.toNat - 'A'.toNat + 10
  else c.toNat - 'a'.toNat + 10

def hexValue (s : List Char) : Nat := s.foldl (fun n c => 16 * n + hexDigitValue c) 0

def formatX (n : Nat) : String := ⟨(Nat.toDigits 16 n).map Char.toUpper⟩

def commaRev : List Char → List Char
  | a :: b :: c :: d :: rest => a :: b :: c :: ',' :: commaRev (d :: rest)
  | ds => ds

def formatComma (n : Int) : String :=
  let s := (commaRev (Nat.toDigits 10 n.natAbs).reverse).reverse
  ⟨if n < 0 then '-' :: s else s⟩

def reprList (xs : List String) : String :=
  "[" ++ ", ".intercalate (xs.map fun x => "'" ++ x ++ "'") ++ "]"

def upper (s : String) : String := ⟨s.data.map Char.toUpper⟩

def rstrip (s : String) (c : Char) : String := ⟨(s.data.reverse.dropWhile (· == c)).reverse⟩

def replaceFrom (old new : List Char) : Nat → List Char → List Char
  | _, [] => []
  | k + 1, _ :: s => replaceFrom old new k s
  | 0, x :: s =>
    if old.isPrefixOf (x :: s) then new ++ replaceFrom old new (old.length - 1) s
    else x :: replaceFrom old new 0 s

def replace (s old new : String) : String := ⟨replaceFrom old.data new.data 0 s.data⟩

def contains (s sub : String) : Bool := decide (sub.data <:+: s.data)

inductive PyException where
  | overflowError
  | valueError
  deriving DecidableEq

def raiseOr {α : Type} : Option PyException → α → Except PyException α
  | some e, _ => .error e
  | none, a => .ok a

/-- `a / b` rounds the quotient to a double and raises `OverflowError` when it rounds to
`2 ^ 1024` or more: from the midpoint `2 ^ 1024 - 2 ^ 970` of the largest double and
`2 ^ 1024` on, a tie going to the even neighbour. -/
def trueDivOverflows (a b : Nat) : Bool := decide (b * (2 ^ 1024 - 2 ^ 970) ≤ a)

def maxStrDigits : Nat := 4300

/-- `format(n, ',')` raises `ValueError` on an int of more than `maxStrDigits` digits. -/
def strDigitsExceeded (n : Int) : Bool := decide (10 ^ maxStrDigits ≤ n.natAbs)

theorem raiseOr_eq_ok {α : Type} {g : Option PyException} {a b : α} :
    raiseOr g a = .ok b ↔ g = none ∧ a = b := by
  cases g <;> simp [raiseOr]

theorem raiseOr_bind {α β : Type} (g : Option PyException) (a : α)
    (f : α → Except PyException β) : raiseOr g a >>= f = (g.map .error).getD (f a) := by
  cases g <;> rfl

theorem ok_bind {α β : Type} (a : α) (f : α → Except PyException β) :
    (Except.ok a : Except PyException α) >>= f = f a := rfl

theorem raiseOr_eq (g : Option PyException) {α : Type} (a : α) :
    raiseOr g a = (g.map .error).getD (.ok a) := by
  cases g <;> rfl

theorem trueDivOverflows_1024 (a : Nat) :
    trueDivOverflows a 1024 = decide (2 ^ 1034 - 2 ^ 980 ≤ a) := by
  rw [trueDivOverflows, show 1024 * (2 ^ 1024 - 2 ^ 970) = 2 ^ 1034 - 2 ^ 980 by norm_num]

theorem trueDivOverflows_eq_false {a : Nat} (h : a < 2 ^ 1034 - 2 ^ 980) :
    trueDivOverflows a 1024 = false := by
  rw [trueDivOverflows_1024, decide_eq_false_iff_not, Nat.not_le]
  exact h

theorem strDigitsExceeded_eq_false {n : Int} (h : n.natAbs < 2 ^ 1034 - 2 ^ 980) :
    strDigitsExceeded n = false := by
  have hb : 2 ^ 1034 - 2 ^ 980 ≤ 10 ^ maxStrDigits := by rw [maxStrDigits]; norm_num
  rw [strDigitsExceeded, decide_eq_false_iff_not, Nat.not_le]
  exact h.trans_le hb

def setItem {V : Type} (k : String) (v : V) : List (String × V) → List (String × V)
  | [] => [(k, v)]
  | (k', v') :: rest => if k' = k then (k, v) :: rest else (k', v') :: setItem k v rest

theorem keys_setItem {V : Type} (k : String) (v : V) (items : List (String × V)) :
    (setItem k v items).map Prod.fst =
      if k ∈ items.map Prod.fst then items.map Prod.fst else items.map Prod.fst ++ [k] := by
  induction items with
  | nil => simp [setItem]
  | cons kv rest ih =>
    obtain ⟨k', v'⟩ := kv
    by_cases h : k' = k
    · simp [setItem, h]
    · by_cases hk : k ∈ rest.map Prod.fst <;> simp_all [setItem, eq_comm]

theorem lookup_cons_eq {V : Type} (k' j : String) (w : V) (rest : List (String × V)) :
    ((j, w) :: rest).lookup k' = if k' = j then some w else rest.lookup k' := by
  rw [List.lookup_cons]
  cases hb : k' == j <;> simp_all [beq_iff_eq]

theorem setItem_of_not_mem {V : Type} {k : String} {v : V} :
    ∀ {items : List (String × V)}, k ∉ items.map Prod.fst → setItem k v items = items ++ [(k, v)]
  | [], _ => rfl
  | (k', v') :: rest, h => by
    simp only [List.map_cons, List.mem_cons, not_or] at h
    simp [setItem, Ne.symm h.1, setItem_of_not_mem h.2]

theorem mem_setItem {V : Type} {k : String} {v : V} {e : String × V} :
    ∀ {items : List (String × V)}, e ∈ setItem k v items → e = (k, v) ∨ e ∈ items
  | [], h => by simp_all [setItem]
  | (j, w) :: rest, h => by
    simp only [setItem] at h
    split at h
    · rcases List.mem_cons.mp h with h | h
      · exact .inl h
      · exact .inr (List.mem_cons_of_mem _ h)
    · rcases List.mem_cons.mp h with h | h
      · exact .inr (h ▸ List.mem_cons_self _ _)
      · exact (mem_setItem h).imp_right (List.mem_cons_of_mem _)

theorem lookup_eq_some_iff {V : Type} : ∀ {items : List (String × V)},
    (items.map Prod.fst).Nodup → ∀ {k : String} {v : V}, items.lookup k = some v ↔ (k, v) ∈ items
  | [], _, _, _ => by simp
  | (j, w) :: rest, hnd, k, v => by
    rw [List.map_cons, List.nodup_cons] at hnd
    rw [lookup_cons_eq, List.mem_cons, Prod.mk.injEq]
    by_cases h : k = j
    · subst h
      have hv : (k, v) ∉ rest := fun hm => hnd.1 (List.mem_map.mpr ⟨_, hm, rfl⟩)
      simp [hv, eq_comm]
    · simp [h, lookup_eq_some_iff hnd.2]

/-- A `dict` keyed by `str`: its items in insertion order, no key twice. -/
structure Dict (V : Type) where
  items : List (String × V)
  nodup : (items.map Prod.fst).Nodup

namespace Dict
variable {V : Type}

def empty : Dict V := ⟨[], List.nodup_nil⟩

def set (d : Dict V) (k : String) (v : V) : Dict V where
  items := setItem k v d.items
  nodup := by
    rw [keys_setItem]
    split
    · exact d.nodup
    · exact d.nodup.append (List.nodup_singleton k) (List.disjoint_singleton.mpr ‹_›)

def get? (d : Dict V) (k : String) : Option V := d.items.lookup k

@[simp] theorem get?_empty (k : String) : (empty : Dict V).get? k = none := rfl

theorem get?_eq_some_iff (d : Dict V) {k : String} {v : V} :
    d.get? k = some v ↔ (k, v) ∈ d.items :=
  lookup_eq_some_iff d.nodup

theorem get?_congr {d d' : Dict V} (h : ∀ e, e ∈ d.items ↔ e ∈ d'.items) (k : String) :
    d.get? k = d'.get? k :=
  Option.ext fun v => by rw [Option.mem_def, Option.mem_def, get?_eq_some_iff, get?_eq_some_iff, h]

theorem mem_items_set {d : Dict V} {k : String} {v : V} {e : String × V}
    (h : e ∈ (d.set k v).items) : e = (k, v) ∨ e ∈ d.items :=
  mem_setItem h

/-- Writing the entries that items yield, one item after another. -/
theorem foldl_writes {α : Type} (f : α → Option (String × V)) :
    ∀ (xs : List α) (d : Dict V),
      xs.foldl (fun d x => ((f x).map fun e => d.set e.1 e.2).getD d) d =
        (xs.filterMap f).foldl (fun d e => d.set e.1 e.2) d
  | [], _ => rfl
  | x :: xs, d => by
    rw [List.foldl_cons, foldl_writes f xs, List.filterMap_cons]
    cases f x <;> rfl

theorem mem_items_foldl {α : Type} (key : α → String) (val : α → V) :
    ∀ (ms : List α) (d : Dict V) (e : String × V),
      e ∈ (ms.foldl (fun d m => d.set (key m) (val m)) d).items →
        e ∈ d.items ∨ ∃ m ∈ ms, e = (key m, val m)
  | [], _, _, h => .inl h
  | m :: ms, d, e, h => by
    rcases mem_items_foldl key val ms _ e h with h | ⟨m', hm', rfl⟩
    · rcases mem_items_set h with rfl | h
      · exact .inr ⟨m, List.mem_cons_self _ _, rfl⟩
      · exact .inl h
    · exact .inr ⟨m', List.mem_cons_of_mem _ hm', rfl⟩

theorem items_foldl_fresh {α : Type} (key : α → String) (val : α → V) :
    ∀ (ms : List α) (d : Dict V), (ms.map key).Nodup →
      (∀ m ∈ ms, key m ∉ d.items.map Prod.fst) →
      (ms.foldl (fun d m => d.set (key m) (val m)) d).items =
        d.items ++ ms.map fun m => (key m, val m)
  | [], d, _, _ => by simp
  | m :: ms, d, hnd, hfresh => by
    have hm := setItem_of_not_mem (v := val m) (hfresh m (List.mem_cons_self _ _))
    rw [List.map_cons, List.nodup_cons] at hnd
    rw [List.foldl_cons, items_foldl_fresh key val ms _ hnd.2]
    · simp [set, hm]
    · intro m' hm'
      simp only [set, hm, List.map_append, List.map_cons, List.map_nil, List.mem_append,
        List.mem_singleton, not_or]
      exact ⟨hfresh m' (List.mem_cons_of_mem _ hm'),
        fun he => hnd.1 (he ▸ List.mem_map_of_mem key hm')⟩

end Dict

end VerifyMap.Python
