import Mathlib.Data.List.Basic

/-! The fragment of Python's `re` that `verify_map.py` uses. A pattern is a flat
sequence of atoms, tried by greedy backtracking as `sre` does: every atom lists
the ways it can consume a prefix, best first, and the first way whose
continuation matches wins. The classes are those of a `str` pattern: `\s` is what
`str.isspace` accepts, `\w` is `str.isalnum` or the underscore, `\d` a Unicode decimal
digit, and `^` under `re.MULTILINE` holds at the start of the text or after a newline. -/
namespace VerifyMap.Regex

/-- What `re` reads of the Unicode database beyond ASCII: `str.isalnum` decides
`\w` and `str.isdecimal` decides `\d` on non-ASCII characters. -/
structure Unicode where
  isalnum : Char → Bool
  isdecimal : Char → Bool

def isHex (c : Char) : Bool :=
  let n := c.toNat
  (48 ≤ n && n ≤ 57) || (65 ≤ n && n ≤ 70) || (97 ≤ n && n ≤ 102)

def isSpace (c : Char) : Bool :=
  let n := c.toNat
  (9 ≤ n && n ≤ 13) || (28 ≤ n && n ≤ 32) || n == 0x85 || n == 0xA0 || n == 0x1680 ||
    (0x2000 ≤ n && n ≤ 0x200A) || n == 0x2028 || n == 0x2029 || n == 0x202F ||
    n == 0x205F || n == 0x3000

def isWord (u : Unicode) (c : Char) : Bool :=
  if c.toNat < 128 then c.isAlphanum || c == '_' else u.isalnum c

def isDigit (u : Unicode) (c : Char) : Bool :=
  if c.toNat < 128 then c.isDigit else u.isdecimal c

inductive Atom where
  | bol
  | lit (s : List Char)
  | alt (ss : List (List Char))
  | plus (c : Char → Bool)
  | opt (c : Char → Bool)
  | mark (opening : Bool)

@[match_pattern] abbrev Atom.lpar : Atom := .mark true

@[match_pattern] abbrev Atom.rpar : Atom := .mark false

def lineStart : Option Char → Bool
  | none => true
  | some c => c == '\n'

def advance (prev : Option Char) (t : List Char) : Option Char := t.getLast?.or prev

def plusSteps (c : Char → Bool) : List Char → List (List Char × List Char)
  | [] => []
  | x :: s => if c x then (plusSteps c s).map (fun (t, r) => (x :: t, r)) ++ [([x], s)] else []

def Atom.steps (prev : Option Char) (s : List Char) : Atom → List (List Char × List Char)
  | .bol => if lineStart prev then [([], s)] else []
  | .lit l => if l.isPrefixOf s then [(l, s.drop l.length)] else []
  | .alt ls => ls.filterMap fun l => if l.isPrefixOf s then some (l, s.drop l.length) else none
  | .plus c => plusSteps c s
  | .opt c =>
    match s with
    | x :: r => if c x then [([x], r), ([], x :: r)] else [([], x :: r)]
    | [] => [([], [])]
  | .mark _ => [([], s)]

/-- A match at the front of `s`: the text each atom consumed, and what is left. -/
def matchAt : List Atom → Option Char → List Char → Option (List (List Char) × List Char)
  | [], _, s => some ([], s)
  | a :: ps, prev, s => (a.steps prev s).findSome? fun (t, r) =>
      (matchAt ps (advance prev t) r).map fun (ts, r') => (t :: ts, r')

/-- `re.search`: the match at the leftmost position that has one. -/
def search (ps : List Atom) : Option Char → List Char → Option (List (List Char) × List Char)
  | prev, [] => matchAt ps prev []
  | prev, x :: s => (matchAt ps prev (x :: s)).or (search ps (some x) s)

/-- The scan behind `finditer`: `skip` characters still belong to the last match.
None of the verifier's patterns matches the empty text, so how `re` steps over an
empty match never comes up; here it resumes one character later. -/
def scan (ps : List Atom) : Nat → Option Char → List Char → List (List (List Char))
  | 0, prev, [] =>
    match matchAt ps prev [] with
    | some (ts, _) => [ts]
    | none => []
  | _ + 1, _, [] => []
  | k + 1, _, x :: s => scan ps k (some x) s
  | 0, prev, x :: s =>
    match matchAt ps prev (x :: s) with
    | some (ts, r) => ts :: scan ps (s.length - r.length) (some x) s
    | none => scan ps 0 (some x) s

/-- `finditer`: the successive non-overlapping matches, left to right. -/
def finditer (ps : List Atom) (s : List Char) : List (List (List Char)) := scan ps 0 none s

def groupsFrom : Option (List Char) → List Atom → List (List Char) → List (List Char)
  | _, .lpar :: ps, _ :: ts => groupsFrom (some []) ps ts
  | some g, .rpar :: ps, _ :: ts => g :: groupsFrom none ps ts
  | some g, _ :: ps, t :: ts => groupsFrom (some (g ++ t)) ps ts
  | none, _ :: ps, _ :: ts => groupsFrom none ps ts
  | _, _, _ => []

def group (ps : List Atom) (ts : List (List Char)) (i : Nat) : List Char :=
  (groupsFrom none ps ts).getD (i - 1) []

end VerifyMap.Regex
