import VerifyMap.Python
import VerifyMap.Catalog

/-! `MapVerifier`'s state and `parse`: four pattern scans over the map text fill
in the DGROUP size, the segment and symbol tables and the overlay bases. The patterns are
`DGROUP\s+[0-9A-Fa-f]+:[0-9A-Fa-f]+\s+([0-9A-Fa-f]+)` searched once;
`^(\w+)\s+(CODE|DATA|BSS|STACK|BEGDATA|FAR_DATA|EMU|CONST|_OVLCODE)\s+(\w+)\s+`
`([0-9A-Fa-f]+:[0-9A-Fa-f]+)\s+([0-9A-Fa-f]+)` and `^([0-9A-Fa-f]+):([0-9A-Fa-f]+)[*+]?\s+(\S+)`
under `re.MULTILINE`; and `Overlay section \d+ address ([0-9A-Fa-f]+):`. -/
namespace VerifyMap
open Regex Python Catalog

structure Segment where
  «class» : String
  group : String
  address : String
  size : Nat
  deriving DecidableEq, Inhabited

structure SymbolInfo where
  segment : String
  offset : String
  deriving DecidableEq

inductive MapFile where
  | missing
  | unreadable
  | text (s : List Char)

structure MapVerifier where
  mapFile : String
  buildMode : String
  content : List Char
  errors : List String
  warnings : List String
  dgroupSize : Nat
  segments : Dict Segment
  symbols : Dict SymbolInfo
  overlaySegments : List String
  dgroupMax : Nat
  dgroupWarn : Nat

def limits (buildMode : String) : Nat × Nat :=
  if buildMode = "production" then (dgroupProductionMax, dgroupProductionWarn)
  else if buildMode = "release" then (dgroupReleaseMax, dgroupReleaseWarn)
  else (dgroupDebugMax, dgroupDebugWarn)

def dgroupPattern : List Atom :=
  [.lit "DGROUP".toList, .plus isSpace, .plus isHex, .lit [':'], .plus isHex, .plus isSpace,
   .lpar, .plus isHex, .rpar]

def segmentClasses : List String :=
  ["CODE", "DATA", "BSS", "STACK", "BEGDATA", "FAR_DATA", "EMU", "CONST", "_OVLCODE"]

def segmentPattern (u : Unicode) : List Atom :=
  [.bol, .lpar, .plus (isWord u), .rpar, .plus isSpace,
   .lpar, .alt (segmentClasses.map String.toList), .rpar, .plus isSpace,
   .lpar, .plus (isWord u), .rpar, .plus isSpace,
   .lpar, .plus isHex, .lit [':'], .plus isHex, .rpar, .plus isSpace,
   .lpar, .plus isHex, .rpar]

def symbolPattern : List Atom :=
  [.bol, .lpar, .plus isHex, .rpar, .lit [':'], .lpar, .plus isHex, .rpar,
   .opt (fun c => c == '*' || c == '+'), .plus isSpace, .lpar, .plus (fun c => !isSpace c), .rpar]

def overlayPattern (u : Unicode) : List Atom :=
  [.lit "Overlay section ".toList, .plus (isDigit u), .lit " address ".toList,
   .lpar, .plus isHex, .rpar, .lit [':']]

def segmentEntry (u : Unicode) (d : Dict Segment) (ts : List (List Char)) : Dict Segment :=
  let g := group (segmentPattern u) ts
  d.set ⟨g 1⟩ { «class» := ⟨g 2⟩, group := ⟨g 3⟩, address := ⟨g 4⟩, size := hexValue (g 5) }

def symbolEntry (d : Dict SymbolInfo) (ts : List (List Char)) : Dict SymbolInfo :=
  let g := group symbolPattern ts
  d.set ⟨g 3⟩ { segment := ⟨g 1⟩, offset := ⟨g 2⟩ }

def overlayEntry (u : Unicode) (o : List String) (ts : List (List Char)) : List String :=
  o.insert (upper ⟨group (overlayPattern u) ts 1⟩)

namespace MapVerifier

def init (mapFile buildMode : String) : MapVerifier where
  mapFile := mapFile
  buildMode := buildMode
  content := []
  errors := []
  warnings := []
  dgroupSize := 0
  segments := .empty
  symbols := .empty
  overlaySegments := []
  dgroupMax := (limits buildMode).1
  dgroupWarn := (limits buildMode).2

def parseDgroupSize (v : MapVerifier) : MapVerifier :=
  { v with dgroupSize :=
      match search dgroupPattern none v.content with
      | some (ts, _) => hexValue (group dgroupPattern ts 1)
      | none => v.dgroupSize }

def parseAllSegments (u : Unicode) (v : MapVerifier) : MapVerifier :=
  { v with segments := (finditer (segmentPattern u) v.content).foldl (segmentEntry u) v.segments }

def parseSymbolTable (v : MapVerifier) : MapVerifier :=
  { v with symbols := (finditer symbolPattern v.content).foldl symbolEntry v.symbols }

def identifyOverlaySegments (u : Unicode) (v : MapVerifier) : MapVerifier :=
  { v with overlaySegments :=
      (finditer (overlayPattern u) v.content).foldl (overlayEntry u) v.overlaySegments }

def parseContent (u : Unicode) (v : MapVerifier) : MapVerifier :=
  ((v.parseDgroupSize.parseAllSegments u).parseSymbolTable).identifyOverlaySegments u

/-- `parse`: `.error` is the exception `read_text` raises, the `Bool` the return
value. The missing-file message keeps the path as given, where Python prints the
normalised `Path`; `main` exits before any record is shown in that case. -/
def parse (u : Unicode) (file : MapFile) (v : MapVerifier) : Except Unit (Bool × MapVerifier) :=
  match file with
  | .missing => .ok (false, { v with errors := v.errors ++ ["Map file not found: " ++ v.mapFile] })
  | .unreadable => .error ()
  | .text s => .ok (true, parseContent u { v with content := s })

end MapVerifier

/-- The verifier for `mapFile` in `buildMode` once `parse` has read `text`. -/
def load (u : Unicode) (mapFile buildMode : String) (text : List Char) : MapVerifier :=
  MapVerifier.parseContent u { MapVerifier.init mapFile buildMode with content := text }

end VerifyMap
