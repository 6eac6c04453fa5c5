import VerifyMap.Parser
import Mathlib.Data.List.Sort

/-! The six rules of `verify_map.py`, each as the records it appends and the exception
its prints raise on a huge size, then `print_summary` and `main`'s exit status. The
printed text is left out: `errors`, `warnings`, the exceptions and the exit status are
what is observed. -/
namespace VerifyMap
open Regex Python Catalog

inductive Record where
  | error (msg : String)
  | warning (msg : String)
  deriving DecidableEq

def Record.error? : Record → Option String
  | .error e => some e
  | .warning _ => none

def Record.warning? : Record → Option String
  | .error _ => none
  | .warning w => some w

def Segment.isRoot (s : Segment) : Bool := s.group == "AUTO" && s.«class» == "CODE"

def objSegment (obj : String) : String := replace obj ".obj" "" ++ "_TEXT"

def variants (symbol : String) : List String := [symbol, rstrip symbol '_', symbol ++ "_"]

structure AliasScan where
  foundAny : Bool
  foundInRoot : Bool
  foundSymbol : Option String

def requiredNotFound (groupName : String) (symbolList : List String) : String :=
  "REQUIRED [" ++ groupName ++ "]: No symbol found from " ++ reprList symbolList ++
    "\n  Build may be broken or symbols not exported."

def requiredInOverlay (groupName found : String) : String :=
  "REQUIRED [" ++ groupName ++ "]: Found '" ++ found ++
    "' but it's in OVERLAY!\n  This will crash after overlay is discarded."

namespace MapVerifier

def record (v : MapVerifier) (rs : List Record) : MapVerifier :=
  { v with errors := v.errors ++ rs.filterMap Record.error?,
           warnings := v.warnings ++ rs.filterMap Record.warning? }

def isSymbolInOverlay (v : MapVerifier) (info : SymbolInfo) : Bool :=
  upper info.segment ∈ v.overlaySegments

def isSegmentRoot (v : MapVerifier) (segName : String) : Option Bool :=
  (v.segments.get? segName).map Segment.isRoot

def dgroupSizeRecords (v : MapVerifier) : List Record :=
  if v.dgroupSize = 0 then [.warning "Could not parse DGROUP size from map file"]
  else
    let headroom : Int := dgroupMaxSize - v.dgroupSize
    if v.dgroupSize ≥ v.dgroupMax then
      [.error ("CRITICAL: DGROUP 0x" ++ formatX v.dgroupSize ++ " EXCEEDS " ++ v.buildMode ++
        " limit 0x" ++ formatX v.dgroupMax ++ "!")]
    else if v.dgroupSize ≥ v.dgroupWarn then
      [.warning ("DGROUP 0x" ++ formatX v.dgroupSize ++ " in WARNING ZONE for " ++ v.buildMode ++
        " build! Only " ++ formatComma headroom ++ " bytes headroom.")]
    else []

/-- What the prints of `verify_dgroup_size` raise on a size other than 0: `dgroup_size / 1024`,
then `{dgroup_size:,}`, then `{headroom:,}` and `headroom/1024`. -/
def dgroupSizeRaised (v : MapVerifier) : Option PyException :=
  let headroom : Int := dgroupMaxSize - v.dgroupSize
  if v.dgroupSize = 0 then none
  else if trueDivOverflows v.dgroupSize 1024 then some .overflowError
  else if strDigitsExceeded v.dgroupSize || strDigitsExceeded headroom then some .valueError
  else if trueDivOverflows headroom.natAbs 1024 then some .overflowError
  else none

/-- The alias loop: a present alias in ROOT ends it (`break`), one in an overlay is
remembered and the loop goes on. -/
def scanAliases (v : MapVerifier) : List String → AliasScan → AliasScan
  | [], st => st
  | symbol :: rest, st =>
    match v.symbols.get? symbol with
    | none => v.scanAliases rest st
    | some info =>
      if !v.isSymbolInOverlay info then ⟨true, true, some symbol⟩
      else v.scanAliases rest ⟨true, st.foundInRoot, some symbol⟩

def requiredGroupRecords (v : MapVerifier) (gl : String × List String) : List Record :=
  let st := v.scanAliases gl.2 ⟨false, false, none⟩
  if !st.foundAny then [.error (requiredNotFound gl.1 gl.2)]
  else if !st.foundInRoot then [.error (requiredInOverlay gl.1 (st.foundSymbol.getD "None"))]
  else []

def requiredSegmentRecords1 (v : MapVerifier) (sd : String × String) : List Record :=
  match v.isSegmentRoot sd.1 with
  | none => [.warning ("Segment " ++ sd.1 ++ " not found (" ++ sd.2 ++ ")")]
  | some true => []
  | some false =>
    let s := (v.segments.get? sd.1).getD default
    [.error ("CRITICAL: " ++ sd.1 ++ " NOT in ROOT!\n  " ++ sd.2 ++ "\n  Found: group=" ++
      s.group ++ ", class=" ++ s.«class»)]

def requiredSegmentRaised1 (v : MapVerifier) (sd : String × String) : Option PyException :=
  match v.isSegmentRoot sd.1 with
  | some true =>
    if strDigitsExceeded ((v.segments.get? sd.1).getD default).size then some .valueError else none
  | _ => none

def probeVariants (v : MapVerifier) : List String → List Record
  | [] => []
  | variant :: rest =>
    match v.symbols.get? variant with
    | none => v.probeVariants rest
    | some info =>
      if v.isSymbolInOverlay info then
        [.error ("Optional symbol '" ++ variant ++ "' found in OVERLAY!")]
      else []

def forbiddenRecords1 (v : MapVerifier) (obj : String) : List Record :=
  match v.segments.get? (objSegment obj) with
  | some s =>
    if s.«class» = "_OVLCODE" then [.error ("CRITICAL: " ++ obj ++ " is in OVERLAY!")] else []
  | none => []

def dgroupSegments (v : MapVerifier) : List (String × Nat) :=
  (v.segments.items.filter fun e => e.2.group = "DGROUP").map fun e => (e.1, e.2.size)

def foldingRecords (v : MapVerifier) : List Record :=
  v.dgroupSegments.filterMap fun e =>
    if contains e.1 "OVL_" || contains e.1 "INIT_" then
      some (.error ("CRITICAL: Overlay segment " ++ e.1 ++ " folded into DGROUP!"))
    else none

/-- What the composition print of `verify_dgroup_folding` raises: `{size:,}` of one of the
first five segments once sorted by `key=lambda x: -x[1]`, a stable sort. -/
def foldingRaised (v : MapVerifier) : Option PyException :=
  ((v.dgroupSegments.insertionSort fun a b => b.2 ≤ a.2).take 5).findSome? fun e =>
    if strDigitsExceeded e.2 then some .valueError else none

def verifyDgroupSize (v : MapVerifier) : Except PyException MapVerifier :=
  raiseOr v.dgroupSizeRaised (v.record v.dgroupSizeRecords)

def verifyRequiredSymbols (v : MapVerifier) : Except PyException MapVerifier :=
  .ok (v.record (requiredSymbols.flatMap v.requiredGroupRecords))

def verifyRequiredSegments (v : MapVerifier) : Except PyException MapVerifier :=
  raiseOr (requiredRootSegments.findSome? v.requiredSegmentRaised1)
    (v.record (requiredRootSegments.flatMap v.requiredSegmentRecords1))

def verifyOptionalSymbols (v : MapVerifier) : Except PyException MapVerifier :=
  .ok (v.record (optionalSymbols.flatMap fun s => v.probeVariants (variants s)))

def verifyForbiddenInOverlay (v : MapVerifier) : Except PyException MapVerifier :=
  .ok (v.record (forbiddenInOverlay.flatMap v.forbiddenRecords1))

def verifyDgroupFolding (v : MapVerifier) : Except PyException MapVerifier :=
  raiseOr v.foldingRaised (v.record v.foldingRecords)

def runRules (v : MapVerifier) : Except PyException MapVerifier := do
  let v ← v.verifyDgroupSize
  let v ← v.verifyRequiredSymbols
  let v ← v.verifyRequiredSegments
  let v ← v.verifyOptionalSymbols
  let v ← v.verifyForbiddenInOverlay
  v.verifyDgroupFolding

def records (v : MapVerifier) : List Record :=
  v.dgroupSizeRecords ++ requiredSymbols.flatMap v.requiredGroupRecords ++
    requiredRootSegments.flatMap v.requiredSegmentRecords1 ++
    optionalSymbols.flatMap (fun s => v.probeVariants (variants s)) ++
    forbiddenInOverlay.flatMap v.forbiddenRecords1 ++ v.foldingRecords

def verifyAll (v : MapVerifier) : MapVerifier := v.record v.records

def printSummary (v : MapVerifier) : Bool := v.errors.length == 0

/-- What the prints of `print_summary` raise: `{dgroup_size:,}`, then `{headroom:,}` and
`headroom/1024`. -/
def summaryRaised (v : MapVerifier) : Option PyException :=
  let headroom : Int := dgroupMaxSize - v.dgroupSize
  if strDigitsExceeded v.dgroupSize || strDigitsExceeded headroom then some .valueError
  else if trueDivOverflows headroom.natAbs 1024 then some .overflowError
  else none

/-- The six rules, then `print_summary`. -/
def run (v : MapVerifier) : Except PyException Bool := do
  let w ← v.runRules
  raiseOr w.summaryRaised w.printSummary

end MapVerifier

def buildModeOf (argv : List String) : String :=
  if "--production" ∈ argv then "production"
  else if "--release" ∈ argv then "release"
  else if "--debug" ∈ argv then "debug"
  else "debug"

/-- `main`'s exit status; `fs` tells what reading each path gives. An exception escapes
`main`, and Python then exits with 1. -/
def main (u : Unicode) (fs : String → MapFile) (argv : List String) : Nat :=
  match argv with
  | _ :: path :: _ =>
    match (MapVerifier.init path (buildModeOf argv)).parse u (fs path) with
    | .ok (true, v) =>
      match v.run with
      | .ok true => 0
      | _ => 1
    | _ => 1
  | _ => 1

end VerifyMap
