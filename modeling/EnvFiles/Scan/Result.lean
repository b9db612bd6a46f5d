import EnvFiles.Scan.Usage

/-!
# Results of scans

A scan gives the references it found by name, in the order in which the names were first met,
and counts files and lines. The results of several scans are merged in order.
-/

namespace EnvFiles

/-- The references found in a source tree. -/
structure ScanResult where
  usages : Table Text (List Usage) := []
  files : Nat := 0
  lines : Nat := 0
  deriving DecidableEq, Repr, Inhabited

namespace ScanResult

/-- Add references to those of their name. -/
def addUsages (usages : Table Text (List Usage)) (entry : Text × List Usage) :
    Table Text (List Usage) :=
  usages.put entry.1 ((usages.get? entry.1).getD [] ++ entry.2)

/-- Add the findings of one scan to those of the scans before it. -/
def append (first second : ScanResult) : ScanResult where
  usages := second.usages.foldl addUsages first.usages
  files := first.files + second.files
  lines := first.lines + second.lines

/-- The findings of several scans together. -/
def merge (results : List ScanResult) : ScanResult := results.foldl append {}

end ScanResult

/-- The references on the lines of one file, of which the first has the given number. -/
def usagesOfLines (file : Text) : Nat → List Text → List (Text × Usage)
  | _, [] => []
  | number, line :: rest => usagesOn line number file ++ usagesOfLines file (number + 1) rest

/-- The findings in the text of one file. Its lines are the pieces between line feeds. -/
def scanText (file text : Text) : ScanResult :=
  let lines := Text.splitAt '\n' text
  { usages := (usagesOfLines file 1 lines).foldl
      (fun usages found => ScanResult.addUsages usages (found.1, [found.2])) []
    files := 1
    lines := lines.length }

end EnvFiles
