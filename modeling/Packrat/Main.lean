import Packrat.CommandLine.Answer

/-!
# The command

Reads the files that a request names, answers the request and prints the answer.
-/

namespace Packrat.CommandLine

/-- The bytes of a file. -/
def readFile (path : String) : IO (Except ReadError (List UInt8)) := do
  try
    return .ok (← IO.FS.readBinFile path).toList
  catch problem =>
    match problem with
    | .noFileOrDirectory .. => return .error .absent
    | .inappropriateType .. => return .error .directory
    | problem => return .error (.other (toString problem))

/-- All bytes of the standard input. -/
def readInput : IO (List UInt8) := do
  return (← (← IO.getStdin).readBinToEnd).toList

/-- The paths that a request reads from. -/
def pathsOf (arguments : List String) : List String :=
  match Request.ofArguments arguments with
  | .ok request => request.grammarPath :: request.sourcePath.toList
  | .error _ => []

end Packrat.CommandLine

open Packrat.CommandLine in
/-- Answers the request that the arguments make. -/
def main (arguments : List String) : IO UInt32 := do
  let paths := pathsOf arguments
  let input ← if paths.contains "-" then readInput else pure []
  let files ← paths.mapM fun path => do return (path, ← readFile path)
  let sources : Sources := ⟨fun path => (files.lookup path).getD (.error .absent), input⟩
  let terminal := (← (← IO.getStdout).isTty) && (← (← IO.getStderr).isTty)
  let outcome := run terminal sources arguments
  IO.print outcome.output
  IO.eprint outcome.errors
  return UInt32.ofNat outcome.code
