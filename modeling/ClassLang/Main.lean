import ClassLang.CommandLine

/-!
# The executable

`classlang FILE [--mangled]` lists the methods of a file, on request with their linkage names.
-/

namespace ClassLang.CommandLine

/-- The file, and whether linkage names are wanted, if the arguments make sense. -/
def readArguments : List String → Option (String × Bool)
  | [path] => some (path, false)
  | ["--mangled", path] => some (path, true)
  | [path, "--mangled"] => some (path, true)
  | _ => none

/-- The run on a file of the system. -/
def runFile (path : String) (linkage : Bool) : IO Outcome := do
  try
    let bytes ← IO.FS.readBinFile path
    return run path (some bytes) linkage
  catch
    | .noFileOrDirectory .. => return run path none linkage
    | e => return unreadable path (toString e)

end ClassLang.CommandLine

open ClassLang.CommandLine in
def main (args : List String) : IO UInt32 := do
  match readArguments args with
  | none =>
    IO.eprintln "usage: classlang FILE [--mangled]"
    return 2
  | some (path, linkage) =>
    let outcome ← runFile path linkage
    IO.print outcome.stdout
    IO.eprint outcome.stderr
    return outcome.status.toUInt32
