import ClassLang.Token.Scan
import ClassLang.Decl.Parser
import ClassLang.Decl.Resolve
import ClassLang.Linkage

/-!
# The command line

Given a file, the program resolves it and lists its methods and functions, one a line, in the order
of their numbers, and on request each with its linkage name. A fault is reported in place of the
lines that would follow; if its report cannot be drawn, the run breaks off.
-/

namespace ClassLang

/-- The types and the program of the text called `file`. -/
def compile (file source : String) : Except Halt (Registry × Program) := do
  match Token.ofText file source with
  | .error d => throw (.refused d)
  | .ok tokens =>
    let unit ← CompilationUnit.ofTokens file tokens
    match unit.resolve .standard with
    | .error d => throw (.refused d)
    | .ok resolved => return resolved

namespace Program

/-- The name of a method behind that of its class. -/
def qualifiedName (p : Program) (m : Method) : Except Diagnostic String :=
  match m.owner with
  | some c => do return (← p.getClass c).name ++ "." ++ m.name
  | none => .ok m.name

/-- The line for a method. -/
def listingLine (p : Program) (r : Registry) (linkage : Bool) (id : MethodId) (m : Method) :
    Except Diagnostic String := do
  let name ← p.qualifiedName m
  if linkage then
    return name ++ " " ++ (← p.linkageName r id)
  else
    return name

/-- The lines for numbered methods, up to the first fault. Operators have none. -/
def listingOf (p : Program) (r : Registry) (linkage : Bool) :
    List (Method × Nat) → List String × Option Diagnostic
  | [] => ([], none)
  | (m, index) :: rest =>
    if m.isOperator then
      listingOf p r linkage rest
    else
      match p.listingLine r linkage ⟨index⟩ m with
      | .error d => ([], some d)
      | .ok line =>
        let (lines, fault) := listingOf p r linkage rest
        (line :: lines, fault)

/-- The lines for all methods. -/
def listing (p : Program) (r : Registry) (linkage : Bool) : List String × Option Diagnostic :=
  listingOf p r linkage p.methods.toList.zipIdx

end Program

namespace CommandLine

/-- What a run leaves behind. -/
structure Outcome where
  status : Nat
  stdout : String
  stderr : String
deriving DecidableEq

/-- The part of a path that names the file, or the whole path if none does. -/
def fileName (path : String) : String :=
  match (path.splitOn "/").reverse.filter (fun part => part ≠ "" && part ≠ ".") with
  | part :: _ => if part = ".." then path else part
  | [] => path

/-- Lines as one text. -/
def unlines (lines : List String) : String := String.join (lines.map (· ++ "\n"))

/-- The run on a file that cannot be read. -/
def unreadable (path reason : String) : Outcome :=
  ⟨1, "", "Failed to read " ++ path ++ ": " ++ reason ++ "\n"⟩

/-- Why a file that is not there cannot be read. -/
def noSuchFile : String := "No such file or directory (os error 2)"

/-- Why a file that is no text cannot be read. -/
def notText : String := "stream did not contain valid UTF-8"

/-- The run that writes `lines` and ends with a fault in `source`. -/
def faulty (source : String) (lines : List String) (d : Diagnostic) : Outcome :=
  match d.report? source with
  | some report => ⟨1, unlines (lines ++ [report]), ""⟩
  | none => ⟨101, unlines lines, "Formatting argument out of range\n"⟩

/-- The run on a text. -/
def runText (file source : String) (linkage : Bool) : Outcome :=
  match compile file source with
  | .error (.refused d) => faulty source [] d
  | .error _ => ⟨1, "", ""⟩
  | .ok (registry, program) =>
    match program.listing registry linkage with
    | (lines, none) => ⟨0, unlines lines, ""⟩
    | (lines, some d) => faulty source lines d

/-- The run on a file with the given content, which may not be there. -/
def run (path : String) (content : Option ByteArray) (linkage : Bool) : Outcome :=
  match content with
  | none => unreadable path noSuchFile
  | some bytes =>
    match String.fromUTF8? bytes with
    | none => unreadable path notText
    | some source => runText (fileName path) source linkage

end CommandLine

end ClassLang
