import TemplateLint.CommandLine.Run

/-!
# The program

Runs the command on the files of the machine. Everything is decided elsewhere; here files
are read, texts are printed, and the exit code is passed on.
-/

namespace TemplateLint.Program

open TemplateLint.CommandLine TemplateLint.Files

def isDirectory (path : String) : IO Bool := do
  try (← IO.FS.realPath path).isDir catch _ => return false

def isFile (path : String) : IO Bool := do
  try return (← (← IO.FS.realPath path).metadata).type matches .file catch _ => return false

def faultOf : IO.Error → FileFault
  | .noFileOrDirectory .. => .missing
  | .permissionDenied _ code _ => ⟨code.toNat, "Permission denied"⟩
  | error => ⟨5, error.toString⟩

def readFile (path : String) : IO (Except FileFault (List UInt8)) := do
  if ← isDirectory path then return .error .isADirectory
  try return .ok (← IO.FS.readBinFile path).toList catch error => return .error (faultOf error)

/-- The parts of the names of the files below a directory, down to a depth. -/
def filesUnder : Nat → String → IO (List (List String))
  | 0, _ => return []
  | depth + 1, path => do
    let mut found : List (List String) := []
    for entry in ← (← IO.FS.realPath path).readDir do
      let name := entry.fileName
      let inner := path ++ "/" ++ name
      if ← isDirectory inner then
        found := found ++ (← filesUnder depth inner).map (name :: ·)
      else if ← isFile inner then found := found ++ [[name]]
    return found

def depthLimit : Nat := 1024

/-- The full name of a path; a path that does not exist is taken from the current
directory. -/
def fullName (path : String) : IO String := do
  try return (← IO.FS.realPath path).toString
  catch _ =>
    let here := PathName.ofText (← IO.currentDir).toString
    let name := PathName.ofText path
    return (if name.root == "" then here.below name.parts else name).text

def machine : Disk IO where
  read := readFile
  isFile := isFile
  isDirectory := isDirectory
  filesBelow := filesUnder depthLimit
  resolve := fullName

def complaint : Ending → String
  | .stopped (.usage error) => usageText ++ "twistlint: error: " ++ error.message ++ "\n"
  | _ => ""

end TemplateLint.Program

def main (arguments : List String) : IO UInt32 := do
  let outcome ← TemplateLint.CommandLine.run TemplateLint.Program.machine arguments
  for entry in outcome.log do
    IO.eprintln ("[" ++ entry.level.text ++ "] twistlint: " ++ entry.message)
  IO.eprint (TemplateLint.Program.complaint outcome.ending)
  IO.print outcome.output
  return outcome.exitCode.toUInt32
