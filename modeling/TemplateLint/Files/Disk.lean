import TemplateLint.Files.PathName
import TemplateLint.Text.Quoted
import TemplateLint.Text.Utf8

/-!
# File access

What the program asks of the files around it (`Disk`). The questions are asked in a
monad, so that the same program runs on real files and on files in memory.
-/

namespace TemplateLint.Files

open TemplateLint.Text

structure FileFault where
  code : Nat
  reason : String
  deriving DecidableEq, Repr

namespace FileFault

def missing : FileFault := ⟨2, "No such file or directory"⟩
def notADirectory : FileFault := ⟨20, "Not a directory"⟩
def isADirectory : FileFault := ⟨21, "Is a directory"⟩

def message (fault : FileFault) (path : String) : String :=
  "[Errno " ++ toString fault.code ++ "] " ++ fault.reason ++ ": " ++ quote path

end FileFault

/-- What is asked of a file system. -/
structure Disk (m : Type → Type) where
  read : String → m (Except FileFault (List UInt8))
  isFile : String → m Bool
  isDirectory : String → m Bool
  /-- The parts of the names of all files below a directory, in any order. -/
  filesBelow : String → m (List (List String))
  resolve : String → m String

inductive ReadError where
  | file (path : String) (fault : FileFault)
  | encoding (fault : Utf8Fault)
  deriving DecidableEq, Repr

namespace ReadError

def message : ReadError → String
  | .file path fault => fault.message path
  | .encoding fault => fault.message

end ReadError

def Disk.readText {m : Type → Type} [Monad m] (disk : Disk m) (path : String) :
    m (Except ReadError (List Char)) := do
  match ← disk.read path with
  | .error fault => return .error (.file path fault)
  | .ok octets =>
    match decodeUtf8 octets with
    | .error fault => return .error (.encoding fault)
    | .ok text => return .ok (unifyLineEnds text)

end TemplateLint.Files
