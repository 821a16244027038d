import Barscript.Failure

/-!
# Hosts

A command runs on a host: something that reads and writes files and shows text.  The commands are
written for any host, so what they do can be computed without touching a disk; `Folder` is the host
that keeps its files and the text that was shown in memory.
-/

namespace Barscript.Command

/-- What commands need from their surroundings. -/
structure Host (m : Type → Type) where
  /-- The content of the file at a path. -/
  read : String → m (Except FileError ByteArray)
  /-- Puts text into the file at a path. -/
  write : String → String → m (Except FileError Unit)
  /-- Shows a result. -/
  result : String → m Unit
  /-- Shows a remark or an error. -/
  remark : String → m Unit

/-! ## Folders -/

/-- The parts of a path in front of which slashes stand or could stand. -/
def pathParts (path : String) : List String :=
  (path.splitOn "/").filter fun part => !(part.isEmpty || part == ".")

/-- Files in memory, and what was shown. -/
structure Folder where
  /-- The files by the parts of their paths. -/
  files : List (List String × ByteArray)
  results : String := ""
  remarks : String := ""

/-- The folder of some files. -/
def Folder.ofFiles (files : List (String × ByteArray)) : Folder :=
  { files := files.map fun file => (pathParts file.1, file.2) }

/-- Whether some files lie below a path. -/
def Folder.isDirectory (folder : Folder) (parts : List String) : Bool :=
  parts.isEmpty || folder.files.any fun file => parts.isPrefixOf file.1 && parts != file.1

/-- Whether a path leads through a file. -/
def Folder.leadsThroughFile (folder : Folder) (parts : List String) : Bool :=
  folder.files.any fun file => file.1.isPrefixOf parts && parts != file.1

/-- The content of a file. -/
def Folder.read (folder : Folder) (path : String) : Except FileError ByteArray :=
  let parts := pathParts path
  if path.isEmpty then .error .missing
  else if let some content := folder.files.lookup parts then
    if path.endsWith "/" then .error .notDirectory else .ok content
  else if folder.isDirectory parts then .error .isDirectory
  else if folder.leadsThroughFile parts then .error .notDirectory
  else .error .missing

/-- The folder after a file is written. -/
def Folder.write (folder : Folder) (path : String) (content : String) : Except FileError Folder :=
  let parts := pathParts path
  if path.isEmpty then .error .missing
  else if folder.isDirectory parts || path.endsWith "/" then .error .isDirectory
  else if folder.leadsThroughFile parts then .error .notDirectory
  else if !folder.isDirectory parts.dropLast then .error .missing
  else .ok { folder with
    files := (parts, content.toUTF8) :: folder.files.filter fun file => file.1 != parts }

/-- The host that works on a folder in memory. -/
def folderHost : Host (StateM Folder) where
  read path := do return (← get).read path
  write path content := do
    match (← get).write path content with
    | .error cause => return .error cause
    | .ok folder =>
      set folder
      return .ok ()
  result text := modify fun folder => { folder with results := folder.results ++ text }
  remark text := modify fun folder => { folder with remarks := folder.remarks ++ text }

end Barscript.Command
