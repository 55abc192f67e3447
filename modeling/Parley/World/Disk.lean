import Parley.Fault
import Parley.Text.Pieces

/-!
# Files

The files within reach of the shell: their names and texts, and the folders they are in. A name is
taken from the working folder on unless it is absolute, and `~` at its beginning means the home
folder.
-/

namespace Parley

/-- Files and folders. -/
structure Disk where
  /-- Names that begin like this are absolute, as are those that begin with a slash. -/
  root : String
  working : String
  home : String
  /-- Texts by full name. -/
  files : List (String × String)
  /-- Folders without files, by full name. -/
  folders : List String

namespace Disk

/-- The parts of a name between slashes, without empty parts and single points; a double point
takes the part before it away. -/
def segments (path : String) : List String :=
  let parts := (Text.cutAt '/' path.toList).map String.ofList
  parts.foldl
    (fun done part =>
      if part == "" || part == "." then done
      else if part == ".." then done.dropLast
      else done ++ [part])
    []

/-- Is a name absolute? -/
def isAbsolute (d : Disk) (path : String) : Bool :=
  Text.beginsWith ['/'] path.toList ||
    (!d.root.isEmpty && Text.beginsWith d.root.toList path.toList)

/-- The full name that a name means. -/
def resolve (d : Disk) (path : String) : String :=
  let full := if d.isAbsolute path then path else d.working ++ "/" ++ path
  Text.joinWith "/" (segments full)

/-- Replaces `~` at the beginning of a name by the home folder. -/
def expandHome (d : Disk) (path : String) : String :=
  match path.toList with
  | ['~'] => d.home
  | '~' :: '/' :: rest => d.home ++ "/" ++ String.ofList rest
  | _ => path

/-- The folder in the home folder where the shell keeps its things. -/
def shellHome (d : Disk) : String :=
  d.expandHome "~/.restsh/"

/-- The text of a file, by full name. -/
def textOf? (d : Disk) (full : String) : Option String :=
  d.files.lookup full

/-- Is `outer` a folder on the way to `inner`? -/
def encloses (outer inner : String) : Bool :=
  Text.beginsWith (outer ++ "/").toList inner.toList

/-- Is there a folder of this full name? -/
def isFolder (d : Disk) (full : String) : Bool :=
  let places := Text.joinWith "/" (segments d.working) :: Text.joinWith "/" (segments d.home) ::
    d.folders ++ d.files.map Prod.fst
  full.isEmpty || places.any (fun p => encloses full p) ||
    d.folders.contains full || full == Text.joinWith "/" (segments d.working) ||
    full == Text.joinWith "/" (segments d.home)

/-- Is there a file or folder of this name? -/
def present (d : Disk) (path : String) : Bool :=
  !path.isEmpty && ((d.textOf? (d.resolve path)).isSome || d.isFolder (d.resolve path))

/-- The folder that a full name is in. -/
def parent (full : String) : String :=
  Text.joinWith "/" (segments full).dropLast

/-- Why a name cannot be opened: something on the way is a file, or is missing. -/
def missingFault (d : Disk) (path : String) : Fault :=
  if d.files.any (fun f => encloses f.1 (d.resolve path)) then .file .notDirectory path
  else .file .missing path

/-- Reads a file. Carriage returns become line feeds. -/
def read (d : Disk) (path : String) : Except Fault String :=
  if path.isEmpty then .error (.file .missing path)
  else
    match d.textOf? (d.resolve path) with
    | some text => .ok (String.ofList (Text.unifyNewlines text.toList))
    | none =>
      if d.isFolder (d.resolve path) then .error (.file .directory path)
      else .error (d.missingFault path)

/-- Writes an entry of a list of files: in the place of the old one if there is one. -/
def putFile (full text : String) : List (String × String) → List (String × String)
  | [] => [(full, text)]
  | (k, v) :: rest => if k = full then (k, text) :: rest else (k, v) :: putFile full text rest

/-- Puts a file in its place, whatever is there. -/
def put (d : Disk) (path text : String) : Disk :=
  { d with files := putFile (d.resolve path) text d.files }

/-- The files of `d` that were not there before, or had another text. -/
def newerThan (d before : Disk) : List (String × String) :=
  d.files.filter fun f => before.textOf? f.1 != some f.2

/-- Writes a file: a new one, or in place of the old text, or, if `after`, behind the old text. -/
def write (d : Disk) (after : Bool) (path text : String) : Except Fault Disk :=
  let full := d.resolve path
  if path.isEmpty then .error (.file .missing path)
  else if d.isFolder full then .error (.file .directory path)
  else if d.isFolder (parent full) then
    let old := if after then (d.textOf? full).getD "" else ""
    .ok { d with files := putFile full (old ++ text) d.files }
  else .error (d.missingFault path)

/-- Makes a folder, unless it is there. -/
def makeFolder (d : Disk) (path : String) : Except Fault Disk :=
  let full := d.resolve path
  if d.isFolder full then .ok d
  else if (d.textOf? full).isSome then .error (.file .present path)
  else .ok { d with folders := d.folders ++ [full] }

end Disk

end Parley
