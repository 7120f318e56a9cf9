/-!
# Directories

The files below a working directory, as far as a compiler run can see and change
them.  A path is a list of segments; `.` and empty segments stay where they are
and `..` goes up.
-/

namespace Squishc.CommandLine

/-- Where something lies below the working directory. -/
abbrev Location := List String

/-- Folders and files by their locations.  The working directory itself is not
listed. -/
structure Directory where
  folders : List Location
  files : List (Location × ByteArray)
deriving Inhabited

/-- The parts of a text between separators. -/
def splitOn (separator : Char) : List Char → List (List Char)
  | [] => [[]]
  | c :: rest =>
    if c = separator then [] :: splitOn separator rest
    else
      match splitOn separator rest with
      | [] => [[c]]
      | first :: others => (c :: first) :: others

/-- The segments of a path. -/
def segments (path : String) : List String :=
  (splitOn '/' path.toList).map String.ofList

namespace Directory

/-- Whether a location is a folder. -/
def isFolder (d : Directory) (location : Location) : Bool :=
  location.isEmpty || d.folders.contains location

/-- Follows segments from a folder.  All but the last must lead to folders below
the working directory. -/
def follow (d : Directory) (here : Location) : List String → Option Location
  | [] => some here
  | segment :: rest =>
    if !d.isFolder here then none
    else if segment = "" || segment = "." then d.follow here rest
    else if segment = ".." then
      if here.isEmpty then none else d.follow here.dropLast rest
    else d.follow (here ++ [segment]) rest

/-- The location that a relative path leads to. -/
def locate (d : Directory) (path : String) : Option Location :=
  match path.toList with
  | '/' :: _ => none
  | _ => d.follow [] (segments path)

/-- The file at a location. -/
def file? (d : Directory) (location : Location) : Option ByteArray :=
  d.files.lookup location

/-- Reads the file at a path. -/
def read? (d : Directory) (path : String) : Option ByteArray :=
  match d.locate path with
  | none => none
  | some location => d.file? location

/-- Puts a file in the place of another one, or behind all others. -/
def replace (location : Location) (content : ByteArray) :
    List (Location × ByteArray) → List (Location × ByteArray)
  | [] => [(location, content)]
  | (known, old) :: rest =>
    if known = location then (known, content) :: rest
    else (known, old) :: replace location content rest

/-- Writes the file at a path.  The folder around it must exist, and the path must
not lead to a folder. -/
def write? (d : Directory) (path : String) (content : ByteArray) : Option Directory :=
  match d.locate path with
  | none => none
  | some location =>
    if d.isFolder location then none
    else some ⟨d.folders, replace location content d.files⟩

/-- The files that are not the same in an earlier directory. -/
def changesSince (d earlier : Directory) : List (Location × ByteArray) :=
  d.files.filter (fun f => earlier.file? f.1 != some f.2)

end Directory

end Squishc.CommandLine
