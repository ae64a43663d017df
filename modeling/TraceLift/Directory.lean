/-
# The working directory

What a run of the program sees of the file system: some files, and some folders.  A path is walked
part by part from the working directory or, if it begins with a slash, from the root.  Outside the
working directory there are the folders above it, the usual ones of a system, and a file that is
always empty.
-/
import TraceLift.Fault
import TraceLift.Text.Lines

namespace TraceLift

/-- Files and folders, each by the parts of its path from the working directory; a place outside
begins with `/` or `..`. -/
structure Directory where
  files : List (List String × String) := []
  folders : List (List String) := []
  deriving DecidableEq

namespace Directory

/-- The parts of a path. -/
def parts (path : String) : List String := Text.split '/' path

/-- Whether a place lies outside the working directory. -/
def isOutside (place : List String) : Bool :=
  match place with
  | first :: _ => first = "/" || first = ".."
  | [] => false

/-- The folders below the root that every system has. -/
def systemFolders : List String := ["bin", "dev", "etc", "home", "proc", "root", "tmp", "usr", "var"]

/-- The file that is always empty. -/
def emptyFile : List String := ["/", "dev", "null"]

/-- Whether a place is a file. -/
def isFile (d : Directory) (place : List String) : Bool :=
  place = emptyFile || (d.files.lookup place).isSome

/-- Whether there is a folder at a place whatever the directory holds: the working directory, one
above it, or one of the system. -/
def isGiven (place : List String) : Bool :=
  match place with
  | ["/", name] => systemFolders.contains name
  | place => place.all fun part => part = ".." || part = "/"

/-- Whether a place is a folder: one that is given, one that was made, or one with a file below
it. -/
def isFolder (d : Directory) (place : List String) : Bool :=
  isGiven place || d.folders.contains place ||
    d.files.any fun (file, _) => file.length != place.length && place.isPrefixOf file

/-- The place one level up. -/
def parent (place : List String) : List String :=
  match place.getLast? with
  | none | some ".." => place ++ [".."]
  | some "/" => place
  | some _ => place.dropLast

/-- The greatest length of a part of a path. -/
def maxName : Nat := 255

/-- The greatest length of a path. -/
def maxPath : Nat := 4095

/-- Walks a path from a place on. -/
def walk (d : Directory) (place : List String) : List String → Except Fault (List String)
  | [] => .ok place
  | part :: rest =>
    if d.isFolder place then
      if part = "" || part = "." then walk d place rest
      else if part = ".." then walk d (parent place) rest
      else if maxName < part.utf8ByteSize then .error .fileUnavailable
      else walk d (place ++ [part]) rest
    else if d.isFile place then .error .notAFolder
    else .error .noSuchFile

/-- Where the walk along a path starts. -/
def start (path : String) : List String := if path.startsWith "/" then ["/"] else []

/-- The place that a path leads to. -/
def place (d : Directory) (path : String) : Except Fault (List String) :=
  if path = "" then .error .noSuchFile
  else if path.toList.contains '\x00' then .error .zeroInName
  else if maxPath < path.utf8ByteSize then .error .fileUnavailable
  else d.walk (start path) (parts path)

/-- The place that a path leads to if everything along it is there. -/
def locate (path : String) : List String :=
  (parts path).foldl (fun place part =>
    if part = "" || part = "." then place
    else if part = ".." then parent place
    else place ++ [part]) (start path)

/-- The directory with the given files, whose names are paths. -/
def ofFiles (files : List (String × String)) : Directory :=
  { files := files.map fun (path, text) => (locate path, text) }

/-- The paths that lead to the places along a path, the first part of it first. -/
def stations (path : String) : List String :=
  ((List.range (parts path).length).map fun n => String.intercalate "/" ((parts path).take (n + 1)))
    |>.filter (· != "")

/-- The place of a file that is to be read. -/
def find (d : Directory) (path : String) : Except Fault (List String) := do
  let place ← d.place path
  if d.isFile place then return place
  else if d.isFolder place then .error .isAFolder
  else .error .noSuchFile

/-- The text of a file. -/
def text (d : Directory) (place : List String) : String := (d.files.lookup place).getD ""

/-- Puts a text in the place of a file, after all others if it is new. -/
def put (place : List String) (text : String) :
    List (List String × String) → List (List String × String)
  | [] => [(place, text)]
  | (p, t) :: rest => if p = place then (p, text) :: rest else (p, t) :: put place text rest

/-- Writes a file. -/
def write (d : Directory) (path text : String) : Except Fault Directory := do
  let place ← d.place path
  if d.isFolder place then .error .isAFolder
  else return { d with files := put place text d.files }

/-- Writes files one after the other into a folder, up to the first that fails. -/
def writeAll (d : Directory) (folder : String) :
    List (String × String) → Directory × Option Fault
  | [] => (d, none)
  | (name, text) :: rest =>
    let path := if folder = "" || folder.endsWith "/" then folder ++ name
      else folder ++ "/" ++ name
    match d.write path text with
    | .ok d => writeAll d folder rest
    | .error e => (d, some e)

/-- Makes the folders along a path. -/
def makeFolders (d : Directory) (place : List String) : List String → Except Fault Directory
  | [] => if d.isFile place then .error .fileExists else .ok d
  | part :: rest =>
    if part = "" then makeFolders d place rest
    else if part.toList.contains '\x00' then .error .zeroInName
    else if d.isFile place then .error .notAFolder
    else if part = "." then makeFolders d place rest
    else if part = ".." then makeFolders d (parent place) rest
    else if maxName < part.utf8ByteSize then .error .fileUnavailable
    else
      let place := place ++ [part]
      let d := if d.isFile place || d.isFolder place then d
        else { d with folders := d.folders ++ [place] }
      makeFolders d place rest

/-- Makes a folder and those above it, unless they are there. -/
def makeFolder (d : Directory) (path : String) : Except Fault Directory := do
  let made ← d.makeFolders (start path) (parts path)
  if maxPath < path.utf8ByteSize then .error .fileUnavailable else return made

/-- The path of a place. -/
def path : List String → String
  | "/" :: rest => "/" ++ String.intercalate "/" rest
  | place => String.intercalate "/" place

/-- The files whose text another directory does not have, by their paths. -/
def changes (d old : Directory) : List (String × String) :=
  (d.files.filter fun (place, text) => old.files.lookup place != some text).map
    fun (place, text) => (path place, text)

/-- The files below the working directory that another directory does not have, by their
paths. -/
def newFiles (d old : Directory) : List (String × String) :=
  (d.files.filter fun (place, _) => !isOutside place && !old.isFile place).map
    fun (place, text) => (path place, text)

end Directory

end TraceLift
