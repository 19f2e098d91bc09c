/-!
# Files

The files that a command reads and writes, as a table from places to texts. A place is a directory
or a file as it is reached from the working directory without detours: first the steps upwards, then
the names downwards. A place that is reached from the root has a slash as its first part.

A path is walked from left to right. An empty part and a single point stay where they are, two
points go to the parent, a name goes down. Each of them needs a directory to start from, so the path
`a/..` is an error unless there is a directory `a`. A path that ends in a slash ends in an empty
part. A directory is there if a file is in it or if it is listed.
-/

namespace PatternGraph

/-- Why a file cannot be read or written. -/
inductive FileError where
  | notFound
  | notDirectory
  | isDirectory
  | nameTooLong
deriving DecidableEq, Repr

/-- The message of an error. -/
def FileError.message : FileError → String
  | notFound => "No such file or directory (os error 2)"
  | notDirectory => "Not a directory (os error 20)"
  | isDirectory => "Is a directory (os error 21)"
  | nameTooLong => "File name too long (os error 36)"

/-- Where a file or a directory is. -/
abbrev Place := List String

namespace Place

/-- The directory above a directory. The root is above itself. -/
def parent (place : Place) : Place :=
  if place = ["/"] then place
  else if place.all (· == "..") then place ++ [".."]
  else place.dropLast

/-- The place that a part of a path leads to. -/
def advance (place : Place) (part : String) : Place :=
  if part = "" || part = "." then place
  else if part = ".." then place.parent
  else place ++ [part]

/-- The places on the way along some parts of a path, with both ends. -/
def along (place : Place) : List String → List Place
  | [] => [place]
  | part :: parts => place :: (place.advance part).along parts

end Place

namespace Path

/-- The pieces of a text between its slashes. -/
def splitSlashes : List Char → List (List Char)
  | [] => [[]]
  | c :: cs =>
    match splitSlashes cs with
    | [] => [[c]]
    | piece :: pieces => if c = '/' then [] :: piece :: pieces else (c :: piece) :: pieces

/-- The parts of a path. -/
def parts (path : String) : List String := (splitSlashes path.toList).map String.ofList

/-- Where a path starts. -/
def start (path : String) : Place := if path.toList.head? = some '/' then ["/"] else []

/-- The place of a path, if all that it names is there. -/
def place (path : String) : Place := (parts path).foldl Place.advance (start path)

/-- The places that a path passes, with its own. -/
def passed (path : String) : List Place := (start path).along (parts path)

/-- The number of bytes that a path has to stay below. -/
def sizeLimit : Nat := 4096

/-- The number of bytes that a name may have. -/
def nameLimit : Nat := 255

/-- Refuses a path that no file can have: the empty one, and one that is too long. -/
def check (path : String) : Except FileError Unit :=
  if path = "" then .error .notFound
  else if path.utf8ByteSize < sizeLimit then .ok ()
  else .error .nameTooLong

end Path

/-- The texts of some files. -/
structure Files where
  /-- The place of each file, and its text. -/
  entries : List (Place × String) := []
  /-- Directories that are there, whatever is in them. -/
  directories : List Place := []
deriving DecidableEq, Repr

namespace Files

/-- The table of some paths with their texts. -/
def ofList (files : List (String × String)) : Files :=
  { entries := files.map fun (path, text) => (Path.place path, text) }

/-- The text of the file at a place. -/
def get? (files : Files) (place : Place) : Option String := files.entries.lookup place

/-- Whether there is a directory. The directories above the working directory are. -/
def hasDirectory (files : Files) (place : Place) : Bool :=
  place = ["/"] || place.all (· == "..") || files.directories.any (place.isPrefixOf ·) ||
    files.entries.any fun (file, _) => place.isPrefixOf file && place.length < file.length

/-- Goes from a directory to what a part of a path names in it, which need not be there. -/
def enter (files : Files) (place : Place) (part : String) : Except FileError Place :=
  if !files.hasDirectory place then .error .notDirectory
  else if part.utf8ByteSize > Path.nameLimit then .error .nameTooLong
  else .ok (place.advance part)

/-- Goes from a directory to what a part of a path names in it. -/
def step (files : Files) (place : Place) (part : String) : Except FileError Place := do
  let next ← files.enter place part
  if files.hasDirectory next || (files.get? next).isSome then .ok next else .error .notFound

/-- The text of a file. -/
def read (files : Files) (path : String) : Except FileError String := do
  Path.check path
  let place ← (Path.parts path).foldlM files.step (Path.start path)
  match files.get? place with
  | some text => .ok text
  | none => .error .isDirectory

/-- The table with a text at a place. -/
def set (files : Files) (place : Place) (text : String) : Files :=
  { files with entries := (place, text) :: files.entries.filter fun (file, _) => file ≠ place }

/-- Writes a file into a directory that is there. A path that ends in a slash, in a point or in two
points can only be a directory, and is refused as one. -/
def write (files : Files) (path text : String) : Except FileError Files := do
  Path.check path
  let parts := Path.parts path
  match parts.reverse.dropWhile (· = "") with
  | [] => .error .isDirectory
  | last :: before =>
    let directory ← before.reverse.foldlM files.step (Path.start path)
    if files.hasDirectory directory && (parts.getLast? = some "" || last = "." || last = "..") then
      .error .isDirectory
    let place ← files.enter directory last
    if files.hasDirectory place then .error .isDirectory else .ok (files.set place text)

end Files

end PatternGraph
