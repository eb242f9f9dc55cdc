import RouteBook.Pairs
import RouteBook.Text.Utf8

/-!
# A tree of files

The files and folders that a run can see, as a finite map from places to entries. A place
is the list of names that lead to it. Relative paths start at the working folder, which has
the empty place; the folders above it have the places `[".."]`, `["..", ".."]` and so on.
Absolute paths start at the place `["/"]`. All of these are folders at any time. Reading
changes nothing, writing changes the entry of one place, and making folders adds folders
only. Names and whole paths have a greatest length, and hold no NUL.
-/

namespace RouteBook

/-- Why a file cannot be read or written. -/
inductive FileFault where
  | notFound
  | alreadyExists
  | notFolder
  | isFolder
  /-- A name or the whole path is too long. -/
  | tooLong
  /-- The path holds a NUL. -/
  | holdsNul
  /-- The content was wanted as text and is no UTF-8. -/
  | notText
deriving DecidableEq, Repr

/-- The wording of a fault. -/
def FileFault.message : FileFault → String
  | .notFound => "No such file or directory (os error 2)"
  | .alreadyExists => "File exists (os error 17)"
  | .notFolder => "Not a directory (os error 20)"
  | .isFolder => "Is a directory (os error 21)"
  | .tooLong => "File name too long (os error 36)"
  | .holdsNul => "file name contained an unexpected NUL byte"
  | .notText => "stream did not contain valid UTF-8"

/-- The names that lead from a start to a file or folder. -/
abbrev Place := List String

/-- What stands at a place. -/
inductive Entry where
  | file (content : List UInt8)
  | folder
deriving DecidableEq, Repr

/-! ## Paths -/

/-- How a path ends: with a name, with a slash after it, or with a dot. -/
inductive PathEnd where
  | name
  | slash
  | dot
deriving DecidableEq, Repr

/-- A path, as the pieces between its slashes. -/
structure Path where
  pieces : List String
deriving DecidableEq, Repr

namespace Path

/-- Takes a path apart at its slashes. -/
def ofString (path : String) : Path :=
  { pieces := (path.toList.splitOn '/').map String.ofList }

/-- The path as it is written. -/
def text (p : Path) : String :=
  "/".intercalate p.pieces

/-- A piece that leads nowhere: the empty one between two slashes, and the dot. -/
def isIdle (piece : String) : Bool :=
  piece = "" || piece = "."

/-- Where a path starts: at the root if a slash stands in front, else at the working
folder. -/
def start (p : Path) : Place :=
  if p.pieces.head? = some "" ∧ p.pieces.length ≠ 1 then ["/"] else []

/-- The names on the way, in which `..` leads back up. -/
def names (p : Path) : List String :=
  p.pieces.filter fun piece => !isIdle piece

/-- How a path ends. -/
def ending (p : Path) : PathEnd :=
  if (p.pieces.filter (· ≠ "")).getLast? = some "." then .dot
  else if p.pieces.getLast? = some "" ∧ p.pieces.length ≠ 1 then .slash
  else .name

/-- The path of the folder that holds what a path leads to. -/
def parent (p : Path) : Path :=
  { pieces := (((p.pieces.reverse.dropWhile isIdle).drop 1).dropWhile isIdle).reverse }

/-- The greatest number of octets in a name. -/
def nameLimit : Nat := 255

/-- The greatest number of octets in a path. -/
def pathLimit : Nat := 4095

/-- What is wrong with a path before any file is looked at. -/
def fault? (p : Path) : Option FileFault :=
  if p.text.toList.contains '\x00' then some .holdsNul
  else if pathLimit < Text.Utf8.size p.text.toList then some .tooLong
  else none

end Path

/-! ## Trees -/

/-- Files and folders by place. -/
structure FileTree where
  entries : List (Place × Entry) := []
  /-- The absolute path of the working folder. -/
  workingFolder : String := "/tmp/route-book"
deriving DecidableEq, Repr

namespace FileTree

/-- A place that is a folder at any time. -/
def isStart (place : Place) : Bool :=
  place = ["/"] || place.all (· = "..")

/-- The entry at a place. -/
def entry? (tree : FileTree) (place : Place) : Option Entry :=
  if isStart place then some .folder else tree.entries.lookup place

/-- The tree with another entry at a place. -/
def put (tree : FileTree) (place : Place) (entry : Entry) : FileTree :=
  { tree with entries := Pairs.put tree.entries place entry }

/-- The place above a place. Above the root there is the root itself. -/
def above (place : Place) : Place :=
  if place = ["/"] then place
  else if isStart place then ".." :: place
  else place.dropLast

/-- Looks up what stands at a place. A name that is too long cannot be looked up. -/
def find (tree : FileTree) (place : Place) : Except FileFault (Option Entry) :=
  if place.getLast?.any fun name => Path.nameLimit < Text.Utf8.size name.toList then .error .tooLong
  else .ok (tree.entry? place)

/-- Follows names from a folder. All but the last must lead to folders; the last is not
looked up. -/
def follow (tree : FileTree) (place : Place) : List String → Except FileFault Place
  | [] => .ok place
  | n :: ns =>
    if n = ".." then follow tree (above place) ns
    else if ns = [] then .ok (place ++ [n])
    else
      match tree.find (place ++ [n]) with
      | .ok (some .folder) => follow tree (place ++ [n]) ns
      | .ok (some (.file _)) => .error .notFolder
      | .ok none => .error .notFound
      | .error fault => .error fault

/-- The place that a path leads to, whether or not something stands there. -/
def placeOf (tree : FileTree) (p : Path) : Except FileFault Place :=
  match p.fault? with
  | some fault => .error fault
  | none => tree.follow p.start p.names

/-! ## Reading -/

/-- The octets of a file. -/
def read (tree : FileTree) (path : String) : Except FileFault (List UInt8) :=
  if path = "" then .error .notFound
  else do
    let p := Path.ofString path
    match ← tree.find (← tree.placeOf p) with
    | none => .error .notFound
    | some .folder => .error .isFolder
    | some (.file content) => if p.ending = .name then .ok content else .error .notFolder

/-- The text of a file that is UTF-8. -/
def readText (tree : FileTree) (path : String) : Except FileFault String := do
  match Text.Utf8.decode? (← tree.read path) with
  | some cs => .ok (String.ofList cs)
  | none => .error .notText

/-- Something stands where the path leads. The empty path leads to the working folder. -/
def holds (tree : FileTree) (path : String) : Bool :=
  let p := Path.ofString path
  match tree.placeOf p >>= tree.find with
  | .error _ | .ok none => false
  | .ok (some .folder) => true
  | .ok (some (.file _)) => p.ending = .name

/-- A path as seen from the root: a relative one goes on from the working folder. -/
def fromRoot (tree : FileTree) (path : String) : String :=
  if path.toList.head? = some '/' then path else tree.workingFolder ++ "/" ++ path

/-! ## Writing -/

/-- Writes a file, in place of a file that is there. The folder above it must exist. -/
def write (tree : FileTree) (path : String) (content : List UInt8) :
    Except FileFault FileTree :=
  if path = "" then .error .notFound
  else do
    let p := Path.ofString path
    let place ← tree.placeOf p
    if p.ending = .slash then .error .isFolder
    else
      match p.ending, ← tree.find place with
      | _, some .folder => .error .isFolder
      | .dot, some (.file _) => .error .notFolder
      | .dot, none => .error .notFound
      | _, _ => .ok (tree.put place (.file content))

/-- Makes the one folder to which names lead. -/
def makeFolder (tree : FileTree) (start : Place) (names : List String) :
    Except FileFault FileTree := do
  let place ← tree.follow start names
  match ← tree.find place with
  | some _ => .error .alreadyExists
  | none => .ok (tree.put place .folder)

/-- A folder stands where names lead. -/
def isFolderAt (tree : FileTree) (start : Place) (names : List String) : Bool :=
  match tree.follow start names with
  | .ok place => tree.entry? place = some .folder
  | .error _ => false

/-- Makes a folder, or is content with the one that is there. -/
def ensureFolder (tree : FileTree) (start : Place) (names : List String) :
    Except FileFault FileTree :=
  match tree.makeFolder start names with
  | .ok tree => .ok tree
  | .error fault => if tree.isFolderAt start names then .ok tree else .error fault

/-- Makes the folder to which the names lead, with those above it, as far as they are
missing. The names are given last one first. On a fault, folders may have been made. -/
def makeFoldersUp (tree : FileTree) (start : Place) : List String →
    FileTree × Except FileFault Unit
  | [] => (tree, .ok ())
  | n :: up =>
    let names := (n :: up).reverse
    match tree.ensureFolder start names with
    | .ok tree => (tree, .ok ())
    | .error .notFound =>
      match makeFoldersUp tree start up with
      | (tree, .error fault) => (tree, .error fault)
      | (tree, .ok ()) =>
        match tree.ensureFolder start names with
        | .ok tree => (tree, .ok ())
        | .error fault => (tree, .error fault)
    | .error fault => (tree, .error fault)

/-- Looks for the folder to which names lead, and makes those above it as far as they are
missing, but not the folder itself. -/
def requireFolder (tree : FileTree) (start : Place) (names : List String) :
    FileTree × Except FileFault Unit :=
  match tree.follow start names >>= tree.find with
  | .ok (some .folder) => (tree, .ok ())
  | .ok (some (.file _)) => (tree, .error .notFolder)
  | .ok none | .error .notFound =>
    match tree.makeFoldersUp start (names.reverse.drop 1) with
    | (tree, .error fault) => (tree, .error fault)
    | (tree, .ok ()) => (tree, .error .notFound)
  | .error fault => (tree, .error fault)

/-- Makes the folder at a path, with those above it. A dot at the end leads through the
folder, which must be there for that. -/
def makeFolders (tree : FileTree) (p : Path) : FileTree × Except FileFault Unit :=
  match p.fault?, p.ending with
  | some fault, _ => (tree, .error fault)
  | none, .dot => tree.requireFolder p.start p.names
  | none, _ => tree.makeFoldersUp p.start p.names.reverse

/-- Writes a file, making the folders above it first as far as they are missing. -/
def save (tree : FileTree) (path : String) (content : List UInt8) :
    FileTree × Except FileFault Unit :=
  match tree.makeFolders (Path.ofString path).parent with
  | (tree, .error fault) => (tree, .error fault)
  | (tree, .ok ()) =>
    match tree.write path content with
    | .ok tree => (tree, .ok ())
    | .error fault => (tree, .error fault)

/-- Takes a file away. The path must end with its name. -/
def delete (tree : FileTree) (path : String) : FileTree :=
  let p := Path.ofString path
  match p.ending, tree.placeOf p with
  | .name, .ok place =>
    match tree.entry? place with
    | some (.file _) => { tree with entries := Pairs.remove tree.entries place }
    | _ => tree
  | _, _ => tree

/-- The files of the tree. -/
def files (tree : FileTree) : List (Place × List UInt8) :=
  tree.entries.filterMap fun (place, entry) =>
    match entry with
    | .file content => some (place, content)
    | .folder => none

end FileTree

end RouteBook
