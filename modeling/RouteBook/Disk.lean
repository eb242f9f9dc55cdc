import RouteBook.FileTree

/-!
# Files on the disk

The outer side of file trees: the part of the disk that some paths touch is taken up into a
tree before a run, and what the run changed in the tree is written out after it.
-/

namespace RouteBook.Disk

/-- The places that names lead through, from a folder on. -/
def placesAlong (place : Place) : List String → List Place
  | [] => []
  | n :: ns =>
    let next := if n = ".." then FileTree.above place else place ++ [n]
    next :: placesAlong next ns

/-- The places that a path leads through, to its end. -/
def placesOn (path : String) : List Place :=
  let p := Path.ofString path
  placesAlong p.start p.names

/-- A path to a place. -/
def pathTo : Place → String
  | "/" :: names => "/" ++ "/".intercalate names
  | names => "/".intercalate names

/-- What the disk has at a place. -/
def look (place : Place) : IO (Option Entry) := do
  let path := (← IO.currentDir) / pathTo place
  if ← path.isDir then
    return some .folder
  else
    try
      return some (.file (← IO.FS.readBinFile path).toList)
    catch _ =>
      return none

/-- The part of the disk that paths touch. -/
def take (paths : List String) : IO FileTree := do
  let mut tree : FileTree := { workingFolder := (← IO.currentDir).toString }
  for place in paths.flatMap placesOn do
    if !FileTree.isStart place then
      if let some entry ← look place then
        tree := tree.put place entry
  return tree

/-- Writes out what has changed from one tree to another, folders above before what they
hold. -/
def bring (before after : FileTree) : IO Unit := do
  for (place, entry) in after.entries do
    if before.entry? place ≠ some entry then
      match entry with
      | .folder => IO.FS.createDirAll (pathTo place)
      | .file content => IO.FS.writeBinFile (pathTo place) content.toByteArray

end RouteBook.Disk
