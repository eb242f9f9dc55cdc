import RouteBook.Artifact.Decode
import RouteBook.Report

/-!
# Artifacts in files

An artifact is a JSON list with an object for each route. Members stand in the order path,
methods, name; one that is absent is left out, so that an absent list and an empty one are
written differently. Loading reads a file as UTF-8, decodes it, and refuses routes with defects; saving writes
the encoded routes in place of what was there. A catalog is loaded from an artifact under
the strict or the lenient rule about names.
-/

namespace RouteBook.Artifact
open Json (Layout)

/-! ## The written artifact -/

/-- The methods of a route, as a list of strings. -/
def writeMethods (layout : Layout) (methods : List String) : List Char :=
  layout.block 2 '[' ']' (methods.map Json.writeString)

/-- The members of a route, in order. -/
def writeMembers (layout : Layout) (r : Route) : List (List Char) :=
  layout.member "path" (Json.writeString r.path) ::
    ((r.methods.map fun ms => layout.member "methods" (writeMethods layout ms)).toList ++
      (r.name.map fun n => layout.member "name" (Json.writeString n)).toList)

/-- A route, as an object. -/
def writeRoute (layout : Layout) (r : Route) : List Char :=
  layout.block 1 '\x7b' '\x7d' (writeMembers layout r)

/-- The artifact of a list of routes, as characters. -/
def encodeChars (layout : Layout) (routes : List Route) : List Char :=
  layout.block 0 '[' ']' (routes.map (writeRoute layout))

/-- The artifact of a list of routes (`records_to_string`). -/
def encode (layout : Layout) (routes : List Route) : String :=
  String.ofList (encodeChars layout routes)

/-! ## Loading and saving -/

/-- The routes of an artifact's text (`records_from_str`). Defects are looked for when all of it
has been read. -/
def decode (text : String) : Except Failure (List Route) :=
  match readRoutes text.toList with
  | .error fault => .error (.json fault)
  | .ok routes =>
    match Route.defects routes with
    | [] => .ok routes
    | defects => .error (.defective defects)

/-- The routes of the artifact at a path (`load_records`). -/
def load (tree : FileTree) (path : String) : Except Failure (List Route) := do
  decode (← (tree.readText path).mapError .file)

/-- The catalog of the artifact at a path (`load_index`). -/
def loadCatalog (tree : FileTree) (path : String) (strict : Bool) : Except Failure Catalog := do
  (Catalog.build strict (← load tree path)).mapError .repeated

/-- Writes routes to a path, and tells what was written (`save_records`). Routes with defects are
written as well. On a failure no file has changed, but folders may have been made. -/
def save (tree : FileTree) (path : String) (layout : Layout) (routes : List Route) :
    Except Failure Unit × FileTree × List Event :=
  match tree.save path (Text.Utf8.encode (encodeChars layout routes)) with
  | (tree, .ok ()) => (.ok (), tree, [.artifactWritten path routes.length layout])
  | (tree, .error fault) => (.error (.file fault), tree, [])

end RouteBook.Artifact
