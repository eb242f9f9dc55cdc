import RouteBook.Pairs

/-!
# TOML documents as values

A document is a table of items. Tables remember how they came about, because that decides
which later lines may add to them: a header may complete a table that was only implied, a
dotted key may add to tables that no header has opened, and nothing adds to a table that
was written inline.
-/

namespace RouteBook.Toml

/-- How a table came about. -/
inductive Origin where
  /-- By a header of its own, or as the document. -/
  | header
  /-- As a step on the way to a header's table. -/
  | implied
  /-- By a dotted key. -/
  | dotted
  /-- Between braces. -/
  | inline
deriving DecidableEq, Repr

/-- An item of a document. Decimal numbers and times are kept as they are written. -/
inductive Item where
  | string (s : String)
  | integer (i : Int)
  | decimal (text : String)
  | boolean (b : Bool)
  | time (text : String)
  | array (items : List Item)
  | table (origin : Origin) (members : List (String × Item))
  /-- The tables of one repeated header, the latest last. -/
  | tables (tables : List (List (String × Item)))
deriving Repr

/-- The members of a table. -/
abbrev Members := List (String × Item)

/-- Which tables a way may lead through, and what the tables are that it makes. -/
structure Passage where
  passes : Origin → Bool
  made : Origin

/-- The way of a header: through any table that was not written inline. -/
def Passage.header : Passage := ⟨(· ≠ .inline), .implied⟩

/-- The way of a dotted key: through tables that no header has opened. -/
def Passage.dotted : Passage := ⟨fun o => o = .implied ∨ o = .dotted, .dotted⟩

/-- The way of a dotted key between braces: through tables that dotted keys made there. -/
def Passage.inline : Passage := ⟨(· = .dotted), .dotted⟩

/-- Changes the table at the end of a way. Tables that are missing are made; a repeated
header stands for its latest table. `change` is told how the table came about. -/
def changeAt (passage : Passage) (change : Origin → Members → Option Members) :
    List String → Origin → Members → Option Members
  | [], origin, members => change origin members
  | key :: way, _, members =>
    match members.lookup key with
    | none => do
      let inner ← changeAt passage change way passage.made []
      some (Pairs.put members key (.table passage.made inner))
    | some (.table origin inner) =>
      if passage.passes origin then do
        let inner ← changeAt passage change way origin inner
        some (Pairs.put members key (.table origin inner))
      else none
    | some (.tables ts) => do
      let inner ← changeAt passage change way .header (ts.getLast?.getD [])
      some (Pairs.put members key (.tables (ts.dropLast ++ [inner])))
    | some _ => none

/-- Adds a member that is not there yet. A key with dots belongs in a table that dotted
keys made, a key without dots in one that they did not make. -/
def addMember (plain : Bool) (key : String) (item : Item) (origin : Origin)
    (members : Members) : Option Members :=
  if decide (origin = .dotted) = plain then none
  else if (members.lookup key).isSome then none
  else some (Pairs.put members key item)

/-- Assigns an item to a key that may have dots: `way` holds the names before the last. -/
def assign (passage : Passage) (way : List String) (key : String) (item : Item)
    (origin : Origin) (members : Members) : Option Members :=
  changeAt passage (addMember way.isEmpty key item) way origin members

/-- Opens the table of a header: a new one, or one that was only implied so far. -/
def openTable (key : String) (_ : Origin) (members : Members) : Option Members :=
  match members.lookup key with
  | none => some (Pairs.put members key (.table .header []))
  | some (.table .implied inner) => some (Pairs.put members key (.table .header inner))
  | some _ => none

/-- Adds a table to those of a repeated header. -/
def appendTable (key : String) (_ : Origin) (members : Members) : Option Members :=
  match members.lookup key with
  | none => some (Pairs.put members key (.tables [[]]))
  | some (.tables ts) => some (Pairs.put members key (.tables (ts ++ [[]])))
  | some _ => none

/-- A line of a document, in as far as it says something. -/
inductive Statement where
  | header (way : List String) (key : String)
  | repeatedHeader (way : List String) (key : String)
  | assignment (way : List String) (key : String) (item : Item)

/-- A document being built: its members, and the way to the table of the last header. -/
structure Draft where
  members : Members := []
  current : List String := []

/-- Carries out one line. -/
def Draft.carryOut (draft : Draft) : Statement → Option Draft
  | .header way key => do
    let members ← changeAt .header (openTable key) way .header draft.members
    some { members, current := way ++ [key] }
  | .repeatedHeader way key => do
    let members ← changeAt .header (appendTable key) way .header draft.members
    some { members, current := way ++ [key] }
  | .assignment way key item => do
    let members ←
      changeAt .header (assign .dotted way key item) draft.current .header draft.members
    some { draft with members }

/-- The members of the document that lines make up, unless one of them is refused. -/
def build (statements : List Statement) : Option Members := do
  let draft ← statements.foldlM Draft.carryOut {}
  some draft.members

end RouteBook.Toml
