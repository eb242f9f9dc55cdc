import RouteBook.Catalog
import RouteBook.Template

/-!
# Resolving a named route

The template of a name is filled from keyed or from positional values. Keyed values are
found by placeholder key, and a key that no placeholder has is no matter. Positional values
are used from left to right, and there must be as many as placeholders. A value is put in
as it is and never read again as template text. Without values the template itself is the
answer.
-/

namespace RouteBook

/-- The values for the placeholders of a template (`RouteArgs`). -/
inductive Values where
  /-- Pairs of key and value; of two with one key the later counts. -/
  | keyed (pairs : List (String × String))
  /-- Values in the order of the placeholders. -/
  | positional (values : List String)
deriving DecidableEq, Repr

/-- The reasons for which a name is given no path (`ResolveError`). -/
inductive Refusal where
  | unknownRoute (route : String)
  | missingValue (route placeholder : String)
  | tooFewValues (route placeholder : String)
  | tooManyValues (route : String)
deriving DecidableEq, Repr

namespace Refusal

/-- The four kinds of failure, which are counted apart. -/
inductive Kind where
  | unknownRoute
  | missingValue
  | tooFewValues
  | tooManyValues
deriving DecidableEq, Repr

/-- The label under which a kind is counted. -/
def Kind.label : Kind → String
  | .unknownRoute => "unknown_route"
  | .missingValue => "missing_value"
  | .tooFewValues => "too_few_values"
  | .tooManyValues => "too_many_values"

/-- The kind of a failure (`kind` of `ResolveError`). -/
def kind : Refusal → Kind
  | .unknownRoute _ => .unknownRoute
  | .missingValue _ _ => .missingValue
  | .tooFewValues _ _ => .tooFewValues
  | .tooManyValues _ => .tooManyValues

/-- The route that was asked for. -/
def route : Refusal → String
  | .unknownRoute r | .missingValue r _ | .tooFewValues r _ | .tooManyValues r => r

/-- The placeholder that had no value, if that was the reason. -/
def placeholder? : Refusal → Option String
  | .missingValue _ p | .tooFewValues _ p => some p
  | .unknownRoute _ | .tooManyValues _ => none

/-- The wording of a failure. -/
def message : Refusal → String
  | .unknownRoute r => s!"no route exists with the name: {r}"
  | .missingValue r p => s!"no matching value exists in the hash for named route {r}: {p}"
  | .tooFewValues r p => s!"not enough placeholder values provided for named route {r}: {p}"
  | .tooManyValues r => s!"too many placeholder values provided for named route {r}"

end Refusal

namespace Template

/-- The value of a key among pairs: that of the last pair with the key. -/
def lastValue? (pairs : List (String × String)) (key : String) : Option String :=
  pairs.reverse.lookup key

/-- Fills parts by key (`substitute`). Fails with the first key that has no value. -/
def fillKeyed (value? : String → Option String) :
    List Part → Except (List Char) (List Char)
  | [] => .ok []
  | .literal c :: ps => (fillKeyed value? ps).map (c :: ·)
  | .hole key :: ps =>
    match value? (String.ofList key) with
    | none => .error key
    | some v => (fillKeyed value? ps).map (v.toList ++ ·)

/-- Fills parts by position, and returns the values left over (`substitute`). Fails with the key
of the first placeholder that gets no value. -/
def fillPositional : List String → List Part →
    Except (List Char) (List Char × List String)
  | vs, [] => .ok ([], vs)
  | vs, .literal c :: ps => (fillPositional vs ps).map fun (text, rest) => (c :: text, rest)
  | [], .hole key :: _ => .error key
  | v :: vs, .hole _ :: ps =>
    (fillPositional vs ps).map fun (text, rest) => (v.toList ++ text, rest)

end Template

/-- The text of the placeholder with the given key. -/
def tokenOf (key : List Char) : String :=
  String.ofList (':' :: key)

/-- Fills the template of the route `name`. -/
def fillTemplate (name template : String) : Option Values → Except Refusal String
  | none => .ok template
  | some (.keyed pairs) =>
    match Template.fillKeyed (Template.lastValue? pairs) (Template.parts template.toList) with
    | .ok text => .ok (String.ofList text)
    | .error key => .error (.missingValue name (tokenOf key))
  | some (.positional values) =>
    match Template.fillPositional values (Template.parts template.toList) with
    | .ok (text, []) => .ok (String.ofList text)
    | .ok (_, _ :: _) => .error (.tooManyValues name)
    | .error key => .error (.tooFewValues name (tokenOf key))

/-- The path of a named route, filled from the values (`resolve` of `RouteIndex`). -/
def Catalog.resolve (catalog : Catalog) (name : String) (values : Option Values) :
    Except Refusal String :=
  match catalog.pathOf? name with
  | none => .error (.unknownRoute name)
  | some template => fillTemplate name template values

end RouteBook
