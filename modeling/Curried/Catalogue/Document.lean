/-
  Curried.Catalogue.Document — a catalogue as its readers see it, in JSON or as a listing.
-/

import Curried.Catalogue
import Curried.Text.Json
import Curried.Text.Style

namespace Curried

open Text

def Parameter.document (p : Parameter) : Json :=
  .object [("name", .text p.name), ("type", .text p.type), ("description", .text p.description)]

def Definition.document (d : Definition) : Json :=
  .object [
    ("name", .text d.name),
    ("signature", .text d.signature),
    ("description", .text d.description),
    ("category", .text d.category.name),
    ("parameters", .list (d.parameters.map (·.document))),
    ("returnType", .text d.returnType),
    ("examples", .list (d.examples.map .text))]

namespace Catalogue

/-- All definitions by name, and again by category. -/
def document (c : Catalogue) : Json :=
  .object [
    ("functions", .object (c.definitions.map fun d => (d.name, d.document))),
    ("byCategory", .object (c.groups.map fun (category, ds) => (category.name, .list (ds.map (·.document)))))]

/-- A text filled with blanks to a width. -/
def padded (width : Nat) (text : String) : String :=
  text ++ String.ofList (List.replicate (width - text.length) ' ')

def listingRow (d : Definition) : String := s!"  {padded 36 d.signature} {d.description}"

/-- The lines about one category: its name, its functions by name, an empty line. -/
def categoryListing (c : Catalogue) (category : Category) : List String :=
  match (c.inCategory category).mergeSort (fun d e => d.name ≤ e.name) with
  | [] => []
  | ds => Style.bold.apply category.name :: ds.map listingRow ++ [""]

/-- The lines about some categories, and how many functions they have. -/
def listing (c : Catalogue) (categories : List Category) : List String :=
  let count := (categories.flatMap c.inCategory).length
  categories.flatMap c.categoryListing ++ [s!"{count} builtins"]

end Catalogue

end Curried
