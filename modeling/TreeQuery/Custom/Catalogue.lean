import TreeQuery.Custom.Registry
import TreeQuery.Region.Place

/-!
# A catalogue of custom selectors

Ready-made custom selectors over the places of a document.
-/

set_option autoImplicit false

namespace TreeQuery

inductive CatalogueEntry where
  | identity
  | nothing
  | everyOther
  | reverse
  | skip
  | apply
  | fail
  | concat
  /-- Two of what the nested selector answers, from a position on. -/
  | window
  | slice
  | withAttribute
  | tagged
  /-- The place at a position of the nested selector's answer if it is a node with an
  attribute. -/
  | pick
  deriving DecidableEq, Inhabited

def evenPositions {α : Type} : List α → List α
  | [] => []
  | [x] => [x]
  | x :: _ :: xs => x :: evenPositions xs

namespace Place

variable (d : Document)

def isNodeWith (name : String) : Place → Bool
  | node id => (d.attribute? id name).isSome
  | region _ => false

end Place

namespace CatalogueEntry

def selector (d : Document) : CatalogueEntry → CustomSelector Place
  | identity => ⟨[], fun .nil xs => pure xs⟩
  | nothing => ⟨[], fun .nil _ => pure []⟩
  | everyOther => ⟨[], fun .nil xs => pure (evenPositions xs)⟩
  | reverse => ⟨[], fun .nil xs => pure xs.reverse⟩
  | skip => ⟨[.integer], fun (.integer n .nil) xs => pure (xs.drop n.toNat)⟩
  | apply => ⟨[.subSelector], fun (.subSelector s .nil) xs => s.run xs⟩
  | fail => ⟨[.string], fun (.string message .nil) _ => .fail (.raised .argument message)⟩
  | concat =>
    ⟨[.subSelector, .subSelector], fun (.subSelector s (.subSelector t .nil)) xs => do
      let ys ← s.run xs
      return ys ++ (← t.run xs)⟩
  | window =>
    ⟨[.integer, .subSelector], fun (.integer n (.subSelector s .nil)) xs => do
      return ((← s.run xs).drop n.toNat).take 2⟩
  | slice =>
    ⟨[.integer, .integer, .subSelector],
      fun (.integer start (.integer stop (.subSelector s .nil))) xs => do
        return ((← s.run xs).drop start.toNat).take (stop.toNat - start.toNat)⟩
  | withAttribute =>
    ⟨[.string], fun (.string name .nil) xs => pure (xs.filter (Place.isNodeWith d name))⟩
  | tagged =>
    ⟨[.string, .subSelector], fun (.string name (.subSelector s .nil)) xs => do
      return (← s.run xs).filter (Place.hasClass d name)⟩
  | pick =>
    ⟨[.subSelector, .integer, .string],
      fun (.subSelector s (.integer i (.string name .nil))) xs => do
        let ys ← s.run xs
        return if 0 ≤ i then (ys[i.toNat]?.filter (Place.isNodeWith d name)).toList else []⟩

end CatalogueEntry

def Registry.ofCatalogue (d : Document) (entries : List (String × CatalogueEntry)) :
    Except SelectorError (Registry Place) :=
  entries.foldlM (fun r (name, entry) => r.register name (entry.selector d)) {}

end TreeQuery
