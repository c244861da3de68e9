import FinalityGadget.Config.Param

/-!
# Nested configurations

A flat configuration stands for the tree in which the segments of a path lead from object to
object to its value. Paths are taken in ascending order; one that leads through a value that is
not an object collides with the parameter there.
-/

namespace FinalityGadget

namespace Path

/-- Cuts text at every point. -/
def cut : List Char → List (List Char)
  | [] => [[]]
  | c :: rest =>
    if c = '.' then [] :: cut rest
    else
      match cut rest with
      | segment :: segments => (c :: segment) :: segments
      | [] => [[c]]

/-- The segments of a dotted path. There is always one, which may be empty. -/
def segments (path : String) : List String := (cut path.toList).map String.ofList

end Path

namespace Json

/-- Puts a value where a path leads below another value, if only objects are on the way. -/
def setPath? (value : Json) : (segments : List String) → (tree : Json) → Option Json
  | [], _ => some value
  | segment :: segments, .object fields =>
    let child := (fields.lookup segment).getD (.object [])
    (setPath? value segments child).map fun child => .object (insertField segment child fields)
  | _ :: _, _ => none

end Json

namespace FlatConfig

/-- The parameters of a list; the last of equal paths counts. -/
def ofList (params : List (String × Json)) : FlatConfig :=
  params.foldl (fun flat param => flat.insert param.1 param.2) ∅

/-- Replaces the values of the given parameters. -/
def update (flat : FlatConfig) (params : List (String × Json)) : FlatConfig :=
  params.foldl (fun flat param => flat.insert param.1 param.2) flat

/-- Adds parameters to a tree in order; fails with the first path that collides. -/
def grow : (params : List (String × Json)) → (tree : Json) → Except String Json
  | [], tree => .ok tree
  | (path, value) :: params, tree =>
    match Json.setPath? value (Path.segments path) tree with
    | some tree => grow params tree
    | none => .error path

/-- The tree of a flat configuration, or the path that collides. -/
def tree (flat : FlatConfig) : Except String Json := grow flat.toList (.object [])

end FlatConfig

end FinalityGadget
