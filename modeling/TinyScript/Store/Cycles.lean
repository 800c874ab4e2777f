import TinyScript.Store.Graph
import Std.Data.HashSet

namespace TinyScript.Store

/-- What a search has met so far. -/
structure Search where
  entered : Std.HashSet Node
  /-- The nodes that an edge back comes from. -/
  sources : List Node

/-- Searches in depth from a node that has not been entered, below a path. The depth that is left is never used up,
because a path does not enter a node twice. -/
def search (s : Store) : Nat → List Node → Node → Search → Search
  | 0, _, _, found => found
  | depth + 1, path, here, found =>
    (s.children here).foldl
      (fun found child =>
        if found.entered.contains child then
          if child ∈ here :: path then { found with sources := here :: found.sources } else found
        else search s depth (here :: path) child found)
      { found with entered := found.entered.insert here }

/-- Searches from some arrays in turn. -/
def backSources (s : Store) (arrays : List ArrayId) : List Node :=
  (arrays.foldl
    (fun found id =>
      if found.entered.contains (.array id) then found
      else s.search (s.aggregateCount + 1) [] (.array id) found)
    (⟨∅, []⟩ : Search)).sources

def clearNode (s : Store) : Node → Store
  | .array id => s.clearArray id
  | .object id => s.clearObject id
  | _ => s

/-- Empties the aggregates that the search from some arrays finds at the start of an edge back. The search meets every
cycle at an edge that leads back to a node on its path. -/
def breakCycles (s : Store) (arrays : List ArrayId) : Store := (s.backSources arrays).foldl clearNode s

end TinyScript.Store
