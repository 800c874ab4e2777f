import TinyScript.Store.Graph
import Std.Data.HashMap

namespace TinyScript

/-- How many references there are to the nodes. -/
abbrev References := Std.HashMap Node Nat

namespace References

def count (r : References) (n : Node) : Nat := r.getD n 0

def add (r : References) (n : Node) : References := r.insert n (r.count n + 1)

def remove (r : References) (n : Node) : References := r.insert n (r.count n - 1)

end References

namespace Store

/-- The references that roots and nodes hold. -/
def references (s : Store) (roots nodes : List Node) : References :=
  nodes.foldl (fun r n => (s.edges n).foldl .add r) (roots.foldl .add ∅)

/-- Gives up references to some nodes one by one. A node whose last reference goes is put in front of those
that are to be released. -/
def giveUp (targets released : List Node) (r : References) : List Node × References :=
  targets.foldl (fun (released, r) n => (if r.count n = 1 then n :: released else released, r.remove n)) (released, r)

/-- Releases nodes, and the nodes to which only they referred. -/
def release (s : Store) : Nat → List Node → References → References
  | 0, _, r => r
  | _, [], r => r
  | steps + 1, n :: released, r =>
    let (released, r) := giveUp (s.edges n) released r
    release s steps released r

/-- The references that are left when nodes without any are released. Every step releases a node, which gives up its own
references. Nodes in a cycle keep each other in use. -/
def settle (s : Store) (roots : List Node) : References :=
  let r := s.references roots s.nodes
  s.release s.nodes.length (s.nodes.filter fun n => r.count n = 0) r

/-- The arrays created since the session began anew that are still in use, the oldest first. -/
def createdInUse (s : Store) (roots : List Node) : List ArrayId :=
  let r := s.settle roots
  s.created.toList.filter fun id => r.count (.array id) ≠ 0

end Store

end TinyScript
