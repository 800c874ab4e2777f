import TinyScript.Store

namespace TinyScript

/-- What is shared is a graph. An edge leads from what refers to what it refers to. -/
inductive Node where
  | array (id : ArrayId)
  | object (id : ObjectId)
  | closure (id : ClosureId)
  | scope (id : ScopeId)
  deriving DecidableEq, Hashable

/-- The node that a value refers to. -/
def Value.node? : Value → Option Node
  | array id => some (.array id)
  | object id => some (.object id)
  | closure id => some (.closure id)
  | _ => none

/-- Arrays and objects hold values for everyone to see, closures and scopes do not. -/
def Node.isAggregate : Node → Bool
  | array _ | object _ => true
  | _ => false

namespace Store

/-- The values in an array or in an object, in order. -/
def held (s : Store) : Node → List Value
  | .array id => (s.elements id).toList
  | .object id => (s.entries id).values
  | _ => []

/-- What a node refers to. A closure refers to its scope, a scope to what it binds and to the scope around it. -/
def edges (s : Store) : Node → List Node
  | .closure id => (s.closures[id]?.map fun c => Node.scope c.scope).toList
  | .scope id => (s.bindings id).values.filterMap Value.node? ++ ((s.outer? id).map Node.scope).toList
  | aggregate => (s.held aggregate).filterMap Value.node?

/-- The aggregates in an aggregate. -/
def children (s : Store) (n : Node) : List Node :=
  ((s.held n).filterMap Value.node?).filter Node.isAggregate

def nodes (s : Store) : List Node :=
  (List.range s.arrays.size).map Node.array ++ (List.range s.objects.size).map Node.object ++
    (List.range s.closures.size).map Node.closure ++ (List.range s.scopes.size).map Node.scope

/-- How many arrays and objects there are. No path through different ones is longer. -/
def aggregateCount (s : Store) : Nat := s.arrays.size + s.objects.size

end Store

end TinyScript
