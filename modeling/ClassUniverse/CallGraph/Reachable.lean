import ClassUniverse.CallGraph.Graph

/-!
# Reachable methods

The methods that control can get to from the entry points.  The set only grows: an update takes in
new entry points and the calls that were added to the graph since the last update.
-/

namespace ClassUniverse

/-- The reachable methods in order of discovery, each signature once, and how many calls of the
graph have been taken in. -/
structure Reachable where
  methods : List Method
  edgesSeen : Nat
  deriving Repr

namespace Reachable

def empty : Reachable := ⟨[], 0⟩

instance : Inhabited Reachable := ⟨empty⟩

/-- Whether a method of that signature is in the set. -/
def contains (r : Reachable) (m : Method) : Bool := Search.isSeen Method.signature r.methods m

/-- The methods found and the ones still to be looked at, after a call of a method found. -/
def followNew (found : List Method × List Method) (e : Edge) : List Method × List Method :=
  if Search.isSeen Method.signature found.1 e.source then
    let fresh := Search.unseen Method.signature found.1 [e.target]
    (found.1 ++ fresh, found.2 ++ fresh)
  else found

/-- The set after taking in entry points and the calls of a graph. -/
def update (r : Reachable) (g : CallGraph) (entries : List Method) : Reachable :=
  let fresh := Search.unseen Method.signature r.methods entries
  let news := g.edgesSince r.edgesSeen
  let (found, queue) := news.foldl followNew (r.methods ++ fresh, fresh)
  ⟨Search.explore Method.signature g.targets (queue.length + g.size) found queue,
    r.edgesSeen + news.length⟩

end Reachable

end ClassUniverse
