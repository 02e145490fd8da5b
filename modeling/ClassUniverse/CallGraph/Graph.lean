import ClassUniverse.CallGraph.InvokeKind
import ClassUniverse.Member
import ClassUniverse.Search

/-!
# Call graphs

A call graph is a growing list of calls and an index of it.  Calls leave by the signature of the
caller: two methods with one signature have the same calls.  The index has the positions of the
calls that leave by a signature, so that no search goes through the whole list.
-/

namespace ClassUniverse

/-- A call. -/
structure Edge where
  source : Method
  target : Method
  kind : InvokeKind
  deriving DecidableEq, Repr

/-- The positions in a list of the calls that leave by a signature. -/
def positionsFrom (edges : List Edge) (signature : String) : List Nat :=
  (edges.zipIdx.filter fun place => place.1.source.signature == signature).map Prod.snd

/-- At the positions stand the calls that leave by the signature, in the order of the list. -/
theorem map_positionsFrom (edges : List Edge) (signature : String) :
    (positionsFrom edges signature).map (edges[·]?) =
      (edges.filter fun e => e.source.signature == signature).map some := by
  let leaves : Edge → Bool := fun e => e.source.signature == signature
  have stands : ((edges.zipIdx.filter (leaves ∘ Prod.fst)).map Prod.snd).map (edges[·]?) =
      ((edges.zipIdx.filter (leaves ∘ Prod.fst)).map Prod.fst).map some := by
    rw [List.map_map, List.map_map]
    apply List.map_congr_left
    intro place h
    exact List.mem_zipIdx_iff_getElem?.mp (List.mem_filter.mp h).1
  have calls : (edges.zipIdx.filter (leaves ∘ Prod.fst)).map Prod.fst = edges.filter leaves := by
    rw [← List.filter_map, List.zipIdx_map_fst]
  exact stands.trans (congrArg (List.map some) calls)

theorem positionsFrom_append (edges : List Edge) (e : Edge) (signature : String) :
    positionsFrom (edges ++ [e]) signature = positionsFrom edges signature ++
      if signature = e.source.signature then [edges.length] else [] := by
  by_cases same : signature = e.source.signature
  · simp [positionsFrom, List.zipIdx_append, same]
  · simp [positionsFrom, List.zipIdx_append, same, Ne.symm same]

/-- The calls found so far, oldest first, and under each signature the positions of those that leave
by it. -/
structure CallGraph where
  edges : List Edge
  bySource : OrderedMap (List Nat)
  indexed : ∀ signature, (bySource.get? signature).getD [] = positionsFrom edges signature

namespace CallGraph

def empty : CallGraph := ⟨[], .empty, fun _ => rfl⟩

instance : Inhabited CallGraph := ⟨empty⟩

/-- The positions that the index has under a signature. -/
def positions (g : CallGraph) (signature : String) : List Nat :=
  (g.bySource.get? signature).getD []

theorem map_positions (g : CallGraph) (signature : String) :
    (g.positions signature).map (g.edges[·]?) =
      (g.edges.filter fun e => e.source.signature == signature).map some := by
  rw [positions, g.indexed, map_positionsFrom]

theorem lt_length_of_mem_positions {g : CallGraph} {signature : String} :
    ∀ i ∈ g.positions signature, i < g.edges.length := by
  intro i h
  have found := List.mem_map_of_mem (f := (g.edges[·]?)) h
  rw [map_positions] at found
  obtain ⟨e, -, here⟩ := List.mem_map.mp found
  exact (List.getElem?_eq_some_iff.mp here.symm).1

def edgesFrom (g : CallGraph) (m : Method) : List Edge :=
  (g.positions m.signature).pmap (fun i h => g.edges.get ⟨i, h⟩) lt_length_of_mem_positions

/-- The index leads to the calls that leave by the signature, oldest first. -/
theorem edgesFrom_eq_filter (g : CallGraph) (m : Method) :
    g.edgesFrom m = g.edges.filter fun e => e.source.signature == m.signature := by
  have read : (g.edgesFrom m).map some = (g.positions m.signature).map (g.edges[·]?) := by
    rw [edgesFrom, List.map_pmap, ← List.pmap_eq_map lt_length_of_mem_positions]
    apply List.pmap_congr_left
    intro i _ h _
    simp
  rw [map_positions] at read
  exact (List.map_inj_right fun _ _ => Option.some.inj).mp read

/-- Whether there is a call with the signature of the caller, the method called and the kind of a
call. -/
def contains (g : CallGraph) (e : Edge) : Bool :=
  (g.edgesFrom e.source).any fun old => old.kind == e.kind && old.target.serial == e.target.serial

/-- The graph with one more call at the end. -/
def append (g : CallGraph) (e : Edge) : CallGraph where
  edges := g.edges ++ [e]
  bySource :=
    let key := e.source.signature
    g.bySource.insert key (g.positions key ++ [g.edges.length])
  indexed := by
    intro signature
    rw [OrderedMap.get?_insert, positionsFrom_append, ← g.indexed]
    by_cases same : signature = e.source.signature
    · simp [same, positions]
    · simp [same]

/-- The graph with a call, and whether the call is new. -/
def add (g : CallGraph) (e : Edge) : Bool × CallGraph :=
  if g.contains e then (false, g) else (true, g.append e)

def edgesSince (g : CallGraph) (start : Nat) : List Edge := g.edges.drop start

def size (g : CallGraph) : Nat := g.edges.length

def targets (g : CallGraph) (m : Method) : List Method := (g.edgesFrom m).map (·.target)

/-- The methods that a method calls directly or through others, by signature and in the order of
discovery. -/
def transitiveCallees (g : CallGraph) (m : Method) : List Method :=
  Search.reach Method.signature g.targets g.size (g.targets m)

end CallGraph

end ClassUniverse
