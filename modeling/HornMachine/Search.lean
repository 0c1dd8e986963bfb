import HornMachine.Environment.Pending

/-!
This module contains the search for proofs: the graph of the states that steps lead to from a query, as
far as some limits allow.
-/

namespace HornMachine

inductive SearchOrder where
  | breadthFirst
  | depthFirst
deriving DecidableEq, Repr

/--
States at depth `maxDepth` are not expanded, and no state once there are `maxNodes` of them.
-/
structure SearchLimits where
  maxDepth : Nat := 6
  maxNodes : Nat := 60
deriving DecidableEq, Repr

/--
A state with the step that led to it. If the steps from it could not be made, `fault` says why.
-/
structure Node where
  parent : Option Nat := none
  depth : Nat := 0
  via : Option Features := none
  state : State
  fault : Option Fault := none

/--
Nodes are numbered in the order in which they were found; `expanded` holds those from which steps were
made, in this order.
-/
structure ProofGraph where
  nodes : Array Node
  expanded : Array Nat := #[]

namespace ProofGraph

def isOpen (graph : ProofGraph) (limits : SearchLimits) (node : Node) : Bool :=
  !node.state.completed && !node.state.failed && node.depth < limits.maxDepth &&
    graph.nodes.size < limits.maxNodes

def markExpanded (graph : ProofGraph) (i : Nat) : ProofGraph :=
  { graph with expanded := graph.expanded.push i }

def setFault (graph : ProofGraph) (i : Nat) (fault : Fault) : ProofGraph :=
  { graph with nodes := graph.nodes.modify i ({ · with fault := some fault }) }

def addLinks (graph : ProofGraph) (i : Nat) (node : Node) (links : List Outlink) : ProofGraph :=
  let children : List Node := links.map fun link =>
    { parent := some i, depth := node.depth + 1, via := link.features, state := link.state }
  { graph with nodes := graph.nodes ++ children.toArray }

@[simp]
theorem size_addLinks (graph : ProofGraph) (i : Nat) (node : Node) (links : List Outlink)
    : (graph.addLinks i node links).nodes.size = graph.nodes.size + links.length := by
  simp [addLinks]

def nextNumbers (graph : ProofGraph) (count : Nat) : List Nat :=
  List.range' graph.nodes.size count

/--
Makes steps from the nodes in `work`, first one first, and from the nodes that they lead to. A search
in breadth puts new nodes behind the others, one in depth in front of them.
-/
def explore (env : Environment) (computeFeatures : Bool) (order : SearchOrder)
    (limits : SearchLimits) (graph : ProofGraph) (work : List Nat) (m : Machine)
    : ProofGraph × Machine :=
  match work with
  | [] => (graph, m)
  | i :: rest =>
    match graph.nodes[i]? with
    | none => explore env computeFeatures order limits graph rest m
    | some node =>
      if _hopen : graph.isOpen limits node then
        let marked := graph.markExpanded i
        match env.outlinks node.state computeFeatures m with
        | .error fault m' =>
          explore env computeFeatures order limits (marked.setFault i fault) rest m'
        | .ok links m' =>
          let new := graph.nextNumbers links.length
          let work := match order with
            | .breadthFirst => rest ++ new
            | .depthFirst => new ++ rest
          explore env computeFeatures order limits (marked.addLinks i node links) work m'
      else
        explore env computeFeatures order limits graph rest m
termination_by (limits.maxNodes - graph.nodes.size, work.length)
decreasing_by
  . exact Prod.Lex.right _ (by simp)
  . simp only [setFault, markExpanded, Array.size_modify]
    exact Prod.Lex.right _ (by simp)
  . have hsize : graph.nodes.size < limits.maxNodes := by
      simp only [isOpen, Bool.and_eq_true, decide_eq_true_eq] at _hopen
      exact _hopen.2
    by_cases hlinks : links.length = 0
    . apply Prod.Lex.right'
      . simp only [size_addLinks, markExpanded]
        omega
      . cases order <;> simp [nextNumbers, hlinks]
    . exact Prod.Lex.left _ _ (by simp only [size_addLinks, markExpanded]; omega)
  . exact Prod.Lex.right _ (by simp)

end ProofGraph

namespace Environment

def prove (env : Environment) (start : Nat) (computeFeatures : Bool) (order : SearchOrder)
    (limits : SearchLimits) : Exec ProofGraph := do
  let _ ← env.run (some start) computeFeatures
  let root ← Exec.save
  modifyGet (ProofGraph.explore env computeFeatures order limits ⟨#[{ state := root }], #[]⟩ [0])

end Environment

end HornMachine
