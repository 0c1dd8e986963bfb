import HornMachine.Proofs.Environment.Reach
import HornMachine.Proofs.Environment.WellFormed
import HornMachine.Search

/-!
This module contains what a search for proofs finds: a tree that has the steps of the environment as its
edges, with states that all theorems about searches speak of. A search that its limits do not stop leaves
out no step.
-/

namespace HornMachine

namespace Node

def linkFrom (i : Nat) (node : Node) : Option Outlink :=
  if node.parent = some i then some ⟨node.via, node.state⟩ else none

def child (i : Nat) (node : Node) (link : Outlink) : Node where
  parent := some i
  depth := node.depth + 1
  via := link.features
  state := link.state

structure Same (node node' : Node) : Prop where
  parent_eq : node'.parent = node.parent
  depth_eq : node'.depth = node.depth
  state_eq : node'.state = node.state

theorem Same.refl (node : Node) : node.Same node :=
  ⟨rfl, rfl, rfl⟩

structure ReachedIn (env : Environment) (start : Nat) (symbols : SymbolTable) (node : Node) : Prop where
  reached : ∃ symbols', symbols' ≤ symbols ∧ Reached env start symbols' node.state
  wellFormed : node.state.WellFormed False symbols

theorem ReachedIn.mono {env : Environment} {start : Nat} {symbols symbols' : SymbolTable} {node : Node}
    (h : node.ReachedIn env start symbols) (hle : symbols ≤ symbols')
    : node.ReachedIn env start symbols' := by
  rcases h.reached with ⟨before, hbefore, hreached⟩
  exact ⟨⟨before, Interner.le_trans hbefore hle, hreached⟩, h.wellFormed.mono hle⟩

theorem ReachedIn.congr {env : Environment} {start : Nat} {symbols : SymbolTable} {node node' : Node}
    (h : node.ReachedIn env start symbols) (hsame : node.Same node')
    : node'.ReachedIn env start symbols := by
  rcases h with ⟨hreached, hwellFormed⟩
  rw [← hsame.state_eq] at hreached hwellFormed
  exact ⟨hreached, hwellFormed⟩

end Node

namespace ProofGraph

def linksFrom (graph : ProofGraph) (i : Nat) : List Outlink :=
  graph.nodes.toList.filterMap (Node.linkFrom i)

theorem getElem?_start {root : State} {i : Nat} {node : Node}
    (h : (⟨#[{ state := root }], #[]⟩ : ProofGraph).nodes[i]? = some node)
    : i = 0 ∧ node = { state := root } := by
  cases i with
  | zero =>
    cases h
    exact ⟨rfl, rfl⟩
  | succ i => simp at h

theorem isOpen_mono {graph graph' : ProofGraph} {limits : SearchLimits} {node : Node}
    (hsize : graph.nodes.size ≤ graph'.nodes.size) (h : graph.isOpen limits node = false)
    : graph'.isOpen limits node = false := by
  by_contra hopen
  simp only [isOpen, Bool.and_eq_true, decide_eq_true_eq, Bool.not_eq_false] at hopen
  have hopen' : graph.isOpen limits node = true := by
    simp only [isOpen, Bool.and_eq_true, decide_eq_true_eq]
    exact ⟨hopen.1, by omega⟩
  rw [hopen'] at h
  contradiction

/--
The graph after node number `i` was expanded: each of the links leads to a new node, and the node itself
may have got a fault.
-/
structure Expanded (graph : ProofGraph) (i : Nat) (node : Node) (links : List Outlink)
    (graph' : ProofGraph) : Prop where
  expanded_eq : graph'.expanded = graph.expanded.push i
  size_eq : graph'.nodes.size = graph.nodes.size + links.length
  linksFrom_eq : ∀ k, graph'.linksFrom k = graph.linksFrom k ++ if i = k then links else []
  kept : ∀ {k : Nat} {old : Node}, graph.nodes[k]? = some old →
    ∃ new, graph'.nodes[k]? = some new ∧ old.Same new ∧ (k ≠ i → new = old)
  added : ∀ {k : Nat} {new : Node}, graph.nodes.size ≤ k → graph'.nodes[k]? = some new →
    ∃ link ∈ links, new = node.child i link

section Expanded

variable {graph graph' : ProofGraph} {i : Nat} {node : Node} {links : List Outlink}

theorem expanded_setFault (fault : Fault)
    : graph.Expanded i node [] ((graph.markExpanded i).setFault i fault) where
  expanded_eq := rfl
  size_eq := Array.size_modify
  linksFrom_eq k := by
    have hsame : ∀ (nodes : List Node) (i : Nat),
        (nodes.modify i ({ · with fault := some fault })).filterMap (Node.linkFrom k) =
          nodes.filterMap (Node.linkFrom k) := by
      intro nodes
      induction nodes with
      | nil => intro i; simp
      | cons node nodes ih =>
        intro i
        cases i with
        | zero => rfl
        | succ i => rw [List.modify_succ_cons, List.filterMap_cons, List.filterMap_cons, ih]
    rw [linksFrom, setFault, Array.toList_modify, hsame]
    simp [linksFrom, markExpanded]
  kept := by
    intro k old hold
    rw [setFault, markExpanded, Array.getElem?_modify, hold]
    split <;> rename_i hik
    . exact ⟨_, rfl, ⟨rfl, rfl, rfl⟩, fun hne => absurd hik.symm hne⟩
    . exact ⟨old, rfl, .refl old, fun _ => rfl⟩
  added := by
    intro k new hk hnew
    have hlt : k < graph.nodes.size := by
      simpa [setFault, markExpanded] using (Array.getElem?_eq_some_iff.mp hnew).choose
    omega

theorem expanded_addLinks : graph.Expanded i node links ((graph.markExpanded i).addLinks i node links) where
  expanded_eq := rfl
  size_eq := size_addLinks _ i node links
  linksFrom_eq k := by
    have hchildren : (links.map (node.child i)).filterMap (Node.linkFrom k) =
        if i = k then links else [] := by
      rw [List.filterMap_map]
      split <;> rename_i hik <;> simp [Function.comp_def, Node.linkFrom, Node.child, hik]
    rw [linksFrom, addLinks, Array.toList_append, List.filterMap_append, linksFrom, ← hchildren]
    rfl
  kept := by
    intro k old hold
    have hlt := (Array.getElem?_eq_some_iff.mp hold).choose
    refine ⟨old, ?_, .refl old, fun _ => rfl⟩
    rw [addLinks, markExpanded, Array.getElem?_append_left hlt, hold]
  added := by
    intro k new hk hnew
    have hnodes : ((graph.markExpanded i).addLinks i node links).nodes =
        graph.nodes ++ (links.map (node.child i)).toArray := rfl
    rw [hnodes, Array.getElem?_append_right hk, List.getElem?_toArray, List.getElem?_map] at hnew
    rcases Option.map_eq_some_iff.mp hnew with ⟨link, hlink, heq⟩
    exact ⟨link, List.mem_of_getElem? hlink, heq.symm⟩

variable (h : graph.Expanded i node links graph')
include h

theorem Expanded.mem_expanded {k : Nat} : k ∈ graph'.expanded ↔ k ∈ graph.expanded ∨ k = i := by
  rw [h.expanded_eq]
  exact Array.mem_push

theorem Expanded.old_or_new {k : Nat} {new : Node} (hnew : graph'.nodes[k]? = some new)
    : (∃ old, graph.nodes[k]? = some old ∧ old.Same new ∧ (k ≠ i → new = old)) ∨
      (graph.nodes.size ≤ k ∧ ∃ link ∈ links, new = node.child i link) := by
  match hold : graph.nodes[k]? with
  | none =>
    have hk := Array.getElem?_eq_none_iff.mp hold
    exact .inr ⟨hk, h.added hk hnew⟩
  | some old =>
    rcases h.kept hold with ⟨new', hnew', hsame, hne⟩
    rw [hnew] at hnew'
    cases hnew'
    exact .inl ⟨old, rfl, hsame, hne⟩

end Expanded

/--
The steps from node number `i` were made: they are those of the environment, or a fault kept them from
being made.
-/
inductive Made (graph : ProofGraph) (env : Environment) (computeFeatures : Bool) (i : Nat) (node : Node)
    : Prop where
  | answered {m m' : Machine} (hfault : node.fault = none)
      (hok : env.outlinks node.state computeFeatures m = .ok (graph.linksFrom i) m')
  | faulted {m m' : Machine} {fault : Fault} (hfault : node.fault = some fault)
      (herror : env.outlinks node.state computeFeatures m = .error fault m')
      (hnone : graph.linksFrom i = [])

theorem Made.congr {env : Environment} {computeFeatures : Bool} {graph graph' : ProofGraph} {i : Nat}
    {node : Node} (h : graph.Made env computeFeatures i node)
    (hlinks : graph'.linksFrom i = graph.linksFrom i) : graph'.Made env computeFeatures i node := by
  cases h with
  | answered hfault hok =>
    rw [← hlinks] at hok
    exact .answered hfault hok
  | faulted hfault herror hnone => exact .faulted hfault herror (hlinks.trans hnone)

def Follows (graph : ProofGraph) (i : Nat) (node : Node) : Prop :=
  ∃ j parent, node.parent = some j ∧ j < i ∧ j ∈ graph.expanded ∧ graph.nodes[j]? = some parent ∧
    node.depth = parent.depth + 1

/--
A tree with the root `root` and the steps of the environment as its edges. From the nodes in `work` steps
may still be made.
-/
structure Explored (env : Environment) (computeFeatures : Bool) (limits : SearchLimits) (root : State)
    (graph : ProofGraph) (work : List Nat) : Prop where
  root : ∃ node, graph.nodes[0]? = some node ∧ node.parent = none ∧ node.depth = 0 ∧ node.state = root
  follows : ∀ i node, graph.nodes[i]? = some node → i ≠ 0 → graph.Follows i node
  made : ∀ i node, i ∈ graph.expanded → graph.nodes[i]? = some node →
    node.state.completed = false ∧ node.state.failed = false ∧ node.depth < limits.maxDepth ∧
      graph.Made env computeFeatures i node
  waits : ∀ i node, graph.nodes[i]? = some node → i ∉ graph.expanded →
    node.fault = none ∧ (i ∈ work ∨ graph.isOpen limits node = false)
  nodup : (graph.expanded.toList ++ work).Nodup
  lt_size : ∀ i ∈ graph.expanded.toList ++ work, i < graph.nodes.size

namespace Explored

variable {env : Environment} {computeFeatures : Bool} {limits : SearchLimits} {root : State}
  {graph : ProofGraph} {work : List Nat} {i : Nat} {node : Node}

theorem start (env : Environment) (computeFeatures : Bool) (limits : SearchLimits) (root : State)
    : Explored env computeFeatures limits root ⟨#[{ state := root }], #[]⟩ [0] where
  root := ⟨_, rfl, rfl, rfl, rfl⟩
  follows i node hnode hi := absurd (getElem?_start hnode).1 hi
  made := by simp
  waits i node hnode _ := by
    rcases getElem?_start hnode with ⟨rfl, rfl⟩
    exact ⟨rfl, .inl List.mem_cons_self⟩
  nodup := by simp
  lt_size := by simp

theorem skip (h : Explored env computeFeatures limits root graph (i :: work))
    (hclosed : ∀ node, graph.nodes[i]? = some node → graph.isOpen limits node = false)
    : Explored env computeFeatures limits root graph work where
  root := h.root
  follows := h.follows
  made := h.made
  waits k node hnode hk := by
    rcases h.waits k node hnode hk with ⟨hfault, hwork | hclosed'⟩
    . rcases List.mem_cons.mp hwork with rfl | hwork
      . exact ⟨hfault, .inr (hclosed node hnode)⟩
      . exact ⟨hfault, .inl hwork⟩
    . exact ⟨hfault, .inr hclosed'⟩
  nodup := h.nodup.sublist ((List.sublist_cons_self i work).append_left _)
  lt_size k hk := h.lt_size k (((List.sublist_cons_self i work).append_left _).subset hk)

theorem not_mem_expanded (h : Explored env computeFeatures limits root graph (i :: work))
    : i ∉ graph.expanded := by
  intro hi
  exact (List.nodup_append.mp h.nodup).2.2 i hi.val i List.mem_cons_self rfl

theorem linksFrom_eq_nil (h : Explored env computeFeatures limits root graph work)
    (hi : i ∉ graph.expanded) : graph.linksFrom i = [] := by
  rw [linksFrom, List.filterMap_eq_nil_iff]
  intro node hnode
  rcases List.mem_iff_getElem?.mp hnode with ⟨k, hk⟩
  rw [Array.getElem?_toList] at hk
  apply if_neg
  by_cases hroot : k = 0
  . rcases h.root with ⟨node', hnode', hparent, _⟩
    rw [hroot, hnode'] at hk
    cases hk
    simp [hparent]
  . rcases h.follows k node hk hroot with ⟨j, _, hparent, _, hj, _⟩
    rw [hparent]
    rintro ⟨⟩
    exact hi hj

section Expand

variable {graph' : ProofGraph} {links : List Outlink} {work' : List Nat} {k : Nat} {new : Node}
  (h : Explored env computeFeatures limits root graph (i :: work)) (hnode : graph.nodes[i]? = some node)
  (hexpanded : graph.Expanded i node links graph')
include h hexpanded

theorem linksFrom_expand : graph'.linksFrom i = links := by
  rw [hexpanded.linksFrom_eq, h.linksFrom_eq_nil h.not_mem_expanded, if_pos rfl, List.nil_append]

include hnode in
theorem follows_expand (hnew : graph'.nodes[k]? = some new) (hk : k ≠ 0) : graph'.Follows k new := by
  rcases hexpanded.old_or_new hnew with ⟨old, hold, hsame, _⟩ | ⟨hsize, link, _, rfl⟩
  . rcases h.follows k old hold hk with ⟨j, parent, hparent, hj, hmem, hget, hdepth⟩
    rcases hexpanded.kept hget with ⟨parent', hget', hsame', _⟩
    refine ⟨j, parent', hsame.parent_eq.trans hparent, hj, hexpanded.mem_expanded.mpr (.inl hmem), hget', ?_⟩
    rw [hsame.depth_eq, hsame'.depth_eq, hdepth]
  . rcases hexpanded.kept hnode with ⟨parent', hget', hsame', _⟩
    have hlt : i < graph.nodes.size := h.lt_size i (List.mem_append_right _ List.mem_cons_self)
    refine ⟨i, parent', rfl, by omega, hexpanded.mem_expanded.mpr (.inr rfl), hget', ?_⟩
    rw [hsame'.depth_eq]
    rfl

theorem made_expand (hk : k ∈ graph.expanded) (hnew : graph'.nodes[k]? = some new)
    : new.state.completed = false ∧ new.state.failed = false ∧ new.depth < limits.maxDepth ∧
      graph'.Made env computeFeatures k new := by
  have hne : k ≠ i := by
    rintro rfl
    exact h.not_mem_expanded hk
  have hlt : k < graph.nodes.size := h.lt_size k (List.mem_append_left _ hk.val)
  rcases hexpanded.old_or_new hnew with ⟨old, hold, _, heq⟩ | ⟨hsize, _⟩
  . rw [heq hne]
    rcases h.made k old hk hold with ⟨hcompleted, hfailed, hdepth, hmade⟩
    refine ⟨hcompleted, hfailed, hdepth, hmade.congr ?_⟩
    rw [hexpanded.linksFrom_eq, if_neg hne.symm, List.append_nil]
  . omega

theorem waits_expand (hwork : work'.Perm (work ++ graph.nextNumbers links.length))
    (hnew : graph'.nodes[k]? = some new) (hk : k ∉ graph'.expanded)
    : new.fault = none ∧ (k ∈ work' ∨ graph'.isOpen limits new = false) := by
  rw [hexpanded.mem_expanded, not_or] at hk
  rcases hexpanded.old_or_new hnew with ⟨old, hold, _, heq⟩ | ⟨hsize, link, _, rfl⟩
  . rw [heq hk.2]
    rcases h.waits k old hold hk.1 with ⟨hfault, hwaits | hclosed⟩
    . refine ⟨hfault, .inl (hwork.mem_iff.mpr (List.mem_append_left _ ?_))⟩
      exact (List.mem_cons.mp hwaits).resolve_left hk.2
    . exact ⟨hfault, .inr (isOpen_mono (by rw [hexpanded.size_eq]; omega) hclosed)⟩
  . have hlt := (Array.getElem?_eq_some_iff.mp hnew).choose
    rw [hexpanded.size_eq] at hlt
    refine ⟨rfl, .inl (hwork.mem_iff.mpr (List.mem_append_right _ ?_))⟩
    exact List.mem_range'_1.mpr ⟨hsize, hlt⟩

include hnode in
theorem expand (hopen : graph.isOpen limits node = true)
    (hmade : ∀ new, graph'.nodes[i]? = some new → graph'.linksFrom i = links →
      graph'.Made env computeFeatures i new)
    (hwork : work'.Perm (work ++ graph.nextNumbers links.length))
    : Explored env computeFeatures limits root graph' work' := by
  have hall : (graph'.expanded.toList ++ work').Perm
      (graph.expanded.toList ++ i :: work ++ graph.nextNumbers links.length) := by
    rw [hexpanded.expanded_eq, Array.toList_push, List.append_assoc, List.append_assoc]
    exact (hwork.cons i).append_left _
  refine ⟨?root, fun k new => h.follows_expand hnode hexpanded, ?made,
    fun k new => h.waits_expand hexpanded hwork, hall.nodup_iff.mpr ?nodup, fun k hk => ?lt_size⟩
  case root =>
    rcases h.root with ⟨first, hfirst, hparent, hdepth, hstate⟩
    rcases hexpanded.kept hfirst with ⟨new, hnew, hsame, _⟩
    exact ⟨new, hnew, hsame.parent_eq.trans hparent, hsame.depth_eq.trans hdepth,
      hsame.state_eq.trans hstate⟩
  case made =>
    intro k new hk hnew
    rcases hexpanded.mem_expanded.mp hk with hk | rfl
    . exact h.made_expand hexpanded hk hnew
    . rcases hexpanded.kept hnode with ⟨new', hnew', hsame, _⟩
      rw [hnew] at hnew'
      cases hnew'
      simp only [isOpen, Bool.and_eq_true, Bool.not_eq_true', decide_eq_true_eq] at hopen
      rw [hsame.state_eq, hsame.depth_eq]
      exact ⟨hopen.1.1.1, hopen.1.1.2, hopen.1.2, hmade new hnew (h.linksFrom_expand hexpanded)⟩
  case nodup =>
    refine List.nodup_append.mpr ⟨h.nodup, List.nodup_range', ?_⟩
    rintro k hk _ hnew rfl
    have := h.lt_size k hk
    have := (List.mem_range'_1.mp hnew).1
    omega
  case lt_size =>
    rw [hexpanded.size_eq]
    rcases List.mem_append.mp (hall.mem_iff.mp hk) with hk | hk
    . have := h.lt_size k hk
      omega
    . exact (List.mem_range'_1.mp hk).2

end Expand

end Explored

theorem explored_explore (env : Environment) (computeFeatures : Bool) (order : SearchOrder)
    (limits : SearchLimits) {root : State} {graph : ProofGraph} {work : List Nat} (m : Machine)
    (h : Explored env computeFeatures limits root graph work)
    : Explored env computeFeatures limits root
        (explore env computeFeatures order limits graph work m).1 [] := by
  induction graph, work, m using explore.induct env computeFeatures order limits with
  | case1 graph m =>
    rw [explore]
    exact h
  | case2 graph m i work hnone ih =>
    rw [explore, hnone]
    exact ih (h.skip (by simp [hnone]))
  | case3 graph m i work node hnode hopen marked fault m' herror ih =>
    have hmarked : marked.nodes[i]? = some node := hnode
    rw [explore, hnode]
    simp only [hopen, dif_pos, herror]
    refine ih (h.expand hnode (expanded_setFault fault) hopen ?_ (by simp [nextNumbers]))
    intro new hnew hlinks
    rw [setFault, Array.getElem?_modify, if_pos rfl, hmarked] at hnew
    cases hnew
    exact .faulted rfl herror hlinks
  | case4 graph m i work node hnode hopen marked links m' hok new work' ih =>
    have hmarked : marked.nodes[i]? = some node := hnode
    rw [explore, hnode]
    simp only [hopen, dif_pos, hok]
    refine ih (h.expand hnode expanded_addLinks hopen ?_ ?_)
    . intro new hnew hlinks
      have hlt : i < marked.nodes.size := (Array.getElem?_eq_some_iff.mp hmarked).choose
      rw [addLinks, Array.getElem?_append_left hlt, hmarked] at hnew
      cases hnew
      rw [← hlinks] at hok
      exact .answered (h.waits i node hnode h.not_mem_expanded).1 hok
    . cases order with
      | breadthFirst => exact .refl _
      | depthFirst => exact List.perm_append_comm
  | case5 graph m i work node hnode hclosed ih =>
    rw [explore, hnode]
    simp only [hclosed, dif_neg, Bool.false_eq_true, not_false_iff]
    exact ih (h.skip (by simpa [hnode] using hclosed))

/--
A search that its limits do not stop makes all steps.
-/
theorem Explored.made_of_room {env : Environment} {computeFeatures : Bool} {limits : SearchLimits}
    {root : State} {graph : ProofGraph} {i : Nat} {node : Node}
    (h : Explored env computeFeatures limits root graph []) (hnode : graph.nodes[i]? = some node)
    (hcompleted : node.state.completed = false) (hfailed : node.state.failed = false)
    (hdepth : node.depth < limits.maxDepth) (hsize : graph.nodes.size < limits.maxNodes)
    : graph.Made env computeFeatures i node := by
  by_cases hi : i ∈ graph.expanded
  . exact (h.made i node hi hnode).2.2.2
  . rcases (h.waits i node hnode hi).2 with hwork | hclosed
    . contradiction
    . simp [isOpen, hcompleted, hfailed, hdepth, hsize] at hclosed

theorem Explored.depth_le {env : Environment} {computeFeatures : Bool} {limits : SearchLimits}
    {root : State} {graph : ProofGraph} {work : List Nat} {i : Nat} {node : Node}
    (h : Explored env computeFeatures limits root graph work) (hnode : graph.nodes[i]? = some node)
    : node.depth ≤ limits.maxDepth := by
  by_cases hi : i = 0
  . rcases h.root with ⟨first, hfirst, _, hdepth, _⟩
    rw [hi, hfirst] at hnode
    cases hnode
    omega
  . rcases h.follows i node hnode hi with ⟨j, parent, _, _, hj, hparent, hdepth⟩
    have := (h.made j parent hj hparent).2.2.1
    omega

structure Sorted (graph : ProofGraph) (next : Nat) : Prop where
  mono : ∀ (i j : Nat) (a b : Node), i ≤ j → graph.nodes[i]? = some a → graph.nodes[j]? = some b →
    a.depth ≤ b.depth
  near : ∀ node, graph.nodes[next]? = some node →
    ∀ (i : Nat) (a : Node), graph.nodes[i]? = some a → a.depth ≤ node.depth + 1

section Sorted

variable {graph graph' : ProofGraph} {next : Nat} {node : Node} {links : List Outlink}

theorem Sorted.expand (h : graph.Sorted next) (hnode : graph.nodes[next]? = some node)
    (hexpanded : graph.Expanded next node links graph') : graph'.Sorted (next + 1) where
  mono i j a b hij ha hb := by
    rcases hexpanded.old_or_new ha with ⟨a', ha', hsame, _⟩ | ⟨hi, _, _, rfl⟩
    . rw [hsame.depth_eq]
      rcases hexpanded.old_or_new hb with ⟨b', hb', hsame', _⟩ | ⟨_, _, _, rfl⟩
      . rw [hsame'.depth_eq]
        exact h.mono i j a' b' hij ha' hb'
      . exact h.near node hnode i a' ha'
    . rcases hexpanded.old_or_new hb with ⟨b', hb', _⟩ | ⟨_, _, _, rfl⟩
      . have := (Array.getElem?_eq_some_iff.mp hb').choose
        omega
      . exact Nat.le_refl _
  near first hfirst i a ha := by
    have hnear : a.depth ≤ node.depth + 1 := by
      rcases hexpanded.old_or_new ha with ⟨a', ha', hsame, _⟩ | ⟨_, _, _, rfl⟩
      . rw [hsame.depth_eq]
        exact h.near node hnode i a' ha'
      . exact Nat.le_refl _
    rcases hexpanded.old_or_new hfirst with ⟨first', hfirst', hsame, _⟩ | ⟨_, _, _, rfl⟩
    . have := h.mono next (next + 1) node first' (Nat.le_succ next) hnode hfirst'
      rw [hsame.depth_eq]
      omega
    . exact Nat.le_succ_of_le hnear

theorem Sorted.skip (h : graph.Sorted next) : graph.Sorted (next + 1) where
  mono := h.mono
  near first hfirst i a ha := by
    have hlt := (Array.getElem?_eq_some_iff.mp hfirst).choose
    have hnode : graph.nodes[next]? = some graph.nodes[next] := Array.getElem?_eq_getElem _
    have := h.near _ hnode i a ha
    have := h.mono next (next + 1) _ first (Nat.le_succ next) hnode hfirst
    omega

theorem range'_of_cons {i : Nat} {rest : List Nat}
    (hwork : i :: rest = List.range' next (graph.nodes.size - next))
    : i = next ∧ rest = List.range' (next + 1) (graph.nodes.size - (next + 1)) := by
  match hsize : graph.nodes.size - next with
  | 0 => simp [hsize] at hwork
  | n + 1 =>
    rw [hsize, List.range'_succ] at hwork
    cases hwork
    rw [show graph.nodes.size - (next + 1) = n by omega]
    exact ⟨rfl, rfl⟩

theorem sorted_explore (env : Environment) (computeFeatures : Bool) (limits : SearchLimits)
    (work : List Nat) (m : Machine)
    : ∀ next, work = List.range' next (graph.nodes.size - next) → graph.Sorted next →
        ∃ next', (explore env computeFeatures .breadthFirst limits graph work m).1.Sorted next' := by
  -- the work is always the numbers from the next node up to the newest one
  induction graph, work, m using explore.induct env computeFeatures .breadthFirst limits with
  | case1 graph m =>
    intro next _ h
    rw [explore]
    exact ⟨next, h⟩
  | case2 graph m i rest hnone ih =>
    intro next hwork h
    rw [explore, hnone]
    exact ih _ (range'_of_cons hwork).2 h.skip
  | case3 graph m i rest node hnode hopen marked fault m' herror ih =>
    intro next hwork h
    rcases range'_of_cons hwork with ⟨rfl, hrest⟩
    have hexpanded : graph.Expanded i node [] (marked.setFault i fault) := expanded_setFault fault
    rw [explore, hnode]
    simp only [hopen, dif_pos, herror]
    refine ih (i + 1) ?_ (h.expand hnode hexpanded)
    rw [hexpanded.size_eq, hrest]
    rfl
  | case4 graph m i rest node hnode hopen marked links m' hok new work' ih =>
    intro next hwork h
    rcases range'_of_cons hwork with ⟨rfl, hrest⟩
    have hlt := (Array.getElem?_eq_some_iff.mp hnode).choose
    rw [explore, hnode]
    simp only [hopen, dif_pos, hok]
    refine ih (i + 1) ?_ (h.expand hnode expanded_addLinks)
    have hnew : rest ++ graph.nextNumbers links.length =
        List.range' (i + 1) (graph.nodes.size + links.length - (i + 1)) := by
      have hsize : graph.nodes.size = i + 1 + (graph.nodes.size - (i + 1)) := by omega
      have hlength : graph.nodes.size + links.length - (i + 1) =
          graph.nodes.size - (i + 1) + links.length := by omega
      rw [hrest, hlength, ← List.range'_append_1, ← hsize, nextNumbers]
    rw [size_addLinks]
    exact hnew
  | case5 graph m i rest node hnode hclosed ih =>
    intro next hwork h
    rw [explore, hnode]
    simp only [hclosed, dif_neg, Bool.false_eq_true, not_false_iff]
    exact ih _ (range'_of_cons hwork).2 h.skip

theorem Sorted.start (root : State) : Sorted ⟨#[{ state := root }], #[]⟩ 0 where
  mono i j a b _ ha _ := by
    rw [(getElem?_start ha).2]
    exact Nat.zero_le _
  near node _ i a ha := by
    rw [(getElem?_start ha).2]
    exact Nat.zero_le _

end Sorted

section Reached

variable {env : Environment} {start : Nat} (hplugins : ∀ plugin ∈ env.plugins, plugin.Safe False)
include hplugins

theorem reached_explore (computeFeatures : Bool) (order : SearchOrder) (limits : SearchLimits)
    {graph : ProofGraph} (work : List Nat) (m : Machine) (hm : m.state.WellFormed False m.symbols)
    (h : ∀ (i : Nat) (node : Node), graph.nodes[i]? = some node → node.ReachedIn env start m.symbols)
    : ∀ (i : Nat) (node : Node),
        (explore env computeFeatures order limits graph work m).1.nodes[i]? = some node →
          node.ReachedIn env start (explore env computeFeatures order limits graph work m).2.symbols := by
  induction graph, work, m using explore.induct env computeFeatures order limits with
  | case1 graph m =>
    rw [explore]
    exact h
  | case2 graph m i rest hnone ih =>
    rw [explore, hnone]
    exact ih hm h
  | case3 graph m i rest node hnode hopen marked fault m' herror ih =>
    have hleaves := env.safe_outlinks hplugins nofun (h i node hnode).wellFormed computeFeatures m
      (Interner.le_refl _) hm
    rw [herror] at hleaves
    rw [explore, hnode]
    simp only [hopen, dif_pos, herror]
    apply ih hleaves.wellFormed
    intro k new hnew
    have hexpanded : graph.Expanded i node [] (marked.setFault i fault) := expanded_setFault fault
    rcases hexpanded.old_or_new hnew with ⟨old, hold, hsame, _⟩ | ⟨_, _, hmem, _⟩
    . exact ((h k old hold).mono hleaves.le).congr hsame
    . contradiction
  | case4 graph m i rest node hnode hopen marked links m' hok new work' ih =>
    have hleaves := env.safe_outlinks hplugins nofun (h i node hnode).wellFormed computeFeatures m
      (Interner.le_refl _) hm
    rw [hok] at hleaves
    rcases (h i node hnode).reached with ⟨symbols, hle, hreached⟩
    have hstep : ∀ link ∈ links, Reached env start m'.symbols link.state := by
      intro link hlink
      simp only [isOpen, Bool.and_eq_true, Bool.not_eq_true'] at hopen
      exact hreached.step hopen.1.1.2 hopen.1.1.1 hle hok hlink
    rw [explore, hnode]
    simp only [hopen, dif_pos, hok]
    apply ih hleaves.wellFormed
    intro k new hnew
    rcases expanded_addLinks.old_or_new hnew with ⟨old, hold, hsame, _⟩ | ⟨_, link, hlink, rfl⟩
    . exact ((h k old hold).mono hleaves.le).congr hsame
    . exact ⟨⟨_, Interner.le_refl _, hstep link hlink⟩, hleaves.answer rfl link hlink⟩
  | case5 graph m i rest node hnode hclosed ih =>
    rw [explore, hnode]
    simp only [hclosed, dif_neg, Bool.false_eq_true, not_false_iff]
    exact ih hm h

end Reached

end ProofGraph

namespace Environment

variable {env : Environment} {computeFeatures : Bool} {order : SearchOrder} {limits : SearchLimits}
  {start : Nat} {graph : ProofGraph} {m m' : Machine}

theorem prove_eq_ok (hok : env.prove start computeFeatures order limits m = .ok graph m')
    : ∃ report m₀, env.run (some start) computeFeatures m = .ok report m₀ ∧
        ProofGraph.explore env computeFeatures order limits ⟨#[{ state := m₀.state }], #[]⟩ [0] m₀ =
          (graph, m') := by
  unfold prove at hok
  rcases Exec.bind_eq_ok.mp hok with ⟨report, m₀, hrun, hok⟩
  refine ⟨report, m₀, hrun, ?_⟩
  cases hok
  rfl

theorem prove_explored (hok : env.prove start computeFeatures order limits m = .ok graph m')
    : ∃ report m₀, env.run (some start) computeFeatures m = .ok report m₀ ∧
        graph.Explored env computeFeatures limits m₀.state [] := by
  rcases prove_eq_ok hok with ⟨report, m₀, hrun, hgraph⟩
  have hexplored := ProofGraph.explored_explore env computeFeatures order limits m₀
    (.start env computeFeatures limits m₀.state)
  rw [hgraph] at hexplored
  exact ⟨report, m₀, hrun, hexplored⟩

theorem prove_sorted (hok : env.prove start computeFeatures .breadthFirst limits m = .ok graph m')
    {i j : Nat} {a b : Node} (hij : i ≤ j) (ha : graph.nodes[i]? = some a) (hb : graph.nodes[j]? = some b)
    : a.depth ≤ b.depth := by
  rcases prove_eq_ok hok with ⟨report, m₀, hrun, hgraph⟩
  rcases ProofGraph.sorted_explore env computeFeatures limits [0] m₀ 0 rfl (.start m₀.state) with
    ⟨next, hsorted⟩
  rw [hgraph] at hsorted
  exact hsorted.mono i j a b hij ha hb

/--
Every state that a search for proofs finds is one that a search of the machine can come to.
-/
theorem prove_reached (hplugins : ∀ plugin ∈ env.plugins, plugin.Safe False) (hm : m.state = {})
    (hok : env.prove start computeFeatures order limits m = .ok graph m') {i : Nat} {node : Node}
    (hnode : graph.nodes[i]? = some node)
    : ∃ symbols, symbols ≤ m'.symbols ∧ Reached env start symbols node.state := by
  rcases prove_eq_ok hok with ⟨report, m₀, hrun, hgraph⟩
  have hempty : m.state.WellFormed False m.symbols := by
    rw [hm]
    exact .empty _
  have hleaves := safe_run hplugins nofun (some start) computeFeatures m (Interner.le_refl _) hempty
  rw [hrun] at hleaves
  have hroot : ∀ (i : Nat) (node : Node),
      (⟨#[{ state := m₀.state }], #[]⟩ : ProofGraph).nodes[i]? = some node →
        node.ReachedIn env start m₀.symbols := by
    intro i node hnode
    rcases ProofGraph.getElem?_start hnode with ⟨rfl, rfl⟩
    exact ⟨⟨_, Interner.le_refl _, .start hm hrun⟩, hleaves.wellFormed⟩
  have hreached := ProofGraph.reached_explore hplugins computeFeatures order limits [0] m₀
    hleaves.wellFormed hroot
  rw [hgraph] at hreached
  exact (hreached i node hnode).reached

end Environment

end HornMachine
