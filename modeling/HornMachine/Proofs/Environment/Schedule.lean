import HornMachine.Proofs.Environment.Tree
import HornMachine.Proofs.Machine.Sharing

/-!
This module contains searches that expand the states of a tree in some order, on one machine or on several
ones that share a symbol table. The order has no effect on what they find.
-/

namespace HornMachine

/--
One step of a search: a member expands a node, or it lists the goals that are left there.
-/
inductive Visit where
  | expand (member : Nat) (node : List Nat)
  | pending (member : Nat) (node : List Nat)
deriving DecidableEq, Repr

/--
A search under way: the state that the query paused in, and the answers about successors so far, the
newest first.
-/
structure Exploration where
  group : Group
  root : State
  expansions : List (List Nat × Except Fault (List Outlink)) := []
deriving DecidableEq

namespace Exploration

def state? (x : Exploration) : (node : List Nat) → Option State
  | [] => some x.root
  | i :: node =>
    match x.expansions.lookup node with
    | some (.ok links) => links[i]?.map Outlink.state
    | _ => none

/--
Lets a member visit a node. A node whose state is not known yet is passed over, and so is a visit by
nobody.
-/
def visit (env : Environment) (computeFeatures : Bool) (x : Exploration) : Visit → Exploration
  | .expand k node =>
    match x.group.members[k]?, x.state? node with
    | some _, some s =>
      let (links, group) := x.group.act k (env.outlinks s computeFeatures)
      { x with group, expansions := (node, links) :: x.expansions }
    | _, _ => x
  | .pending k node =>
    match x.group.members[k]?, x.state? node with
    | some _, some s => { x with group := (x.group.act k (env.pendingGoals s)).2 }
    | _, _ => x

def explore (env : Environment) (start : Nat) (computeFeatures : Bool) (group : Group) (k : Nat)
    (schedule : List Visit) : Exploration :=
  let group := (group.act k (env.run (some start) computeFeatures)).2
  schedule.foldl (visit env computeFeatures) { group, root := (group.machine k).state }

end Exploration

theorem Group.act_eq (group : Group) (k : Nat) (action : Exec α)
    : group.act k action = ((Exec.outcome (action (group.machine k))).1,
        group.setMachine k (Exec.outcome (action (group.machine k))).2) := by
  unfold act Exec.outcome
  cases action (group.machine k) with
  | ok _ _ => rfl
  | error _ _ => rfl

theorem Exec.Roomy.hasRoom_outcome {names : List String} {action : Exec α} (h : Roomy names action)
    {m : Machine} (hroom : m.HasRoom names) : (outcome (action m)).2.HasRoom names := by
  have := h m hroom
  unfold outcome
  cases heq : action m with
  | ok _ _ =>
    rw [heq] at this
    exact this
  | error _ _ =>
    rw [heq] at this
    exact this.1

theorem Exec.Agree.le_outcome {t : Tables} {R : α → Machine → β → Machine → Prop}
    {r : EStateM.Result Fault Machine α} {r' : EStateM.Result Fault Machine β} (h : Agree t R r r')
    (hrun : Unexhausted r) (hrun' : Unexhausted r') : t.left ≤ (outcome r).2.symbols := by
  cases h with
  | ok hgrows _ => exact hgrows.le.left
  | fault _ hgrows => exact hgrows.le.left
  | leftFull entries n => exact absurd rfl (hrun entries n)
  | rightFull _ entries n => exact absurd rfl (hrun' entries n)

namespace Exploration

open Environment

structure Sound (env : Environment) (start : Nat) (computeFeatures : Bool) (names : List String) (i : Nat)
    (x : Exploration) : Prop where
  shares : x.group.Shares i
  room : (x.group.shared i).Room names
  root : ∃ symbols, symbols ≤ x.group.shared i ∧ env.Stands start computeFeatures [] symbols x.root
  expansions : ∀ node e, (node, e) ∈ x.expansions →
    ∃ symbols, symbols ≤ x.group.shared i ∧ env.Expanded start computeFeatures node symbols e

theorem size_visit (env : Environment) (computeFeatures : Bool) (x : Exploration) (v : Visit)
    : (x.visit env computeFeatures v).group.members.size = x.group.members.size := by
  cases v with
  | expand k node =>
    simp only [visit]
    split
    . rw [Group.act_eq]
      exact Group.size_setMachine
    . rfl
  | pending k node =>
    simp only [visit]
    split
    . rw [Group.act_eq]
      exact Group.size_setMachine
    . rfl

theorem exists_mem_expansions_visit {env : Environment} {computeFeatures : Bool} {x : Exploration}
    {k : Nat} {node : List Nat} {s : State} (hk : k < x.group.members.size)
    (hs : x.state? node = some s)
    : ∃ e, (node, e) ∈ (x.visit env computeFeatures (.expand k node)).expansions := by
  simp only [visit, Array.getElem?_eq_getElem hk, hs]
  exact ⟨_, List.mem_cons_self⟩

theorem size_explore (env : Environment) (start : Nat) (computeFeatures : Bool) (group : Group) (k : Nat)
    (schedule : List Visit)
    : (explore env start computeFeatures group k schedule).group.members.size = group.members.size := by
  unfold explore
  rw [Group.act_eq]
  simp only
  generalize hx : Exploration.mk _ _ _ = x
  have hsize : x.group.members.size = group.members.size := by
    rw [← hx]
    exact Group.size_setMachine
  rw [← hsize]
  clear hx hsize
  induction schedule generalizing x with
  | nil => rfl
  | cons v schedule ih => exact (ih _).trans (size_visit env computeFeatures x v)

theorem state?_cons {x : Exploration} {j : Nat} {node : List Nat} {s : State}
    (h : x.state? (j :: node) = some s)
    : ∃ links link, (node, .ok links) ∈ x.expansions ∧ links[j]? = some link ∧ link.state = s := by
  simp only [state?] at h
  split at h
  . next links hlookup =>
    rcases Option.map_eq_some_iff.mp h with ⟨link, hlink, heq⟩
    rcases List.lookup_eq_some_iff.mp hlookup with ⟨before, after, hsplit, _⟩
    exact ⟨links, link, by simp [hsplit], hlink, heq⟩
  . contradiction

section Sound

variable {env : Environment} {tables : List FactTable} {start : Nat} {computeFeatures : Bool}
  {names : List String} {i k : Nat} {x : Exploration} {node : List Nat} {s : State}

theorem Sound.stands (h : x.Sound env start computeFeatures names i) (hs : x.state? node = some s)
    : ∃ symbols, symbols ≤ x.group.shared i ∧ env.Stands start computeFeatures node symbols s := by
  cases node with
  | nil =>
    cases hs
    exact h.root
  | cons j node =>
    rcases state?_cons hs with ⟨links, link, hmem, hlink, heq⟩
    rcases h.expansions node _ hmem with ⟨symbols, hle, hexpanded⟩
    rw [← heq]
    exact ⟨symbols, hle, .of_expanded hexpanded hlink⟩

theorem Sound.act {action : Exec α} (h : x.Sound env start computeFeatures names i)
    (hk : k < x.group.members.size) (hroomy : Exec.Roomy names action)
    (hle : (x.group.machine k).symbols ≤
      (Exec.outcome (action (x.group.machine k))).2.symbols)
    : Sound env start computeFeatures names i { x with group := (x.group.act k action).2 } := by
  have hsymbols := h.shares.symbols_machine hk
  have hshared : (x.group.act k action).2.shared i =
      (Exec.outcome (action (x.group.machine k))).2.symbols := by
    rw [Group.act_eq]
    exact h.shares.shared_setMachine hk
  rw [hsymbols, ← hshared] at hle
  constructor
  . rw [Group.act_eq]
    exact h.shares.setMachine hk
  . rw [hshared]
    apply hroomy.hasRoom_outcome
    rw [Machine.HasRoom, hsymbols]
    exact h.room
  . rcases h.root with ⟨symbols, hle', hstands⟩
    exact ⟨symbols, Interner.le_trans hle' hle, hstands⟩
  . intro node e hmem
    rcases h.expansions node e hmem with ⟨symbols, hle', hexpanded⟩
    exact ⟨symbols, Interner.le_trans hle' hle, hexpanded⟩

variable (hfenced : env.program.Fenced) (hplugins : env.plugins = tables.map FactTable.plugin)
  (hstart : env.program.Clean start) (hinterns : env.Interns names)
include hfenced hplugins hstart hinterns

theorem Sound.expand (h : x.Sound env start computeFeatures names i) (hk : k < x.group.members.size)
    (hs : x.state? node = some s)
    : Sound env start computeFeatures names i
        { x with
          group := (x.group.act k (env.outlinks s computeFeatures)).2
          expansions := (node, (x.group.act k (env.outlinks s computeFeatures)).1) :: x.expansions } := by
  rcases h.stands hs with ⟨symbols, hle, hstands⟩
  rcases hstands.alike hfenced hplugins hstart hstands with ⟨halike, hrests⟩
  have hroomy := env.roomy_outlinks hinterns s computeFeatures
  have hsymbols := h.shares.symbols_machine hk
  rw [← hsymbols] at hle
  have hrun : Unexhausted (env.outlinks s computeFeatures (x.group.machine k)) := by
    apply hroomy.unexhausted
    rw [Machine.HasRoom, hsymbols]
    exact h.room
  have hagree := agree_outlinks hfenced (halike.mono ⟨hle, hle⟩) hplugins hrests
  have hact := h.act hk hroomy (hagree.le_outcome hrun hrun)
  refine ⟨hact.shares, hact.room, hact.root, ?_⟩
  intro node' e hmem
  rcases List.mem_cons.mp hmem with heq | hmem
  . cases heq
    rw [Group.act_eq]
    refine ⟨_, ?_, .intro hstands hle hrun⟩
    rw [h.shares.shared_setMachine hk]
    exact Interner.le_refl _
  . exact hact.expansions node' e hmem

theorem Sound.pending (h : x.Sound env start computeFeatures names i) (hk : k < x.group.members.size)
    (hs : x.state? node = some s)
    : Sound env start computeFeatures names i
        { x with group := (x.group.act k (env.pendingGoals s)).2 } := by
  rcases h.stands hs with ⟨symbols, hle, hstands⟩
  rcases hstands.alike hfenced hplugins hstart hstands with ⟨halike, hrests⟩
  have hroomy := env.roomy_pendingGoals hinterns s
  have hsymbols := h.shares.symbols_machine hk
  rw [← hsymbols] at hle
  have hrun : Unexhausted (env.pendingGoals s (x.group.machine k)) := by
    apply hroomy.unexhausted
    rw [Machine.HasRoom, hsymbols]
    exact h.room
  have hagree := agree_pendingGoals hfenced (halike.mono ⟨hle, hle⟩) hrests.uncomputed
  exact h.act hk hroomy (hagree.le_outcome hrun hrun)

theorem Sound.visit (h : x.Sound env start computeFeatures names i) (v : Visit)
    : (x.visit env computeFeatures v).Sound env start computeFeatures names i := by
  cases v with
  | expand k node =>
    simp only [Exploration.visit]
    split
    . next hmember hs =>
      have hk := (Array.getElem?_eq_some_iff.mp hmember).1
      exact h.expand hfenced hplugins hstart hinterns hk hs
    . exact h
  | pending k node =>
    simp only [Exploration.visit]
    split
    . next hmember hs =>
      have hk := (Array.getElem?_eq_some_iff.mp hmember).1
      exact h.pending hfenced hplugins hstart hinterns hk hs
    . exact h

theorem sound_foldl (h : x.Sound env start computeFeatures names i) (schedule : List Visit)
    : (schedule.foldl (Exploration.visit env computeFeatures) x).Sound env start computeFeatures names
        i := by
  induction schedule generalizing x with
  | nil => exact h
  | cons v schedule ih => exact ih (h.visit hfenced hplugins hstart hinterns v)

end Sound

/--
The members of a group share a table with room for some names, and member `k` is new.
-/
structure Fresh (names : List String) (group : Group) (k : Nat) : Prop where
  shares : ∃ i, group.Shares i
  lt : k < group.members.size
  state_eq : (group.machine k).state = {}
  room : (group.machine k).HasRoom names

section Explore

variable {env : Environment} {tables : List FactTable} {goals : List Literal} {start : Nat}
  {names : List String} {group : Group} {k : Nat} (h : Fresh names group k)
  (hfenced : env.program.Fenced) (hplugins : env.plugins = tables.map FactTable.plugin)
  (hinterns : env.Interns names) (hquery : env.program.Has start (queryCode goals))
  (computeFeatures : Bool) (schedule : List Visit)
include h hfenced hplugins hinterns hquery

theorem Fresh.sound : ∃ i, (explore env start computeFeatures group k schedule).Sound env start
    computeFeatures names i := by
  rcases h.shares with ⟨i, hshares⟩
  have hclean : env.program.Clean start := .of_getElem? hquery.head rfl
  have hroomy := env.roomy_run hinterns (some start) computeFeatures
  have hrun := hroomy.unexhausted h.room
  rcases run_query hquery h.state_eq hrun with ⟨m', heq, _, _⟩
  have hrun' : env.run (some start) computeFeatures (group.machine k) = .ok ∅ m' := heq
  have hact : (group.act k (env.run (some start) computeFeatures)).2 = group.setMachine k m' := by
    rw [Group.act_eq, hrun']
    rfl
  refine ⟨i, sound_foldl hfenced hplugins hclean hinterns ?_ schedule⟩
  rw [hact]
  constructor
  . exact hshares.setMachine h.lt
  . rw [hshares.shared_setMachine h.lt]
    exact hroomy.hasRoom h.room hrun'
  . refine ⟨m'.symbols, ?_, ?_⟩
    . rw [hshares.shared_setMachine h.lt]
      exact Interner.le_refl _
    . rw [Group.state_machine_setMachine h.lt]
      exact .root h.state_eq hrun'
  . simp

theorem Fresh.expanded {node : List Nat} {e : Except Fault (List Outlink)}
    (he : (node, e) ∈ (explore env start computeFeatures group k schedule).expansions)
    : ∃ symbols,
        symbols ≤ ((explore env start computeFeatures group k schedule).group.machine k).symbols ∧
          env.Expanded start computeFeatures node symbols e := by
  rcases h.sound hfenced hplugins hinterns hquery computeFeatures schedule with ⟨i, hsound⟩
  rw [hsound.shares.symbols_machine (by rw [size_explore]; exact h.lt)]
  exact hsound.expansions node e he

end Explore

/--
However two searches for the same query are scheduled, and on however many machines that share a table:
where both expand a node, they come to the same answer. Names stand for ids in either table.
-/
theorem explore_same {env : Environment} {tables : List FactTable} {items : List Item} {i start : Nat}
    {goals : List Literal} {computeFeatures : Bool} {group group' : Group} {k k' : Nat}
    (hprogram : env.program = (({} : Program).compile items).2)
    (hplugins : env.plugins = tables.map FactTable.plugin)
    (hitem : items[i]? = some (.query goals))
    (hstart : (({} : Program).compile items).1[i]? = some (.ok (some start)))
    (h : Fresh (env.constants tables) group k) (h' : Fresh (env.constants tables) group' k')
    (schedule schedule' : List Visit) {node : List Nat} {e e' : Except Fault (List Outlink)}
    (he : (node, e) ∈ (explore env start computeFeatures group k schedule).expansions)
    (he' : (node, e') ∈ (explore env start computeFeatures group' k' schedule').expansions)
    : SameExpansion
        ⟨((explore env start computeFeatures group k schedule).group.machine k).symbols,
          ((explore env start computeFeatures group' k' schedule').group.machine k').symbols⟩ e e' := by
  have hquery := (Program.compile_query hprogram hitem hstart).2
  have hfenced : env.program.Fenced := by
    rw [hprogram]
    exact Program.fenced_compile items
  have hinterns := env.interns_constants hplugins
  have hclean : env.program.Clean start := .of_getElem? hquery.head rfl
  rcases h.expanded hfenced hplugins hinterns hquery computeFeatures schedule he with
    ⟨symbols, hle, hexpanded⟩
  rcases h'.expanded hfenced hplugins hinterns hquery computeFeatures schedule' he' with
    ⟨symbols', hle', hexpanded'⟩
  exact (hexpanded.same hfenced hplugins hclean hexpanded').mono ⟨hle, hle'⟩

end Exploration

namespace Sample

def tame (functor : String) : Clause where
  head := ⟨"pet", [.var "X"]⟩
  body := [⟨functor, [.var "X"]⟩]

def cat : Clause where
  head := ⟨"cat", [.const "tom"]⟩
  features := [⟨"purrs", []⟩]

def dogs : FactTable :=
  .ofList [("dog", ["rex"])]

def pets : List Item :=
  [.clause (tame "dog"), .clause (tame "cat"), .clause cat, .query [⟨"pet", [.var "W"]⟩]]

def petEnv : Environment where
  program := (({} : Program).compile pets).2
  plugins := [dogs.plugin]

def paused : State where
  heap := #[.ref 0]
  registers := #[some 0]
  calls := [⟨1, 1, 23, none⟩]
  pc := none
  jumpTo := some "pet/1"

def asking (pc : Nat) (label : String) : State where
  heap := #[.ref 0, .ref 0]
  registers := #[some 0, some 0]
  calls := [⟨2, 2, pc, some "pet/1"⟩, ⟨1, 1, 23, none⟩]
  pc := none
  jumpTo := some label

def forks : List Outlink :=
  [⟨some (.ofGoals [.noFeatures]), asking 6 "dog/1"⟩, ⟨some (.ofGoals [.noFeatures]), asking 13 "cat/1"⟩]

def named (id : Nat) : State where
  heap := #[.const id]
  registers := #[some 0]
  pc := some 23
  completed := true

def tomFirst : List Visit :=
  [.expand 0 [], .expand 0 [1]]

def rexFirst : List Visit :=
  [.expand 1 [], .pending 0 [1], .expand 0 [0], .expand 1 [1]]

def forked : Exploration where
  group := ⟨{}, #[{ handle := 0 }, { state := asking 13 "cat/1", handle := 0 }]⟩
  root := paused
  expansions := [([], .ok forks)]

end Sample

theorem Exploration.explore_same_sample
    : ∃ e, ([1], e) ∈
        (explore Sample.petEnv 20 true (.sharing 2) 1 Sample.rexFirst).expansions ∧
      SameExpansion
        ⟨((explore Sample.petEnv 20 true (.sharing 1) 0 Sample.tomFirst).group.machine 0).symbols,
          ((explore Sample.petEnv 20 true (.sharing 2) 1 Sample.rexFirst).group.machine 1).symbols⟩
        (.ok [⟨some (.ofGoals [⟨"purrs", []⟩]), Sample.named 0⟩]) e := by
  have hfirst : (explore Sample.petEnv 20 true (.sharing 1) 0 Sample.tomFirst).expansions =
      [([1], .ok [⟨some (.ofGoals [⟨"purrs", []⟩]), Sample.named 0⟩]), ([], .ok Sample.forks)] := by
    decide +kernel
  have hforked : explore Sample.petEnv 20 true (.sharing 2) 1 [.expand 1 [], .pending 0 [1]] =
      Sample.forked := by decide +kernel
  have hsecond : explore Sample.petEnv 20 true (.sharing 2) 1 Sample.rexFirst =
      ((explore Sample.petEnv 20 true (.sharing 2) 1 [.expand 1 [], .pending 0 [1]]).visit Sample.petEnv
        true (.expand 0 [0])).visit Sample.petEnv true (.expand 1 [1]) := rfl
  rw [hforked] at hsecond
  have hcat : (Sample.forked.visit Sample.petEnv true (.expand 0 [0])).state? [1] =
      some (Sample.asking 13 "cat/1") := rfl
  have hmember : 1 < (Sample.forked.visit Sample.petEnv true (.expand 0 [0])).group.members.size := by
    rw [size_visit]
    decide
  rcases exists_mem_expansions_visit hmember hcat with ⟨e, he⟩
  rw [← hsecond] at he
  have hfresh : ∀ {count k : Nat}, k < count →
      Fresh (Sample.petEnv.constants [Sample.dogs]) (.sharing count) k := by
    intro count k hk
    have hk' : k < (Group.sharing count).members.size := by simpa [Group.sharing] using hk
    have hshares := Group.shares_sharing count
    refine ⟨⟨0, hshares⟩, hk', ?_, ?_⟩
    . rw [Group.machine_eq hk']
      simp [Group.sharing]
    . have hempty : (Group.sharing count).shared 0 = .empty := rfl
      rw [Machine.HasRoom, hshares.symbols_machine hk', hempty]
      apply Interner.room_of_length
      decide
  have hstart : (({} : Program).compile Sample.pets).1[3]? = some (.ok (some 20)) := by decide
  refine ⟨e, he, explore_same (i := 3) rfl rfl rfl hstart (hfresh (by decide)) (hfresh (by decide))
    Sample.tomFirst Sample.rexFirst ?_ he⟩
  rw [hfirst]
  exact List.mem_cons_self

end HornMachine
