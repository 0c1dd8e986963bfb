import HornMachine.Proofs.Logic.Forest
import HornMachine.Proofs.Run.Scope

/-!
This module contains the levels of a call stack. A level is a frame together with the part of a block
that the frame goes on with. The levels say which goals are left after the current call, and how the
arguments of the query will be read.
-/

namespace HornMachine

/--
The literals in `todo` are still to be called. Of the variables `vars` those in `seen` have addresses.
-/
structure Level where
  frame : Frame
  vars : List String
  seen : List String
  todo : List Literal

namespace Level

structure Ok (program : Program) (registers : Array (Option Nat)) (l : Level) : Prop where
  code : program.Has l.frame.pc (Code.calls l.vars l.seen l.todo ++ [.returnp])
  mem_vars : ∀ lit ∈ l.todo, ∀ name ∈ lit.vars, name ∈ l.vars
  scope : Scope l.vars l.seen registers l.frame.registerCount l.frame.heapSize

def registerTop : List Level → Nat
  | [] => 0
  | l :: _ => l.frame.registerCount

def heapTop : List Level → Nat
  | [] => 0
  | l :: _ => l.frame.heapSize

/--
The frames of the levels, of which the newest comes first, lie on top of each other.
-/
inductive Stack (program : Program) (registers : Array (Option Nat)) : List Level → Prop where
  | nil : Stack program registers []
  | cons {l : Level} {ls : List Level} (hlevel : l.Ok program registers)
      (hcount : l.frame.registerCount = registerTop ls + l.vars.length)
      (hheap : heapTop ls ≤ l.frame.heapSize) (h : Stack program registers ls)
      : Stack program registers (l :: ls)

def assign (val : Valuation D) (registers : Array (Option Nat)) (l : Level) : String → D :=
  val.assign registers l.vars l.frame.registerCount

variable [Domain D]

def goals (val : Valuation D) (registers : Array (Option Nat)) (l : Level) : List (Atom D) :=
  l.todo.map (Literal.inst (l.assign val registers))

def allGoals (val : Valuation D) (registers : Array (Option Nat)) (ls : List Level)
    : List (Atom D) :=
  ls.flatMap (goals val registers)

/--
The arguments of the query: those on the heap and those of the literals still to be called by the oldest
level, which is the one of the query.
-/
def answer (val : Valuation D) (registers : Array (Option Nat)) : List Level → List D
  | [] => []
  | [l] => cells val.cell 0 l.frame.heapSize ++ (l.goals val registers).flatMap Atom.args
  | _ :: l :: ls => answer val registers (l :: ls)

namespace Stack

variable {program : Program} {registers registers' : Array (Option Nat)} {ls : List Level}
  {val val' : Valuation D}

omit [Domain D] in
theorem registerCount_le {l : Level} (h : Stack program registers ls) (hl : l ∈ ls)
    : l.frame.registerCount ≤ registerTop ls := by
  induction h with
  | nil => contradiction
  | cons _ hcount _ _ ih =>
    rcases List.mem_cons.mp hl with heq | hmem
    . rw [heq]
      exact Nat.le_refl _
    . have := ih hmem
      rw [registerTop]
      omega

omit [Domain D] in
theorem heapSize_le {l : Level} (h : Stack program registers ls) (hl : l ∈ ls)
    : l.frame.heapSize ≤ heapTop ls := by
  induction h with
  | nil => contradiction
  | cons _ _ hheap _ ih =>
    rcases List.mem_cons.mp hl with heq | hmem
    . rw [heq]
      exact Nat.le_refl _
    . have := ih hmem
      rw [heapTop]
      omega

omit [Domain D] in
theorem ok {l : Level} (h : Stack program registers ls) (hl : l ∈ ls) : l.Ok program registers := by
  induction h with
  | nil => contradiction
  | cons hlevel _ _ _ ih =>
    rcases List.mem_cons.mp hl with heq | hmem
    . rw [heq]
      exact hlevel
    . exact ih hmem

omit [Domain D] in
theorem of_registers (h : Stack program registers ls) (hle : registerTop ls ≤ registers'.size)
    (heq : ∀ i < registerTop ls, registers'[i]? = registers[i]?) : Stack program registers' ls := by
  induction h with
  | nil => exact .nil
  | cons hlevel hcount hheap _ ih =>
    rw [registerTop] at hle heq
    apply Stack.cons _ hcount hheap
    . apply ih
      . omega
      . intro i hi
        exact heq i (by omega)
    . exact ⟨hlevel.code, hlevel.mem_vars, hlevel.scope.of_registers hle heq⟩

variable (val val') in
omit [Domain D] in
theorem assign_eq (h : Stack program registers ls)
    (heq : ∀ i < registerTop ls, registers'[i]? = registers[i]?)
    (hcell : ∀ addr < heapTop ls, val'.cell addr = val.cell addr)
    (hslot : ∀ i < registerTop ls, val'.slot i = val.slot i)
    : ∀ l ∈ ls, ∀ name ∈ l.vars, l.assign val' registers' name = l.assign val registers name := by
  intro l hl name hname
  have hok := h.ok hl
  have hcount := h.registerCount_le hl
  have hsize := h.heapSize_le hl
  have hslotOf := slotOf_lt hok.scope.length_le hname
  apply hok.scope.assign_congr hname
  . exact heq _ (by omega)
  . intro addr haddr
    exact hcell addr (by omega)
  . exact hslot _ (by omega)

theorem goals_congr {l : Level} (hok : l.Ok program registers)
    (hassign : ∀ name ∈ l.vars, l.assign val' registers' name = l.assign val registers name)
    : l.goals val' registers' = l.goals val registers := by
  apply List.map_congr_left
  intro lit hlit
  apply Literal.inst_congr
  intro name hname
  exact hassign name (hok.mem_vars lit hlit name hname)

theorem allGoals_congr (h : Stack program registers ls)
    (hassign : ∀ l ∈ ls, ∀ name ∈ l.vars,
      l.assign val' registers' name = l.assign val registers name)
    : allGoals val' registers' ls = allGoals val registers ls := by
  induction h with
  | nil => rfl
  | cons hlevel _ _ _ ih =>
    rw [allGoals, allGoals, List.flatMap_cons, List.flatMap_cons,
      goals_congr hlevel (hassign _ List.mem_cons_self)]
    congr 1
    apply ih
    intro l hl
    exact hassign l (List.mem_cons_of_mem _ hl)

theorem answer_congr (h : Stack program registers ls)
    (hassign : ∀ l ∈ ls, ∀ name ∈ l.vars,
      l.assign val' registers' name = l.assign val registers name)
    (hcell : ∀ addr < heapTop ls, val'.cell addr = val.cell addr)
    : answer val' registers' ls = answer val registers ls := by
  induction h with
  | nil => rfl
  | cons hlevel _ hheap h ih =>
    -- only the oldest level has part of the answer, and the heap counts below its frame
    cases h with
    | nil =>
      rw [answer, answer, goals_congr hlevel (hassign _ List.mem_cons_self)]
      congr 1
      apply cells_congr
      intro addr haddr
      rw [Nat.zero_add] at haddr
      exact hcell addr haddr
    | cons _ _ _ _ =>
      rw [answer, answer]
      apply ih
      . intro l hl
        exact hassign l (List.mem_cons_of_mem _ hl)
      . intro addr haddr
        rw [heapTop] at hcell
        exact hcell addr (by omega)

end Stack

end Level

end HornMachine
