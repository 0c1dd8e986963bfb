import HornMachine.Environment.Pending
import HornMachine.Proofs.Environment.Room
import HornMachine.Proofs.Facts.Row
import HornMachine.Proofs.Run.Goals
import HornMachine.Proofs.Run.Listing
import Mathlib.Algebra.GroupWithZero.Nat

/-!
This module contains the listing of the goals that a waiting state has left. Every round of it leaves one
goal less, so it ends within its rounds.
-/

namespace HornMachine

open Level

namespace Pattern

def argument : Pattern Place → Argument
  | const name => .const name
  | var (.cell addr) => .var addr
  | var (.slot i) => .var i

theorem argument_eq_eval : argument = eval fun place => argument (.var place) := by
  funext p
  cases p with
  | const _ => rfl
  | var _ => rfl

end Pattern

section Goal

variable {m : Machine}

theorem Machine.valueAt_eq {addr : Nat} (hvalid : m.state.heap.Valid m.symbols)
    (haddr : addr < m.state.heap.size)
    : m.valueAt addr = .ok ((m.state.pattern m.symbols).cell addr).argument := by
  rcases valueAt_cases hvalid.closed haddr with ⟨root, hleads, ⟨hfree, heq⟩ | ⟨id, name, hconst, hname, heq⟩⟩
  . have hcell : (m.state.pattern m.symbols).cell addr = .var (.cell root) := by
      rw [State.cell_pattern, hvalid.closed.value_eq_root _ hleads, Heap.value, hvalid.root_eq hleads.root_self]
      rw [Heap.IsFree] at hfree
      simp only [hfree]
    rw [heq, hcell]
    rfl
  . have hcell : (m.state.pattern m.symbols).cell addr = .const name := by
      rw [State.cell_pattern, hvalid.closed.value_eq_root _ hleads, Heap.value, hvalid.root_eq hleads.root_self]
      rw [Heap.IsConst] at hconst
      simp only [hconst, hname]
      rfl
    rw [heq, hcell]
    rfl

theorem Machine.lastArguments_eq {arity count : Nat} (hvalid : m.state.heap.Valid m.symbols)
    (hcount : count ≤ arity) (harity : arity ≤ m.state.heap.size)
    : m.lastArguments arity count =
      .ok ((cells (m.state.pattern m.symbols).cell (m.state.heap.size - count) count).map
        Pattern.argument) := by
  induction count with
  | zero => rfl
  | succ count ih =>
    have haddr : m.state.heap.size - arity + (arity - count) - 1 = m.state.heap.size - (count + 1) := by
      omega
    have hnext : m.state.heap.size - (count + 1) + 1 = m.state.heap.size - count := by omega
    have haddress : m.argumentAddress arity (arity - count) =
        .ok (m.state.heap.size - arity + (arity - count) - 1) :=
      argumentAddress_eq (by omega) (by omega) harity
    rw [haddr] at haddress
    have hargument : m.argument arity (arity - count) =
        .ok ((m.state.pattern m.symbols).cell (m.state.heap.size - (count + 1))).argument := by
      rw [argument, haddress]
      exact valueAt_eq hvalid (by omega)
    rw [lastArguments, hargument, cells_succ, hnext, List.map_cons]
    simp only [bind, Except.bind, ih (by omega)]
    rfl

variable {program : Program} {symbols : SymbolTable} {sig : Signature} {l : Level} {ls : List Level}

theorem Waiting.waitingGoal_eq (h : Waiting program m.symbols m.state sig l ls)
    (harity : sig.arity < Signature.arityBound)
    : m.waitingGoal = .ok ⟨sig.functor,
        (awaited m.state sig (m.state.pattern m.symbols).cell).args.map Pattern.argument⟩ := by
  unfold Machine.waitingGoal
  simp only [h.jumpTo_eq, Signature.ofLabel?_label harity, bind, Except.bind]
  rw [Machine.lastArguments_eq h.valid (Nat.le_refl _) h.arity_le]
  rfl

theorem Waiting.waitingGoal_eq_goal (h : Waiting program m.symbols m.state sig l ls)
    (harity : sig.arity < Signature.arityBound)
    : m.waitingGoal =
      .ok (awaited m.state sig (m.state.heap.value m.symbols Argument.var)).goal := by
  have heval : (awaited m.state sig (m.state.pattern m.symbols).cell).eval
        (fun place => Pattern.argument (.var place)) =
      awaited m.state sig (m.state.heap.value m.symbols Argument.var) := eval_awaited _
  rw [h.waitingGoal_eq harity, ← heval, Pattern.argument_eq_eval]
  rfl

end Goal

namespace Level

def remaining (ls : List Level) : Nat :=
  (ls.map fun l => l.todo.length).sum

theorem length_listings (symbols : SymbolTable) (s : State) (ls : List Level)
    : (listings symbols s ls).length = remaining ls := by
  simp [listings, listing, remaining, List.length_flatMap]

theorem length_le_calls (vars seen : List String) (lits : List Literal)
    : lits.length ≤ (Code.calls vars seen lits).length := by
  induction lits generalizing seen with
  | nil => exact Nat.zero_le _
  | cons lit lits ih =>
    have := ih (lit.vars ++ seen)
    rw [Code.calls, List.length_append, List.length_cons, List.length_cons]
    omega

theorem remaining_le {program : Program} {registers : Array (Option Nat)} {ls : List Level}
    (h : Stack program registers ls) : remaining ls ≤ ls.length * program.size := by
  induction h with
  | nil => exact Nat.zero_le _
  | @cons l ls hlevel _ _ _ ih =>
    have hcode := hlevel.code.length_le
    have htodo := length_le_calls l.vars l.seen l.todo
    rw [List.length_append] at hcode
    rw [remaining] at ih ⊢
    rw [List.map_cons, List.sum_cons, List.length_cons, Nat.succ_mul]
    omega

end Level

namespace Environment

variable {env : Environment} {names : List String} {m : Machine} {sig : Signature} {l : Level}
  {ls : List Level}

theorem answerCall_apply (found : List Goal) (m : Machine)
    : answerCall found m =
      if m.state.pc.isSome then
        .ok found m
      else
        match m.waitingGoal with
        | .ok goal => .ok (found ++ [goal]) { m with state := m.state.leave }
        | .error fault => .error fault m := by
  have hsave : Exec.save m = .ok m.state m := rfl
  unfold answerCall
  rw [Exec.bind_of_ok hsave]
  split
  . rfl
  . rw [Exec.bind_apply, Exec.read]
    cases m.waitingGoal with
    | ok goal => rfl
    | error fault => rfl

theorem answerCall_waiting (h : Waiting env.program m.symbols m.state sig l ls)
    (harity : sig.arity < Signature.arityBound) (found : List Goal)
    : answerCall found m =
      .ok (found ++ [(awaited m.state sig (m.state.heap.value m.symbols Argument.var)).goal])
        { m with state := m.state.leave } := by
  simp [answerCall_apply, h.pc_eq, h.waitingGoal_eq_goal harity]

theorem pendingGoals_apply (env : Environment) (s : State) (m : Machine)
    : env.pendingGoals s m =
      match env.pendingWithin (env.pendingRounds s) [] { m with state := s } with
      | .ok (some goals) n => .ok goals { n with state := m.state, features := m.features }
      | .ok none n => .error .endlessPendingGoals { n with state := m.state, features := m.features }
      | .error fault n => .error fault { n with state := m.state, features := m.features } := by
  have hget : (get : Exec Machine) m = .ok m m := rfl
  have hrestore : Exec.restore s m = .ok () { m with state := s } := rfl
  rw [pendingGoals_eq, Exec.bind_of_ok hget, Exec.resetTo, Exec.bind_of_ok hrestore, Exec.bind_apply]
  cases env.pendingWithin (env.pendingRounds s) [] { m with state := s } with
  | error fault n => rfl
  | ok goals? n =>
    cases goals? with
    | none => rfl
    | some goals => rfl

theorem pendingWithin_listsNext (hinterns : env.Interns names)
    (hsize : env.program.size < Signature.arityBound) {rounds : Nat} {goals : List Goal}
    (h : ListsNext env.program m.symbols m.state goals) (hroom : m.HasRoom names)
    (hrounds : goals.length ≤ rounds) (found : List Goal)
    : ∃ m', env.pendingWithin rounds found m = .ok (some (found ++ goals)) m' ∧
        m.symbols ≤ m'.symbols := by
  -- each round answers one goal, so the rounds last as long as there are not fewer than goals left
  induction rounds generalizing m goals found with
  | zero =>
    rcases h with ⟨sig, l, ls, _, hgoals⟩
    rw [hgoals, List.length_cons] at hrounds
    omega
  | succ rounds ih =>
    rcases h with ⟨sig, l, ls, h, hgoals⟩
    have harity := h.arity_le_size
    have hanswer := answerCall_waiting h (by omega) found
    have hheap : l.frame.heapSize ≤ m.state.heap.size := Nat.le_of_eq h.heap_size.symm
    have hready := ready_leave h.failed_eq h.completed_eq h.valid h.stack h.calls_eq hheap
    have hleave := listings_leave h.valid h.stack h.calls_eq hheap
    have hnone : env.run none false { m with state := m.state.leave } =
        env.program.runOn (env.gather env.nesting) false { m with state := m.state.leave } :=
      Program.run_none (m := { m with state := m.state.leave }) hready.runsAt
    have hroomy := roomy_run hinterns none false
    have hroom₁ : Machine.HasRoom names { m with state := m.state.leave } := hroom
    have hrun := hroomy.unexhausted hroom₁
    rw [hnone] at hrun
    rcases Ready.resume_listings (m := { m with state := m.state.leave }) hready hrun with
      ⟨m', heq, hle, hnext⟩
    rw [← hnone] at heq
    simp only [hleave] at hnext
    have hsave : Exec.save m' = .ok m'.state m' := rfl
    rw [hgoals, List.length_cons] at hrounds
    rw [hgoals, List.append_cons]
    unfold pendingWithin
    rw [Exec.bind_of_ok hanswer, Exec.bind_of_ok heq, Exec.bind_of_ok hsave]
    rcases hnext with ⟨hcompleted, hnil⟩ | hnext
    . rw [hcompleted, Bool.true_or, if_pos rfl, hnil, List.append_nil]
      exact ⟨m', rfl, hle⟩
    . rcases ih hnext (hroomy.hasRoom hroom₁ heq) (by omega) _ with ⟨m'', heq', hle'⟩
      rcases hnext with ⟨sig', l', ls', h', _⟩
      rw [h'.completed_eq, h'.failed_eq]
      exact ⟨m'', heq', Interner.le_trans hle hle'⟩

theorem pendingGoals_listing {symbols : SymbolTable} {s : State} (hinterns : env.Interns names)
    (hsize : env.program.size < Signature.arityBound)
    (h : Waiting env.program symbols s sig l ls) (hle : symbols ≤ m.symbols) (hroom : m.HasRoom names)
    : ∃ m', env.pendingGoals s m =
          .ok ((awaited s sig (s.heap.value symbols Argument.var)).goal ::
            listings symbols s (l :: ls)) m' ∧
        m'.state = m.state ∧ m'.features = m.features ∧ m.symbols ≤ m'.symbols := by
  have hvalue : s.heap.value m.symbols Argument.var = s.heap.value symbols Argument.var :=
    funext (h.valid.closed.value_mono hle Argument.var)
  have hlistings : listings m.symbols s (l :: ls) = listings symbols s (l :: ls) :=
    h.stack.listings_eq (fun _ _ => rfl) fun addr _ => h.valid.closed.value_mono hle Argument.var addr
  have hnext : ListsNext env.program m.symbols s
      ((awaited s sig (s.heap.value symbols Argument.var)).goal :: listings symbols s (l :: ls)) :=
    ⟨sig, l, ls, h.mono hle, by rw [hvalue, hlistings]⟩
  have hrounds : (listings symbols s (l :: ls)).length < env.pendingRounds s := by
    have hremaining := remaining_le h.stack
    have hcalls : s.calls.length = (l :: ls).length := by
      rw [h.calls_eq, List.length_map]
    rw [length_listings, pendingRounds, hcalls, Nat.add_mul, Nat.mul_add]
    omega
  have hroom₁ : Machine.HasRoom names { m with state := s } := hroom
  rcases pendingWithin_listsNext (m := { m with state := s }) hinterns hsize hnext hroom₁ hrounds []
    with ⟨m', heq, hle'⟩
  refine ⟨{ m' with state := m.state, features := m.features }, ?_, rfl, rfl, hle'⟩
  rw [pendingGoals_apply, heq]
  rfl

theorem pendingGoals_waiting {symbols : SymbolTable} {s : State} (hinterns : env.Interns names)
    (hsize : env.program.size < Signature.arityBound)
    (h : Waiting env.program symbols s sig l ls) (hle : symbols ≤ m.symbols) (hroom : m.HasRoom names)
    : ∃ goals m', env.pendingGoals s m = .ok goals m' := by
  rcases pendingGoals_listing hinterns hsize h hle hroom with ⟨m', heq, _⟩
  exact ⟨_, m', heq⟩

end Environment

end HornMachine
