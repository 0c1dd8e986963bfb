import HornMachine.Proofs.Environment.Pending
import HornMachine.Proofs.Machine.Unreadable
import HornMachine.Proofs.Run.Load
import HornMachine.Proofs.Run.Pauses

/-!
This module contains when the listing of pending goals ends. Each round answers a call and runs on to the
next one, which lies further on in the program or belongs to an earlier frame. Only a state that waits
without any frame stays the same from round to round.
-/

namespace HornMachine

namespace State

variable {symbols : SymbolTable} {instr : Instruction} {s s' : State} {pc size : Nat}

def answered (s : State) : State :=
  if s.pc.isSome then s else s.leave

theorem answered_of_none (hpc : s.pc = none) : s.answered = s.leave := by
  simp [answered, hpc]

theorem exists_pc_answered (h : s.pc.isSome ∨ s.calls ≠ []) : ∃ pc, s.answered.pc = some pc := by
  cases hpc : s.pc with
  | some pc => exact ⟨pc, by simp [answered, hpc]⟩
  | none =>
    rw [answered_of_none hpc]
    cases hcalls : s.calls with
    | nil =>
      rw [hpc, hcalls] at h
      simp at h
    | cons frame calls => exact ⟨frame.pc, by rw [leave_cons hcalls]⟩

theorem acyclic_answered (hacyclic : s.heap.Acyclic) : s.answered.heap.Acyclic := by
  unfold answered
  split
  . exact hacyclic
  . exact acyclic_leave hacyclic

theorem length_calls_answered (s : State) : s.answered.calls.length ≤ s.calls.length := by
  unfold answered
  split
  . exact Nat.le_refl _
  . cases hcalls : s.calls with
    | nil => simp [leave_nil hcalls, hcalls]
    | cons frame calls => simp [leave_cons hcalls]

theorem runsAt_begin (hpc : s.pc = some pc) : (s.begin none).RunsAt pc :=
  ⟨hpc, rfl, rfl⟩

theorem begin_of_runsAt (hat : s.RunsAt pc) : s.begin none = s := by
  rcases s with ⟨heap, registers, calls, pc', jumpTo, failed, completed⟩
  rcases hat with ⟨hpc, hfailed, hcompleted⟩
  simp only at hpc hfailed hcompleted
  subst hpc hfailed hcompleted
  rfl

theorem distance_begin_le (hpc : s.pc = some pc)
    : (s.begin none).distance size ≤ (s.calls.length + 1) * (size + 1) := by
  have hcalls : (s.begin none).calls = s.calls := rfl
  rw [distance, (runsAt_begin hpc).next?_eq, hcalls, Nat.succ_mul]
  dsimp only
  omega

theorem distance_answered_le (h : s.pc.isSome ∨ s.calls ≠ [])
    : (s.answered.begin none).distance size ≤ (s.calls.length + 1) * (size + 1) := by
  rcases exists_pc_answered h with ⟨pc, hpc⟩
  apply (distance_begin_le hpc).trans
  apply Nat.mul_le_mul_right
  exact Nat.succ_le_succ s.length_calls_answered

theorem Moves.distance_leave_lt (h : s.Moves symbols instr s') (hat : s.RunsAt pc) (hpc : pc < size)
    (hnone : s'.pc = none) (hcompleted : s'.completed = false)
    : s'.leave.RunsAt (pc + 1) ∧ s'.leave.distance size < s.distance size := by
  cases h with
  | enter label =>
    have hleave : (s.enter label).leave.position = s.advance.position := by
      simp [State.leave, State.enter, State.pushCall, position, State.advance, hat.pc_eq]
    have hat' : (s.enter label).leave.RunsAt (pc + 1) :=
      ⟨(congrArg Prod.snd hleave).trans hat.advance.pc_eq, hat.failed_eq, hat.completed_eq⟩
    exact ⟨hat', distance_advance_lt hat.next?_eq hpc hleave⟩
  | leave =>
    cases hcalls : s.calls with
    | nil =>
      rw [leave_nil hcalls] at hcompleted
      contradiction
    | cons frame calls =>
      rw [leave_cons hcalls] at hnone
      contradiction
  | grow count =>
    rw [s.grow_eq] at hnone
    simp [State.advance, hat.pc_eq] at hnone
  | advance _ hchanges => simp [State.advance, hchanges.pc_eq, hat.pc_eq] at hnone

end State

theorem Program.Runs.distance_leave_lt {program : Program} {gather : Nat → Exec (List Goal)}
    {computeFeatures : Bool} {m n : Machine} {report : Features} {pc : Nat}
    (h : program.Runs gather computeFeatures m report n) (hat : m.state.RunsAt pc)
    (hnone : n.state.pc = none) (hcompleted : n.state.completed = false)
    : (∃ pc', n.state.leave.RunsAt pc') ∧
      n.state.leave.distance program.size < m.state.distance program.size := by
  induction h generalizing pc with
  | pause hnext =>
    rw [hat.next?_eq] at hnext
    contradiction
  | @step m m' n pc' _ _ _ hat' hinstr hexec _ h ih =>
    have hpc := (Array.getElem?_eq_some_iff.mp hinstr).1
    match hnext : m'.state.next? with
    | none =>
      obtain rfl : m' = n := by
        cases h with
        | pause => rfl
        | step hat => simp [hat.next?_eq] at hnext
        | report hat => simp [hat.next?_eq] at hnext
      have hleave := (moves_of_execute hexec).distance_leave_lt hat' hpc hnone hcompleted
      exact ⟨⟨_, hleave.1⟩, hleave.2⟩
    | some pc'' =>
      rcases ih (State.runsAt_of_next? hnext) hnone hcompleted with ⟨hruns, hlt⟩
      exact ⟨hruns, hlt.trans (execute_distance_lt hat'.next?_eq hpc hexec)⟩
  | report hat' hinstr hexec _ =>
    have hpc := (Array.getElem?_eq_some_iff.mp hinstr).1
    have hleave := (moves_of_execute hexec).distance_leave_lt hat' hpc hnone hcompleted
    exact ⟨⟨_, hleave.1⟩, hleave.2⟩

namespace Environment

variable {env : Environment} {found : List Goal} {m n : Machine} {rounds : Nat}

theorem pendingWithin_succ (env : Environment) (rounds : Nat) (found : List Goal) (m : Machine)
    : env.pendingWithin (rounds + 1) found m =
      match answerCall found m with
      | .error fault n => .error fault n
      | .ok found n =>
        match env.run none false n with
        | .error fault n => .error fault n
        | .ok _ n =>
          if n.state.completed || n.state.failed then
            .ok (some found) n
          else
            env.pendingWithin rounds found n := by
  rw [pendingWithin, Exec.bind_apply]
  cases answerCall found m with
  | error fault n => rfl
  | ok found n =>
    dsimp only
    rw [Exec.bind_apply]
    cases env.run none false n with
    | error fault n => rfl
    | ok report n =>
      have hsave : Exec.save n = .ok n.state n := rfl
      dsimp only
      rw [Exec.bind_of_ok hsave]
      split
      . rfl
      . rfl

theorem pendingWithin_mono {more : Nat} (hmore : rounds ≤ more)
    (h : ∀ n, env.pendingWithin rounds found m ≠ .ok none n)
    : env.pendingWithin more found m = env.pendingWithin rounds found m := by
  induction rounds generalizing more found m with
  | zero => exact absurd rfl (h m)
  | succ rounds ih =>
    obtain ⟨more, rfl⟩ := Nat.exists_eq_add_one_of_ne_zero (Nat.ne_zero_of_lt hmore)
    rw [pendingWithin_succ] at h ⊢
    rw [pendingWithin_succ]
    cases hanswer : answerCall found m with
    | error fault n => rfl
    | ok found n =>
      rw [hanswer] at h
      dsimp only at h ⊢
      cases hrun : env.run none false n with
      | error fault n => rfl
      | ok report n =>
        rw [hrun] at h
        dsimp only at h ⊢
        split
        . rfl
        . next hgoesOn =>
          rw [if_neg hgoesOn] at h
          exact ih (Nat.le_of_succ_le_succ hmore) h

/--
The listing has come to its end, with the goals that it found or with a fault of a single step.
-/
def Settled (result : EStateM.Result Fault Machine (Option (List Goal))) : Prop :=
  (∃ goals n, result = .ok (some goals) n) ∨ ∃ fault n, result = .error fault n ∧ fault.Immediate True

theorem Settled.ne_none {result : EStateM.Result Fault Machine (Option (List Goal))}
    (h : Settled result) (n : Machine) : result ≠ .ok none n := by
  rcases h with ⟨goals, n', rfl⟩ | ⟨fault, n', rfl, _⟩
  . simp
  . simp

theorem immediate_answerCall {fault : Fault} (hacyclic : m.state.heap.Acyclic)
    (h : answerCall found m = .error fault n) : fault.Immediate True := by
  rw [answerCall_apply] at h
  split at h
  . contradiction
  . match hgoal : m.waitingGoal with
    | .ok goal =>
      rw [hgoal] at h
      contradiction
    | .error fault' =>
      rw [hgoal] at h
      cases h
      exact (m.accesses_waitingGoal.of_error hgoal).1.mono fun _ => hacyclic

theorem answerCall_eq_ok {found' : List Goal} (h : answerCall found m = .ok found' n)
    : n = { m with state := m.state.answered } := by
  rw [answerCall_apply] at h
  split at h
  . next hpc =>
    cases h
    rw [State.answered, if_pos hpc]
  . next hpc =>
    rw [State.answered, if_neg hpc]
    split at h <;> cases h
    rfl

theorem run_round {pc : Nat} (env : Environment) (hacyclic : m.state.heap.Acyclic)
    (hpc : m.state.pc = some pc)
    : (∃ fault n, env.run none false m = .error fault n ∧ fault.Immediate True) ∨
      ∃ report n, env.run none false m = .ok report n ∧ n.state.heap.Acyclic ∧
        (n.state.completed = false → n.state.failed = false →
          n.state.pc = none ∧ (∃ pc', n.state.leave.RunsAt pc') ∧
            n.state.leave.distance env.program.size < (m.state.begin none).distance env.program.size) := by
  have hacyclic' : (m.state.begin none).heap.Acyclic := hacyclic
  have hrun : env.run none false m =
      env.program.runOn (env.gather env.nesting) false { m with state := m.state.begin none } := rfl
  rw [hrun]
  match heq : env.program.runOn (env.gather env.nesting) false
      { m with state := m.state.begin none } with
  | .error fault n =>
    rcases env.program.exists_executes (env.gather env.nesting) false
      { m with state := m.state.begin none } with ⟨trace, htrace⟩
    rw [heq] at htrace
    exact .inl ⟨fault, n, rfl, htrace.immediate (by simp) fun _ => hacyclic'⟩
  | .ok report n =>
    have hruns := Program.runs_of_runOn heq
    have hnext := hruns.next?_eq_none (by simp [hruns.report_false])
    refine .inr ⟨report, n, rfl, hruns.acyclic hacyclic', ?_⟩
    intro hcompleted hfailed
    have hnone : n.state.pc = none := by
      simpa [State.next?, hcompleted, hfailed] using hnext
    exact ⟨hnone, hruns.distance_leave_lt (State.runsAt_begin hpc) hnone hcompleted⟩

theorem settled_pendingWithin {pc : Nat} (hacyclic : m.state.heap.Acyclic)
    (hpc : m.state.answered.pc = some pc)
    (hrounds : (m.state.answered.begin none).distance env.program.size ≤ rounds)
    : Settled (env.pendingWithin rounds found m) := by
  induction rounds generalizing found m pc with
  | zero =>
    have hpos : 0 < (m.state.answered.begin none).distance env.program.size :=
      State.distance_pos (State.runsAt_begin hpc).next?_eq
    omega
  | succ rounds ih =>
    rw [pendingWithin_succ]
    cases hanswer : answerCall found m with
    | error fault n => exact .inr ⟨fault, n, rfl, immediate_answerCall hacyclic hanswer⟩
    | ok found n =>
      obtain rfl := answerCall_eq_ok hanswer
      dsimp only
      rcases @run_round { m with state := m.state.answered } pc env
        (State.acyclic_answered hacyclic) hpc with
        ⟨fault, n, heq, himmediate⟩ | ⟨report, n, heq, hacyclic', hgoes⟩
      . rw [heq]
        exact .inr ⟨fault, n, rfl, himmediate⟩
      . rw [heq]
        dsimp only
        split
        . exact .inl ⟨found, n, rfl⟩
        . next hgoesOn =>
          rw [Bool.or_eq_true, not_or, Bool.not_eq_true, Bool.not_eq_true] at hgoesOn
          -- the run has come to a call, and the next round goes on behind it
          rcases hgoes hgoesOn.1 hgoesOn.2 with ⟨hnone, ⟨pc', hat'⟩, hlt⟩
          have hanswered := State.answered_of_none hnone
          apply ih hacyclic'
          . rw [hanswered]
            exact hat'.pc_eq
          . rw [hanswered, State.begin_of_runsAt hat']
            dsimp only at hlt
            omega

theorem settled_of_open {s : State} (env : Environment) (m : Machine) (hacyclic : s.heap.Acyclic)
    (h : s.pc.isSome ∨ s.calls ≠ [])
    : Settled (env.pendingWithin ((s.calls.length + 1) * (env.program.size + 1)) []
        { m with state := s }) := by
  rcases State.exists_pc_answered h with ⟨pc, hpc⟩
  exact settled_pendingWithin hacyclic hpc (State.distance_answered_le h)

theorem le_pendingRounds (env : Environment) (s : State)
    : (s.calls.length + 1) * (env.program.size + 1) ≤ env.pendingRounds s :=
  Nat.mul_le_mul (Nat.le_succ _) (Nat.le_succ _)

theorem pendingRounds_pos (env : Environment) (s : State) : 0 < env.pendingRounds s :=
  Nat.mul_pos (Nat.succ_pos _) (Nat.succ_pos _)

section Endless

theorem waitingGoal_begin (m : Machine)
    : Machine.waitingGoal { m with state := m.state.begin none } = m.waitingGoal := by
  have hargs : ∀ arity count : Nat,
      Machine.lastArguments { m with state := m.state.begin none } arity count =
        m.lastArguments arity count := by
    intro arity count
    induction count with
    | zero => rfl
    | succ count ih =>
      rw [Machine.lastArguments, Machine.lastArguments, ih]
      rfl
  unfold Machine.waitingGoal
  simp only [hargs]
  rfl

variable {goal : Goal} (hpc : m.state.pc = none) (hcalls : m.state.calls = [])
include hpc

theorem answerCall_unreadable {fault : Fault} (h : m.Unreadable fault)
    : answerCall found m = .error fault m := by
  simp [answerCall_apply, hpc, Machine.waitingGoal_eq_error.mpr h]

theorem run_waiting (env : Environment)
    : env.run none false m = .ok ∅ { m with state := m.state.begin none } := by
  have hnext : (m.state.begin none).next? = none := hpc
  exact Program.runOn_pause (m := { m with state := m.state.begin none }) hnext

include hcalls

theorem answerCall_endless (hgoal : m.waitingGoal = .ok goal)
    : answerCall found m =
      .ok (found ++ [goal]) { m with state := { m.state with completed := true } } := by
  simp [answerCall_apply, hpc, hgoal, State.leave_nil hcalls]

theorem pendingWithin_endless (hgoal : m.waitingGoal = .ok goal)
    : env.pendingWithin (rounds + 1) found m =
      .ok none { m with state := m.state.begin none } := by
  induction rounds generalizing found m with
  | zero =>
    have hrun := run_waiting (m := { m with state := { m.state with completed := true } }) hpc env
    simp only [pendingWithin_succ, answerCall_endless hpc hcalls hgoal, hrun]
    rfl
  | succ rounds ih =>
    have hrun := run_waiting (m := { m with state := { m.state with completed := true } }) hpc env
    have hgoal' : Machine.waitingGoal { m with state := m.state.begin none } = .ok goal :=
      (waitingGoal_begin m).trans hgoal
    rw [pendingWithin_succ, answerCall_endless hpc hcalls hgoal]
    simp only [hrun]
    exact ih hpc hcalls hgoal'

end Endless

/--
The listing of the pending goals of a state ends if there is a place to go on from or a frame to return to.
Otherwise it comes to a fault where the call cannot be read, and where it can, every round leaves the state
as the one before: the run takes back the completion that the answer brought.
-/
theorem pendingGoals_ends {env : Environment} {s : State} {m : Machine} (hacyclic : s.heap.Acyclic)
    : (s.pc.isSome ∨ s.calls ≠ [] →
        ∀ rounds, (s.calls.length + 1) * (env.program.size + 1) ≤ rounds →
          (∃ goals n, env.pendingWithin rounds [] { m with state := s } = .ok (some goals) n ∧
            env.pendingGoals s m = .ok goals { n with state := m.state, features := m.features }) ∨
          ∃ fault n, env.pendingWithin rounds [] { m with state := s } = .error fault n ∧
            env.pendingGoals s m = .error fault { n with state := m.state, features := m.features } ∧
            fault.Immediate True ∧
            ∀ names, env.Interns names → m.HasRoom names → fault.NotFull) ∧
      (s.pc = none → s.calls = [] →
        (∀ fault, Machine.Unreadable { m with state := s } fault →
          env.pendingGoals s m = .error fault m ∧
          ∀ rounds, env.pendingWithin (rounds + 1) [] { m with state := s } =
            .error fault { m with state := s }) ∧
        ((∀ fault, ¬Machine.Unreadable { m with state := s } fault) →
          (∃ goal, ∀ found, answerCall found { m with state := s } =
            .ok (found ++ [goal]) { m with state := { s with completed := true } }) ∧
          env.run none false { m with state := { s with completed := true } } =
            .ok ∅ { m with state := { s with failed := false, completed := false } } ∧
          ∀ rounds, env.pendingWithin (rounds + 1) [] { m with state := s } =
            .ok none { m with state := { s with failed := false, completed := false } })) := by
  refine ⟨?_, ?_⟩
  . intro hopen rounds hrounds
    have hsettled := settled_of_open env m hacyclic hopen
    have hlist := pendingWithin_mono (env.le_pendingRounds s) hsettled.ne_none
    have hgoals := env.pendingGoals_apply s m
    rw [hlist] at hgoals
    rw [pendingWithin_mono hrounds hsettled.ne_none]
    rcases hsettled with ⟨goals, n, heq⟩ | ⟨fault, n, heq, himmediate⟩
    . rw [heq] at hgoals
      exact .inl ⟨goals, n, heq, hgoals⟩
    . rw [heq] at hgoals
      refine .inr ⟨fault, n, heq, hgoals, himmediate, ?_⟩
      rintro names hinterns hroom entries rfl
      exact (roomy_pendingGoals hinterns s).unexhausted hroom entries _ hgoals
  . intro hpc hcalls
    refine ⟨?_, ?_⟩
    . intro fault hunreadable
      have hrounds : ∀ rounds, env.pendingWithin (rounds + 1) [] { m with state := s } =
          .error fault { m with state := s } := by
        intro rounds
        rw [pendingWithin_succ, answerCall_unreadable hpc hunreadable]
      refine ⟨?_, hrounds⟩
      rw [pendingGoals_apply, ← Nat.succ_pred_eq_of_pos (env.pendingRounds_pos s), hrounds]
    . intro hreadable
      match hgoal : Machine.waitingGoal { m with state := s } with
      | .error fault => exact absurd (Machine.waitingGoal_eq_error.mp hgoal) (hreadable fault)
      | .ok goal =>
        exact ⟨⟨goal, fun found => answerCall_endless hpc hcalls hgoal⟩,
          run_waiting (m := { m with state := { s with completed := true } }) hpc env,
          fun rounds => pendingWithin_endless hpc hcalls hgoal⟩

namespace Sample

def asking : Environment where
  program := { code := #[.callp "q/0", .returnp] }

def asked : State where
  heap := #[.ref 1, .ref 1]
  calls := [⟨2, 0, 0, none⟩]
  pc := none
  jumpTo := some "p/2"

end Sample

theorem pendingGoals_ends_sample
    : Sample.asked.heap.Acyclic ∧
      (∀ rounds ≥ 6, ∃ n, Sample.asking.pendingWithin rounds [] { state := Sample.asked } =
        .ok (some [⟨"p", [.var 1, .var 1]⟩, ⟨"q", []⟩]) n) ∧
      Sample.asking.pendingGoals { Sample.asked with calls := [], jumpTo := some "p/3" } {} =
        .error (.invalidArgument 3 1) {} ∧
      ∀ rounds, ∃ n, Sample.asking.pendingWithin rounds []
        { state := { Sample.asked with calls := [] } } = .ok none n := by
  have hgrounded : Sample.asked.heap.Grounded := by decide
  have hacyclic := hgrounded.acyclic
  have hgoals : Sample.asking.pendingGoals Sample.asked {} =
      .ok [⟨"p", [.var 1, .var 1]⟩, ⟨"q", []⟩] {} := by decide +kernel
  refine ⟨hacyclic, ?_, ?_, ?_⟩
  . intro rounds hrounds
    have hends := (@pendingGoals_ends Sample.asking Sample.asked {} hacyclic).1 (.inr (by decide))
    rcases hends rounds hrounds with ⟨goals, n, heq, hgoals'⟩ | ⟨fault, n, _, hfault, _⟩
    . rw [hgoals] at hgoals'
      injection hgoals' with hgoals'
      rw [heq, ← hgoals']
      exact ⟨n, rfl⟩
    . rw [hgoals] at hfault
      contradiction
  . have hends := (@pendingGoals_ends Sample.asking
      { Sample.asked with calls := [], jumpTo := some "p/3" } {} hacyclic).2 rfl rfl
    apply (hends.1 (.invalidArgument 3 1) _).1
    have hsig : Signature.ofLabel? "p/3" = .ok ⟨"p", 3⟩ := by decide +kernel
    exact .argument rfl hsig Nat.one_pos (by decide) (by omega) rfl
  . have hends := (@pendingGoals_ends Sample.asking { Sample.asked with calls := [] } {} hacyclic).2
      rfl rfl
    have hgoal : Machine.waitingGoal { state := { Sample.asked with calls := [] } } =
        .ok ⟨"p", [.var 1, .var 1]⟩ := by decide +kernel
    have hendless := hends.2 fun fault hunreadable => by
      rw [← Machine.waitingGoal_eq_error, hgoal] at hunreadable
      contradiction
    intro rounds
    cases rounds with
    | zero => exact ⟨_, rfl⟩
    | succ rounds => exact ⟨_, hendless.2.2 rounds⟩

end Environment

end HornMachine
