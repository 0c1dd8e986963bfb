import HornMachine.Machine.Argument

/-!
This module contains the calls that cannot be read as goals: there is no call, its label stands for no
predicate, or one of its arguments has no value.
-/

namespace HornMachine

theorem Signature.ofLabel?_eq_error {label : String} {fault : Fault}
    (h : ofLabel? label = .error fault) : fault = .malformedLabel label := by
  unfold ofLabel? at h
  split at h
  . cases h
    rfl
  . split at h
    . cases h
      rfl
    . contradiction

namespace Machine

variable {m : Machine} {fault : Fault}

/--
Why the call that a machine waits for cannot be read. Of several arguments without a value the first one
is at fault.
-/
inductive Unreadable (m : Machine) : Fault → Prop where
  | target (h : m.state.jumpTo = none) : Unreadable m .noJumpTarget
  | label {label : String} (h : m.state.jumpTo = some label)
      (hlabel : ∀ sig, Signature.ofLabel? label ≠ .ok sig) : Unreadable m (.malformedLabel label)
  | argument {label : String} {sig : Signature} {index : Nat} {fault : Fault}
      (h : m.state.jumpTo = some label) (hlabel : Signature.ofLabel? label = .ok sig)
      (hpos : 0 < index) (hle : index ≤ sig.arity)
      (hbefore : ∀ i, 0 < i → i < index → ∃ arg, m.argument sig.arity i = .ok arg)
      (hargument : m.argument sig.arity index = .error fault) : Unreadable m fault

theorem lastArguments_eq_error {arity count : Nat} (hcount : count ≤ arity)
    : m.lastArguments arity count = .error fault ↔
      ∃ index, arity - count < index ∧ index ≤ arity ∧
        (∀ i, arity - count < i → i < index → ∃ arg, m.argument arity i = .ok arg) ∧
        m.argument arity index = .error fault := by
  induction count with
  | zero =>
    constructor
    . intro h
      contradiction
    . rintro ⟨index, hlt, hle, _⟩
      omega
  | succ count ih =>
    have hnext : arity - (count + 1) + 1 = arity - count := by omega
    match hargument : m.argument arity (arity - count) with
    | .error fault' =>
      have hlast : m.lastArguments arity (count + 1) = .error fault' := by
        simp only [lastArguments, hargument, bind, Except.bind]
      rw [hlast]
      constructor
      . rintro ⟨⟩
        refine ⟨arity - count, by omega, by omega, ?_, hargument⟩
        intro i hlt hi
        omega
      . rintro ⟨index, hlt, hle, hbefore, hfault⟩
        by_cases hindex : index = arity - count
        . rw [hindex, hargument] at hfault
          cases hfault
          rfl
        . -- the argument before it would have a value
          rcases hbefore (arity - count) (by omega) (by omega) with ⟨arg, harg⟩
          rw [hargument] at harg
          contradiction
    | .ok arg =>
      have hlast : m.lastArguments arity (count + 1) = .error fault ↔
          m.lastArguments arity count = .error fault := by
        simp only [lastArguments, hargument, bind, Except.bind]
        cases m.lastArguments arity count with
        | ok args => simp [pure, Except.pure]
        | error fault' => simp
      rw [hlast, ih (by omega)]
      constructor
      . rintro ⟨index, hlt, hle, hbefore, hfault⟩
        refine ⟨index, by omega, hle, ?_, hfault⟩
        intro i hi hlt'
        by_cases heq : i = arity - count
        . exact ⟨arg, heq ▸ hargument⟩
        . exact hbefore i (by omega) hlt'
      . rintro ⟨index, hlt, hle, hbefore, hfault⟩
        refine ⟨index, ?_, hle, fun i hi => hbefore i (by omega), hfault⟩
        apply Nat.lt_of_le_of_ne (by omega)
        rintro rfl
        rw [hargument] at hfault
        contradiction

theorem waitingGoal_eq_error : m.waitingGoal = .error fault ↔ m.Unreadable fault := by
  match hjump : m.state.jumpTo with
  | none =>
    have hgoal : m.waitingGoal = .error .noJumpTarget := by
      simp only [waitingGoal, hjump]
      rfl
    rw [hgoal]
    constructor
    . rintro ⟨⟩
      exact .target hjump
    . intro hunreadable
      cases hunreadable with
      | target _ => rfl
      | label h _ =>
        rw [hjump] at h
        contradiction
      | argument h =>
        rw [hjump] at h
        contradiction
  | some label =>
    match hlabel : Signature.ofLabel? label with
    | .error fault' =>
      have hgoal : m.waitingGoal = .error fault' := by
        simp only [waitingGoal, hjump, hlabel, bind, Except.bind]
      rw [hgoal, Signature.ofLabel?_eq_error hlabel]
      constructor
      . rintro ⟨⟩
        exact .label hjump (by simp [hlabel])
      . intro hunreadable
        cases hunreadable with
        | target h =>
          rw [hjump] at h
          contradiction
        | label h _ =>
          rw [hjump] at h
          cases h
          rfl
        | argument h hsig =>
          rw [hjump] at h
          cases h
          rw [hlabel] at hsig
          contradiction
    | .ok sig =>
      have hgoal : m.waitingGoal = .error fault ↔
          m.lastArguments sig.arity sig.arity = .error fault := by
        simp only [waitingGoal, hjump, hlabel, bind, Except.bind]
        cases m.lastArguments sig.arity sig.arity with
        | ok args => simp [pure, Except.pure]
        | error fault' => simp
      rw [hgoal, lastArguments_eq_error (Nat.le_refl _), Nat.sub_self]
      constructor
      . rintro ⟨index, hpos, hle, hbefore, hfault⟩
        exact .argument hjump hlabel hpos hle hbefore hfault
      . intro hunreadable
        cases hunreadable with
        | target h =>
          rw [hjump] at h
          contradiction
        | label h hmalformed =>
          rw [hjump] at h
          cases h
          exact absurd hlabel (hmalformed sig)
        | argument h hsig hpos hle hbefore hfault =>
          rw [hjump] at h
          cases h
          rw [hlabel] at hsig
          cases hsig
          exact ⟨_, hpos, hle, hbefore, hfault⟩

end Machine

end HornMachine
