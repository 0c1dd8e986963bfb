import HornMachine.Proofs.Environment.Reach
import HornMachine.Proofs.Environment.Spared
import HornMachine.Proofs.Run.Alike
import Mathlib.Data.List.Forall2
import Mathlib.Data.Option.Basic

/-!
This module contains the successors and the pending goals of states that agree except for ids. They agree
again, whatever the machines that compute them were left with.
-/

namespace HornMachine

structure Outlink.Alike (program : Program) (computeFeatures : Bool) (t : Tables) (link link' : Outlink)
    : Prop where
  features_eq : link'.features = link.features
  state : link.state.Alike t link'.state
  rests : program.Rests computeFeatures link.state

theorem Outlink.Alike.mono {program : Program} {computeFeatures : Bool} {t t' : Tables}
    {link link' : Outlink} (h : link.Alike program computeFeatures t link') (hle : t ≤ t')
    : link.Alike program computeFeatures t' link' :=
  { h with state := h.state.mono hle }

theorem Outlink.Alike.eq_of_eq {program : Program} {computeFeatures : Bool} {t : Tables}
    {link link' : Outlink} (h : link.Alike program computeFeatures t link') (ht : t.left = t.right)
    : link' = link := by
  rcases link with ⟨features, s⟩
  rcases link' with ⟨features', s'⟩
  rw [Outlink.mk.injEq]
  exact ⟨h.features_eq, h.state.eq_of_eq ht⟩

namespace Exec.Agree

variable {α β : Type} {Q : Tables → β → β → Prop} {m m' : Machine}

theorem restore (s s' : State)
    : Agree ⟨m.symbols, m'.symbols⟩
        (fun _ n _ n' => n = { m with state := s } ∧ n' = { m' with state := s' })
        (Exec.restore s m) (Exec.restore s' m') :=
  .ok (Tables.Grows.refl _) ⟨rfl, rfl⟩

theorem save : Agree ⟨m.symbols, m'.symbols⟩
    (fun s n s' n' => n = m ∧ n' = m' ∧ s = m.state ∧ s' = m'.state) (Exec.save m) (Exec.save m') :=
  .ok (Tables.Grows.refl _) ⟨rfl, rfl, rfl, rfl⟩

theorem resetTo {P : α → β → Prop} {action : Exec α} {action' : Exec β} {t : Tables} (p p' : Machine)
    (h : Agree t (fun a _ b _ => P a b) (action m) (action' m'))
    : Agree t (fun a _ b _ => P a b) (Exec.resetTo p action m) (Exec.resetTo p' action' m') := by
  unfold Exec.resetTo
  generalize action m = r at h ⊢
  generalize action' m' = r' at h ⊢
  cases h with
  | ok hgrows h => exact .ok hgrows h
  | fault fault hgrows => exact .fault fault hgrows
  | leftFull entries n => exact .leftFull entries _ _
  | rightFull _ entries n => exact .rightFull _ entries _

theorem filterMapM {f g : α → Exec (Option β)} {as : List α} {t : Tables}
    (hmono : ∀ {t t' : Tables} {b b' : β}, Q t b b' → t ≤ t' → Q t' b b')
    (hstep : ∀ a ∈ as, ∀ {m m' : Machine}, t ≤ ⟨m.symbols, m'.symbols⟩ →
      Agree ⟨m.symbols, m'.symbols⟩ (fun b n b' n' => Option.Rel (Q ⟨n.symbols, n'.symbols⟩) b b')
        (f a m) (g a m'))
    (hle : t ≤ ⟨m.symbols, m'.symbols⟩)
    : Agree ⟨m.symbols, m'.symbols⟩ (fun bs n bs' n' => List.Forall₂ (Q ⟨n.symbols, n'.symbols⟩) bs bs')
        (as.filterMapM f m) (as.filterMapM g m') := by
  induction as generalizing m m' with
  | nil => exact .pure .nil
  | cons a as ih =>
    rw [List.filterMapM_cons, List.filterMapM_cons]
    apply (hstep a List.mem_cons_self hle).bind
    intro b n b' n' _ hgrows hb
    have htail := ih (fun a' hmem => hstep a' (List.mem_cons_of_mem a hmem)) (Tables.le_trans hle hgrows.le)
    cases hb with
    | none => exact htail
    | some hb =>
      apply htail.bind
      intro bs p bs' p' _ hgrows' hbs
      exact .pure (.cons (hmono hb hgrows'.le) hbs)

end Exec.Agree

section Rest

variable {program : Program} {symbols : SymbolTable} {s : State} {sig : Signature} {l : Level}
  {ls : List Level} {m : Machine} {computeFeatures : Bool}

theorem Heap.Valid.alike_self {heap : Heap} (hvalid : heap.Valid symbols)
    : heap.Alike ⟨symbols, symbols⟩ heap := by
  refine ⟨rfl, ?_⟩
  intro addr cell cell' hcell hcell'
  rw [hcell] at hcell'
  cases hcell'
  cases cell with
  | ref addr => exact .ref addr
  | const id =>
    rcases hvalid.named hcell with ⟨name, hname⟩
    exact .const ⟨name, hname, hname⟩

theorem State.alike_self (hvalid : s.heap.Valid symbols) : s.Alike ⟨symbols, symbols⟩ s :=
  .of_heap s hvalid.alike_self

theorem Level.Ok.clean {registers : Array (Option Nat)} (h : l.Ok program registers)
    : program.Clean l.frame.pc := by
  have hcode := h.code
  match hcalls : Code.calls l.vars l.seen l.todo with
  | [] =>
    rw [hcalls] at hcode
    exact .of_getElem? hcode.head rfl
  | instr :: code =>
    have hplain := Code.not_isFeature_calls l.vars l.seen l.todo instr (by simp [hcalls])
    rw [hcalls] at hcode
    exact .of_getElem? hcode.head hplain

theorem Level.Stack.clean {registers : Array (Option Nat)} {frame : Frame} (h : Stack program registers ls)
    (hframe : frame ∈ ls.map Level.frame) : program.Clean frame.pc := by
  rcases List.mem_map.mp hframe with ⟨l, hl, rfl⟩
  exact (h.ok hl).clean

theorem Waiting.rests (h : Waiting program symbols s sig l ls) (computeFeatures : Bool)
    : program.Rests computeFeatures s := by
  constructor
  . intro frame hframe
    rw [h.calls_eq] at hframe
    exact h.stack.clean hframe
  . intro _ pc hpc
    rw [h.pc_eq] at hpc
    contradiction

theorem Ready.runOn_features {gather gather' : Nat → Exec (List Goal)} {stack : List Feature}
    (h : Ready program m.symbols m.state l ls) (hfenced : program.Fenced)
    (hrun : Unexhausted (program.runOn gather computeFeatures m))
    (hrun' : Unexhausted (program.runOn gather' computeFeatures { m with features := stack }))
    : ∃ n n', program.runOn gather computeFeatures m = .ok ∅ n ∧
        program.runOn gather' computeFeatures { m with features := stack } = .ok ∅ n' ∧
        n'.symbols = n.symbols ∧ n'.state = n.state := by
  have htracks : program.Tracks computeFeatures m { m with features := stack } := by
    constructor
    . exact State.alike_self h.valid
    . intro frame hframe
      rw [h.calls_eq] at hframe
      exact h.stack.clean (List.mem_cons_of_mem _ hframe)
    . intro _
      left
      intro pc hpc
      rw [h.runsAt.pc_eq] at hpc
      cases hpc
      exact (h.stack.ok List.mem_cons_self).clean
  have hagree : Exec.Agree ⟨m.symbols, m.symbols⟩ (program.Stopped computeFeatures)
      (program.runOn gather computeFeatures m)
      (program.runOn gather' computeFeatures { m with features := stack }) :=
    htracks.agree_runOn hfenced
  rcases h.resume hrun with ⟨n, heq, _⟩
  rw [heq] at hagree
  generalize program.runOn gather' computeFeatures { m with features := stack } = r at hrun' hagree ⊢
  cases hagree with
  | @ok _ _ _ n' hgrows hstopped =>
    have hsymbols := hgrows.eq_of_eq rfl
    refine ⟨n, n', heq, ?_, hsymbols.symm, hstopped.alike.eq_of_eq hsymbols⟩
    rw [hstopped.report_eq]
  | rightFull _ entries n => exact absurd rfl (hrun' entries n)

end Rest

namespace Environment

variable {env : Environment} {computeFeatures : Bool} {s s' : State} {m m' : Machine}
  (hfenced : env.program.Fenced) (h : s.Alike ⟨m.symbols, m'.symbols⟩ s')
include hfenced h

theorem agree_run (start : Option Nat)
    (hrests : env.program.Rests computeFeatures { s with pc := start <|> s.pc })
    (f f' : List Feature)
    : Exec.Agree ⟨m.symbols, m'.symbols⟩ (env.program.Stopped computeFeatures)
        (env.run start computeFeatures ⟨s, m.symbols, f⟩)
        (env.run start computeFeatures ⟨s', m'.symbols, f'⟩) := by
  have hstates : Machine.Alike ⟨s, m.symbols, f⟩ ⟨s', m'.symbols, f'⟩ := h
  exact Program.agree_run hfenced hstates hrests

theorem agree_clauseOutlink {addr : Nat} (hframes : ∀ frame ∈ s.calls, env.program.Clean frame.pc)
    (haddr : env.program.Clean addr)
    : Exec.Agree ⟨m.symbols, m'.symbols⟩
        (fun link n link' n' => Option.Rel
          (Outlink.Alike env.program computeFeatures ⟨n.symbols, n'.symbols⟩) link link')
        (clauseOutlink env.run s computeFeatures addr m)
        (clauseOutlink env.run s' computeFeatures addr m') := by
  have hrests : ∀ computeFeatures, env.program.Rests computeFeatures { s with pc := some addr <|> s.pc } := by
    intro computeFeatures
    refine ⟨hframes, ?_⟩
    rintro _ _ ⟨⟩
    exact haddr
  apply (Exec.Agree.restore s s').bind
  rintro _ _ _ _ _ _ ⟨rfl, rfl⟩
  cases computeFeatures with
  | false =>
    apply (agree_run hfenced h (some addr) (hrests false) _ _).bind
    intro _ n _ n' _ _ hstopped
    exact .ok (Tables.Grows.refl _) (.some ⟨rfl, hstopped.alike, hstopped.rests⟩)
  | true =>
    apply (agree_run hfenced h (some addr) (hrests true) _ _).bind
    intro features n features' n' _ _ hstopped
    have hfailed : n'.state.failed = n.state.failed := State.Alike.failed_eq hstopped.alike
    apply Exec.Agree.save.bind
    rintro _ _ _ _ _ _ ⟨rfl, rfl, rfl, rfl⟩
    rw [hstopped.report_eq, hfailed]
    split
    . exact .pure .none
    . apply (agree_run hfenced hstopped.alike none hstopped.rests _ _).bind
      intro _ p _ p' _ _ hstopped'
      have hfailed' : p'.state.failed = p.state.failed := State.Alike.failed_eq hstopped'.alike
      apply Exec.Agree.save.bind
      rintro _ _ _ _ _ _ ⟨rfl, rfl, rfl, rfl⟩
      rw [hfailed']
      split
      . exact .pure .none
      . exact .pure (.some ⟨rfl, hstopped'.alike, hstopped'.rests⟩)

end Environment

theorem Machine.position_setArgument {m n : Machine} {arity index : Nat} {name : String}
    (h : m.setArgument arity index name = .ok n) : n.state.position = m.state.position := by
  simp only [setArgument, Except.bind_eq_ok] at h
  rcases h with ⟨_, _, _, _, _, _, h⟩
  split at h
  . simp only [Except.bind_eq_ok] at h
    rcases h with ⟨_, _, _, _, _, _, h⟩
    cases h
    rfl
  . contradiction

theorem Program.Rests.congr {program : Program} {computeFeatures : Bool} {s s' : State}
    (h : program.Rests computeFeatures s) (hposition : s'.position = s.position)
    : program.Rests computeFeatures s' := by
  simp only [State.position, Prod.mk.injEq] at hposition
  refine ⟨?_, ?_⟩
  . rw [hposition.1]
    exact h.frames
  . rw [hposition.2]
    exact h.pc

namespace FactTable

theorem agree_bindRow {row : List String} {arity index : Nat} {m m' : Machine} (h : m.Alike m')
    : Exec.Agree ⟨m.symbols, m'.symbols⟩
        (fun agrees n agrees' n' => agrees' = agrees ∧ n.Alike n' ∧
          n.state.position = m.state.position)
        (bindRow arity index row m) (bindRow arity index row m') := by
  induction row generalizing m m' index with
  | nil => exact .pure ⟨rfl, h, rfl⟩
  | cons value row ih =>
    apply (Exec.Agree.read (h.agree_constantArgument arity index)).bind
    rintro bound _ bound' _ _ _ ⟨rfl, rfl, heq⟩
    rw [← heq]
    cases bound with
    | some bound =>
      simp only
      split
      . exact ih h
      . exact .pure ⟨rfl, h, rfl⟩
    | none =>
      rw [Exec.setArgument_eq]
      apply (Exec.Agree.update (h.agree_setArgument arity index value)).bind
      intro _ n _ n' hset _ hmatched
      have hposition := Machine.position_setArgument (Exec.update_eq_ok.mp hset)
      apply (ih hmatched.alike).imp
      intro agrees p agrees' p' _ hR
      exact ⟨hR.1, hR.2.1, hR.2.2.trans hposition⟩

variable {env : Environment} {computeFeatures : Bool} {s s' : State} {m m' : Machine}
  (hfenced : env.program.Fenced) (h : s.Alike ⟨m.symbols, m'.symbols⟩ s')
  (hrests : env.program.Rests computeFeatures s)
include hfenced h hrests

theorem agree_answer (label : String) (row : List String)
    : Exec.Agree ⟨m.symbols, m'.symbols⟩
        (fun link n link' n' => Option.Rel
          (Outlink.Alike env.program computeFeatures ⟨n.symbols, n'.symbols⟩) link link')
        (answer env.run s label computeFeatures row m)
        (answer env.run s' label computeFeatures row m') := by
  apply (Exec.Agree.restore s s').bind
  rintro _ _ _ _ _ _ ⟨rfl, rfl⟩
  have hstates : Machine.Alike { m with state := s } { m' with state := s' } := h
  apply (agree_bindRow hstates).bind
  rintro agrees n agrees' n' _ _ ⟨heq, halike, hposition⟩
  rw [heq]
  cases agrees with
  | false => exact .pure .none
  | true =>
    have hleft : Exec.Agree ⟨n.symbols, n'.symbols⟩
        (fun _ p _ p' => p = { n with state := n.state.leave } ∧ p' = { n' with state := n'.state.leave })
        (Exec.onState State.leave n) (Exec.onState State.leave n') :=
      .ok (Tables.Grows.refl _) ⟨rfl, rfl⟩
    apply hleft.bind
    rintro _ _ _ _ _ _ ⟨rfl, rfl⟩
    apply (Environment.agree_run hfenced (State.Alike.leave halike) none
      (hrests.congr hposition).leave _ _).bind
    intro _ p _ p' _ _ hstopped
    have hfailed : p'.state.failed = p.state.failed := State.Alike.failed_eq hstopped.alike
    apply Exec.Agree.save.bind
    rintro _ _ _ _ _ _ ⟨rfl, rfl, rfl, rfl⟩
    cases computeFeatures with
    | false => exact .pure (.some ⟨rfl, hstopped.alike, hstopped.rests⟩)
    | true =>
      simp only [Bool.not_true, Bool.false_eq_true, if_false, hfailed]
      split
      . exact .pure .none
      . exact .pure (.some ⟨rfl, hstopped.alike, hstopped.rests⟩)

theorem agree_outlinks (table : FactTable)
    : Exec.Agree ⟨m.symbols, m'.symbols⟩
        (fun links n links' n' => List.Forall₂
          (Outlink.Alike env.program computeFeatures ⟨n.symbols, n'.symbols⟩) links links')
        (table.outlinks env.run s computeFeatures m) (table.outlinks env.run s' computeFeatures m') := by
  unfold outlinks
  rw [h.jumpTo_eq]
  cases s.jumpTo with
  | none => exact .pure List.Forall₂.nil
  | some label =>
    simp only
    cases table.rowsOf label with
    | nil => exact .pure List.Forall₂.nil
    | cons row rows =>
      have hsig : Agree Eq (Signature.ofLabel? label) (Signature.ofLabel? label) := by
        cases Signature.ofLabel? label with
        | ok sig => exact .ok rfl
        | error fault => exact .fault fault
      apply (Exec.Agree.read (f := fun _ => _) (g := fun _ => _) hsig).bind
      rintro sig _ sig' _ _ _ ⟨rfl, rfl, heq⟩
      rw [← heq]
      refine .filterMapM (Q := Outlink.Alike env.program computeFeatures) .mono ?_ (Tables.le_refl _)
      intro row _ p p' hle
      exact agree_answer hfenced (h.mono hle) hrests label row

end FactTable

namespace Environment

variable {env : Environment} {tables : List FactTable} {computeFeatures : Bool} {s s' : State}
  {m m' : Machine} (hfenced : env.program.Fenced) (h : s.Alike ⟨m.symbols, m'.symbols⟩ s')
include hfenced h

theorem agree_outlinks (hplugins : env.plugins = tables.map FactTable.plugin)
    (hrests : env.program.Rests computeFeatures s)
    : Exec.Agree ⟨m.symbols, m'.symbols⟩
        (fun links n links' n' => List.Forall₂
          (Outlink.Alike env.program computeFeatures ⟨n.symbols, n'.symbols⟩) links links')
        (env.outlinks s computeFeatures m) (env.outlinks s' computeFeatures m') := by
  unfold outlinks outlinksWith
  rw [h.completed_eq, h.jumpTo_eq]
  split
  . exact .pure List.Forall₂.nil
  cases s.jumpTo with
  | none => exact .throw _
  | some label =>
    simp only [find?_tables hplugins]
    cases tables.find? (·.claims label) with
    | some table =>
      apply (Exec.Agree.restore s s').bind
      rintro _ _ _ _ _ _ ⟨rfl, rfl⟩
      have hstates : s.Alike ⟨{ m with state := s }.symbols, { m' with state := s' }.symbols⟩ s' := h
      exact FactTable.agree_outlinks hfenced hstates hrests table
    | none =>
      simp only [Option.map_none]
      match haddrs : env.program.addresses? label with
      | none => exact .throw _
      | some addrs =>
        refine .filterMapM (Q := Outlink.Alike env.program computeFeatures) .mono ?_ (Tables.le_refl _)
        intro addr haddr p p' hle
        apply agree_clauseOutlink hfenced (h.mono hle) hrests.frames
        exact hfenced.clean_of_mem_addresses? haddrs haddr

end Environment

namespace Environment

variable {env : Environment} {m m' : Machine}

theorem agree_answerCall (h : m.Alike m') (hrests : env.program.Rests false m.state) (found : List Goal)
    : Exec.Agree ⟨m.symbols, m'.symbols⟩
        (fun goals n goals' n' => goals' = goals ∧ n.Alike n' ∧ env.program.Rests false n.state)
        (answerCall found m) (answerCall found m') := by
  apply Exec.Agree.save.bind
  rintro _ _ _ _ _ _ ⟨rfl, rfl, rfl, rfl⟩
  rw [State.Alike.pc_eq h]
  split
  . exact .pure ⟨rfl, h, hrests⟩
  . apply (Exec.Agree.read h.agree_waitingGoal).bind
    rintro goal _ goal' _ _ _ ⟨rfl, rfl, heq⟩
    rw [← heq]
    exact .ok (Tables.Grows.refl _) ⟨rfl, State.Alike.leave h, hrests.leave⟩

variable (hfenced : env.program.Fenced)
include hfenced

theorem agree_pendingWithin (h : m.Alike m') (hrests : env.program.Rests false m.state) (rounds : Nat)
    (found : List Goal)
    : Exec.Agree ⟨m.symbols, m'.symbols⟩ (fun goals _ goals' _ => goals' = goals)
        (env.pendingWithin rounds found m) (env.pendingWithin rounds found m') := by
  induction rounds generalizing m m' found with
  | zero => exact .pure rfl
  | succ rounds ih =>
    apply (agree_answerCall h hrests found).bind
    rintro found n found' n' _ _ ⟨heq, halike, hrests⟩
    rw [heq]
    apply (agree_run hfenced halike none hrests _ _).bind
    intro _ p _ p' _ _ hstopped
    apply Exec.Agree.save.bind
    rintro _ _ _ _ _ _ ⟨rfl, rfl, rfl, rfl⟩
    rw [State.Alike.completed_eq hstopped.alike, State.Alike.failed_eq hstopped.alike]
    split
    . exact .pure rfl
    . exact ih hstopped.alike hstopped.rests found

theorem agree_pendingGoals {s s' : State} (h : s.Alike ⟨m.symbols, m'.symbols⟩ s')
    (hrests : env.program.Rests false s)
    : Exec.Agree ⟨m.symbols, m'.symbols⟩ (fun goals _ goals' _ => goals' = goals)
        (env.pendingGoals s m) (env.pendingGoals s' m') := by
  have hrounds : env.pendingRounds s' = env.pendingRounds s := by
    rw [pendingRounds, h.calls_eq, pendingRounds]
  rw [env.pendingGoals_eq s, env.pendingGoals_eq s']
  have hget : Exec.Agree ⟨m.symbols, m'.symbols⟩ (fun a n a' n' => a = m ∧ n = m ∧ a' = m' ∧ n' = m')
      ((get : Exec Machine) m) ((get : Exec Machine) m') :=
    .ok (Tables.Grows.refl _) ⟨rfl, rfl, rfl, rfl⟩
  apply hget.bind
  rintro _ n _ n' _ _ ⟨rfl, rfl, rfl, rfl⟩
  apply Exec.Agree.resetTo
  apply (Exec.Agree.restore s s').bind
  rintro _ _ _ _ _ _ ⟨rfl, rfl⟩
  rw [hrounds]
  have hstates : Machine.Alike { n with state := s } { n' with state := s' } := h
  apply (agree_pendingWithin hfenced hstates hrests _ _).bind
  intro found _ found' _ _ _ heq
  rw [heq]
  cases found with
  | some goals => exact .pure rfl
  | none => exact .throw _

end Environment

end HornMachine
