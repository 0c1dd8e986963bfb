import HornMachine.Environment.Gather
import HornMachine.Proofs.Run.Modes

/-!
This module contains runs that are resumed after each of their reports. Put together the pieces do what a
single run without features does.
-/

namespace HornMachine

namespace Environment

variable {env : Environment} {start : Option Nat} {m m' n : Machine} {report : Features}
  {reports : List Features}

/--
A run with features computed that goes on after every report, until it pauses for another reason.
-/
inductive Pieces (env : Environment) : Option Nat → Machine → List Features → Machine → Prop where
  | last {start : Option Nat} {m n : Machine} {report : Features}
      (h : env.run start true m = .ok report n) (hempty : report.isEmpty = true)
      : Pieces env start m [] n
  | resume {start : Option Nat} {m m' n : Machine} {report : Features} {reports : List Features}
      (h : env.run start true m = .ok report m') (hreport : report.isEmpty = false)
      (hrest : Pieces env none m' reports n) : Pieces env start m (report :: reports) n

/--
The features that a run computes do not matter to it. Without them it ends in the same state and with the same
constants, and it leaves the features under construction alone.
-/
theorem run_pieces (hfindall : ∀ (pc addr : Nat), env.program.code[pc]? ≠ some (.ffindall addr))
    (h : env.Pieces start m reports n) (features : List Feature)
    : env.run start false (m.withFeatures features) = .ok ∅ (n.withFeatures features) := by
  induction h with
  | last h hempty => exact Program.run_silent hfindall h hempty features
  | resume h hreport _ ih => exact (Program.run_report hfindall h hreport features).trans ih

end Environment

namespace Sample

def returning : Environment where
  program := {
    code := #[.unifyConst "c" (-1), .fclear, .freport, .returnp, .fpushStart "late" 0, .freport,
      .unifyConst "d" (-1), .returnp] }

def awaiting : State where
  heap := #[.ref 0, .ref 0]
  calls := [⟨1, 0, 4, none⟩]
  pc := none

def letterC : SymbolTable :=
  .single "c"

def refuted : State where
  heap := #[.const 0]
  pc := some 7
  failed := true

end Sample

theorem Environment.run_pieces_sample
    : Sample.returning.Pieces (some 0) { state := Sample.awaiting }
        [Features.ofGoals [.noFeatures], Features.ofGoals [⟨"late", []⟩]]
        { state := Sample.refuted, symbols := Sample.letterC, features := [⟨"late", 0, []⟩] } ∧
      Sample.returning.run (some 0) false
          { state := Sample.awaiting, features := [⟨"kept", 0, []⟩] } =
        .ok ∅ { state := Sample.refuted, symbols := Sample.letterC, features := [⟨"kept", 0, []⟩] } := by
  have hfirst : Sample.returning.run (some 0) true { state := Sample.awaiting } =
      .ok (Features.ofGoals [.noFeatures])
        { state := { Sample.awaiting with heap := #[.const 0, .ref 0], pc := some 3 }
          symbols := Sample.letterC } := by decide +kernel
  have hsecond : Sample.returning.run none true
        { state := { Sample.awaiting with heap := #[.const 0, .ref 0], pc := some 3 }
          symbols := Sample.letterC } =
      .ok (Features.ofGoals [⟨"late", []⟩])
        { state := { Sample.refuted with pc := some 6, failed := false }
          symbols := Sample.letterC
          features := [⟨"late", 0, []⟩] } := by decide +kernel
  have hlast : Sample.returning.run none true
        { state := { Sample.refuted with pc := some 6, failed := false }
          symbols := Sample.letterC
          features := [⟨"late", 0, []⟩] } =
      .ok ∅ { state := Sample.refuted, symbols := Sample.letterC, features := [⟨"late", 0, []⟩] } := by
    decide +kernel
  have hpieces := Pieces.resume hfirst rfl (.resume hsecond rfl (.last hlast rfl))
  have hfindall : ∀ (pc addr : Nat), Sample.returning.program.code[pc]? ≠ some (.ffindall addr) := by
    intro pc addr hinstr
    have hmem := Array.mem_of_getElem? hinstr
    simp [Sample.returning] at hmem
  exact ⟨hpieces, run_pieces hfindall hpieces [⟨"kept", 0, []⟩]⟩

end HornMachine
