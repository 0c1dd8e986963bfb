import HornMachine.Facts
import HornMachine.Proofs.Environment.Spared
import HornMachine.Proofs.Environment.Visit
import HornMachine.Proofs.Run.WellFormed
import Mathlib.Data.List.ReduceOption

/-!
This module contains what all actions of a machine keep, whatever the program is and whether or not they
come to a fault: the state stays well formed, and so is every state in an answer.
-/

namespace HornMachine

variable {keeps : Prop}

namespace Exec

/--
What an action leaves behind on a machine: more constants, a state that is well formed and, without a
fault, an answer as described by `Q`.
-/
structure Leaves (keeps : Prop) (Q : SymbolTable → α → Prop) (m : Machine) (r : EStateM.Result Fault Machine α)
    : Prop where
  le : m.symbols ≤ (left r).symbols
  wellFormed : (left r).state.WellFormed keeps (left r).symbols
  answer : ∀ {a : α} {m' : Machine}, r = .ok a m' → Q m'.symbols a

/--
Where a machine has the constants `symbols` and a state that is well formed, the action leaves it so.
-/
def Safe (keeps : Prop) (symbols : SymbolTable) (Q : SymbolTable → α → Prop) (action : Exec α) : Prop :=
  ∀ m : Machine, symbols ≤ m.symbols → m.state.WellFormed keeps m.symbols → Leaves keeps Q m (action m)

abbrev Any : SymbolTable → α → Prop := fun _ _ => True

abbrev Formed (keeps : Prop) : SymbolTable → State → Prop := fun symbols s => s.WellFormed keeps symbols

namespace Safe

variable {symbols : SymbolTable} {Q : SymbolTable → α → Prop} {R : SymbolTable → β → Prop}

theorem mono {symbols' : SymbolTable} {action : Exec α} (h : Safe keeps symbols Q action)
    (hle : symbols ≤ symbols') : Safe keeps symbols' Q action :=
  fun m hm => h m (Interner.le_trans hle hm)

theorem answers {Q' : SymbolTable → α → Prop} {action : Exec α} (h : Safe keeps symbols Q action)
    (hanswers : ∀ {m m' : Machine} {a : α}, symbols ≤ m.symbols → action m = .ok a m' →
      Q' m'.symbols a)
    : Safe keeps symbols Q' action :=
  fun m hm hs => ⟨(h m hm hs).le, (h m hm hs).wellFormed, hanswers hm⟩

theorem pure {a : α} (h : ∀ {symbols'}, symbols ≤ symbols' → Q symbols' a)
    : Safe keeps symbols Q (pure a) := by
  intro m hm hs
  refine ⟨Interner.le_refl _, hs, ?_⟩
  rintro _ _ ⟨⟩
  exact h hm

theorem throw (fault : Fault) : Safe keeps symbols Q (throw fault) :=
  fun _ _ hs => ⟨Interner.le_refl _, hs, nofun⟩

theorem bind {x : Exec α} {f : α → Exec β} (hx : Safe keeps symbols Q x)
    (hf : ∀ {a : α} {symbols' : SymbolTable}, symbols ≤ symbols' → Q symbols' a →
      Safe keeps symbols' R (f a))
    : Safe keeps symbols R (x >>= f) := by
  intro m hm hs
  have hleaves := hx m hm hs
  rw [bind_apply]
  cases hcase : x m with
  | error fault m' =>
    rw [hcase] at hleaves
    exact ⟨hleaves.le, hleaves.wellFormed, nofun⟩
  | ok a m' =>
    rw [hcase] at hleaves
    have hnext := hf (Interner.le_trans hm hleaves.le) (hleaves.answer rfl) m' (Interner.le_refl _)
      hleaves.wellFormed
    exact ⟨Interner.le_trans hleaves.le hnext.le, hnext.wellFormed, hnext.answer⟩

theorem onState {f : State → State}
    (h : ∀ {symbols'} {s : State}, symbols ≤ symbols' → s.WellFormed keeps symbols' →
      (f s).WellFormed keeps symbols')
    : Safe keeps symbols Any (onState f) :=
  fun _ hm hs => ⟨Interner.le_refl _, h hm hs, fun _ => trivial⟩

theorem restore {s : State} (h : s.WellFormed keeps symbols) : Safe keeps symbols Any (restore s) :=
  onState fun hle _ => h.mono hle

theorem save : Safe keeps symbols (Formed keeps) save := by
  intro m _ hs
  refine ⟨Interner.le_refl _, hs, ?_⟩
  rintro _ _ ⟨⟩
  exact hs

theorem get : Safe keeps symbols (fun symbols m => m.state.WellFormed keeps symbols) get := by
  intro m _ hs
  refine ⟨Interner.le_refl _, hs, ?_⟩
  rintro _ _ ⟨⟩
  exact hs

theorem modify {f : Machine → Machine} (hsymbols : ∀ m, (f m).symbols = m.symbols)
    (hstate : ∀ {m : Machine}, m.state.WellFormed keeps m.symbols → (f m).state.WellFormed keeps m.symbols)
    : Safe keeps symbols Any (modify f) := by
  intro m _ hs
  refine ⟨?_, ?_, fun _ => trivial⟩
  . show m.symbols ≤ (f m).symbols
    rw [hsymbols]
    exact Interner.le_refl _
  . show (f m).state.WellFormed keeps (f m).symbols
    rw [hsymbols]
    exact hstate hs

theorem read (f : Machine → Except Fault α) : Safe keeps symbols Any (read f) := by
  intro m _ hs
  unfold Exec.read
  cases hf : f m with
  | ok a => exact ⟨Interner.le_refl _, hs, fun _ => trivial⟩
  | error fault => exact ⟨Interner.le_refl _, hs, fun _ => trivial⟩

theorem update {f : Machine → Except Fault Machine}
    (h : ∀ {m m' : Machine}, m.state.WellFormed keeps m.symbols → f m = .ok m' →
      m.symbols ≤ m'.symbols ∧ m'.state.WellFormed keeps m'.symbols)
    : Safe keeps symbols Any (update f) := by
  intro m _ hs
  unfold Exec.update
  cases hf : f m with
  | ok m' => exact ⟨(h hs hf).1, (h hs hf).2, fun _ => trivial⟩
  | error fault => exact ⟨Interner.le_refl _, hs, fun _ => trivial⟩

theorem resetTo {action : Exec α} {m₀ : Machine} (h : Safe keeps symbols Q action)
    (hm₀ : m₀.state.WellFormed keeps symbols) : Safe keeps symbols Q (resetTo m₀ action) := by
  intro m hm hs
  have hleaves := h m hm hs
  have hkept := hm₀.mono (Interner.le_trans hm hleaves.le)
  unfold Exec.resetTo
  cases hcase : action m with
  | error fault m' =>
    rw [hcase] at hleaves hkept
    exact ⟨hleaves.le, hkept, nofun⟩
  | ok a m' =>
    rw [hcase] at hleaves hkept
    refine ⟨hleaves.le, hkept, ?_⟩
    have ha : Q m'.symbols a := hleaves.answer rfl
    rintro _ _ ⟨⟩
    exact ha

theorem mapM {f : α → Exec β} {as : List α} (h : ∀ a ∈ as, Safe keeps symbols R (f a))
    (hR : ∀ {symbols symbols' b}, R symbols b → symbols ≤ symbols' → R symbols' b)
    : Safe keeps symbols (fun symbols bs => ∀ b ∈ bs, R symbols b) (as.mapM f) := by
  induction as generalizing symbols with
  | nil => exact pure fun _ => by simp
  | cons a as ih =>
    rw [List.mapM_cons]
    apply (h a List.mem_cons_self).bind
    intro b symbols' hle hb
    apply (ih fun a' ha' => (h a' (List.mem_cons_of_mem a ha')).mono hle).bind
    intro bs symbols'' hle' hbs
    apply pure
    intro symbols₃ hle'' b' hb'
    rcases List.mem_cons.mp hb' with rfl | hb'
    . exact hR hb (Interner.le_trans hle' hle'')
    . exact hR (hbs b' hb') hle''

theorem filterMapM {α β : Type} {R : SymbolTable → β → Prop} {f : α → Exec (Option β)}
    {as : List α} (h : ∀ a ∈ as, Safe keeps symbols (fun symbols b => ∀ b' ∈ b, R symbols b') (f a))
    (hR : ∀ {symbols symbols' b}, R symbols b → symbols ≤ symbols' → R symbols' b)
    : Safe keeps symbols (fun symbols bs => ∀ b ∈ bs, R symbols b) (as.filterMapM f) := by
  rw [filterMapM_eq_map, ← bind_pure_comp]
  apply (mapM h fun hb hle b' hb' => hR (hb b' hb') hle).bind
  intro bs symbols' _ hbs
  apply pure
  intro symbols'' hle b hb
  exact hR (hbs (some b) (List.reduceOption_mem_iff.mp hb) b rfl) hle

theorem foldlM {f : β → α → Exec β} {as : List α} (h : ∀ b, ∀ a ∈ as, Safe keeps symbols Any (f b a))
    (b : β) : Safe keeps symbols Any (as.foldlM f b) := by
  induction as generalizing symbols b with
  | nil => exact pure fun _ => trivial
  | cons a as ih =>
    rw [List.foldlM_cons]
    apply (h b a List.mem_cons_self).bind
    intro b symbols' hle _
    exact ih (fun b' a' ha' => (h b' a' (List.mem_cons_of_mem a ha')).mono hle) b

end Safe

end Exec

abbrev LinkIn (R : SymbolTable → State → Prop) : SymbolTable → Option Outlink → Prop :=
  fun symbols link => ∀ link' ∈ link, R symbols link'.state

abbrev LinksIn (R : SymbolTable → State → Prop) : SymbolTable → List Outlink → Prop :=
  fun symbols links => ∀ link ∈ links, R symbols link.state

abbrev LinksFormed (keeps : Prop) : SymbolTable → List Outlink → Prop := LinksIn (Exec.Formed keeps)

theorem Exec.safe_none {R : SymbolTable → State → Prop} {symbols : SymbolTable}
    : Safe keeps symbols (LinkIn R) (pure none) :=
  .pure fun _ => nofun

theorem Exec.safe_some {symbols : SymbolTable} {features : Option Features} {s : State}
    (hs : s.WellFormed keeps symbols)
    : Safe keeps symbols (LinkIn (Formed keeps)) (pure (some ⟨features, s⟩)) := by
  apply Safe.pure
  rintro _ hle _ ⟨⟩
  exact hs.mono hle

section Run

variable {symbols : SymbolTable} {gather : Nat → Exec (List Goal)} {computeFeatures : Bool}
  (hgather : ∀ {symbols : SymbolTable} (addr : Nat), Exec.Safe keeps symbols Exec.Any (gather addr))
include hgather

theorem safe_execute {instr : Instruction} (hkeeps : keeps → instr.keepsRegisters = true)
    : Exec.Safe keeps symbols Exec.Any (execute gather computeFeatures instr) := by
  by_cases hfindall : ∃ addr, instr = .ffindall addr
  . rcases hfindall with ⟨addr, rfl⟩
    have hadvance : ∀ {symbols : SymbolTable}, Exec.Safe keeps symbols Exec.Any Exec.advance :=
      .onState fun _ hs => hs.advance
    cases computeFeatures with
    | false => exact hadvance.bind fun _ _ => .pure fun _ => trivial
    | true =>
      apply Exec.Safe.get.bind
      intro m symbols' _ hm
      apply (hgather addr).bind
      intro goals symbols'' hle _
      refine (Exec.Safe.bind (Q := Exec.Any) ?_ fun _ _ => hadvance.bind fun _ _ => .pure fun _ => trivial)
      intro m' hm' _
      exact ⟨Interner.le_refl _, hm.mono (Interner.le_trans hle hm'), fun _ => trivial⟩
  . intro m _ hs
    have hsteps : Steps instr m (execute gather computeFeatures instr m) :=
      steps_execute fun addr heq => hfindall ⟨addr, heq⟩
    rcases hsteps.left with ⟨hle, hmoves⟩
    refine ⟨hle, ?_, fun _ => trivial⟩
    rcases hmoves with hmoves | hchanges
    . exact (hs.mono hle).moves hkeeps hmoves
    . exact (hs.mono hle).changes hchanges

theorem safe_run {program : Program} (hkeeps : keeps → program.KeepsRegisters) (start : Option Nat)
    : Exec.Safe keeps symbols Exec.Any (program.run gather start computeFeatures) := by
  refine (Exec.Safe.bind (Q := Exec.Any) (.onState fun _ hs => hs.goto _ _ _ _) ?_)
  intro _ symbols' _ _ m hm hs
  let P : Machine → Prop := fun m' => m.symbols ≤ m'.symbols ∧ m'.state.WellFormed keeps m'.symbols
  have hkept : P (Exec.left (program.runOn gather computeFeatures m)) := by
    apply Program.runOn_left _ ⟨Interner.le_refl _, hs⟩
    intro m' _ instr _ hinstr h
    have hleaves : Exec.Leaves keeps _ m' (execute gather computeFeatures instr m') :=
      safe_execute hgather (fun hkept => hkeeps hkept instr (Array.mem_of_getElem? hinstr)) m' h.1 h.2
    exact ⟨Interner.le_trans h.1 hleaves.le, hleaves.wellFormed⟩
  exact ⟨hkept.1, hkept.2, fun _ => trivial⟩

end Run

def Plugin.Safe (keeps : Prop) (plugin : Plugin) : Prop :=
  ∀ {symbols : SymbolTable} (run : Runner) (s : State) (computeFeatures : Bool),
    (∀ {symbols : SymbolTable} (start : Option Nat) (computeFeatures : Bool),
      Exec.Safe keeps symbols Exec.Any (run start computeFeatures)) →
    s.WellFormed keeps symbols → Exec.Safe keeps symbols (LinksFormed keeps) (plugin.outlinks run s computeFeatures)

namespace Environment

section Runner

variable {env : Environment} {run : Runner} (hplugins : ∀ plugin ∈ env.plugins, plugin.Safe keeps)
  (hrun : ∀ {symbols : SymbolTable} (start : Option Nat) (computeFeatures : Bool),
    Exec.Safe keeps symbols Exec.Any (run start computeFeatures))
  {symbols : SymbolTable} {s : State} (hs : s.WellFormed keeps symbols)
include hrun

section Clause

include hs

theorem safe_clauseOutlink (computeFeatures : Bool) (addr : Nat)
    : Exec.Safe keeps symbols (LinkIn (Exec.Formed keeps)) (clauseOutlink run s computeFeatures addr) := by
  apply (Exec.Safe.restore hs).bind
  intro _ _ _ _
  cases computeFeatures with
  | false =>
    exact (hrun (some addr) false).bind fun _ _ => Exec.Safe.save.bind fun _ hs' => Exec.safe_some hs'
  | true =>
    apply (hrun (some addr) true).bind
    intro features _ _ _
    apply Exec.Safe.save.bind
    intro stopped _ _ _
    show Exec.Safe keeps _ _ (if _ then _ else _)
    split
    . exact Exec.safe_none
    . apply (hrun none true).bind
      intro _ _ _ _
      apply Exec.Safe.save.bind
      intro after _ _ hafter
      show Exec.Safe keeps _ _ (if _ then _ else _)
      split
      . exact Exec.safe_none
      . exact Exec.safe_some hafter

omit hrun in
theorem safe_outlinksWith_of {R : SymbolTable → State → Prop} {computeFeatures : Bool}
    (hR : ∀ {symbols symbols' s}, R symbols s → symbols ≤ symbols' → R symbols' s)
    (hplugins : ∀ plugin ∈ env.plugins,
      Exec.Safe keeps symbols (LinksIn R) (plugin.outlinks run s computeFeatures))
    (hclauses : ∀ label addrs, env.program.addresses? label = some addrs → ∀ addr ∈ addrs,
      Exec.Safe keeps symbols (LinkIn R) (clauseOutlink run s computeFeatures addr))
    : Exec.Safe keeps symbols (LinksIn R) (env.outlinksWith run s computeFeatures) := by
  unfold outlinksWith
  split
  . exact .pure fun _ => by simp [LinksIn]
  split
  . exact .throw _
  split
  . next plugin hfind =>
    apply (Exec.Safe.restore hs).bind
    intro _ _ hle _
    exact (hplugins plugin (List.mem_of_find?_eq_some hfind)).mono hle
  . split
    . exact .throw _
    . next addrs haddrs =>
      exact .filterMapM (fun addr haddr => hclauses _ addrs haddrs addr haddr)
        fun hlink hle => hR hlink hle

include hplugins

theorem safe_outlinksWith (computeFeatures : Bool)
    : Exec.Safe keeps symbols (LinksFormed keeps) (env.outlinksWith run s computeFeatures) :=
  safe_outlinksWith_of hs (fun hs' hle => hs'.mono hle)
    (fun plugin hplugin => hplugins plugin hplugin run s computeFeatures hrun hs)
    fun _ _ _ addr _ => safe_clauseOutlink hrun hs computeFeatures addr

theorem safe_expand : Exec.Safe keeps symbols (LinksFormed keeps) (env.expand run s) := by
  unfold expand
  split
  . apply (Exec.Safe.restore hs).bind
    intro _ _ _ _
    apply (hrun none true).bind
    intro features _ _ _
    apply Exec.Safe.save.bind
    intro after _ _ hafter
    apply Exec.Safe.pure
    intro _ hle link hlink
    rw [List.mem_singleton.mp hlink]
    exact hafter.mono hle
  . exact safe_outlinksWith hplugins hrun hs true

end Clause

omit hrun in
theorem safe_visit {successors : State → Exec (List Outlink)}
    (hsuccessors : ∀ {symbols : SymbolTable} {s : State}, s.WellFormed keeps symbols →
      Exec.Safe keeps symbols (LinksFormed keeps) (successors s))
    (limit levels : Nat) (hs : s.WellFormed keeps symbols) (found : List Goal)
    : Exec.Safe keeps symbols Exec.Any (visit successors limit levels s found) := by
  induction levels generalizing symbols s found with
  | zero =>
    unfold visit
    split
    . exact .pure fun _ => trivial
    . exact .throw _
  | succ levels ih =>
    unfold visit
    split
    . exact .pure fun _ => trivial
    . apply (hsuccessors hs).bind
      intro links symbols' _ hlinks
      exact .foldlM (fun found link hlink => ih (hlinks link hlink) found) _

include hplugins

theorem safe_gatherWith (addr : Nat) : Exec.Safe keeps symbols Exec.Any (env.gatherWith run addr) := by
  rw [gatherWith_eq_visit]
  apply Exec.Safe.get.bind
  intro m symbols' _ hm
  refine (Exec.Safe.modify ?_ ?_).bind ?_
  . intro _
    rfl
  . intro m' hm'
    exact hm'.clearCalls
  intro _ _ hle _
  apply (hrun (some addr) true).bind
  intro report _ hle' _
  apply Exec.Safe.save.bind
  intro start _ hle'' hstart
  exact (safe_visit (safe_expand hplugins hrun) _ _ hstart _).resetTo
    (hm.mono (Interner.le_trans hle (Interner.le_trans hle' hle'')))

end Runner

variable {env : Environment} (hplugins : ∀ plugin ∈ env.plugins, plugin.Safe keeps)
  (hkeeps : keeps → env.program.KeepsRegisters) {symbols : SymbolTable}
include hplugins hkeeps

theorem safe_gather (nesting addr : Nat) : Exec.Safe keeps symbols Exec.Any (env.gather nesting addr) := by
  induction nesting generalizing symbols addr with
  | zero => exact .throw _
  | succ nesting ih =>
    exact safe_gatherWith hplugins (fun start _ => HornMachine.safe_run ih hkeeps start) addr

theorem safe_run (start : Option Nat) (computeFeatures : Bool)
    : Exec.Safe keeps symbols Exec.Any (env.run start computeFeatures) :=
  HornMachine.safe_run (safe_gather hplugins hkeeps env.nesting) hkeeps start

theorem safe_execute {instr : Instruction} (hinstr : keeps → instr.keepsRegisters = true)
    (computeFeatures : Bool) : Exec.Safe keeps symbols Exec.Any (env.execute instr computeFeatures) :=
  HornMachine.safe_execute (safe_gather hplugins hkeeps env.nesting) hinstr

theorem safe_outlinks {s : State} (hs : s.WellFormed keeps symbols) (computeFeatures : Bool)
    : Exec.Safe keeps symbols (LinksFormed keeps) (env.outlinks s computeFeatures) :=
  safe_outlinksWith hplugins (safe_run hplugins hkeeps) hs computeFeatures

omit hplugins hkeeps in
theorem safe_answerCall (found : List Goal) : Exec.Safe keeps symbols Exec.Any (answerCall found) := by
  apply Exec.Safe.save.bind
  intro s _ _ _
  split
  . exact .pure fun _ => trivial
  . apply (Exec.Safe.read Machine.waitingGoal).bind
    intro goal _ _ _
    exact (Exec.Safe.onState fun _ hs => hs.leave).bind fun _ _ => .pure fun _ => trivial

theorem safe_pendingWithin (rounds : Nat) (found : List Goal)
    : Exec.Safe keeps symbols Exec.Any (env.pendingWithin rounds found) := by
  induction rounds generalizing symbols found with
  | zero => exact .pure fun _ => trivial
  | succ rounds ih =>
    apply (safe_answerCall found).bind
    intro found _ _ _
    apply (safe_run hplugins hkeeps none false).bind
    intro _ _ _ _
    apply Exec.Safe.save.bind
    intro s _ _ _
    split
    . exact .pure fun _ => trivial
    . exact ih found

theorem safe_pendingGoals {s : State} (hs : s.WellFormed keeps symbols)
    : Exec.Safe keeps symbols Exec.Any (env.pendingGoals s) := by
  rw [pendingGoals_eq]
  apply Exec.Safe.get.bind
  intro m _ hle hm
  apply Exec.Safe.resetTo _ hm
  apply (Exec.Safe.restore (hs.mono hle)).bind
  intro _ _ _ _
  apply (safe_pendingWithin hplugins hkeeps _ []).bind
  intro goals _ _ _
  cases goals with
  | some goals => exact .pure fun _ => trivial
  | none => exact .throw _

end Environment

theorem safe_setArgument {symbols : SymbolTable} (arity index : Nat) (name : String)
    : Exec.Safe keeps symbols Exec.Any (Exec.setArgument arity index name) := by
  rw [Exec.setArgument_eq]
  apply Exec.Safe.update
  intro m m' hs h
  rcases Machine.narrows_of_setArgument h with ⟨hle, heap, hnarrows, heq⟩
  rw [heq]
  exact ⟨hle, (hs.mono hle).narrow m.state.failed hnarrows⟩

namespace FactTable

variable {symbols : SymbolTable}

theorem safe_bindRow (arity index : Nat) (row : List String)
    : Exec.Safe keeps symbols Exec.Any (bindRow arity index row) := by
  induction row generalizing symbols index with
  | nil => exact .pure fun _ => trivial
  | cons value row ih =>
    apply (Exec.Safe.read (·.constantArgument arity index)).bind
    intro bound _ _ _
    cases bound with
    | some bound =>
      show Exec.Safe keeps _ _ (if bound = value then _ else _)
      split
      . exact ih _
      . exact .pure fun _ => trivial
    | none =>
      apply (safe_setArgument arity index value).bind
      intro _ _ _ _
      exact ih _

theorem safe_answer {run : Runner} {s : State}
    (hrun : ∀ {symbols : SymbolTable} (start : Option Nat) (computeFeatures : Bool),
      Exec.Safe keeps symbols Exec.Any (run start computeFeatures))
    (hs : s.WellFormed keeps symbols) (label : String) (computeFeatures : Bool) (row : List String)
    : Exec.Safe keeps symbols (LinkIn (Exec.Formed keeps)) (answer run s label computeFeatures row) := by
  apply (Exec.Safe.restore hs).bind
  intro _ _ _ _
  apply (safe_bindRow _ _ row).bind
  intro agrees _ _ _
  cases agrees with
  | false => exact Exec.safe_none
  | true =>
    apply (Exec.Safe.onState fun _ hs => hs.leave).bind
    intro _ _ _ _
    apply (hrun none computeFeatures).bind
    intro _ _ _ _
    apply Exec.Safe.save.bind
    intro after _ _ hafter
    cases computeFeatures with
    | false => exact Exec.safe_some hafter
    | true =>
      show Exec.Safe keeps _ _ (if after.failed then _ else _)
      split
      . exact Exec.safe_none
      . exact Exec.safe_some hafter

theorem safe_outlinks_of {R : SymbolTable → State → Prop} {run : Runner} {s : State}
    {computeFeatures : Bool}
    (hR : ∀ {symbols symbols' s}, R symbols s → symbols ≤ symbols' → R symbols' s)
    (hanswer : ∀ label row, Exec.Safe keeps symbols (LinkIn R) (answer run s label computeFeatures row))
    (table : FactTable) : Exec.Safe keeps symbols (LinksIn R) (table.outlinks run s computeFeatures) := by
  unfold outlinks
  split
  . exact .pure fun _ => by simp [LinksIn]
  . next label _ =>
    split
    . exact .pure fun _ => by simp [LinksIn]
    . apply (Exec.Safe.read fun _ => Signature.ofLabel? label).bind
      intro sig _ hle _
      exact .filterMapM (fun row _ => (hanswer label row).mono hle) fun hlink hle => hR hlink hle

theorem safe_plugin (table : FactTable) : table.plugin.Safe keeps :=
  fun _ _ computeFeatures hrun hs => safe_outlinks_of (fun hs' hle => hs'.mono hle)
    (fun label row => safe_answer hrun hs label computeFeatures row) table

end FactTable

theorem safe_tables {env : Environment} {tables : List FactTable}
    (hplugins : env.plugins = tables.map FactTable.plugin)
    : ∀ plugin ∈ env.plugins, plugin.Safe keeps := by
  intro plugin hplugin
  rw [hplugins, List.mem_map] at hplugin
  rcases hplugin with ⟨table, _, rfl⟩
  exact table.safe_plugin

end HornMachine
