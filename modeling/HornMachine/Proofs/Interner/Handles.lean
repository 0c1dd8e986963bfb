import HornMachine.Interner.Shared
import HornMachine.Proofs.Interner.History

/-!
This module contains what is seen through the handles of symbol tables. Handles that come from one another by
cloning see one table, which has what was interned through any of them and nothing else.
-/

namespace HornMachine

namespace SymbolStore

inductive Question where
  | lookup (name : String)
  | hasId (name : String)
  | symbolOf (id : Nat)
  | size
  | isEmpty

inductive Use where
  | intern (handle : Nat) (name : String)
  | ask (handle : Nat) (question : Question)
  | clone (handle : Nat)
  | create

inductive Reply where
  | id (id : Nat)
  | id? (id? : Option Nat)
  | symbol? (name? : Option String)
  | size (size : Nat)
  | flag (value : Bool)
  | handle (handle : Nat)

namespace Question

def reply (table : SymbolTable) : Question → Reply
  | lookup name => .id? (table.lookup? name)
  | hasId name => .flag (table.lookup? name).isSome
  | symbolOf id => .symbol? (table.get? id)
  | size => .size table.size
  | isEmpty => .flag (table.size == 0)

/--
The answer that follows from the distinct names that were interned, in the order in which they first came.
-/
def replyAmong (names : List String) : Question → Reply
  | lookup name => .id? (if name ∈ names then some (names.idxOf name) else none)
  | hasId name => .flag (name ∈ names)
  | symbolOf id => .symbol? names[id]?
  | size => .size names.length
  | isEmpty => .flag names.isEmpty

end Question

def use (store : SymbolStore) : Use → Except Fault Reply × SymbolStore
  | .intern handle name =>
    match store.intern handle name with
    | .ok (id, store) => (.ok (.id id), store)
    | .error fault => (.error fault, store)
  | .ask handle question => (.ok (question.reply (store.table handle)), store)
  | .clone handle => (.ok (.handle store.handles.size), store.share handle)
  | .create => (.ok (.handle store.handles.size), store.fresh)

def after (uses : List Use) : SymbolStore :=
  uses.foldl (fun store use => (store.use use).2) {}

namespace Use

/--
For each handle the one that it comes from by cloning, which came with a table of its own. Handles are numbered
in the order in which they were made.
-/
def origins (known : List Nat) : Use → List Nat
  | clone handle => known ++ known[handle]?.toList
  | create => known ++ [known.length]
  | _ => known

def names (known : List Nat) (origin : Nat) : Use → List String
  | intern handle name => if known[handle]? = some origin then [name] else []
  | _ => []

end Use

def originsAfter (uses : List Use) : List Nat :=
  uses.foldl Use.origins [0]

def internedFrom (origin : Nat) : List Nat → List Use → List String
  | _, [] => []
  | known, use :: uses => use.names known origin ++ internedFrom origin (use.origins known) uses

open Interner (added)

variable {store : SymbolStore} {handle i : Nat} {table : SymbolTable}

theorem table_eq (hi : store.handles[handle]? = some i) (htable : store.tables[i]? = some table)
    : store.table handle = table := by
  unfold SymbolStore.table
  rw [hi]
  simp only [htable, Option.getD_some]

theorem setTable_eq (hi : store.handles[handle]? = some i) (table : SymbolTable)
    : store.setTable handle table = { store with tables := store.tables.setIfInBounds i table } := by
  unfold setTable
  rw [hi]

theorem setTable_self (hi : store.handles[handle]? = some i) (htable : store.tables[i]? = some table)
    : store.setTable handle table = store := by
  rcases store with ⟨tables, handles⟩
  rcases Array.getElem?_eq_some_iff.mp htable with ⟨hlt, rfl⟩
  rw [setTable_eq hi, mk.injEq]
  refine ⟨?_, rfl⟩
  simp only [Array.setIfInBounds, hlt, ↓reduceDIte]
  exact Array.set_getElem_self hlt

theorem use_intern (hi : store.handles[handle]? = some i) (htable : store.tables[i]? = some table)
    (name : String)
    : store.use (.intern handle name) =
      (Reply.id <$> (added name table).1, store.setTable handle (added name table).2) := by
  rw [use, intern, table_eq hi htable, Interner.intern, added]
  rcases Option.eq_none_or_eq_some (table.lookup? name) with hnew | ⟨id, hid⟩
  . by_cases hlt : table.size < 2 ^ 32
    . rw [Interner.add_new hnew hlt]
      rfl
    . rw [Interner.add_full hnew (Nat.le_of_not_lt hlt)]
      simp only [setTable_self hi htable]
      rfl
  . rw [Interner.add_old hid]
    rfl

theorem use_unknown (h : store.handles[handle]? = none) (name : String)
    : (store.use (.intern handle name)).2 = store := by
  have hset : ∀ table, store.setTable handle table = store := by
    intro table
    unfold setTable
    rw [h]
  rw [use, intern]
  cases (store.table handle).intern name with
  | ok answer => exact hset answer.2
  | error fault => rfl

/--
Each origin has a table with a number of its own, to which the handles of the origin lead. The table has the
names in the log of the origin.
-/
structure Follows (store : SymbolStore) (known : List Nat) (log : Nat → List String) (number : Nat → Nat) :
    Prop where
  handles_eq : store.handles.toList = known.map number
  tables : ∀ origin ∈ known, ∃ table : SymbolTable, store.tables[number origin]? = some table ∧
    table.Holds (log origin)
  apart : Set.InjOn number {origin | origin ∈ known}
  lt : ∀ origin ∈ known, origin < known.length
  unused : ∀ origin, known.length ≤ origin → log origin = []

namespace Follows

variable {known : List Nat} {log : Nat → List String} {number : Nat → Nat}

theorem getElem?_handles (h : store.Follows known log number) (handle : Nat)
    : store.handles[handle]? = known[handle]?.map number := by
  rw [← Array.getElem?_toList, h.handles_eq, List.getElem?_map]

theorem exists_table {origin : Nat} (h : store.Follows known log number)
    (hknown : known[handle]? = some origin)
    : ∃ table : SymbolTable, store.handles[handle]? = some (number origin) ∧
        store.tables[number origin]? = some table ∧ store.table handle = table ∧ table.Holds (log origin) := by
  have hi := h.getElem?_handles handle
  rw [hknown, Option.map_some] at hi
  rcases h.tables origin (List.mem_of_getElem? hknown) with ⟨table, htable, hholds⟩
  exact ⟨table, hi, htable, table_eq hi htable, hholds⟩

theorem congr {log' : Nat → List String} (h : store.Follows known log number)
    (hlog : ∀ origin, log' origin = log origin) : store.Follows known log' number := by
  rwa [funext hlog]

theorem intern (h : store.Follows known log number) (handle : Nat) (name : String)
    : (store.use (.intern handle name)).2.Follows known
        (fun origin => log origin ++ Use.names known origin (.intern handle name)) number := by
  rcases hknown : known[handle]? with _ | origin
  . have hi : store.handles[handle]? = none := by
      rw [h.getElem?_handles, hknown, Option.map_none]
    rw [use_unknown hi]
    exact h.congr fun origin => by simp [Use.names, hknown]
  . have horigin := List.mem_of_getElem? hknown
    rcases h.exists_table hknown with ⟨table, hi, htable, _, hholds⟩
    have hlt : number origin < store.tables.size := (Array.getElem?_eq_some_iff.mp htable).1
    rw [use_intern hi htable, setTable_eq hi]
    constructor
    . exact h.handles_eq
    . intro origin' horigin'
      by_cases heq : origin = origin'
      . subst heq
        refine ⟨(added name table).2, by simp [hlt], ?_⟩
        simpa [Use.names, hknown] using (hholds.added name).2
      . have hne : number origin ≠ number origin' := fun hnumber => heq (h.apart horigin horigin' hnumber)
        rcases h.tables origin' horigin' with ⟨table', htable', hholds'⟩
        refine ⟨table', ?_, ?_⟩
        . simpa [Array.getElem?_setIfInBounds_ne hne] using htable'
        . simpa [Use.names, hknown, heq] using hholds'
    . exact h.apart
    . exact h.lt
    . intro origin' hge
      have hne : origin ≠ origin' := by
        have := h.lt origin horigin
        omega
      simp [h.unused origin' hge, Use.names, hknown, hne]

theorem clone (h : store.Follows known log number) (handle : Nat)
    : (store.use (.clone handle)).2.Follows (Use.origins known (.clone handle)) log number := by
  show (store.share handle).Follows (known ++ known[handle]?.toList) log number
  unfold share
  rw [h.getElem?_handles]
  rcases hknown : known[handle]? with _ | origin
  . simpa using h
  . have horigin := List.mem_of_getElem? hknown
    have hmem : ∀ origin', origin' ∈ known ++ [origin] ↔ origin' ∈ known := by
      intro origin'
      simp only [List.mem_append, List.mem_singleton, or_iff_left_iff_imp]
      rintro rfl
      exact horigin
    constructor
    . simp [h.handles_eq]
    . intro origin' horigin'
      exact h.tables origin' ((hmem origin').mp horigin')
    . simpa only [Option.toList_some, hmem] using h.apart
    . intro origin' horigin'
      have := h.lt origin' ((hmem origin').mp horigin')
      simp only [Option.toList_some, List.length_append, List.length_singleton]
      omega
    . intro origin' hge
      simp only [Option.toList_some, List.length_append, List.length_singleton] at hge
      exact h.unused origin' (by omega)

theorem create (h : store.Follows known log number)
    : (store.use .create).2.Follows (Use.origins known .create) log
        (Function.update number known.length store.tables.size) := by
  show store.fresh.Follows (known ++ [known.length]) log _
  -- the new table has a number behind those of all tables that are known
  have hold : ∀ origin ∈ known, Function.update number known.length store.tables.size origin =
      number origin ∧ number origin < store.tables.size := by
    intro origin horigin
    rcases h.tables origin horigin with ⟨table, htable, _⟩
    refine ⟨Function.update_of_ne ?_ _ _, (Array.getElem?_eq_some_iff.mp htable).1⟩
    have := h.lt origin horigin
    omega
  constructor
  . have hmap : known.map (Function.update number known.length store.tables.size) = known.map number :=
      List.map_congr_left fun origin horigin => (hold origin horigin).1
    simp [fresh, h.handles_eq, hmap]
  . intro origin horigin
    rcases List.mem_append.mp horigin with horigin | horigin
    . rcases h.tables origin horigin with ⟨table, htable, hholds⟩
      refine ⟨table, ?_, hholds⟩
      rw [(hold origin horigin).1, fresh, Array.getElem?_push, if_neg (Nat.ne_of_lt (hold origin horigin).2),
        htable]
    . rw [List.mem_singleton.mp horigin, h.unused _ (Nat.le_refl _)]
      exact ⟨.empty, by simp [fresh], Interner.holds_nil⟩
  . intro origin horigin origin' horigin' heq
    rcases List.mem_append.mp horigin with horigin | horigin <;>
      rcases List.mem_append.mp horigin' with horigin' | horigin'
    . rw [(hold origin horigin).1, (hold origin' horigin').1] at heq
      exact h.apart horigin horigin' heq
    . rw [(hold origin horigin).1, List.mem_singleton.mp horigin', Function.update_self] at heq
      exact absurd heq (Nat.ne_of_lt (hold origin horigin).2)
    . rw [(hold origin' horigin').1, List.mem_singleton.mp horigin, Function.update_self] at heq
      exact absurd heq.symm (Nat.ne_of_lt (hold origin' horigin').2)
    . rw [List.mem_singleton.mp horigin, List.mem_singleton.mp horigin']
  . intro origin horigin
    rw [List.length_append, List.length_singleton]
    rcases List.mem_append.mp horigin with horigin | horigin
    . have := h.lt origin horigin
      omega
    . rw [List.mem_singleton.mp horigin]
      omega
  . intro origin hge
    rw [List.length_append, List.length_singleton] at hge
    exact h.unused origin (by omega)

theorem use (h : store.Follows known log number) (use : Use)
    : ∃ number', (store.use use).2.Follows (use.origins known)
        (fun origin => log origin ++ use.names known origin) number' := by
  have hsame : ∀ origin, log origin ++ [] = log origin := fun origin => List.append_nil _
  cases use with
  | intern handle name => exact ⟨number, h.intern handle name⟩
  | ask handle question => exact ⟨number, h.congr hsame⟩
  | clone handle => exact ⟨number, (h.clone handle).congr hsame⟩
  | create => exact ⟨_, h.create.congr hsame⟩

theorem foldl (h : store.Follows known log number) (uses : List Use)
    : ∃ number', (uses.foldl (fun store use => (store.use use).2) store).Follows
        (uses.foldl Use.origins known) (fun origin => log origin ++ internedFrom origin known uses)
        number' := by
  induction uses generalizing store known log number with
  | nil => exact ⟨number, h.congr fun origin => List.append_nil _⟩
  | cons use uses ih =>
    rcases h.use use with ⟨number', h'⟩
    rcases ih h' with ⟨number'', h''⟩
    refine ⟨number'', h''.congr fun origin => ?_⟩
    rw [internedFrom, List.append_assoc]

end Follows

theorem after_follows (uses : List Use)
    : ∃ number,
        (after uses).Follows (originsAfter uses) (fun origin => internedFrom origin [0] uses) number := by
  have hstart : ({} : SymbolStore).Follows [0] (fun _ => []) id := by
    constructor
    . rfl
    . intro origin horigin
      rw [List.mem_singleton.mp horigin]
      exact ⟨.empty, rfl, Interner.holds_nil⟩
    . exact Set.injOn_id _
    . simp
    . intro origin _
      rfl
  rcases hstart.foldl uses with ⟨number, h⟩
  exact ⟨number, h.congr fun origin => (List.nil_append _).symm⟩

theorem internedFrom_append (origin : Nat) (known : List Nat) (uses more : List Use)
    : internedFrom origin known (uses ++ more) =
      internedFrom origin known uses ++ internedFrom origin (uses.foldl Use.origins known) more := by
  induction uses generalizing known with
  | nil => rfl
  | cons use uses ih =>
    rw [List.cons_append, internedFrom, internedFrom, ih, List.foldl_cons, List.append_assoc]

theorem prefix_origins (known : List Nat) (uses : List Use) : known <+: uses.foldl Use.origins known := by
  induction uses generalizing known with
  | nil => exact List.prefix_refl _
  | cons use uses ih =>
    apply List.IsPrefix.trans _ (ih _)
    cases use with
    | intern handle name => exact List.prefix_refl _
    | ask handle question => exact List.prefix_refl _
    | clone handle => exact List.prefix_append _ _
    | create => exact List.prefix_append _ _

theorem getElem?_foldl_origins {known : List Nat} {origin : Nat} (uses : List Use)
    (h : known[handle]? = some origin) : (uses.foldl Use.origins known)[handle]? = some origin := by
  rcases prefix_origins known uses with ⟨rest, hrest⟩
  rw [← hrest, List.getElem?_append_left (List.getElem?_eq_some_iff.mp h).1, h]

theorem reply_eq {names : List String} (h : table.Holds names) (question : Question)
    : question.reply table = question.replyAmong (Interner.kept 32 names) := by
  have hlookup : ∀ name, table.lookup? name = if name ∈ Interner.kept 32 names then
      some ((Interner.kept 32 names).idxOf name) else none := by
    intro name
    split
    . next hname => rw [Interner.lookup?_of_mem (h ▸ hname), h]
    . next hname => exact h.lookup?_eq_none_iff.mpr hname
  cases question with
  | lookup name => rw [Question.reply, hlookup, Question.replyAmong]
  | hasId name =>
    rw [Question.reply, hlookup, Question.replyAmong]
    split
    . next hname => simp [hname]
    . next hname => simp [hname]
  | symbolOf id => rw [Question.reply, h.records.get?_eq, Question.replyAmong]
  | size => rw [Question.reply, h.size_eq, Question.replyAmong]
  | isEmpty =>
    rw [Question.reply, h.size_eq, Question.replyAmong]
    cases Interner.kept 32 names with
    | nil => rfl
    | cons name names => rfl

structure Shows (store : SymbolStore) (handle : Nat) (names : List String) : Prop where
  records : (store.table handle).Records names
  ask : ∀ question, store.use (.ask handle question) =
    (.ok (question.replyAmong (Interner.kept 32 names)), store)
  intern : ∀ name, (store.use (.intern handle name)).1 =
    Reply.id <$> Interner.idAmong 32 (names ++ [name]) name
  intern_same : ∀ name, name ∈ Interner.kept 32 names ∨ 2 ^ 32 ≤ (Interner.kept 32 names).length →
    (store.use (.intern handle name)).2 = store

namespace Follows

variable {known : List Nat} {log : Nat → List String} {number : Nat → Nat} {origin : Nat}

theorem holds (h : store.Follows known log number) (hknown : known[handle]? = some origin)
    : (store.table handle).Holds (log origin) := by
  rcases h.exists_table hknown with ⟨table, _, _, rfl, hholds⟩
  exact hholds

theorem shows (h : store.Follows known log number) (hknown : known[handle]? = some origin)
    : store.Shows handle (log origin) := by
  rcases h.exists_table hknown with ⟨table, hi, htable, hseen, hholds⟩
  constructor
  . rw [hseen]
    exact hholds.records
  . intro question
    rw [SymbolStore.use, hseen, reply_eq hholds]
  . intro name
    rw [use_intern hi htable, (hholds.added name).1]
  . intro name hname
    have hsame : (added name table).2 = table := by
      rw [added]
      rcases Option.eq_none_or_eq_some (table.lookup? name) with hnew | ⟨id, hid⟩
      . have hfull := hname.resolve_left (hholds.lookup?_eq_none_iff.mp hnew)
        rw [Interner.add_full hnew (hholds.size_eq ▸ hfull)]
      . rw [Interner.add_old hid]
    rw [use_intern hi htable, hsame]
    exact setTable_self hi htable

end Follows

/--
Texts and ids belong to each other one to one at every point of any history of an interner, and of the symbol
table behind any handle, whose history is that of all handles that come from the same one by cloning.
-/
theorem interning_history
    : (∀ (width : Nat) (texts : List String),
        (Interner.addEach texts (.empty : Interner width)).1 = texts.map (Interner.idAmong width texts) ∧
        (Interner.addEach texts (.empty : Interner width)).2.Records texts ∧
        ∀ (more : List String) (s : String) (id : Nat),
          (Interner.addEach texts (.empty : Interner width)).2.lookup? s = some id →
          (Interner.addEach (texts ++ more) (.empty : Interner width)).2.lookup? s = some id ∧
            (Interner.addEach (texts ++ more) (.empty : Interner width)).2.get? id = some s) ∧
      ∀ (uses : List Use) (handle origin : Nat), (originsAfter uses)[handle]? = some origin →
        (after uses).Shows handle (internedFrom origin [0] uses) ∧
        ((after uses).use (.clone handle)).1 = .ok (.handle (originsAfter uses).length) ∧
        (∀ clone : Nat, (originsAfter uses)[clone]? = some origin →
          (after uses).table clone = (after uses).table handle) ∧
        ∀ (more : List Use) (s : String) (id : Nat), ((after uses).table handle).lookup? s = some id →
          ((after (uses ++ more)).table handle).lookup? s = some id ∧
            ((after (uses ++ more)).table handle).get? id = some s := by
  have hlater : ∀ {width : Nat} {table table' : Interner width} {s : String} {id : Nat}, table ≤ table' →
      table.lookup? s = some id → table'.lookup? s = some id ∧ table'.get? id = some s := by
    intro width table table' s id hle hid
    have hget := hle id s (Interner.lookup?_eq_some.mp hid)
    exact ⟨Interner.lookup?_eq_some.mpr hget, hget⟩
  constructor
  . intro width texts
    have hempty : (.empty : Interner width).Holds [] := Interner.holds_nil
    have hstart := hempty.addEach
    refine ⟨(hstart texts).1, (hstart texts).2.records, fun more s id => hlater ?_⟩
    exact (hstart texts).2.mono (hstart (texts ++ more)).2
  . intro uses handle origin horigin
    rcases after_follows uses with ⟨number, h⟩
    refine ⟨h.shows horigin, ?_, ?_, fun more s id => hlater ?_⟩
    . have hsize := congrArg List.length h.handles_eq
      rw [Array.length_toList, List.length_map] at hsize
      rw [use, hsize]
    . intro clone hclone
      rw [table, table, h.getElem?_handles, h.getElem?_handles, hclone, horigin]
    . rcases after_follows (uses ++ more) with ⟨number', h'⟩
      have horigin' : (originsAfter (uses ++ more))[handle]? = some origin := by
        rw [originsAfter, List.foldl_append]
        exact getElem?_foldl_origins more horigin
      have hholds' := h'.holds horigin'
      rw [internedFrom_append] at hholds'
      exact (h.holds horigin).mono hholds'

theorem interning_history_sample
    : ∃ store, after [.intern 0 "tom", .clone 0, .intern 1 "ann", .create, .intern 2 "ann"] = store ∧
        (store.use (.ask 0 (.lookup "ann"))).1 = .ok (.id? (some 1)) ∧
        (store.use (.ask 2 (.lookup "ann"))).1 = .ok (.id? (some 0)) ∧
        (store.use (.ask 2 (.hasId "tom"))).1 = .ok (.flag false) ∧
        store.table 1 = store.table 0 := by
  refine ⟨_, rfl, ?_⟩
  have hall := interning_history.2 [.intern 0 "tom", .clone 0, .intern 1 "ann", .create, .intern 2 "ann"]
  have hshared := hall 0 0 rfl
  have hapart := hall 2 2 rfl
  refine ⟨?_, ?_, ?_, hshared.2.2.1 1 rfl⟩
  . rw [hshared.1.ask]
    rfl
  . rw [hapart.1.ask]
    rfl
  . rw [hapart.1.ask]
    rfl

end SymbolStore

end HornMachine
