import HornMachine.Program.Build
import HornMachine.Interner.Shared
import HornMachine.Goal.Feature
import HornMachine.State.Basic
import HornMachine.Machine.Argument
import HornMachine.Machine.Execute
import HornMachine.Config
import HornMachine.Machine.Run
import HornMachine.Facts
import HornMachine.Environment.Pending
import HornMachine.Machine.Group
import HornMachine.Search
import HornMachine.Main
import HornMachine.Proofs.Interner.Growth
import HornMachine.Proofs.Logic.Atom
import HornMachine.Proofs.Logic.Forest
import HornMachine.Proofs.Heap.Chain
import HornMachine.Proofs.Heap.Acyclic
import HornMachine.Proofs.Heap.Grounded
import HornMachine.Proofs.Heap.Union
import HornMachine.Proofs.Heap.Model
import HornMachine.Proofs.Heap.Unify
import HornMachine.Proofs.Heap.Narrow
import HornMachine.Proofs.Program.Block
import HornMachine.Proofs.Run.Step
import HornMachine.Proofs.Run.Union
import HornMachine.Proofs.Run.Order
import HornMachine.Proofs.Run.Scope
import HornMachine.Proofs.Run.Advance
import HornMachine.Proofs.Run.Head
import HornMachine.Proofs.Run.Arguments
import HornMachine.Proofs.Logic.Report
import HornMachine.Proofs.Run.Features
import HornMachine.Proofs.Run.Level
import HornMachine.Proofs.Run.Resume
import HornMachine.Proofs.Run.Listing
import HornMachine.Proofs.Run.Clause
import HornMachine.Proofs.Program.Compile
import HornMachine.Proofs.Environment.Visit
import HornMachine.Proofs.Environment.Runner
import HornMachine.Proofs.Environment.Outlinks
import HornMachine.Proofs.Environment.Path
import HornMachine.Proofs.Machine.Value
import HornMachine.Proofs.Machine.Faults
import HornMachine.Proofs.Environment.Room
import HornMachine.Proofs.Environment.Follow
import HornMachine.Proofs.Logic.Pattern
import HornMachine.Proofs.Run.Goals
import HornMachine.Proofs.Facts.Row
import HornMachine.Proofs.Facts.Answer
import HornMachine.Proofs.Environment.Reach
import HornMachine.Proofs.Environment.Resolution
import HornMachine.Proofs.Environment.Pending
import HornMachine.Proofs.Environment.Contract
import HornMachine.Proofs.Program.Fence
import HornMachine.Proofs.Machine.Alike
import HornMachine.Proofs.Run.Alike
import HornMachine.Proofs.Environment.Alike
import HornMachine.Proofs.Environment.Tree
import HornMachine.Proofs.Environment.Schedule
import HornMachine.Proofs.Machine.Sharing
import HornMachine.Proofs.Environment.Collect
import HornMachine.Proofs.Environment.Attribution
import HornMachine.Proofs.Program.Extend
import HornMachine.Proofs.Environment.Extend
import HornMachine.Proofs.Facts.Code
import HornMachine.Proofs.Facts.Compiled
import HornMachine.Proofs.Environment.Emit
import HornMachine.Proofs.Run.Change
import HornMachine.Proofs.Run.Trace
import HornMachine.Proofs.Run.WellFormed
import HornMachine.Proofs.Environment.WellFormed
import HornMachine.Proofs.Environment.Search
import HornMachine.Proofs.Environment.Session
import HornMachine.Proofs.Run.Modes
import HornMachine.Proofs.Run.Pieces
import HornMachine.Proofs.Environment.Modes
import HornMachine.Proofs.Run.Confined
import HornMachine.Proofs.Run.Seated
import HornMachine.Proofs.Run.Return
import HornMachine.Proofs.Environment.Return
import HornMachine.Proofs.Environment.Restore
import HornMachine.Proofs.Environment.Listing
import HornMachine.Proofs.Program.Weight
import HornMachine.Proofs.Run.Faults
import HornMachine.Proofs.Run.Pauses
import HornMachine.Proofs.Run.Load
import HornMachine.Proofs.Environment.Depth
import HornMachine.Proofs.Machine.Unreadable
import HornMachine.Proofs.Environment.Rounds
import HornMachine.Proofs.Machine.Binding
import HornMachine.Proofs.Facts.Binding
import HornMachine.Proofs.Run.Checks
import HornMachine.Proofs.Program.Registers
import HornMachine.Proofs.Program.Variant
import HornMachine.Program.Compiler
import HornMachine.Proofs.Program.Numeral
import HornMachine.Proofs.Interner.History
import HornMachine.Proofs.Interner.Handles
import HornMachine.Proofs.Program.Allotment
import HornMachine.Proofs.Program.Sequence
