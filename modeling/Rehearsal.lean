import Rehearsal.Bench.Basic
import Rehearsal.Bench.Handling
import Rehearsal.Bench.Planner
import Rehearsal.Bench.Queue
import Rehearsal.Bench.Selection
import Rehearsal.Bench.StandIn
import Rehearsal.Bench.Tester
import Rehearsal.Bench.World
import Rehearsal.Cli.Arguments
import Rehearsal.Cli.Output
import Rehearsal.Cli.Request
import Rehearsal.Cli.Run
import Rehearsal.Cli.Symbol
import Rehearsal.Decimal.Binary
import Rehearsal.Decimal.Reader
import Rehearsal.Decimal.Rounded
import Rehearsal.Decimal.Shortest
import Rehearsal.Decimal.Spelling
import Rehearsal.Diff.Matching
import Rehearsal.Diff.Unified
import Rehearsal.Effect.Build
import Rehearsal.Effect.Check
import Rehearsal.Engine.Coroutine
import Rehearsal.Engine.Interpret
import Rehearsal.Engine.Machine
import Rehearsal.Engine.Run
import Rehearsal.Engine.Settle
import Rehearsal.Engine.Step
import Rehearsal.Engine.World
import Rehearsal.Expect.Actions
import Rehearsal.Expect.Calls
import Rehearsal.Expect.Matching
import Rehearsal.Expect.Report
import Rehearsal.Failure
import Rehearsal.Handler.Linearization
import Rehearsal.Json.Basic
import Rehearsal.Json.Reader
import Rehearsal.Main
import Rehearsal.Options
import Rehearsal.Script.Construct
import Rehearsal.Script.Eval
import Rehearsal.Script.Memory
import Rehearsal.Script.Reader
import Rehearsal.Script.Syntax
import Rehearsal.Script.Writer
import Rehearsal.Task.Basic
import Rehearsal.Task.Batch
import Rehearsal.Task.Cancellation
import Rehearsal.Task.Dump
import Rehearsal.Task.Pending
import Rehearsal.Task.Registry
import Rehearsal.Task.Wait
import Rehearsal.Text.Lines
import Rehearsal.Text.Printable
import Rehearsal.Text.Quoted
import Rehearsal.Text.Template
import Rehearsal.Value.Access
import Rehearsal.Value.Arithmetic
import Rehearsal.Value.Basic
import Rehearsal.Value.Conversion
import Rehearsal.Value.Equality
import Rehearsal.Value.ErrorClass
import Rehearsal.Value.Filling
import Rehearsal.Value.Layout
import Rehearsal.Value.LongNumber
import Rehearsal.Value.Number
import Rehearsal.Value.Order
import Rehearsal.Value.Render
import Rehearsal.Value.Renewal
import Rehearsal.Value.Sorting
import Rehearsal.Value.TypeCall
import Rehearsal.Proofs.Task.Forest
import Rehearsal.Proofs.Engine.Nesting
import Rehearsal.Proofs.Task.Standing
import Rehearsal.Proofs.Engine.Core
import Rehearsal.Proofs.Engine.Sound
import Rehearsal.Proofs.Engine.Ending
import Rehearsal.Proofs.Engine.Propagation
import Rehearsal.Proofs.Engine.Resuming
import Rehearsal.Proofs.Engine.Starting
import Rehearsal.Proofs.Task.Slots
import Rehearsal.Proofs.Engine.Interpreting
import Rehearsal.Proofs.Engine.Composites
import Rehearsal.Proofs.Engine.Settling
import Rehearsal.Proofs.Engine.Rounds
import Rehearsal.Proofs.Engine.Reachable
import Rehearsal.Proofs.Engine.WakeUp
import Rehearsal.Proofs.Engine.Structure
import Rehearsal.Proofs.Engine.Footprint
import Rehearsal.Proofs.Engine.Delivery
import Rehearsal.Proofs.Engine.LettingGo
import Rehearsal.Proofs.Engine.Amends
import Rehearsal.Proofs.Engine.GivingUp
import Rehearsal.Proofs.Engine.Deadlock
import Rehearsal.Proofs.Engine.Turns
import Rehearsal.Proofs.Engine.Lineage
import Rehearsal.Proofs.Engine.Tending
import Rehearsal.Proofs.Engine.Failing
import Rehearsal.Proofs.Engine.Regular
import Rehearsal.Proofs.Engine.Stems
import Rehearsal.Proofs.Engine.Containment
import Rehearsal.Proofs.Engine.Once
import Rehearsal.Proofs.Engine.Counting
import Rehearsal.Proofs.Engine.Relaying
import Rehearsal.Proofs.Engine.Surfacing
import Rehearsal.Proofs.Bench.Candor
import Rehearsal.Proofs.Bench.Keeping
import Rehearsal.Proofs.Engine.Termination
import Rehearsal.Proofs.Engine.Resting
import Rehearsal.Proofs.Engine.Deferring
import Rehearsal.Proofs.Engine.Ceiling
import Rehearsal.Proofs.Engine.Halting
import Rehearsal.Proofs.Engine.Refusing
import Rehearsal.Proofs.Expect.Asking
import Rehearsal.Proofs.Engine.Finishing
import Rehearsal.Proofs.Engine.Finality
import Rehearsal.Proofs.Engine.Awaiting
import Rehearsal.Proofs.Task.Results
import Rehearsal.Proofs.Engine.Gathering
import Rehearsal.Proofs.Engine.Collecting
import Rehearsal.Proofs.Engine.Coroutines
import Rehearsal.Proofs.Engine.Eagerness
import Rehearsal.Proofs.Engine.Lifetimes
import Rehearsal.Proofs.Engine.Dialogue
import Rehearsal.Proofs.Engine.Retiming
import Rehearsal.Proofs.Engine.Lockstep
import Rehearsal.Proofs.Bench.Looking
import Rehearsal.Proofs.Bench.Delegating
import Rehearsal.Proofs.Engine.Lingering
import Rehearsal.Proofs.Engine.Origins
import Rehearsal.Proofs.Engine.Leaving
import Rehearsal.Proofs.Expect.Tally
import Rehearsal.Proofs.Expect.Unmet
import Rehearsal.Proofs.Expect.Patterns
import Rehearsal.Proofs.Engine.Interpreted
import Rehearsal.Proofs.Bench.Deferral
import Rehearsal.Proofs.Bench.Timing
import Rehearsal.Proofs.Bench.Waiting
import Rehearsal.Proofs.Bench.Verdict
import Rehearsal.Proofs.Bench.Conservation
import Rehearsal.Proofs.Bench.Acceptance
import Rehearsal.Proofs.Engine.Independence
import Rehearsal.Proofs.Task.Subtree
import Rehearsal.Proofs.Engine.Cancelling
import Rehearsal.Proofs.Engine.ActingFor
import Rehearsal.Proofs.Task.Order
import Rehearsal.Proofs.Task.Batches
import Rehearsal.Proofs.Engine.Errands
import Rehearsal.Proofs.Engine.Crew
import Rehearsal.Proofs.Engine.Workers
import Rehearsal.Proofs.Engine.Racers
import Rehearsal.Proofs.Engine.Racing
import Rehearsal.Proofs.Engine.Races
import Rehearsal.Proofs.Task.Selectors
import Rehearsal.Proofs.Engine.Writing
import Rehearsal.Proofs.Engine.Tracing
