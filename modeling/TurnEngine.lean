import TurnEngine.Backoff
import TurnEngine.Breaker.Basic
import TurnEngine.Breaker.Registry
import TurnEngine.Calendar.Date
import TurnEngine.Calendar.Timestamp
import TurnEngine.Clock
import TurnEngine.Conversation.Identifier
import TurnEngine.Conversation.Message
import TurnEngine.Decimal.Layout
import TurnEngine.Decimal.Reading
import TurnEngine.Decimal.Shortest
import TurnEngine.Failure.Basic
import TurnEngine.Failure.Classifier
import TurnEngine.Fallback.Chain
import TurnEngine.Fallback.Subscribers
import TurnEngine.Json.Basic
import TurnEngine.Json.Document
import TurnEngine.Json.Printer
import TurnEngine.Json.Reader
import TurnEngine.Lane.Basic
import TurnEngine.Lane.Pool
import TurnEngine.Listeners.Hub
import TurnEngine.Listeners.Switchboard
import TurnEngine.Model
import TurnEngine.Proofs.Breaker.Allowance
import TurnEngine.Proofs.Breaker.Exchange
import TurnEngine.Proofs.Breaker.Heap
import TurnEngine.Proofs.Breaker.Keys
import TurnEngine.Proofs.Breaker.Late
import TurnEngine.Proofs.Breaker.Line
import TurnEngine.Proofs.Breaker.Looks
import TurnEngine.Proofs.Breaker.Promise
import TurnEngine.Proofs.Breaker.Standing
import TurnEngine.Proofs.Breaker.Streak
import TurnEngine.Proofs.Breaker.Traffic
import TurnEngine.Proofs.Breaker.Window
import TurnEngine.Proofs.Failure.Wrapping
import TurnEngine.Proofs.Fallback.Budget
import TurnEngine.Proofs.Fallback.Exclusive
import TurnEngine.Proofs.Fallback.Interruption
import TurnEngine.Proofs.Fallback.Listeners
import TurnEngine.Proofs.Fallback.Names
import TurnEngine.Proofs.Fallback.Notices
import TurnEngine.Proofs.Fallback.Timeline
import TurnEngine.Proofs.Fallback.Tours
import TurnEngine.Proofs.Fallback.Tries
import TurnEngine.Proofs.Fallback.Visits
import TurnEngine.Proofs.Json.Tokens
import TurnEngine.Proofs.Json.Values
import TurnEngine.Proofs.Keyed
import TurnEngine.Proofs.Lane.Accounting
import TurnEngine.Proofs.Lane.Boxes
import TurnEngine.Proofs.Lane.Generations
import TurnEngine.Proofs.Lane.Log
import TurnEngine.Proofs.Lane.MirrorNamedPools
import TurnEngine.Proofs.Lane.MirrorPools
import TurnEngine.Proofs.Lane.Mirrors
import TurnEngine.Proofs.Lane.NamedPool
import TurnEngine.Proofs.Lane.Naming
import TurnEngine.Proofs.Lane.Places
import TurnEngine.Proofs.Lane.Rules
import TurnEngine.Proofs.Lane.Run
import TurnEngine.Proofs.Lane.Sound
import TurnEngine.Proofs.Lane.Stale
import TurnEngine.Proofs.Lane.Steps
import TurnEngine.Proofs.Lane.Waiting
import TurnEngine.Proofs.Listeners.Delivery
import TurnEngine.Proofs.Listeners.Depth
import TurnEngine.Proofs.Listeners.Numbers
import TurnEngine.Proofs.Listeners.Roster
import TurnEngine.Proofs.References
import TurnEngine.Proofs.Retry.Operation
import TurnEngine.Proofs.Run.Alike
import TurnEngine.Proofs.Run.Answers
import TurnEngine.Proofs.Run.Bookkeeping
import TurnEngine.Proofs.Run.CallOrder
import TurnEngine.Proofs.Run.Counting
import TurnEngine.Proofs.Run.Deaf
import TurnEngine.Proofs.Run.Hearing
import TurnEngine.Proofs.Run.Journal
import TurnEngine.Proofs.Run.Ledger
import TurnEngine.Proofs.Run.Listening
import TurnEngine.Proofs.Run.Moves
import TurnEngine.Proofs.Run.Pairing
import TurnEngine.Proofs.Run.Record
import TurnEngine.Proofs.Run.Retries
import TurnEngine.Proofs.Run.RoundTrips
import TurnEngine.Proofs.Run.Shares
import TurnEngine.Proofs.Run.Stages
import TurnEngine.Proofs.Run.Transcript
import TurnEngine.Proofs.Run.Turns
import TurnEngine.Proofs.Runner.Cancelling
import TurnEngine.Proofs.Runner.Occupancy
import TurnEngine.Proofs.Runner.Trace
import TurnEngine.Proofs.Stream.Addresses
import TurnEngine.Proofs.Stream.Announcing
import TurnEngine.Proofs.Stream.Arguments
import TurnEngine.Proofs.Stream.Deltas
import TurnEngine.Proofs.Stream.InStep
import TurnEngine.Proofs.Stream.Ways
import TurnEngine.Proofs.Table
import TurnEngine.Proofs.Text.Trimming
import TurnEngine.Proofs.Usage.Crossings
import TurnEngine.Proofs.Usage.Sum
import TurnEngine.Proofs.Usage.Warnings
import TurnEngine.Proofs.Wire.Fields
import TurnEngine.Proofs.Wire.RoundTrips
import TurnEngine.Retry
import TurnEngine.Run.Config
import TurnEngine.Run.Execution
import TurnEngine.Run.Pairing
import TurnEngine.Run.Runner
import TurnEngine.Saturating
import TurnEngine.Signal
import TurnEngine.Simulation.Act
import TurnEngine.Simulation.Backend
import TurnEngine.Simulation.Breakers
import TurnEngine.Simulation.Chains
import TurnEngine.Simulation.FallbackRunner
import TurnEngine.Simulation.Lanes
import TurnEngine.Simulation.RunnerScript
import TurnEngine.Simulation.TimedRunner
import TurnEngine.Simulation.Tools
import TurnEngine.Stream.Assembler
import TurnEngine.Stream.Event
import TurnEngine.Stream.Protocol
import TurnEngine.Stream.RoundTrip
import TurnEngine.Table
import TurnEngine.Text.Blank
import TurnEngine.Text.Occurrence
import TurnEngine.Text.Quoted
import TurnEngine.Text.Shapeless
import TurnEngine.Usage.Basic
import TurnEngine.Usage.Meter
import TurnEngine.Wire.Conversation
import TurnEngine.Wire.Form
import TurnEngine.Wire.Outcome
import TurnEngine.Wire.Settings
import TurnEngine.Wire.Stream
import TurnEngine.Wire.Usage
