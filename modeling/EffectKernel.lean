import EffectKernel.Act
import EffectKernel.Binary64
import EffectKernel.Binary64.Decimal
import EffectKernel.Configuration
import EffectKernel.ConstructionError
import EffectKernel.Context
import EffectKernel.Defect
import EffectKernel.Duration
import EffectKernel.Effect
import EffectKernel.Effect.Again
import EffectKernel.Effect.Channels
import EffectKernel.Effect.Construct
import EffectKernel.Effect.Generator
import EffectKernel.Effect.Many
import EffectKernel.Either
import EffectKernel.Event
import EffectKernel.Exit
import EffectKernel.Exit.Expectation
import EffectKernel.Fiber
import EffectKernel.Fiber.Drive
import EffectKernel.Fiber.Kernel
import EffectKernel.Fiber.Turn
import EffectKernel.Json.Document
import EffectKernel.Json.Reader
import EffectKernel.Layer
import EffectKernel.Layer.Build
import EffectKernel.Layer.Graph
import EffectKernel.Machine
import EffectKernel.Machine.Blocking
import EffectKernel.Machine.Step
import EffectKernel.Proofs.Attending
import EffectKernel.Proofs.Callbacks
import EffectKernel.Proofs.ChildFibers
import EffectKernel.Proofs.Completion
import EffectKernel.Proofs.CompletionOrder
import EffectKernel.Proofs.Courses
import EffectKernel.Proofs.Crossing
import EffectKernel.Proofs.Defects
import EffectKernel.Proofs.Doubling
import EffectKernel.Proofs.Enclosures
import EffectKernel.Proofs.Ending
import EffectKernel.Proofs.Evaluation
import EffectKernel.Proofs.Exactness
import EffectKernel.Proofs.FiberFrames
import EffectKernel.Proofs.Fuel
import EffectKernel.Proofs.Generators
import EffectKernel.Proofs.Growth
import EffectKernel.Proofs.Handles
import EffectKernel.Proofs.History
import EffectKernel.Proofs.Interference
import EffectKernel.Proofs.Joining
import EffectKernel.Proofs.Json.Policies
import EffectKernel.Proofs.Json.Reading
import EffectKernel.Proofs.Lasting
import EffectKernel.Proofs.Laws.Catching
import EffectKernel.Proofs.Laws.Collecting
import EffectKernel.Proofs.Laws.Duality
import EffectKernel.Proofs.Laws.Sequencing
import EffectKernel.Proofs.Laws.Tags
import EffectKernel.Proofs.Laws.Timeouts
import EffectKernel.Proofs.Laws.Trying
import EffectKernel.Proofs.Layer.Aborting
import EffectKernel.Proofs.Layer.Afresh
import EffectKernel.Proofs.Layer.Agreement
import EffectKernel.Proofs.Layer.Circles
import EffectKernel.Proofs.Layer.Failing
import EffectKernel.Proofs.Layer.Listing
import EffectKernel.Proofs.Layer.Making
import EffectKernel.Proofs.Layer.Once
import EffectKernel.Proofs.Layer.Order
import EffectKernel.Proofs.Layer.Reaching
import EffectKernel.Proofs.Layer.Resolution
import EffectKernel.Proofs.Layer.Search
import EffectKernel.Proofs.Layer.Services
import EffectKernel.Proofs.Layer.Signature
import EffectKernel.Proofs.Layer.Wiring
import EffectKernel.Proofs.Likeness
import EffectKernel.Proofs.Likeness.Equivalence
import EffectKernel.Proofs.Likeness.Exchange
import EffectKernel.Proofs.Likeness.Kernels
import EffectKernel.Proofs.Likeness.Runs
import EffectKernel.Proofs.Likeness.Taming
import EffectKernel.Proofs.Likeness.Turns
import EffectKernel.Proofs.Limits
import EffectKernel.Proofs.Modes
import EffectKernel.Proofs.Moves
import EffectKernel.Proofs.Observations
import EffectKernel.Proofs.OnTheSpot
import EffectKernel.Proofs.Panics
import EffectKernel.Proofs.Parallel
import EffectKernel.Proofs.Plain
import EffectKernel.Proofs.ProgramClasses
import EffectKernel.Proofs.Punctuality
import EffectKernel.Proofs.Reduction
import EffectKernel.Proofs.Refinement
import EffectKernel.Proofs.Refusal
import EffectKernel.Proofs.RelyGuarantee
import EffectKernel.Proofs.Rounds
import EffectKernel.Proofs.RunRelations
import EffectKernel.Proofs.Sequences
import EffectKernel.Proofs.ServicesAtEnd
import EffectKernel.Proofs.SideBySide
import EffectKernel.Proofs.SingleSteps
import EffectKernel.Proofs.Steps
import EffectKernel.Proofs.Turns
import EffectKernel.Proofs.Wakeups
import EffectKernel.Schedule
import EffectKernel.Schedule.Codec
import EffectKernel.Script.Combinator
import EffectKernel.Script.Command
import EffectKernel.Script.Construction
import EffectKernel.Script.Function
import EffectKernel.Script.Leaf
import EffectKernel.Script.Operation
import EffectKernel.Script.Program
import EffectKernel.Script.Query
import EffectKernel.Script.Report
import EffectKernel.Script.Session
import EffectKernel.Script.Store
import EffectKernel.Script.Transcript
import EffectKernel.ServiceKey
import EffectKernel.Text.Printable
import EffectKernel.Text.Quoted
import EffectKernel.Value
import EffectKernel.Value.Text
