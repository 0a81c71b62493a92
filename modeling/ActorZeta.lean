import ActorZeta.Lib.Trans
import ActorZeta.Lib.Simulation
import ActorZeta.Lib.Pool
import ActorZeta.Lib.Tally
import ActorZeta.Lib.Heap
import ActorZeta.Lib.Linked
import ActorZeta.Lib.Holding
import ActorZeta.Lib.Memory
import ActorZeta.SharedState.Flags
import ActorZeta.SharedState.State
import ActorZeta.SharedState.Race
import ActorZeta.SharedState.Fate
import ActorZeta.SharedState.LastOneOut
import ActorZeta.SharedState.Outcomes
import ActorZeta.Handles.Program
import ActorZeta.Handles.Ownership
import ActorZeta.Handles.Lifetimes
import ActorZeta.RefCounted.Program
import ActorZeta.RefCounted.Counting
import ActorZeta.Mailbox.Inbox
import ActorZeta.Mailbox.Default
import ActorZeta.Mailbox.LinkedList
import ActorZeta.Mailbox.Atomic
import ActorZeta.Mailbox.LifoInbox
import ActorZeta.Mailbox.Linearization
import ActorZeta.Mailbox.System
import ActorZeta.Mailbox.Conservation
import ActorZeta.Scheduler.Sharing
import ActorZeta.Scheduler.Stop
import ActorZeta.Actor.Word
import ActorZeta.Actor.Machine
import ActorZeta.Actor.Steps
import ActorZeta.Actor.Contention
import ActorZeta.Actor.Serial
import ActorZeta.Actor.Protocol
import ActorZeta.Actor.Wakeup
import ActorZeta.Actor.OneJob
import ActorZeta.Actor.Teardown
import ActorZeta.Actor.Exclusion
import ActorZeta.Actor.Progress
import ActorZeta.Actor.Messages
import ActorZeta.Actor.Assertions
import ActorZeta.Actor.Consumer
import ActorZeta.Coroutine.Frame
import ActorZeta.Coroutine.Suspension
import ActorZeta.Coroutine.Resumption
import ActorZeta.Coroutine.Transport
import ActorZeta.Coroutine.Exceptions
import ActorZeta.Coroutine.Links
import ActorZeta.Coroutine.Machine
import ActorZeta.Coroutine.Invariant
import ActorZeta.Coroutine.Moves
import ActorZeta.Coroutine.Steps
import ActorZeta.Coroutine.Body
import ActorZeta.Coroutine.Calls
import ActorZeta.Coroutine.Control
import ActorZeta.Coroutine.Run
import ActorZeta.Coroutine.AwaitChain
import ActorZeta.Coroutine.Effects
import ActorZeta.Coroutine.Custody
import ActorZeta.Coroutine.Settlement
import ActorZeta.Coroutine.Reading
import ActorZeta.Coroutine.Simulation
import ActorZeta.Coroutine.Execution
import ActorZeta.Coroutine.Drain
import ActorZeta.Coroutine.Driving
import ActorZeta.Futures.Program
import ActorZeta.Futures.States
import ActorZeta.Futures.Invariant
import ActorZeta.Futures.Changes
import ActorZeta.Futures.Release
import ActorZeta.Futures.Library
import ActorZeta.Futures.Creation
import ActorZeta.Futures.Operations
import ActorZeta.Futures.Ownership
import ActorZeta.Futures.Frames
import ActorZeta.Runtime.System
import ActorZeta.Runtime.Parts
import ActorZeta.Runtime.Glue
import ActorZeta.Runtime.Runs
import ActorZeta.Runtime.Quiescence
import ActorZeta.Runtime.Stopping
import ActorZeta.Runtime.Shutdown
import ActorZeta.Arguments.Types
import ActorZeta.Arguments.Rtt
import ActorZeta.Arguments.Delivery
import ActorZeta.Arguments.Layout
import ActorZeta.Arguments.Lifetime
import ActorZeta.Methods.Identifiers
import ActorZeta.Allocation.Header
import ActorZeta.Allocation.Blocks
