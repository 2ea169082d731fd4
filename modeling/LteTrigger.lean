import LteTrigger.Machine.Run
import LteTrigger.Machine.Simulation
import LteTrigger.Machine.Reorder
import LteTrigger.Machine.Guarded
import LteTrigger.RingBuffer.Basic
import LteTrigger.RingBuffer.Log
import LteTrigger.HitLock.Basic
import LteTrigger.Countdown.Basic
import LteTrigger.Storage.Basic
import LteTrigger.Handle.Basic
import LteTrigger.Alternation.Basic
import LteTrigger.Framing.Basic
import LteTrigger.Registry.Basic
import LteTrigger.Pmt
import LteTrigger.Stream
import LteTrigger.GnuRadio
import LteTrigger.Pss.Basic
import LteTrigger.Pss.Step
import LteTrigger.Pss.Acquisition
import LteTrigger.Pss.Alignment
import LteTrigger.Pss.Reacquisition
import LteTrigger.Pss.Score
import LteTrigger.Pss.Timer
import LteTrigger.Pss.Counters
import LteTrigger.Pss.Progress
import LteTrigger.Pss.Rings
import LteTrigger.Pss.Averages
import LteTrigger.Pss.Correction
import LteTrigger.Mib.Basic
import LteTrigger.Mib.Step
import LteTrigger.Mib.Published
import LteTrigger.Mib.Search
import LteTrigger.Mib.Configured
import LteTrigger.Mib.Storage
import LteTrigger.Mib.Contexts
import LteTrigger.Mib.Batching
import LteTrigger.Sss.Basic
import LteTrigger.Chain.Basic
import LteTrigger.Chain.Soundness
import LteTrigger.CellStore.Basic
import LteTrigger.CellStore.Calls
import LteTrigger.CellStore.Concurrent
import LteTrigger.CellStore.Delivery
import LteTrigger.CellStore.InOrder
import LteTrigger.Trigger.Row
import LteTrigger.Trigger.Streams
import LteTrigger.Trigger.Basic
import LteTrigger.Trigger.Soundness
import LteTrigger.Trigger.Threshold
import LteTrigger.Trigger.Identity
import LteTrigger.FlowGraph.Basic
import LteTrigger.FlowGraph.Soundness
import LteTrigger.FlowGraph.Consistency
import LteTrigger.FlowGraph.ExitOnSuccess
import LteTrigger.CellSearchFile.Basic
import LteTrigger.Trigger.Order
import LteTrigger.Trigger.Termination
import LteTrigger.FlowGraph.Termination
import LteTrigger.FlowGraph.Completeness
