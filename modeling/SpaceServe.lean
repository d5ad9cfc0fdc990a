import SpaceServe.Lib.Dict
import SpaceServe.Lib.Exec
import SpaceServe.Lib.Ledger
import SpaceServe.Lib.LinkedList
import SpaceServe.Lib.Mailbox
import SpaceServe.Broadcast.Delivery
import SpaceServe.Request
import SpaceServe.KVCache.Hash
import SpaceServe.KVCache.Model
import SpaceServe.KVCache.Accounting
import SpaceServe.KVCache.Allocate
import SpaceServe.Encoder.CacheManager
import SpaceServe.Encoder.Core
import SpaceServe.Scheduler.PrefixHit
import SpaceServe.Scheduler.Notices
import SpaceServe.Scheduler.Inputs
import SpaceServe.Scheduler.Sent
import SpaceServe.Scheduler.Order
import SpaceServe.Scheduler.Room
import SpaceServe.Worker.ExecuteEncoder
import SpaceServe.Worker.Update
import SpaceServe.Worker.Arrays
import SpaceServe.Worker.Gather
import SpaceServe.Engine.Model
import SpaceServe.Engine.Notices
import SpaceServe.Engine.Results
import SpaceServe.Engine.Outputs
import SpaceServe.Engine.Workers
import SpaceServe.Scheduler.Abort
import SpaceServe.Scheduler.Liveness
import SpaceServe.Scheduler.Slots
import SpaceServe.Encoder.Slots
import SpaceServe.Scheduler.Registered
import SpaceServe.KVCache.Config
import SpaceServe.Engine.MMInputMapper
import SpaceServe.KVCache.Incremental
import SpaceServe.Engine.Leftovers
import SpaceServe.Engine.Persistent
import SpaceServe.Engine.BatchArrays
import SpaceServe.Engine.Device
import SpaceServe.Engine.Stream
import SpaceServe.Engine.Decoding
import SpaceServe.Engine.Submissions
import SpaceServe.Engine.Refinement
import SpaceServe.Worker.Inputs
import SpaceServe.Engine.Embeddings
import SpaceServe.Engine.Cascade
import SpaceServe.Engine.KVWrites
import SpaceServe.Worker.RotaryPrompt
import SpaceServe.Worker.MRope
import SpaceServe.KVCache.Exhausted
import SpaceServe.Engine.MMFailures
import SpaceServe.Engine.Coalesce
import SpaceServe.Engine.Metadata
import SpaceServe.Engine.Hasher
import SpaceServe.BlockManager.Evictor
import SpaceServe.MultiModal.Apply
import SpaceServe.Engine.ByteLevel
import SpaceServe.MultiModal.Fields
import SpaceServe.MultiModal.Transparent
import SpaceServe.MultiModal.Qwen2VL
import SpaceServe.BlockManager.Forks
import SpaceServe.KVCache.FreeQueue
import SpaceServe.Engine.PinnedCache
import SpaceServe.Entrypoints.ReasoningParser
import SpaceServe.BlockManager.ComputedBlocks
import SpaceServe.BlockManager.Shortage
import SpaceServe.Client.Starvation
