import Endfields.Model.Open
import Endfields.Spec.Geometry
import Endfields.Spec.View
import Endfields.Spec.Slots
import Endfields.Spec.Log
import Endfields.Spec.Replay
import Endfields.Spec.Txn
import Endfields.Spec.Alloc
import Endfields.Abort.Alloc
import Endfields.Abort.FreeList
import Endfields.Spec.Write
import Endfields.Abort.Slots
import Endfields.Spec.Index
import Endfields.Spec.Release
import Endfields.Resize.Free
import Endfields.Lib.RobinHood
import Endfields.Spec.Table
import Endfields.Index.Insert
import Endfields.Spec.Rehash
import Endfields.Resize.Rehash
import Endfields.Spec.Open
import Endfields.Index.Map
import Endfields.Spec.Put
import Endfields.Abort.Put
import Endfields.Abort.LogFull
import Endfields.Spec.Moves
import Endfields.Recovery.Idle
import Endfields.Spec.Queue
import Endfields.Queue.Pop
import Endfields.Spec.Pool
import Endfields.Pool.Alloc
import Endfields.Pool.Write
import Endfields.Pool.Queue
import Endfields.Lib.Fifo
import Endfields.Pool.Open
import Endfields.Pool.Runs
import Endfields.Queue.Fifo
import Endfields.Resize.Failure
import Endfields.Resize.Remove
import Endfields.Reopen.Migration
import Endfields.Reopen.Repeat
import Endfields.Reopen.Sizes
import Endfields.Spec.Rebuild
import Endfields.Reopen.Content
import Endfields.Reopen.Corruption
import Endfields.Reopen.V3
import Endfields.Reopen.Upgrade
import Endfields.Chase.Hops
import Endfields.Recovery.Records
import Endfields.Pool.Status
import Endfields.Reopen.Buffer
import Endfields.Pool.Refusal
import Endfields.Pool.Checksums
import Endfields.Lib.Toggle
import Endfields.Spec.Blob
import Endfields.Pool.Ownership
import Endfields.Lib.CasLoop
import Endfields.Model.LockWord
import Endfields.Locks.Word
import Endfields.Model.Visit
import Endfields.Crc.Table
import Endfields.Crc.Burst
import Endfields.Reopen.OldLayouts
import Endfields.Resize.Capacity
import Endfields.Model.Execute
import Endfields.Index.Counted
import Endfields.Recovery.Torn
import Endfields.Index.Remove
import Endfields.Lib.Clmul
import Endfields.Model.Pclmul
import Endfields.Crc.Pclmul
import Endfields.Crc.ReadBack
import Endfields.Index.Linear
import Endfields.Index.Order
import Endfields.Recovery.Stack
import Endfields.Locks.Txn
import Endfields.Blob.Taken
import Endfields.Blob.Chains
import Endfields.Blob.Write
import Endfields.Blob.Read
import Endfields.Blob.Runs
import Endfields.Blob.Refinement
import Endfields.Blob.Visit
import Endfields.Index.Iterate
