import TtWind.Effect.Prog
import TtWind.Effect.Handle
import TtWind.Effect.Fate
import TtWind.Effect.Follow
import TtWind.Effect.During
import TtWind.Effect.Locks
import TtWind.Effect.Drain
import TtWind.Effect.Private
import TtWind.Effect.Threads
import TtWind.Effect.Rely
import TtWind.Effect.Observe
import TtWind.Driver.Types
import TtWind.Driver.Sections
import TtWind.Driver.World
import TtWind.Bytes
import TtWind.Bits
import TtWind.Links
import TtWind.Holders
import TtWind.Driver.Exec
import TtWind.Driver.Lists
import TtWind.Driver.Ops
import TtWind.Driver.Tlb
import TtWind.Driver.Mapping
import TtWind.Driver.Arc
import TtWind.Driver.Sysmem
import TtWind.Driver.Reset
import TtWind.Driver.Device
import TtWind.Driver.Queue
import TtWind.Driver.System
import TtWind.Laws.Footprint
import TtWind.Laws.Programs
import TtWind.Laws.Regions
import TtWind.Laws.Frame
import TtWind.Laws.Calls
import TtWind.Laws.Allocator
import TtWind.Driver.Schedule
import TtWind.Laws.Schedule
import TtWind.Laws.LockOrder
import TtWind.Laws.Buffers
import TtWind.Laws.Completion
import TtWind.Laws.Iatu
import TtWind.Laws.Outbound
import TtWind.Laws.Refusal
import TtWind.Laws.Account
import TtWind.Laws.Trigger
import TtWind.Laws.Resave
import TtWind.Laws.Reassign
import TtWind.Laws.Balance
import TtWind.Laws.Guarded
import TtWind.Laws.Attempts
import TtWind.Laws.Suspend
import TtWind.Laws.Aim
import TtWind.Laws.Handles
import TtWind.Laws.Solo
import TtWind.Laws.Isolation
import TtWind.Laws.MapSysmem
import TtWind.Laws.Rearm
import TtWind.Laws.Views
import TtWind.Laws.Work
import TtWind.Laws.Grip
import TtWind.Laws.Custody
import TtWind.Laws.Ledger
import TtWind.Laws.Records
import TtWind.Laws.Revocation
import TtWind.Laws.Aliasing
import TtWind.Laws.Sections
import TtWind.Laws.Mmio
import TtWind.Laws.Current
import TtWind.Laws.Fence
import TtWind.Laws.Rings
import TtWind.Laws.RingBounds
import TtWind.RingBuffer
import TtWind.Tenancy
import TtWind.Laws.Mailbox
import TtWind.Laws.Fifo
import TtWind.Laws.RingCalls
import TtWind.Laws.Exchange
import TtWind.Laws.Correlation
import TtWind.Laws.RingSize
import TtWind.Laws.DeadDevice
import TtWind.Laws.Pages
import TtWind.Laws.Restore
import TtWind.Laws.Pack
import TtWind.Laws.Packing
import TtWind.Laws.Extent
import TtWind.Laws.Windows
import TtWind.Laws.Discipline
import TtWind.Laws.Replies
import TtWind.Laws.DevicePath
import TtWind.Laws.Sysmem
import TtWind.Laws.Advertised
import TtWind.Laws.Tenancies
import TtWind.Laws.Stages
import TtWind.Laws.Mapped
import TtWind.Laws.Unmap
import TtWind.Laws.Exposed
