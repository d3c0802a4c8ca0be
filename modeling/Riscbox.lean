import Riscbox.Filesystem.WellFormed
import Riscbox.Filesystem.Step
import Riscbox.Filesystem.Preserve
import Riscbox.Filesystem.Account
import Riscbox.Filesystem.Write
import Riscbox.Filesystem.Emit
import Riscbox.Filesystem.Creation
import Riscbox.Filesystem.Removal
import Riscbox.Filesystem.Renaming
import Riscbox.Filesystem.Clear
import Riscbox.Collections.Regions
import Riscbox.Filesystem.ByteLocks
import Riscbox.Filesystem.Call
import Riscbox.Filesystem.Changes
import Riscbox.Collections.LittleEndian
import Riscbox.Protocol.Wire
import Riscbox.Protocol.Request
import Riscbox.Protocol.Session
import Riscbox.Filesystem.References
import Riscbox.Protocol.Reply
import Riscbox.Protocol.Served
import Riscbox.Protocol.Fids
import Riscbox.Protocol.Answers
import Riscbox.Protocol.Changing
import Riscbox.Cpu.Trap
import Riscbox.Collections.Slices
import Riscbox.Storage.Http
import Riscbox.Storage.Store
import Riscbox.Storage.Sectors
import Riscbox.Storage.Flat
import Riscbox.Collections.Recency
import Riscbox.Storage.Requests
import Riscbox.Storage.Progress
import Riscbox.Storage.Rounds
import Riscbox.Virtio.Memory
import Riscbox.Virtio.Transport
import Riscbox.Virtio.Devices
import Riscbox.Virtio.Effects
import Riscbox.Virtio.Returns
import Riscbox.Program.Steps
import Riscbox.Machine.Slots
import Riscbox.Machine.Machine
import Riscbox.Runtime.Input
import Riscbox.Runtime.State
import Riscbox.Runtime.Http
import Riscbox.Runtime.Lifecycle
import Riscbox.Runtime.CpuRun
import Riscbox.Runtime.Quantum
import Riscbox.Machine.Changes
import Riscbox.Runtime.Calls
import Riscbox.Runtime.Steps
import Riscbox.Runtime.Assembled
import Riscbox.Filesystem.Cleared
import Riscbox.Filesystem.Naming
import Riscbox.Filesystem.Moving
import Riscbox.Filesystem.Renamed
import Riscbox.Filesystem.Records
import Riscbox.Cpu.PhysMemory
import Riscbox.Cpu.State
import Riscbox.Cpu.Csr
import Riscbox.Cpu.Translate
import Riscbox.Cpu.Access
import Riscbox.Cpu.Execute
import Riscbox.Cpu.Compressed
import Riscbox.Cpu.Interp
import Riscbox.Cpu.Effects
import Riscbox.Cpu.Instructions
import Riscbox.Cpu.Runs
import Riscbox.Cpu.Status
import Riscbox.Cpu.Writes
import Riscbox.Cpu.Privileges
import Riscbox.Cpu.Timer
import Riscbox.Cpu.Lines
import Riscbox.Machine.Platform
import Riscbox.Cpu.Interrupts
import Riscbox.Machine.Gateway
import Riscbox.Collections.Scatter
import Riscbox.Virtio.Bytes
import Riscbox.Virtio.Chains
import Riscbox.Machine.NetworkHeader
import Riscbox.Collections.Ledger
import Riscbox.Virtio.Calm
import Riscbox.Virtio.Ingress
import Riscbox.Runtime.Ingress
import Riscbox.Protocol.Grammar
import Riscbox.Protocol.Encoding
import Riscbox.Protocol.Reading
import Riscbox.Protocol.Dispatch
import Riscbox.Protocol.Submission
import Riscbox.Protocol.Retiring
import Riscbox.Protocol.Shared
import Riscbox.Protocol.Sessions
import Riscbox.Protocol.Guarantees
import Riscbox.Collections.Rates
import Riscbox.Runtime.Deadlines
import Riscbox.Runtime.Kept
import Riscbox.Runtime.Carried
import Riscbox.Machine.Uart
import Riscbox.Machine.Rtc
import Riscbox.Machine.Timers
import Riscbox.Collections.StringTable
import Riscbox.Devicetree.Format
import Riscbox.Devicetree.Reading
import Riscbox.Devicetree.Builder
import Riscbox.Devicetree.RoundTrip
import Riscbox.Collections.Spans
import Riscbox.Machine.Framebuffer
import Riscbox.Machine.Redraw
import Riscbox.Devicetree.Platform
import Riscbox.Virtio.Copies
import Riscbox.Machine.Boot
import Riscbox.Machine.Booted
import Riscbox.Collections.Limbs
import Riscbox.Cpu.Products
import Riscbox.Network.WebSocket
import Riscbox.Network.Carrier
import Riscbox.Network.Truthful
import Riscbox.Collections.Bindings
import Riscbox.Collections.Numerals
import Riscbox.Configuration.Parser
import Riscbox.Configuration.Scanning
import Riscbox.Configuration.Grammar
import Riscbox.Configuration.Tokens
import Riscbox.Configuration.Spellings
import Riscbox.Configuration.Nesting
import Riscbox.Configuration.Address
import Riscbox.Configuration.Loaded
import Riscbox.Cpu.Formats
import Riscbox.Cpu.Expansion
import Riscbox.Cpu.Expanded
import Riscbox.SoftFloat.Root
import Riscbox.SoftFloat.Sum
import Riscbox.Cpu.Float
import Riscbox.Cpu.Floating
import Riscbox.Machine.Serial
