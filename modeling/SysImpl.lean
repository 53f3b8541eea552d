import SysImpl.Fat.Chains
import SysImpl.Fat.ClusterFile
import SysImpl.Fat.Contents
import SysImpl.Fat.Cursors
import SysImpl.Fat.Directory
import SysImpl.Fat.Driver
import SysImpl.Fat.Extraction
import SysImpl.Fat.Geometry
import SysImpl.Fat.Listing
import SysImpl.Fat.Names
import SysImpl.Fat.OpenFiles
import SysImpl.Fat.Parents
import SysImpl.Fat.Paths
import SysImpl.Fat.Positions
import SysImpl.Fat.Resolution
import SysImpl.Fat.Stores
import SysImpl.Fat.Volume
import SysImpl.Heap.Alloc
import SysImpl.Heap.Canonical
import SysImpl.Heap.DoubleFree
import SysImpl.Heap.FirstFit
import SysImpl.Heap.Free
import SysImpl.Heap.Layout
import SysImpl.Heap.Model
import SysImpl.Heap.Requests
import SysImpl.Heap.Stdlib
import SysImpl.Heap.World
import SysImpl.Kernel.Acts
import SysImpl.Kernel.Arguments
import SysImpl.Kernel.Blocked
import SysImpl.Kernel.Checks
import SysImpl.Kernel.CommandLine
import SysImpl.Kernel.Commits
import SysImpl.Kernel.Console
import SysImpl.Kernel.Contexts
import SysImpl.Kernel.Descriptors
import SysImpl.Kernel.Devices
import SysImpl.Kernel.EarlyConsole
import SysImpl.Kernel.Exec
import SysImpl.Kernel.FileCalls
import SysImpl.Kernel.FileFrames
import SysImpl.Kernel.Forks
import SysImpl.Kernel.Handlers
import SysImpl.Kernel.Handover
import SysImpl.Kernel.HeaderTable
import SysImpl.Kernel.Headers
import SysImpl.Kernel.Images
import SysImpl.Kernel.Latency
import SysImpl.Kernel.Limits
import SysImpl.Kernel.LineRings
import SysImpl.Kernel.Newlines
import SysImpl.Kernel.Outcome
import SysImpl.Kernel.OverlaidCalls
import SysImpl.Kernel.Overlays
import SysImpl.Kernel.Overreads
import SysImpl.Kernel.Overrun
import SysImpl.Kernel.Polling
import SysImpl.Kernel.Polls
import SysImpl.Kernel.Process
import SysImpl.Kernel.Queues
import SysImpl.Kernel.Returns
import SysImpl.Kernel.Reuse
import SysImpl.Kernel.Rounds
import SysImpl.Kernel.Segments
import SysImpl.Kernel.SemaphoreCalls
import SysImpl.Kernel.Semaphores
import SysImpl.Kernel.SpecialPaths
import SysImpl.Kernel.Starvation
import SysImpl.Kernel.State
import SysImpl.Kernel.Steps
import SysImpl.Kernel.Syscall
import SysImpl.Kernel.Ticks
import SysImpl.Kernel.WaitReads
import SysImpl.Kernel.Waits
import SysImpl.Lib.Blocks
import SysImpl.Lib.Bytes
import SysImpl.Lib.Copies
import SysImpl.Lib.Cyclic
import SysImpl.Lib.Fields
import SysImpl.Lib.Holders
import SysImpl.Lib.Links
import SysImpl.Lib.Registries
import SysImpl.Lib.Rings
import SysImpl.Lib.Runs
import SysImpl.Lib.Services
import SysImpl.Lib.Slots
import SysImpl.Lib.Spans
import SysImpl.Lib.Walks
import SysImpl.Lib.Writers
import SysImpl.Refs.Counting
import SysImpl.Refs.SharedPtr
import SysImpl.Text.Directives
import SysImpl.Text.FormatInt
import SysImpl.Text.Printf
import SysImpl.Text.RoundTrip
import SysImpl.Text.Strtol
import SysImpl.User.Shell
import SysImpl.User.Strtok
import SysImpl.User.ThreadRuns
import SysImpl.User.Turns
