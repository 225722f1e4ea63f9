import CoActionOS.Lib.Run
import CoActionOS.Sched.Frame
import CoActionOS.Pthread.MutexExclusion
import CoActionOS.Sched.Rows
import CoActionOS.Sched.Execution
import CoActionOS.Sched.Timing
import CoActionOS.Sync.Wake
import CoActionOS.Sync.Ceiling
import CoActionOS.Sync.CondOwner
import CoActionOS.Sync.Execution
import CoActionOS.Lib.Tally
import CoActionOS.Sync.Accounting
import CoActionOS.Lib.Walk
import CoActionOS.Malloc.Basic
import CoActionOS.Malloc.Chunks
import CoActionOS.Malloc.Calls
import CoActionOS.Malloc.Client
import CoActionOS.Malloc.Contents
import CoActionOS.Malloc.FreeTask
import CoActionOS.Malloc.Requests
import CoActionOS.Lib.Fields
import CoActionOS.Appfs.Memory
import CoActionOS.Appfs.Install
import CoActionOS.Appfs.Ownership
import CoActionOS.Appfs.Unlink
import CoActionOS.Appfs.Chunks
import CoActionOS.Appfs.Relocation
import CoActionOS.Appfs.Create
import CoActionOS.Cafs.Device
import CoActionOS.Cafs.Block
import CoActionOS.Cafs.List
import CoActionOS.Cafs.Serialno
import CoActionOS.Cafs.FileList
import CoActionOS.Cafs.File
import CoActionOS.Cafs.Fs
import CoActionOS.Cafs.OutOfRange
import CoActionOS.Cafs.AllocExact
import CoActionOS.Cafs.Reclamation
import CoActionOS.Cafs.Scratch
import CoActionOS.Cafs.Reclaim
import CoActionOS.Cafs.Alloc
import CoActionOS.Cafs.Frame
import CoActionOS.Cafs.Chain
import CoActionOS.Cafs.ListOps
import CoActionOS.Cafs.Append
import CoActionOS.Cafs.Consolidate
import CoActionOS.Cafs.Entries
import CoActionOS.Cafs.Segments
import CoActionOS.Cafs.Volume
import CoActionOS.Cafs.Catalogue
import CoActionOS.Cafs.Opening
import CoActionOS.Cafs.Closing
import CoActionOS.Cafs.Names
import CoActionOS.Lib.Position
import CoActionOS.Cafs.Readdir
import CoActionOS.Lib.Backlinks
import CoActionOS.Lib.Sweep
import CoActionOS.Cafs.Traversal
import CoActionOS.Cafs.ListFilter
import CoActionOS.Cafs.SegmentMap
import CoActionOS.Cafs.Content
import CoActionOS.Cafs.Reading
import CoActionOS.Cafs.Writing
import CoActionOS.Cafs.Calls
import CoActionOS.Cafs.ByteArrays
import CoActionOS.Link.Receive
import CoActionOS.Link.Arrays
import CoActionOS.Link.Packets
import CoActionOS.Link.Refusal
import CoActionOS.Lib.Dialogue
import CoActionOS.Link.Lossless
import CoActionOS.Link.Host
import CoActionOS.Link.Local
import CoActionOS.Link.Session
import CoActionOS.Link.Commands
import CoActionOS.Link.ReadWrite
import CoActionOS.Link.Aligned
import CoActionOS.Link.Copy
import CoActionOS.Lib.PriorityQueue
import CoActionOS.Mqueue.Basic
import CoActionOS.Mqueue.Order
import CoActionOS.Mqueue.Threads
import CoActionOS.Mqueue.Integrity
import CoActionOS.Mqueue.NameCalls
import CoActionOS.Mqueue.Waking
import CoActionOS.Lib.Rollover
import CoActionOS.Time.Clock
import CoActionOS.Time.Deadline
import CoActionOS.Time.CpuClock
import CoActionOS.Unistd.OpenFiles
import CoActionOS.Unistd.Conservation
import CoActionOS.Unistd.Transfer
import CoActionOS.Bootloader.Flash
import CoActionOS.Bootloader.Commands
import CoActionOS.Bootloader.History
import CoActionOS.Bootloader.Update
import CoActionOS.Bootloader.AllOrNothing
import CoActionOS.Bootloader.Writeflash
import CoActionOS.Isp.UuEncode
import CoActionOS.Isp.DecodeLine
import CoActionOS.Applib.Base64
import CoActionOS.Applib.Rle
import CoActionOS.Applib.String
import CoActionOS.Applib.Token
import CoActionOS.Applib.StringUtil
import CoActionOS.Applib.Ema
import CoActionOS.Applib.Line
import CoActionOS.Applib.Fill
import CoActionOS.Isp.Uart
import CoActionOS.Isp.WriteData
import CoActionOS.Isp.WriteExact
import CoActionOS.Isp.Writemem
import CoActionOS.Mqueue.Occupancy
import CoActionOS.Aio.Suspend
import CoActionOS.Signal.Pending
import CoActionOS.Pthread.Handshake
import CoActionOS.Process.Children
import CoActionOS.Task.Switch
import CoActionOS.Sysfs.Paths
import CoActionOS.Lib.Ring
import CoActionOS.Lib.Leads
import CoActionOS.Hwdl.Fifo
import CoActionOS.Hwdl.ReceiveFifos
import CoActionOS.Hwdl.S29gl
import CoActionOS.Hwdl.Sst25vf
import CoActionOS.Usb.DataStage
import CoActionOS.Hwpl.MemDev
import CoActionOS.Hwpl.I2c
import CoActionOS.Hwpl.I2cExact
import CoActionOS.Hwpl.Eeprom
import CoActionOS.Unistd.KeptOps
import CoActionOS.Unistd.PendingOps
import CoActionOS.Lib.GF256
import CoActionOS.Lib.Rijndael
import CoActionOS.Aes.Aes256
import CoActionOS.Aes.Layers
import CoActionOS.Aes.Schedule
import CoActionOS.Aes.Sessions
import CoActionOS.Lib.NameTable
import CoActionOS.Sync.SemaphoreNames
import CoActionOS.Sync.SemaphoreCalls
