import Monolinux.Lib.Run
import Monolinux.Lib.Fifo
import Monolinux.Queue.Ring
import Monolinux.Queue.Threads
import Monolinux.Lib.Wakeup
import Monolinux.Queue.Wakeup
import Monolinux.Queue.WorkerPool
import Monolinux.Queue.Events
import Monolinux.Lib.DeltaList
import Monolinux.Lib.Stale
import Monolinux.Lib.SortedTable
import Monolinux.Lib.RefCount
import Monolinux.Timer.Handler
import Monolinux.Timer.Spec
import Monolinux.Timer.PlainMap
import Monolinux.Lib.TimedTrace
import Monolinux.Timer.OnTime
import Monolinux.Timer.System
import Monolinux.Timer.Validity
import Monolinux.Timer.Deadlock
import Monolinux.Bus.Table
import Monolinux.Bus.Delivery
import Monolinux.Lib.Bytes
import Monolinux.Inet
import Monolinux.Lib.OnesComplement
import Monolinux.InetWords
import Monolinux.Lib.Linux
import Monolinux.Dhcp.Packet
import Monolinux.Dhcp.Options
import Monolinux.Dhcp.Request
import Monolinux.Dhcp.Client
import Monolinux.Dhcp.Step
import Monolinux.Dhcp.Lease
import Monolinux.Dhcp.Acceptance
import Monolinux.Dhcp.Echo
import Monolinux.Dhcp.Timers
import Monolinux.Dhcp.LeaseTimes
import Monolinux.Dhcp.Sockets
import Monolinux.Dhcp.Agreement
import Monolinux.OneWire.Module
import Monolinux.OneWire.Responses
import Monolinux.OneWire.Datagram
import Monolinux.Lib.CString
import Monolinux.Lib.Scanf
import Monolinux.Shell.Line
import Monolinux.Shell.Editor
import Monolinux.Shell.Parse
import Monolinux.Shell.Grammar
import Monolinux.Shell.Quoting
import Monolinux.Lib.Terminal
import Monolinux.Shell.ShowLine
import Monolinux.Shell.Complete
import Monolinux.Lib.LinkedList
import Monolinux.Lib.Recent
import Monolinux.Lib.DoublyLinked
import Monolinux.Shell.History
import Monolinux.Lib.Navigator
import Monolinux.Shell.Navigation
import Monolinux.Shell.Search
import Monolinux.Lib.CommonPrefix
import Monolinux.Log.Objects
import Monolinux.Log.Store
import Monolinux.Dhcp.Restart
import Monolinux.Lib.Hexdump
import Monolinux.Hexdump
import Monolinux.Errors
import Monolinux.Ntp.Time
import Monolinux.Ntp.Sync
import Monolinux.Dd
import Monolinux.Kmsg.Message
import Monolinux.Kmsg.Reader
import Monolinux.Lib.Snprintf
import Monolinux.Log.Print
import Monolinux.CpuStats
import Monolinux.Lib.CommonPrefix
import Monolinux.Lib.ComparisonSort
import Monolinux.Shell.Commands
import Monolinux.Shell.Execute
import Monolinux.Shell.ReadCommand
import Monolinux.Shell.Session
import Monolinux.Lib.FileWriter
import Monolinux.Coredump
import Monolinux.OneWire.Clients
import Monolinux.OneWire.Send
import Monolinux.Log.Levels
import Monolinux.Lib.Routine
import Monolinux.Network.Interfaces
import Monolinux.Network.Shared
import Monolinux.DeviceMapper
import Monolinux.Log.Hexdump
