import WrpcSw.Lib.CInt
import WrpcSw.Lib.Run
import WrpcSw.Lib.Rounding
import WrpcSw.Lib.Streak
import WrpcSw.Softpll.Common
import WrpcSw.Softpll.Helper
import WrpcSw.Softpll.MainPll
import WrpcSw.Softpll.External
import WrpcSw.Softpll.Ptracker
import WrpcSw.Softpll.SoftpllNg
import WrpcSw.Softpll.Steps
import WrpcSw.Softpll.Locking
import WrpcSw.Softpll.Ready
import WrpcSw.Softpll.AuxClocks
import WrpcSw.Softpll.AuxActivity
import WrpcSw.Net.Timestamp
import WrpcSw.Net.TimestampFields
import WrpcSw.Lib.RingBuffer
import WrpcSw.Net.Sockq
import WrpcSw.Net.Netif
import WrpcSw.Lib.OnesComplement
import WrpcSw.Net.Ipv4
import WrpcSw.Net.Icmp
import WrpcSw.Net.Bootp
import WrpcSw.Net.Arp
import WrpcSw.Net.BootpReply
import WrpcSw.Lib.BitField
import WrpcSw.Dev.Pfilter
import WrpcSw.Dev.PfilterDefault
import WrpcSw.Dev.UartSw
import WrpcSw.Dev.PpsGen
import WrpcSw.Dev.Minic
import WrpcSw.Dev.MinicTime
import WrpcSw.Dev.MinicTx
import WrpcSw.Net.IpNode
import WrpcSw.Net.Wire
import WrpcSw.Net.Network
import WrpcSw.Lib.LinkedList
import WrpcSw.Ipc.MinipcServer
import WrpcSw.Lib.BitTrie
import WrpcSw.OneWire.Search
import WrpcSw.OneWire.Scan
import WrpcSw.OneWire.Eeprom
import WrpcSw.OneWire.Pages
import WrpcSw.Softpll.PhaseShift
import WrpcSw.Softpll.Realign
import WrpcSw.Softpll.Servo
import WrpcSw.Softpll.Taggers
import WrpcSw.Softpll.Reset
import WrpcSw.Softpll.Regulator
import WrpcSw.Softpll.TagRange
import WrpcSw.Softpll.FromPicos
import WrpcSw.Softpll.Setpoint
import WrpcSw.Softpll.ExternalPhase
import WrpcSw.Softpll.Lowpass
import WrpcSw.Softpll.LockDetector
import WrpcSw.Softpll.TrackerSteps
import WrpcSw.Softpll.Averaging
import WrpcSw.Softpll.TrackerReference
import WrpcSw.Calib.RxtsCalibrator
import WrpcSw.Calib.Accuracy
import WrpcSw.Calib.TransitionDetector
import WrpcSw.Lib.Memory
import WrpcSw.Storage.Sdbfs
import WrpcSw.Storage.SdbDirectory
import WrpcSw.Storage.SfpInfo
import WrpcSw.Storage.SdbEeprom
import WrpcSw.Storage.I2cEeprom
import WrpcSw.Storage.W1Files
import WrpcSw.Storage.W1Storage
import WrpcSw.Storage.Phtrans
import WrpcSw.Storage.SfpDb
import WrpcSw.Storage.SfpMatch
import WrpcSw.Storage.SfpMatchDrivers
import WrpcSw.Storage.InitScript
import WrpcSw.Storage.ScriptDrivers
import WrpcSw.Storage.Sections
import WrpcSw.Storage.CalibSlave
import WrpcSw.Shell.BootScript
import WrpcSw.Shell.LineEditor
import WrpcSw.Lib.Numeral
import WrpcSw.PpPrintf.VsprintfXint
import WrpcSw.PpPrintf.VsprintfFull
import WrpcSw.PpPrintf.Agree
import WrpcSw.Lib.Words
import WrpcSw.Shell.Exec
import WrpcSw.Shell.BootRun
import WrpcSw.Shell.Address
import WrpcSw.Lib.Calendar
import WrpcSw.Util.FormatTime
import WrpcSw.Monitor.Print64
import WrpcSw.Dev.Sdb
import WrpcSw.Storage.SdbScan
import WrpcSw.Lib.AddressSpace
import WrpcSw.Storage.SdbfsMapped
import WrpcSw.Dev.I2c
import WrpcSw.Dev.Timer
import WrpcSw.Util.Usleep
import WrpcSw.Lib.Lexer
import WrpcSw.Tools.Stdio
import WrpcSw.Tools.Genram
import WrpcSw.Tools.MemoryImage
import WrpcSw.Tools.RamImages
import WrpcSw.Tools.VhdPackage
import WrpcSw.Tools.GenramAgree
import WrpcSw.Util.Atoi
import WrpcSw.Dev.Sfp
import WrpcSw.Storage.SdbSound
import WrpcSw.Storage.SfpTable
import WrpcSw.Storage.SfpTableDrivers
import WrpcSw.Shell.SfpCommand
import WrpcSw.Dev.Endpoint
import WrpcSw.Storage.MacAddress
import WrpcSw.Shell.MacCommand
import WrpcSw.Ipc.RtIpc
import WrpcSw.Ptp.Timing
