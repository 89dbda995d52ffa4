import LauSim.Lib.CText
import LauSim.Lib.Runs
import LauSim.Lib.Schedule
import LauSim.FaultManager
import LauSim.Transcribe
import LauSim.Replay
import LauSim.ReplaySchedule
import LauSim.RecordReplay
import LauSim.Server
import LauSim.Lib.Protobuf
import LauSim.Backchannel
import LauSim.ServerMain
import LauSim.Backend
import LauSim.Preload
import LauSim.Privileged
import LauSim.SocketTable
import LauSim.Client
import LauSim.Commands
import LauSim.Delivery
import LauSim.Fifo
import LauSim.Readiness
import LauSim.Startup
import LauSim.Lib.OrdMap
import LauSim.PluginManager
import LauSim.Config
import LauSim.Lib.Topic
import LauSim.Mosquitto
import LauSim.Tics
import LauSim.Teardown
import LauSim.Lib.Broker
import LauSim.StartSignal
import LauSim.Deadlines
import LauSim.FaultQueue
import LauSim.Libraries
import LauSim.Listener
import LauSim.SocketHistory
import LauSim.Dispatch
import LauSim.TicLimit
import LauSim.Rerecord
import LauSim.Random
import LauSim.ConfigErrors
import LauSim.Nested
import LauSim.Headings
import LauSim.NodeTables
import LauSim.EndToEnd
import LauSim.Observed
import LauSim.Shutdown
import LauSim.Lib.Mutex
import LauSim.Loggers
import LauSim.Boot
import LauSim.ServerInit
import LauSim.Ownership
import LauSim.FaultLists
import LauSim.ReplayMemory
import LauSim.RandomMemory
import LauSim.Lib.Getopt
import LauSim.Statements
import LauSim.CommandLine
import LauSim.Hooks
import LauSim.Tracking
import LauSim.PluginTable
import LauSim.Launcher
