import Kalinka.App.Dvb.Scan.ScanChannel
import Kalinka.App.Dvb.Scan.ScanThread
import Kalinka.App.Dvb.Scan.ScanTrigger
import Kalinka.App.Dvb.Scan.StartScan
import Kalinka.App.Dvb.Scan.StopScan
import Kalinka.App.Dvb.Streamer.Plugin.Getstream2.Crc32
import Kalinka.App.Dvb.Streamer.Plugin.Getstream2.Dvr
import Kalinka.App.Dvb.Streamer.Plugin.Getstream2.Output
import Kalinka.App.Dvb.Streamer.Plugin.Getstream2.Pat
import Kalinka.App.Dvb.Streamer.Plugin.Getstream2.PatStream
import Kalinka.App.Dvb.Streamer.Plugin.Getstream2.PatTrack
import Kalinka.App.Dvb.Streamer.Plugin.Getstream2.Pmt
import Kalinka.App.Dvb.Streamer.Plugin.Getstream2.PmtCalls
import Kalinka.App.Dvb.Streamer.Plugin.Getstream2.PmtHeld
import Kalinka.App.Dvb.Streamer.Plugin.Getstream2.PmtOwned
import Kalinka.App.Dvb.Streamer.Plugin.Getstream2.PmtPids
import Kalinka.App.Dvb.Streamer.Plugin.Getstream2.Psi
import Kalinka.App.Dvb.Streamer.Plugin.Getstream2.PsiBounds
import Kalinka.App.Dvb.Streamer.Plugin.Getstream2.PsiDamage
import Kalinka.App.Dvb.Streamer.Plugin.Getstream2.PsiOrigin
import Kalinka.App.Dvb.Streamer.Plugin.Getstream2.PsiSegment
import Kalinka.App.Dvb.Streamer.Plugin.Getstream2.Receiver
import Kalinka.App.Dvb.Streamer.Plugin.Getstream2.ReceiverPat
import Kalinka.App.Dvb.Streamer.Plugin.Getstream2.ReceiverRun
import Kalinka.App.Dvb.Streamer.Plugin.Stream
import Kalinka.App.Dvb.Streamer.Stability
import Kalinka.App.Dvb.Streamer.Station
import Kalinka.App.Dvb.Streamer.StationLock
import Kalinka.App.Dvb.Streamer.Streamer
import Kalinka.App.HttpStreamer.AddInput
import Kalinka.App.HttpStreamer.ChunkedBody
import Kalinka.App.HttpStreamer.ConThread
import Kalinka.App.HttpStreamer.ConnectThreadContainer
import Kalinka.App.HttpStreamer.FlvReader
import Kalinka.App.HttpStreamer.InRoutes
import Kalinka.App.HttpStreamer.InThread
import Kalinka.App.HttpStreamer.InThreadContainer
import Kalinka.App.HttpStreamer.InUDP
import Kalinka.App.HttpStreamer.PathMatch
import Kalinka.App.HttpStreamer.ProcessData
import Kalinka.App.HttpStreamer.Readiness
import Kalinka.App.HttpStreamer.Request
import Kalinka.App.HttpStreamer.RouteLocks
import Kalinka.App.HttpStreamer.StopThread
import Kalinka.App.HttpStreamer.Streamer
import Kalinka.App.HttpStreamer.Theora
import Kalinka.App.Launcher.LaunchModFactory
import Kalinka.App.Transcode.Calls
import Kalinka.App.Transcode.LostTask
import Kalinka.App.Transcode.Pipeline
import Kalinka.App.Transcode.RunningTime
import Kalinka.App.Transcode.ScheduleInfo
import Kalinka.App.Transcode.ScheduleRuns
import Kalinka.App.Transcode.StaleStop
import Kalinka.App.Transcode.TaskInit
import Kalinka.App.Transcode.TransScheduler
import Kalinka.Common.BaseResources
import Kalinka.Common.CharLength
import Kalinka.Common.CliTable
import Kalinka.Common.Config
import Kalinka.Common.ConfigReaders
import Kalinka.Common.ConfigSave
import Kalinka.Common.DBAddress
import Kalinka.Common.DBInfo
import Kalinka.Common.Db
import Kalinka.Common.Gst.GstThread
import Kalinka.Common.HolderFifo
import Kalinka.Common.HolderRun
import Kalinka.Common.HolderWakeup
import Kalinka.Common.Message
import Kalinka.Common.MessageHolder
import Kalinka.Common.Mod.Dep
import Kalinka.Common.Mod.InfoContainer
import Kalinka.Common.Mod.InfoUpdate
import Kalinka.Common.ModFactory
import Kalinka.Common.Module
import Kalinka.Common.MsgFactory
import Kalinka.Common.Processor
import Kalinka.Common.ProcessorRegistry
import Kalinka.Common.Python.Config
import Kalinka.Common.ReplaceAll
import Kalinka.Common.ResourceQueries
import Kalinka.Common.Restart
import Kalinka.Common.Scheduler
import Kalinka.Common.SchedulerCalls
import Kalinka.Common.Semaphore
import Kalinka.Common.SetDBAddr
import Kalinka.Common.Snmp.Protocol
import Kalinka.Common.Snmp.Table
import Kalinka.Common.Socket.RecvAll
import Kalinka.Common.Socket.StopRecv
import Kalinka.Common.Socket.Tcp
import Kalinka.Common.Sql.Hosts
import Kalinka.Common.Sql.Resources
import Kalinka.Common.SyncCalls
import Kalinka.Common.Trigger
import Kalinka.Common.UnloadAll
import Kalinka.Common.UpdateDB
import Kalinka.Common.Utils
import Kalinka.Common.WaitStart
import Kalinka.Lib.Block
import Kalinka.Lib.Chunked
import Kalinka.Lib.Counter
import Kalinka.Lib.Crc
import Kalinka.Lib.Decimal
import Kalinka.Lib.Dfs
import Kalinka.Lib.DirectedGraph
import Kalinka.Lib.Fragments
import Kalinka.Lib.Interleave
import Kalinka.Lib.Keyed
import Kalinka.Lib.Lease
import Kalinka.Lib.Ledger
import Kalinka.Lib.Rescan
import Kalinka.Lib.Run
import Kalinka.Lib.SortedSet
import Kalinka.Lib.SqlLexer
import Kalinka.Lib.Trim
import Kalinka.Lib.Unfolding
import Kalinka.Lib.Walk
import Kalinka.Lib.Wire
import Kalinka.Lib.Words
import Kalinka.Modules.Adapter.Adapter
import Kalinka.Modules.Adapter.Converter
import Kalinka.Modules.Adapter.RemoteRegistry
import Kalinka.Modules.CheckDB
import Kalinka.Modules.Dvb.Channels
import Kalinka.Modules.Dvb.Occupation
import Kalinka.Modules.Dvb.Processor
import Kalinka.Modules.Dvb.StartStream
import Kalinka.Modules.Dvb.Tuner
import Kalinka.Modules.MsgCore
import Kalinka.Modules.Network.RouteInfo
import Kalinka.Modules.Network.RouteLock
import Kalinka.Modules.Network.RouteRelease
import Kalinka.Modules.Service.Monitors
import Kalinka.Modules.Service.Service
import Kalinka.Modules.Service.StopApplication
