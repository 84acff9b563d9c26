import Petrel.Framework.Machine
import Petrel.Framework.Code
import Petrel.Framework.Inventory
import Petrel.Framework.Ledger
import Petrel.Lua.State
import Petrel.Metrics.Registry
import Petrel.Core.Router
import Petrel.Core.Worker
import Petrel.Core.FiberCache
import Petrel.Core.FileCache
import Petrel.Core.FileCacheCoherence
import Petrel.Core.LuaEngine
import Petrel.Core.LuaStateManager
import Petrel.Core.ServerImpl
import Petrel.Core.DirectoryRoutes
import Petrel.Lib.Library
import Petrel.Lib.HttpHead
import Petrel.Lib.HttpClient
import Petrel.Framework.Bits
import Petrel.Lib.Base64
import Petrel.Core.FrontEnds
import Petrel.Core.ResolverCache
import Petrel.Metrics.Timer
import Petrel.Core.FileLoad
import Petrel.Core.FileRefresh
import Petrel.Core.RefreshUpdates
import Petrel.Core.LuaStateCode
import Petrel.Core.LuaStateStack
import Petrel.Core.ErrorMetrics
import Petrel.Metrics.Histogram
import Petrel.Metrics.OneMinute
import Petrel.Core.Cookies
import Petrel.Core.ResponseHeaders
import Petrel.Lib.HttpReading
import Petrel.Framework.HttpMessage
import Petrel.Lib.HttpRequests
import Petrel.Core.StaticFiles
import Petrel.Framework.DeadlineTimer
import Petrel.Lib.HttpTimers
import Petrel.Lib.Http2Client
import Petrel.Core.HandlerFailure
import Petrel.Core.ResponseHead
import Petrel.Core.CookieFields
import Petrel.Framework.Pieces
import Petrel.Lua.Strings
import Petrel.Framework.Rounding
import Petrel.Tools.StringSplit
import Petrel.Tools.UrlDecode
import Petrel.Core.ScriptDir
import Petrel.Lib.LoadLib
import Petrel.Framework.Acyclic
import Petrel.Core.LuaPrint
import Petrel.Framework.LeakyRate
import Petrel.Core.FiberSched
import Petrel.Lib.Http2Body
import Petrel.Framework.HexText
import Petrel.Lua.Args
import Petrel.Lib.Hash
import Petrel.Lib.Metric
import Petrel.Lib.MetricCounter
import Petrel.Core.Session
import Petrel.Core.FiberYield
import Petrel.Framework.Ewma
import Petrel.Metrics.SharedRegistry
import Petrel.Metrics.Meter
import Petrel.Lua.Metatables
import Petrel.Lib.LoadLibs
import Petrel.Lib.LibObjects
import Petrel.Core.Streams
import Petrel.Framework.Records
import Petrel.Metrics.Graphite
import Petrel.Core.RequestTable
import Petrel.Core.ResolverSharing
import Petrel.Core.RequestMetrics
import Petrel.Framework.Rotation
import Petrel.Core.WorkerPick
