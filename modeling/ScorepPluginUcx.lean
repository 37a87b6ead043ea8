import ScorepPluginUcx.Answers
import ScorepPluginUcx.Configuration
import ScorepPluginUcx.Core
import ScorepPluginUcx.Dispatch
import ScorepPluginUcx.FirstWriter
import ScorepPluginUcx.JobStart
import ScorepPluginUcx.LabelRegistration
import ScorepPluginUcx.Legacy
import ScorepPluginUcx.LegacySession
import ScorepPluginUcx.Lib.Backlog
import ScorepPluginUcx.Lib.Blocks
import ScorepPluginUcx.Lib.Collective
import ScorepPluginUcx.Lib.Decimation
import ScorepPluginUcx.Lib.Digits
import ScorepPluginUcx.Lib.Fairness
import ScorepPluginUcx.Lib.Firsts
import ScorepPluginUcx.Lib.Forest
import ScorepPluginUcx.Lib.Front
import ScorepPluginUcx.Lib.Interleaving
import ScorepPluginUcx.Lib.Join
import ScorepPluginUcx.Lib.Line
import ScorepPluginUcx.Lib.Overwrite
import ScorepPluginUcx.Lib.Projection
import ScorepPluginUcx.Lib.Run
import ScorepPluginUcx.Lib.Span
import ScorepPluginUcx.Lib.Tickets
import ScorepPluginUcx.Lib.WriteOnce
import ScorepPluginUcx.LifeCycle
import ScorepPluginUcx.LiveAggregate
import ScorepPluginUcx.MetricGrammar
import ScorepPluginUcx.MpiUsage
import ScorepPluginUcx.NamesCache
import ScorepPluginUcx.NamesFile
import ScorepPluginUcx.NamesRace
import ScorepPluginUcx.NamesReader
import ScorepPluginUcx.NicAggregation
import ScorepPluginUcx.NicIndex
import ScorepPluginUcx.NicMetrics
import ScorepPluginUcx.NicRefresh
import ScorepPluginUcx.NicSession
import ScorepPluginUcx.NodeNames
import ScorepPluginUcx.ObjectNumbers
import ScorepPluginUcx.Plugin
import ScorepPluginUcx.ReadBounds
import ScorepPluginUcx.Recording
import ScorepPluginUcx.Registration
import ScorepPluginUcx.RenameFunction
import ScorepPluginUcx.Sampling.Aggregate
import ScorepPluginUcx.Sampling.CurrentValue
import ScorepPluginUcx.Sampling.Nic
import ScorepPluginUcx.Sampling.Scan
import ScorepPluginUcx.ScanAgreement
import ScorepPluginUcx.ScanGrowth
import ScorepPluginUcx.ScorepUpdate
import ScorepPluginUcx.Serialize
import ScorepPluginUcx.ServerStart
import ScorepPluginUcx.ThreadBounds
import ScorepPluginUcx.ThreadSession
import ScorepPluginUcx.ThreadValues
import ScorepPluginUcx.Types
import ScorepPluginUcx.UcxLabels
import ScorepPluginUcx.UcxLimit
import ScorepPluginUcx.UcxSession
import ScorepPluginUcx.Utils
