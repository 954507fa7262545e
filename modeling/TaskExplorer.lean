import TaskExplorer.CacheDelta
import TaskExplorer.CacheNames
import TaskExplorer.CBuilder
import TaskExplorer.ClusterNames
import TaskExplorer.ClusterNodes
import TaskExplorer.ClusterConnect
import TaskExplorer.ClusterIdentity
import TaskExplorer.CredentialShared
import TaskExplorer.BufferBytes
import TaskExplorer.VariantPool
import TaskExplorer.ClusterSelection
import TaskExplorer.HelperSession
import TaskExplorer.DumperRelease
import TaskExplorer.ListItemModel
import TaskExplorer.ProcessIndex
import TaskExplorer.RefreshMarks
import TaskExplorer.CoreFile
import TaskExplorer.ForkExec
import TaskExplorer.LookupWorker
import TaskExplorer.SettingsFile
import TaskExplorer.UserAccounts
import TaskExplorer.WndAgents
import TaskExplorer.SocketHolders
import TaskExplorer.HelperAnswers
import TaskExplorer.HandshakeLimits
import TaskExplorer.IntWidths
import TaskExplorer.RawScan
import TaskExplorer.QVariantTrees
import TaskExplorer.ParentRetention
import TaskExplorer.NetworkSockets
import TaskExplorer.ProcessIdentity
import TaskExplorer.Base64
import TaskExplorer.StringFinder
import TaskExplorer.ElfNotes
import TaskExplorer.Presets
import TaskExplorer.TreeStability
import TaskExplorer.CoreRecovery
import TaskExplorer.DebugOutput
import TaskExplorer.ReverseNames
import TaskExplorer.UpdateConvergence
import TaskExplorer.Finder
import TaskExplorer.CpuStats
import TaskExplorer.IoTotals
import TaskExplorer.WineIds
import TaskExplorer.SocketSources
import TaskExplorer.RateCounter
import TaskExplorer.VariantOrder
import TaskExplorer.WindowIndex
import TaskExplorer.ChangedRanges
