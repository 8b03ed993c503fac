import SdtTr369.PathRoundTrip
import SdtTr369.DataModel
import SdtTr369.UndoLog
import SdtTr369.DeleteCompleteness
import SdtTr369.TransactionBrackets
import SdtTr369.VectorInvariant
import SdtTr369.RestartTransparency
import SdtTr369.SegmentRoundTrip
import SdtTr369.NewSession
import SdtTr369.ControllerSessions
import SdtTr369.PathResolver
import SdtTr369.ResolvedVectors
import SdtTr369.ReferenceChains
import SdtTr369.RetryRuns
import SdtTr369.ValueChange
import SdtTr369.ControllerTable
import SdtTr369.ControllerRoles
import SdtTr369.LifeEvents
import SdtTr369.RequestTable
import SdtTr369.ReportingInterval
import SdtTr369.RequestRuns
import SdtTr369.HandleDelete
import SdtTr369.DeleteRequests
import SdtTr369.HandleAdd
import SdtTr369.MqttClient
import SdtTr369.MqttCallbacks
import SdtTr369.MqttThread
import SdtTr369.MqttMoves
import SdtTr369.MqttRoles
import SdtTr369.MqttDisconnect
import SdtTr369.MqttFlags
import SdtTr369.MqttRequestSlot
import SdtTr369.MqttRequests
import SdtTr369.QueueAccounts
import SdtTr369.MqttQueue
import SdtTr369.BulkData
import SdtTr369.BdcExec
import SdtTr369.BulkDataRuns
import SdtTr369.BulkDataReports
import SdtTr369.BulkDataTimers
import SdtTr369.SharedArguments
import SdtTr369.MqttSession
import SdtTr369.MqttSubscriptions
import SdtTr369.SupportedDm
import SdtTr369.ControllerChallenge
import SdtTr369.ChallengeBounds
import SdtTr369.ChallengeLaw
import SdtTr369.TrustCerts
import SdtTr369.JsonNames
import SdtTr369.AppBatch
import SdtTr369.AppEnforcement
import SdtTr369.AppFirewall
import SdtTr369.RebootInfo
import SdtTr369.SlotTable
import SdtTr369.AgentMtps
import SdtTr369.AgentMtpSlots
import SdtTr369.AgentMtpCommits
import SdtTr369.MqttReferences
import SdtTr369.ControllerSlots
import SdtTr369.MqttReferenceSlots
import SdtTr369.MqttReferenceSteps
import SdtTr369.MqttReferenceCommits
import SdtTr369.MqttInstances
import SdtTr369.BoundedQueue
import SdtTr369.DmExec
import SdtTr369.DmExecDelivery
import SdtTr369.ScheduleTimer
import SdtTr369.Base64Text
import SdtTr369.Base64Values
import SdtTr369.EndpointId
import SdtTr369.FirewallParts
import SdtTr369.JavaText
import SdtTr369.LogStream
import SdtTr369.LogFiles
import SdtTr369.LogUpload
import SdtTr369.CertLoading
import SdtTr369.TrueFlags
import SdtTr369.AltNames
import SdtTr369.BulkDataNames
import SdtTr369.FoundPaths
import SdtTr369.UriQuery
import SdtTr369.ConcurrencyLimit
import SdtTr369.SystemDataStat
import SdtTr369.MqttAttempts
import SdtTr369.CBuffers
import SdtTr369.DiagnosticCommands
import SdtTr369.TcpdumpSessions
import SdtTr369.XmlSchema
import SdtTr369.GroupReads
import SdtTr369.HandleGet
import SdtTr369.GetResponses
import SdtTr369.PeriodicNotif
import SdtTr369.RetryWait
import SdtTr369.TimerVector
import SdtTr369.TimerWalk
import SdtTr369.MqttServer
import SdtTr369.MqttTopics
import SdtTr369.NextInstance
import SdtTr369.PayloadCapacity
import SdtTr369.MutexPrograms
import SdtTr369.MqttMutex
import SdtTr369.CurrentController
import SdtTr369.InstanceRefresh
import SdtTr369.InstantiatedBuffers
import SdtTr369.SchemaForms
import SdtTr369.ArgumentNames
import SdtTr369.DlList
import SdtTr369.NaturalOrder
import SdtTr369.Numerals
import SdtTr369.InstanceStrings
import SdtTr369.CopyLoops
import SdtTr369.HexText
import SdtTr369.SerialNumbers
import SdtTr369.PathInvoke
import SdtTr369.SeparatorCuts
import SdtTr369.EventArguments
import SdtTr369.ListTexts
import SdtTr369.DateTimes
import SdtTr369.ValueTexts
import SdtTr369.PercentTexts
import SdtTr369.TrimBuffers
import SdtTr369.KeyValueLines
import SdtTr369.ExpressionTexts
import SdtTr369.TrustPermissions
import SdtTr369.WholeRequests
