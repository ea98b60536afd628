import EspVision.TransitionSystem
import EspVision.LinkRegistry
import EspVision.SessionManager
import EspVision.SessionHistory
import EspVision.SessionLease
import EspVision.JsonGrammar
import EspVision.JsonReader
import EspVision.JsonReaderCorrect
import EspVision.JsonSkip
import EspVision.ControlJson
import EspVision.ControlJsonCorrect
import EspVision.ControlJsonObject
import EspVision.NetworkJson
import EspVision.NetworkJsonCorrect
import EspVision.NetworkJsonDocument
import EspVision.Crc32
import EspVision.HostJson
import EspVision.Scanf
import EspVision.HostFrame
import EspVision.DeviceParser
import EspVision.DeviceFrame
import EspVision.HostToDevice
import EspVision.ReplQueue
import EspVision.InputQueues
import EspVision.InputSteps
import EspVision.InputIsolation
import EspVision.InputOutcomes
import EspVision.StaleInput
import EspVision.HostParser
import EspVision.HostParserStream
import EspVision.HostParserFrames
import EspVision.HostParserComplete
import EspVision.HostParserDeadline
import EspVision.WriterExclusion
import EspVision.WriterRecord
import EspVision.WriterTasks
import EspVision.WriterCrash
import EspVision.StorageProvision
import EspVision.StorageProvisionSafe
import EspVision.FileSystem
import EspVision.FileTransfer
import EspVision.FileTransferSteps
import EspVision.FileTransferSafe
import EspVision.UploadProtocol
import EspVision.UploadSafe
import EspVision.UploadEndToEnd
import EspVision.BitGroups
import EspVision.Base64
import EspVision.ScriptWrite
import EspVision.ScriptWriteSafe
import EspVision.UartBaud
import EspVision.UartBaudSteps
import EspVision.UartNegotiation
import EspVision.UartAgreement
import EspVision.UartCommitted
import EspVision.RouteApply
import EspVision.Tickets
import EspVision.UartTiming
import EspVision.TaskProgram
import EspVision.NetworkRecord
import EspVision.NetworkService
import EspVision.NetworkWorker
import EspVision.NetworkProtocol
import EspVision.NetworkFrame
import EspVision.NetworkOperation
import EspVision.NetworkExclusion
import EspVision.NetworkDurable
import EspVision.NetworkAttempt
import EspVision.JpegValidate
import EspVision.JpegValidateHost
import EspVision.JpegAgreement
import EspVision.Redaction
import EspVision.RedactionSafe
import EspVision.HeaderGrammar
import EspVision.MetadataBind
import EspVision.LenientJson
import EspVision.LenientAgreement
import EspVision.Dialogue
import EspVision.FirmwareImage
import EspVision.FirmwareFlash
import EspVision.FirmwareFlashSafe
import EspVision.FirmwareRun
import EspVision.TcpManager
import EspVision.TcpSafe
import EspVision.TcpSweep
import EspVision.TaskRuns
import EspVision.TcpLaps
import EspVision.TcpObservers
import EspVision.ReplFifo
import EspVision.CdcRx
import EspVision.LinkOperations
import EspVision.LauncherPath
import EspVision.LauncherState
import EspVision.VmOutput
import EspVision.BoundedText
import EspVision.NetworkStatus
import EspVision.NetworkStatusReply
import EspVision.InstallErase
import EspVision.NodeRomPort
import EspVision.NodeRomPortSafe
import EspVision.PathResolution
import EspVision.StorageVfs
import EspVision.StoragePath
import EspVision.StorageHandles
import EspVision.StorageRename
import EspVision.ByteMedium
import EspVision.RawStorage
import EspVision.RawStorageSafe
import EspVision.KnowledgePack
import EspVision.KnowledgeLookup
import EspVision.PluginBundle
import EspVision.BundleHash
import EspVision.OperationCoordinator
import EspVision.OperationSerial
import EspVision.DeviceActions
import EspVision.ActionGateway
import EspVision.GatewayAdmission
import EspVision.InlineSourceExact
import EspVision.Base64Correct
import EspVision.BlockArena
import EspVision.MuxFrame
import EspVision.MuxState
import EspVision.MuxQueue
import EspVision.MuxPool
import EspVision.MuxWorker
import EspVision.MuxSystem
import EspVision.Ledger
import EspVision.MuxEntries
import EspVision.MuxVisit
import EspVision.MuxAccounting
import EspVision.MuxBytes
import EspVision.MuxBuffers
import EspVision.MuxMoves
import EspVision.MuxContents
import EspVision.Outbox
import EspVision.MuxOutbox
import EspVision.MuxFaithful
import EspVision.MuxBounds
import EspVision.MuxStream
import EspVision.MuxDelivery
import EspVision.MuxChoice
import EspVision.MuxNumbers
import EspVision.MuxOrder
import EspVision.MuxToHost
import EspVision.ReplStage
import EspVision.ReplOutput
