import Duet.Lib.Transition
import Duet.Lib.Revisioned
import Duet.ReviewSync.Isolation
import Duet.ReviewSync.Atomicity
import Duet.ReviewSync.Convergence
import Duet.ReviewSync.Ownership
import Duet.ReviewSync.ExportOrder
import Duet.ReviewSync.SelfImport
import Duet.ReviewSync.Visibility
import Duet.ReviewSync.ManifestCodec
import Duet.ReviewSync.LeakedRecordings
import Duet.Device.Interleaving
import Duet.Cloud.Callables
import Duet.Cloud.Invitations
import Duet.Cloud.Materialization
import Duet.Cloud.Directory
import Duet.Cloud.Tombstones
import Duet.Cloud.SingleUse
import Duet.Cloud.AnnotationAgreement
import Duet.Cloud.PieceRules
import Duet.Cloud.MigrationPrompt
import Duet.Cloud.MigrationConvergence
import Duet.Pairing.Agreement
import Duet.Pairing.Ledger
import Duet.Pairing.Cap
import Duet.Device.UploadConservation
import Duet.Pairing.Membership
import Duet.Cloud.Unread
import Duet.Cloud.Cascade
import Duet.Cloud.AccountPurge
import Duet.Score.LastCommand
import Duet.Score.RecordAudio
import Duet.Score.HotMicrophone
import Duet.Score.NewInk
import Duet.Cloud.LiveRecordings
import Duet.Cloud.ForeignFields
import Duet.Score.UndoStack
import Duet.Score.Isolation
import Duet.Score.View
import Duet.Library.ImportPiece
import Duet.Library.ImportFlow
import Duet.Grocery.Item
import Duet.Grocery.InMemory
import Duet.Grocery.Firestore
import Duet.Grocery.Equivalence
import Duet.Grocery.Household
import Duet.Grocery.Flags
import Duet.Grocery.Clobbering
import Duet.Device.PieceRecords
import Duet.Device.Restart
import Duet.Device.PdfCache
import Duet.Device.PdfPromises
import Duet.Device.PdfEviction
import Duet.Score.Practice
import Duet.Lib.FixedWindow
import Duet.Lib.Origin
import Duet.Cloud.RateLimit
import Duet.Cloud.Authorship
import Duet.Cloud.Inbox
import Duet.Cloud.Departures
import Duet.UserRoles.Repositories
import Duet.UserRoles.Switching
import Duet.Notifications.InboxBridge
import Duet.Notifications.OncePerSession
import Duet.Cloud.AnnotationWatch
import Duet.Cloud.SyncMonitor
import Duet.Cloud.LayerRevs
import Duet.Cloud.MigrationEdits
import Duet.Cloud.PieceAgreement
import Duet.Score.RegionSelector
import Duet.Device.AnnotationRecords
import Duet.Device.AnnotationIsolation
import Duet.Device.CloudAudioAssetStore
import Duet.Device.DeletedRecordings
import Duet.Device.OfflineRecordings
import Duet.Notifications.Messaging
import Duet.Cloud.UserDirectory
import Duet.Lib.Sorting
import Duet.Library.View
import Duet.Grocery.Suggestions
import Duet.Grocery.Presence
