import Kurul.Account.AuditNames
import Kurul.Account.ErasedComments
import Kurul.Account.Tombstone
import Kurul.Account.WorkspaceOwners
import Kurul.Attachment.Disposition
import Kurul.RateLimit.Fallbacks
import Kurul.Storage.DiskStorageBackend
import Kurul.RateLimit.UploadRuns
import Kurul.Attachment.RowsAndBytes
import Kurul.Board.ColumnOrdering
import Kurul.Client.BoardReads
import Kurul.Client.DeletedTasks
import Kurul.Client.Resync
import Kurul.Client.TaskDnd
import Kurul.Client.TaskPages
import Kurul.Client.CommentThread
import Kurul.Client.NotificationsList
import Kurul.Client.UnreadBadge
import Kurul.Client.ColumnStrip
import Kurul.Client.EncodedMentions
import Kurul.Client.TaskAttachments
import Kurul.Board.ColumnRemoval
import Kurul.Board.Insertions
import Kurul.Notification.UnreadSignals
import Kurul.Task.ChecklistOrdering
import Kurul.Store.Clearing
import Kurul.Task.TaskOrdering
import Kurul.Import.ImportAccounts
import Kurul.Notification.DueSoonScans
import Kurul.Realtime.LastRequest
import Kurul.Retention.OrphanSweep
import Kurul.Sequence.Spacing
import Kurul.Store.Sequential
import Kurul.Workspace.Ownership
import Kurul.Workspace.Seats
import Kurul.Workspace.TokenLifetimes
import Kurul.Notification.MailTemplates
import Kurul.Audit.MoveTrail
import Kurul.Audit.UpdateTrails
import Kurul.Board.BoardCeiling
import Kurul.Retention.Backup
import Kurul.Retention.BackupCoverage
import Kurul.Retention.RunCleanup
import Kurul.Audit.TaskEdits
import Kurul.Task.Redaction
import Kurul.Task.UpdatePlans
import Kurul.Task.TaskQueryWhere
import Kurul.Client.TaskQuery
import Kurul.Encoding.Utf16
import Kurul.Encoding.Html
import Kurul.Import.SkipReport
import Kurul.Import.LabelColors
import Kurul.Import.TrelloAnonymiser
import Kurul.Observability.ScrubEvent
import Kurul.Client.AuthRedirect
import Kurul.Client.Socket
import Kurul.Task.LabelService
import Kurul.Workspace.TenantCalls
import Kurul.Deploy.PruneDeployedModules
import Kurul.Client.FilteredDrops
import Kurul.Import.StoredImport
