import Sightr.Store.Ordinals
import Sightr.Client.Resume
import Sightr.Send.Composer
import Sightr.Send.Applied
import Sightr.Journal.Identity
import Sightr.Herd.Starting
import Sightr.Herd.Visible
import Sightr.Herd.Settles
import Sightr.Dispatch.Blocked
import Sightr.Dispatch.Closed
import Sightr.Dispatch.Presses
import Sightr.Dispatch.Waits
import Sightr.Dispatch.ModeCycle
import Sightr.Audit.Writes
import Sightr.Notify.Coordinator
import Sightr.Lock.Counter
import Sightr.Client.ThreadStream
import Sightr.Send.Sender
import Sightr.Client.Connection
import Sightr.Git.Schedulers
import Sightr.Client.FirstMessage
import Sightr.Client.SteerNow
import Sightr.Checkpoints.Refused
import Sightr.Checkpoints.Lawful
import Sightr.Store.Checkpoints
import Sightr.Send.FreeText
import Sightr.Herd.Spawned
import Sightr.Dispatch.Strikes
import Sightr.Dispatch.Order
import Sightr.Client.HistoryMerge
import Sightr.Client.Undo
import Sightr.Journal.RunTime
import Sightr.Lock.Challenges
import Sightr.Audit.Appender
import Sightr.Herd.Engine
import Sightr.Journal.Reads
import Sightr.Send.Paste
import Sightr.Lock.Store
import Sightr.Checkpoints.Shared
import Sightr.Lock.Encodings
import Sightr.Send.Evidence
import Sightr.Checkpoints.Handled
import Sightr.Notify.Subscriptions
import Sightr.Journal.EditDiff
import Sightr.Git.Log
import Sightr.Git.ReviewPatch
import Sightr.Panes.Reads
import Sightr.Herd.Refusals
import Sightr.Files.Archive
import Sightr.Files.ZipComplete
import Sightr.Files.Uploads
import Sightr.Routes.RuntimeSettings
import Sightr.Client.Drafts
import Sightr.Panes.Activity
import Sightr.Dispatch.SplitUploads
import Sightr.Files.ImageCache
import Sightr.Client.LineComments
import Sightr.Client.PinDrop
import Sightr.Store.Life
import Sightr.Client.Delivered
