import PuppyTalk.Run
import PuppyTalk.KeyValue
import PuppyTalk.Python
import PuppyTalk.Common
import PuppyTalk.PostIdempotency
import PuppyTalk.PostIdempotencySafety
import PuppyTalk.Table
import PuppyTalk.Db
import PuppyTalk.PostsRepository
import PuppyTalk.Comments
import PuppyTalk.Moderation
import PuppyTalk.CommentCount
import PuppyTalk.MediaRepository
import PuppyTalk.Accounts
import PuppyTalk.ImageLifecycle
import PuppyTalk.ImageCleanup
import PuppyTalk.Password
import PuppyTalk.PasswordHistory
import PuppyTalk.Rotation
import PuppyTalk.Session
import PuppyTalk.RotationProtocol
import PuppyTalk.SessionSafety
import PuppyTalk.AccessToken
import PuppyTalk.RedisHash
import PuppyTalk.ViewCount
import PuppyTalk.ViewCountConservation
import PuppyTalk.MediaTransactions
import PuppyTalk.MediaEffects
import PuppyTalk.MediaObjects
import PuppyTalk.MediaReferences
import PuppyTalk.Transaction
import PuppyTalk.TransactionLogic
import PuppyTalk.TableStatement
import PuppyTalk.Store
import PuppyTalk.Statements
import PuppyTalk.PostTransactions
import PuppyTalk.EditTransactions
import PuppyTalk.ModerationTransactions
import PuppyTalk.AccountTransactions
import PuppyTalk.Backend
import PuppyTalk.ProgramRules
import PuppyTalk.Tally
import PuppyTalk.LikeCount
import PuppyTalk.ReportCount
import PuppyTalk.CommentQueries
import PuppyTalk.CommentPages
import PuppyTalk.CommentDisplay
import PuppyTalk.CursorLists
import PuppyTalk.ChatHistory
import PuppyTalk.ReportedFeed
import PuppyTalk.RecentRooms
import PuppyTalk.DogProfiles
import PuppyTalk.ClientAddress
import PuppyTalk.AccountAccess
import PuppyTalk.StatusStaleness
import PuppyTalk.SuspendedSenders
import PuppyTalk.PublicIds
import PuppyTalk.CommentEdits
import PuppyTalk.Withdrawal
import PuppyTalk.Hashtags
import PuppyTalk.ViewMerge
import PuppyTalk.Anonymity
import PuppyTalk.HashtagTransactions
import PuppyTalk.SignupToken
import PuppyTalk.Fanout
import PuppyTalk.RateLimit
import PuppyTalk.RejectionGate
import PuppyTalk.Process
import PuppyTalk.JsonCache
import PuppyTalk.Locks
import PuppyTalk.Trending
import PuppyTalk.Delivery
import PuppyTalk.Registries
import PuppyTalk.UploadKeys
import PuppyTalk.Decimal
import PuppyTalk.UlidMigration
import PuppyTalk.ModeratedCount
import PuppyTalk.PostDeletion
import PuppyTalk.CleanupLoop
import PuppyTalk.Subscriber
import PuppyTalk.EditConflicts
import PuppyTalk.PostEdits
import PuppyTalk.DirectMessages
