import GreenCommunity.Auth.SingleUse
import GreenCommunity.Auth.Revocation
import GreenCommunity.Auth.Acceptance
import GreenCommunity.Auth.ReuseDetection
import GreenCommunity.Auth.Interleaving
import GreenCommunity.Auth.Index
import GreenCommunity.Auth.AccountLimit
import GreenCommunity.Auth.FailedLogins
import GreenCommunity.Auth.FailedRefresh
import GreenCommunity.Auth.RetryAfter
import GreenCommunity.Auth.IpLimit
import GreenCommunity.Auth.Budgets
import GreenCommunity.Menus.Invariant
import GreenCommunity.Menus.Concurrency
import GreenCommunity.Menus.Conflicts
import GreenCommunity.Menus.Reuse
import GreenCommunity.Menus.Assembly
import GreenCommunity.Likes.StaleReads
import GreenCommunity.Core.Logging
import GreenCommunity.Board.Moderation
import GreenCommunity.Board.Deletion
import GreenCommunity.Board.Decisions
import GreenCommunity.Board.Entitlement
import GreenCommunity.Board.Queue
import GreenCommunity.Board.Deciding
import GreenCommunity.Board.Mentions
import GreenCommunity.Board.Orphans
import GreenCommunity.Board.Footprint
import GreenCommunity.Board.Views
import GreenCommunity.Board.Uploads
import GreenCommunity.Board.Images
import GreenCommunity.PartialUpdates
import GreenCommunity.Users.Signup
import GreenCommunity.Users.Lockout
import GreenCommunity.Core.Masking
import GreenCommunity.Infrastructure.Synchronize
import GreenCommunity.Menus.Ancestors
import GreenCommunity.Core.Config
import GreenCommunity.Migrations.Revisions
import GreenCommunity.Base.Undo
import GreenCommunity.Migrations.Downgrades
import GreenCommunity.Board.Lookups
import GreenCommunity.Board.Journal
import GreenCommunity.Board.Writes
import GreenCommunity.Board.References
import GreenCommunity.Board.Inert
import GreenCommunity.Board.Numbers
import GreenCommunity.Board.Removal
import GreenCommunity.Auth.Browsers
import GreenCommunity.Auth.Drains
