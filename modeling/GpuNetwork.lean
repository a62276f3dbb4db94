import GpuNetwork.Store.Db
import GpuNetwork.Store.Program
import GpuNetwork.Store.Interleave
import GpuNetwork.Store.Logic
import GpuNetwork.ControlPlane.Model
import GpuNetwork.ControlPlane.Schema
import GpuNetwork.ControlPlane.Api
import GpuNetwork.ControlPlane.Repositories
import GpuNetwork.ControlPlane.Accounts
import GpuNetwork.ControlPlane.JobService
import GpuNetwork.ControlPlane.NodeService
import GpuNetwork.ControlPlane.Server
import GpuNetwork.Store.Soundness
import GpuNetwork.Store.Serial
import GpuNetwork.Commits.Shape
import GpuNetwork.Commits.Statements
import GpuNetwork.Commits.Jobs
import GpuNetwork.Commits.Nodes
import GpuNetwork.Commits.Accounts
import GpuNetwork.Commits.Effects
import GpuNetwork.Commits.OneAtATime
import GpuNetwork.Jobs.StateMachine
import GpuNetwork.Jobs.Cancellation
import GpuNetwork.Jobs.Assignment
import GpuNetwork.Jobs.Billing
import GpuNetwork.Jobs.Occupancy
import GpuNetwork.Jobs.Columns
import GpuNetwork.Jobs.Pinning
import GpuNetwork.Nodes.Drain
import GpuNetwork.Nodes.Registration
import GpuNetwork.Nodes.Removal
import GpuNetwork.Nodes.Authority
import GpuNetwork.Audit.Replay
import GpuNetwork.Jobs.Limits
import GpuNetwork.Jobs.Credits
import GpuNetwork.Text.Base64
import GpuNetwork.Text.Json
import GpuNetwork.ControlPlane.Pagination
import GpuNetwork.ControlPlane.Listings
import GpuNetwork.Accounts.Authentication
import GpuNetwork.Accounts.Privileges
import GpuNetwork.Agent.LogPump
import GpuNetwork.Agent.JobOutput
import GpuNetwork.Store.Unique
import GpuNetwork.Jobs.LogTail
import GpuNetwork.Store.Alone
import GpuNetwork.Commits.Alone
import GpuNetwork.Jobs.CancelSignal
import GpuNetwork.Audit.Compute
import GpuNetwork.Commits.Footprint
import GpuNetwork.Accounts.Tokens
import GpuNetwork.Accounts.Credentials
import GpuNetwork.Accounts.Issuing
import GpuNetwork.Jobs.Privacy
import GpuNetwork.Store.InTurn
import GpuNetwork.Jobs.Scheduling
import GpuNetwork.Jobs.Images
import GpuNetwork.Jobs.LogStore
import GpuNetwork.Agent.LogBuffer
import GpuNetwork.Agent.Pipes
import GpuNetwork.ControlPlane.Cursors
import GpuNetwork.ControlPlane.EmailSearch
import GpuNetwork.Accounts.Passwords
import GpuNetwork.Store.Fits
import GpuNetwork.ControlPlane.Numbers
import GpuNetwork.Nodes.Metrics
import GpuNetwork.Agent.Daemon
import GpuNetwork.Agent.Fleet
import GpuNetwork.Agent.Handover
import GpuNetwork.Store.Amid
import GpuNetwork.Jobs.Canceller
import GpuNetwork.Agent.Custody
import GpuNetwork.Agent.Abort
import GpuNetwork.Agent.Holding
import GpuNetwork.Agent.Forsaken
import GpuNetwork.Agent.Outcome
import GpuNetwork.Store.Journal
import GpuNetwork.Commits.AllOrNothing
import GpuNetwork.Nodes.Sticky
import GpuNetwork.Store.Seen
import GpuNetwork.Accounts.Grants
import GpuNetwork.Accounts.Revocation
