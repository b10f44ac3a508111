import Llmops.Lib.Run
import Llmops.Lib.Slot
import Llmops.Lib.Claim
import Llmops.Lib.Custody
import Llmops.Lib.Text
import Llmops.Lib.Timer
import Llmops.Lib.Tally
import Llmops.Lib.Backoff
import Llmops.Lib.First
import Llmops.Lib.Split
import Llmops.Lib.Shlex
import Llmops.Lib.Window
import Llmops.Lib.Json
import Llmops.Lib.JsonText
import Llmops.Lib.Rename
import Llmops.Instance
import Llmops.Node.Sections
import Llmops.Node.Step
import Llmops.Node.Pass
import Llmops.Node.Resume
import Llmops.Node.Budget
import Llmops.Node.Ownership
import Llmops.Node.GaveUp
import Llmops.Node.Commit
import Llmops.Node.Ready
import Llmops.Node.Recovery
import Llmops.Node.Startup
import Llmops.Node.Converge
import Llmops.Node.Site
import Llmops.Node.Publish
import Llmops.Node.Writeback
import Llmops.Fleet.Place
import Llmops.Fleet.Greedy
import Llmops.Fleet.Step
import Llmops.Fleet.Owner
import Llmops.Leader.Lease
import Llmops.Leader.Elector
import Llmops.Registry.Host
import Llmops.Registry.Kept
import Llmops.Overlay.Snapshot
import Llmops.Overlay.NoLost
import Llmops.Auth.Actor
import Llmops.Auth.Revoke
import Llmops.Bench.Manager
import Llmops.Bench.Admit
import Llmops.Bench.Mutex
import Llmops.Bench.Rows
import Llmops.Bench.Held
import Llmops.Bench.Status
import Llmops.Autoscale.Load
import Llmops.Autoscale.Decide
import Llmops.Autoscale.Ticks
import Llmops.Autoscale.Floors
import Llmops.Autoscale.Windows
import Llmops.Autoscale.Zero
import Llmops.Router.Proxy
import Llmops.Router.Serve
import Llmops.Router.Inflight
import Llmops.Router.Marks
import Llmops.Router.Workers
import Llmops.Router.Persist
import Llmops.Router.Drain
import Llmops.Lib.Utf8
import Llmops.Router.Select
import Llmops.Router.Affinity
import Llmops.Router.Models
import Llmops.Router.Failover
import Llmops.Router.Fallback
import Llmops.Router.Sse
import Llmops.Router.Relay
import Llmops.Config.Schema
import Llmops.Config.Overlay
import Llmops.Config.Merged
import Llmops.Config.Launch
import Llmops.Config.Command
import Llmops.Config.Flags
import Llmops.Config.Settings
import Llmops.Config.Registry
import Llmops.Config.Edits
import Llmops.Config.Atomic
import Llmops.Config.Groups
import Llmops.Config.Agree
import Llmops.Config.Engine
import Llmops.Config.Resolve
import Llmops.Config.Server
import Llmops.Config.Lora
import Llmops.Config.HotLoad
import Llmops.Config.Noop
import Llmops.Config.Delete
import Llmops.Config.Versions
import Llmops.Router.Load
import Llmops.Lib.Conversion
import Llmops.Router.Alike
import Llmops.Leader.Calls
import Llmops.Lib.Erase
import Llmops.Keys.Gate
import Llmops.Keys.Isolated
import Llmops.Keys.RateLimit
import Llmops.Keys.Stale
import Llmops.Config.Paste
import Llmops.Config.Rebuild
import Llmops.Config.LaunchLine
import Llmops.Lib.Merge
import Llmops.Lib.Heap
import Llmops.Config.Layered
import Llmops.Config.Mutation
import Llmops.Config.Ports
import Llmops.Audit.Redact
import Llmops.Embedding.Score
import Llmops.Lib.Lru
import Llmops.Eval.Pages
import Llmops.Eval.Detail
import Llmops.Router.Metrics
import Llmops.Router.PromptPrefix
import Llmops.Lib.Rotation
import Llmops.Router.Fair
import Llmops.Lib.Lapse
import Llmops.Store.Leases
import Llmops.Lib.Script
import Llmops.Store.Migrate
import Llmops.Lib.Signed
import Llmops.Auth.Sso
import Llmops.Auth.Login
import Llmops.Lib.Flight
import Llmops.Downloads.Manager
import Llmops.Downloads.Runs
import Llmops.Lib.Cursor
import Llmops.Audit.Listing
import Llmops.Config.History
import Llmops.Lib.Thin
import Llmops.Alerts.Notifier
import Llmops.Lib.Scrape
import Llmops.Autoscale.Prometheus
import Llmops.Lib.JsonRead
import Llmops.Fleet.Heartbeat
import Llmops.Fleet.Views
import Llmops.Fleet.Stream
import Llmops.Billing.Cost
import Llmops.Embedding.Rerank
import Llmops.Router.LiveAddrs
import Llmops.Lib.SqlText
import Llmops.Store.Dialect
import Llmops.Lib.Ensure
import Llmops.Store.Init
import Llmops.Auth.Roster
import Llmops.Audit.Trail
