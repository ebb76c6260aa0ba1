import AssemblyLine.Framework.Machine
import AssemblyLine.Log.Lifecycle
import AssemblyLine.Round.Frame
import AssemblyLine.Log.EventLog
import AssemblyLine.Round.Collect
import AssemblyLine.Daemon.Fleet
import AssemblyLine.Daemon.Dispatch
import AssemblyLine.Daemon.Serve
import AssemblyLine.Daemon.JobView
import AssemblyLine.Daemon.Moves
import AssemblyLine.Daemon.JobLog
import AssemblyLine.Daemon.Slots
import AssemblyLine.Daemon.Places
import AssemblyLine.Framework.Queue
import AssemblyLine.Framework.Files
import AssemblyLine.Daemon.Line
import AssemblyLine.Daemon.RootLock
import AssemblyLine.Daemon.Cancel
import AssemblyLine.Daemon.Bookmarks
import AssemblyLine.Round.Settle
import AssemblyLine.Run.Claim
import AssemblyLine.Run.Config
import AssemblyLine.Round.Outcome
import AssemblyLine.Run.Prepare
import AssemblyLine.Daemon.RepoKey
import AssemblyLine.Daemon.JobDirs
import AssemblyLine.Daemon.Submit
import AssemblyLine.Runner.Launch
import AssemblyLine.Runner.PodLog
import AssemblyLine.Log.TornLine
import AssemblyLine.Framework.Last
import AssemblyLine.Framework.Scraps
import AssemblyLine.Log.TornAppend
import AssemblyLine.Daemon.Owed
import AssemblyLine.Log.LatestRound
import AssemblyLine.Round.Ruling
import AssemblyLine.Daemon.JobBranch
import AssemblyLine.Round.Wreck
import AssemblyLine.Runner.MergedLines
import AssemblyLine.Runner.Reconnect
import AssemblyLine.Runner.Tail
import AssemblyLine.Runner.Backstop
import AssemblyLine.Framework.Mentions
import AssemblyLine.Runner.Secrets
import AssemblyLine.Round.Readable
import AssemblyLine.Daemon.JobNames
import AssemblyLine.Framework.Slices
import AssemblyLine.Daemon.KeyPaths
import AssemblyLine.Daemon.RemoteNames
import AssemblyLine.Daemon.Spelling
import AssemblyLine.Run.RemoteUrl
import AssemblyLine.Log.CutLog
import AssemblyLine.Daemon.Settles
import AssemblyLine.Daemon.Cancelled
import AssemblyLine.Round.Supervise
import AssemblyLine.Runner.Cluster
import AssemblyLine.Runner.Docker
import AssemblyLine.Round.InClone
import AssemblyLine.Round.Published
