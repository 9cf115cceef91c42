import PleRowServer.Client.CallSpec
import PleRowServer.Export.Digest
import PleRowServer.Base.Words
import PleRowServer.Daemon.Codec
import PleRowServer.Tools.Recharge
import PleRowServer.Wire.Agree
import PleRowServer.Daemon.Gather
import PleRowServer.Base.Lts
import PleRowServer.Daemon.Slots
import PleRowServer.Daemon.Recharge
import PleRowServer.Daemon.SweepReport
import PleRowServer.Daemon.Sweeps
import PleRowServer.Client.InfoSpec
import PleRowServer.Client.InitSpec
import PleRowServer.Client.Split
import PleRowServer.Client.Usage
import PleRowServer.Daemon.Framing
import PleRowServer.Daemon.Answers
import PleRowServer.Daemon.Session
import PleRowServer.Daemon.Rounds
import PleRowServer.Daemon.Progress
import PleRowServer.Daemon.Replies
import PleRowServer.Client.Honest
import PleRowServer.Client.Between
import PleRowServer.Client.Accepted
import PleRowServer.Daemon.Logging
import PleRowServer.Bench.Gaps
import PleRowServer.Bench.KvSizing
import PleRowServer.Daemon.Pages
import PleRowServer.Daemon.Shutdown
import PleRowServer.Export.Main
import PleRowServer.Tools.Verdict
import PleRowServer.Client.Rows
import PleRowServer.Client.Sites
import PleRowServer.Client.Sent
import PleRowServer.Client.Live
import PleRowServer.Client.Contiguous
import PleRowServer.Client.Threads
import PleRowServer.Client.Views
import PleRowServer.Client.Checkpoint
import PleRowServer.Client.Deadline
import PleRowServer.Client.Stretch
import PleRowServer.Client.Discipline
import PleRowServer.Base.Pairs
import PleRowServer.Client.Twin
import PleRowServer.Client.Refused
import PleRowServer.Client.Interrupted
import PleRowServer.Client.Moved
import PleRowServer.Client.Watched
import PleRowServer.Client.Reissued
