import PulsemqCli.Library.Reactive
import PulsemqCli.Protocol
import PulsemqCli.Client
import PulsemqCli.Publish
import PulsemqCli.Library.FloatingPoint
import PulsemqCli.Library.Clock
import PulsemqCli.Bench.Config
import PulsemqCli.Bench.Schedule
import PulsemqCli.Publish.Acknowledged
import PulsemqCli.Publish.Overheard
import PulsemqCli.Publish.Lines
import PulsemqCli.Receive
import PulsemqCli.Subscribe
import PulsemqCli.Request
import PulsemqCli.Bench.Subscriber
import PulsemqCli.ExactlyOnce
import PulsemqCli.Subscribe.Handled
import PulsemqCli.Subscribe.Granted
import PulsemqCli.Request.Refused
import PulsemqCli.Closing
import PulsemqCli.Closing.Publish
import PulsemqCli.Closing.Commands
import PulsemqCli.Library.Transition
import PulsemqCli.Library.Watchdog
import PulsemqCli.KeepAlive
import PulsemqCli.Library.Framing
import PulsemqCli.Wire
import PulsemqCli.Bench.Publisher
import PulsemqCli.Bench.Publisher.Moves
import PulsemqCli.Bench.Publisher.Window
import PulsemqCli.Bench.Publisher.Runs
import PulsemqCli.Bench.Publisher.Identifiers
import PulsemqCli.Bench.Publisher.Deadlock
import PulsemqCli.Bench.Run
import PulsemqCli.Bench.Readiness
import PulsemqCli.Bench.Latency
import PulsemqCli.Bench.Report
import PulsemqCli.Bench.Publisher.Ledger
import PulsemqCli.Bench.Publisher.Relay
import PulsemqCli.Bench.Publisher.FlowControl
import PulsemqCli.Bench.Publisher.Conservation
import PulsemqCli.Bench.Publisher.Handshake
import PulsemqCli.Transport.Ws
import PulsemqCli.Transport.Ws.Flush
import PulsemqCli.Disconnect
import PulsemqCli.Bench.Scenario
import PulsemqCli.Bench.Snapshot
import PulsemqCli.Bench.ReadEnd
import PulsemqCli.Bench.BrokerDisconnect
import PulsemqCli.Library.Shares
import PulsemqCli.Bench.Publisher.Quota
import PulsemqCli.Bench.Quota
import PulsemqCli.Bench.Publisher.Headers
import PulsemqCli.Bench.EndToEnd
import PulsemqCli.Library.Utf8
import PulsemqCli.Terminal
import PulsemqCli.Bench.Percentiles
import PulsemqCli.Allocation
import PulsemqCli.Replies
import PulsemqCli.Bench.Publisher.Prompt
import PulsemqCli.Library.RoundingError
import PulsemqCli.Library.Potential
import PulsemqCli.Bench.Publisher.Termination
import PulsemqCli.Bench.Termination
import PulsemqCli.Bench.Pace
import PulsemqCli.Pipeline
import PulsemqCli.Library.Triple
import PulsemqCli.Conformance
import PulsemqCli.Cli
import PulsemqCli.Transport.Tls
import PulsemqCli.Connection
import PulsemqCli.Connection.Route
import PulsemqCli.Connection.Password
import PulsemqCli.Connection.Redaction
import PulsemqCli.Bench.Transit
import PulsemqCli.Bench.Throughput
import PulsemqCli.Bench.AckLatency
import PulsemqCli.Request.Order
