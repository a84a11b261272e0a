import PacketTrace.Main
import PacketTrace.Proofs.Command.Analyze
import PacketTrace.Proofs.Report.Balance
import PacketTrace.Proofs.Report.Streaming
import PacketTrace.Proofs.Float.Order
import PacketTrace.Proofs.Report.Split
import PacketTrace.Proofs.Json.Reader
import PacketTrace.Proofs.Json.Container
import PacketTrace.Proofs.Json.Numeral
import PacketTrace.Proofs.Decimal.Shortest
import PacketTrace.Proofs.Json.FloatText
import PacketTrace.Proofs.Report.Saved
import PacketTrace.Proofs.Report.Document
import PacketTrace.Proofs.Json.Value
import PacketTrace.Proofs.Command.Reload
import PacketTrace.Proofs.Report.Version
import PacketTrace.Proofs.Float.Magnitude
import PacketTrace.Proofs.Decimal.Size
import PacketTrace.Proofs.Json.FloatValue
import PacketTrace.Proofs.Report.Bounds
import PacketTrace.Proofs.Command.TraceReport
import PacketTrace.Proofs.Report.Reorder
import PacketTrace.Proofs.Text.Search
import PacketTrace.Proofs.Event.Anchors
import PacketTrace.Proofs.Command.Failure
import PacketTrace.Proofs.Command.Delivery
import PacketTrace.Proofs.Files.Path
import PacketTrace.Proofs.Event.Sequence
import PacketTrace.Proofs.Event.PacketKind
import PacketTrace.Proofs.Report.ProblemLines
import PacketTrace.Proofs.Report.Respacing
import PacketTrace.Proofs.Report.Distribution
import PacketTrace.Proofs.Report.Times
import PacketTrace.Proofs.Report.Rendering
import PacketTrace.Proofs.Event.FlagList
import PacketTrace.Proofs.Report.Figures
