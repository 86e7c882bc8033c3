import TraderAssist.Kernel.Reread
import TraderAssist.Continuation.Transparency
import TraderAssist.Outcome.Interference
import TraderAssist.Registry.Witness
import TraderAssist.Runtime.Launch
import TraderAssist.Outbox.Dispatch
import TraderAssist.Bronze.Manifest
import TraderAssist.Data.Aggregates
import TraderAssist.Data.Chunking
import TraderAssist.Records.Worklist
import TraderAssist.Planning.Attach
import TraderAssist.Scanner.Compose
import TraderAssist.Correlation.Order
import TraderAssist.E4.Opening
import TraderAssist.E4.Restart
import TraderAssist.Scanner.Total
import TraderAssist.Kernel.Accounting
import TraderAssist.Planning.Depth
import TraderAssist.Planning.Precision
