import T2u.Acknowledge
import T2u.Close
import T2u.Examined
import T2u.OneSession
import T2u.PartialResponse
import T2u.RbMap
import T2u.Requests
import T2u.RuleRegistry
import T2u.Runner
import T2u.SessionRegistry
import T2u.UseAfterDelete
import T2u.Window
import T2u.Wire
import T2u.Backed
import T2u.DeleteLoops
import T2u.KeyConsistency
import T2u.WakeUps
import T2u.Isolation
import T2u.ReceiveQueue
import T2u.Drained
import T2u.DeferredClose
import T2u.BufferCounts
import T2u.ConnectAnswer
import T2u.RetryLimit
import T2u.BackPressure
import T2u.Unknown
import T2u.Log
import T2u.Missing
import T2u.IdleTimeout
import T2u.RbSafety
import T2u.RbTable
import T2u.EndToEnd
import T2u.NoDeadEnd
import T2u.CallsReturn
import T2u.GlobalRunner
import T2u.RunnerLifetime
