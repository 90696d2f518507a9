import Chubby.Library.Runs
import Chubby.Library.Waits
import Chubby.Library.Ballots
import Chubby.Library.LastWrite
import Chubby.Library.Claims
import Chubby.Library.Chains
import Chubby.Library.Mutexes
import Chubby.Library.Extension
import Chubby.Library.Alarms
import Chubby.Library.Floors
import Chubby.Library.Samples
import Chubby.Library.Commits
import Chubby.Library.Descent
import Chubby.Library.Places
import Chubby.Library.Refinement
import Chubby.Common.ThreadPool
import Chubby.Paxos.Store
import Chubby.Paxos.Server
import Chubby.Paxos.Round
import Chubby.Paxos.Election
import Chubby.Paxos.Cluster
import Chubby.Paxos.Event
import Chubby.Paxos.ServerFacts
import Chubby.Paxos.Encoding
import Chubby.Paxos.LockDiscipline
import Chubby.Paxos.Transitions
import Chubby.Paxos.History
import Chubby.Paxos.Threads
import Chubby.Paxos.Sources
import Chubby.Paxos.SlotEffects
import Chubby.Paxos.AcceptedPair
import Chubby.Paxos.Numbers
import Chubby.Paxos.FreshNumbers
import Chubby.Paxos.Promises
import Chubby.Paxos.Forwarding
import Chubby.Paxos.Sections
import Chubby.Paxos.WriteOnce
import Chubby.Paxos.Fencing
import Chubby.Paxos.PromiseSections
import Chubby.Paxos.FastPath
import Chubby.Paxos.Legitimacy
import Chubby.Paxos.ElectionSafety
import Chubby.Paxos.PrepareLoop
import Chubby.Paxos.Calls
import Chubby.Paxos.FaultFree
import Chubby.Paxos.Returning
import Chubby.Paxos.Completion
import Chubby.Paxos.Validity
import Chubby.Paxos.OneValue
import Chubby.Paxos.Decisions
import Chubby.Paxos.Agreement
import Chubby.Paxos.RoundQuorum
import Chubby.Paxos.Selection
import Chubby.Paxos.Convergence
import Chubby.Paxos.CatchUp
import Chubby.Paxos.StableGroup
import Chubby.Paxos.StableStart
import Chubby.Paxos.Exchange
import Chubby.Paxos.Databases
import Chubby.Paxos.Beats
import Chubby.Paxos.GroupSync
import Chubby.Paxos.CircularWait
import Chubby.Paxos.GroupRun
import Chubby.Paxos.ViewChange
import Chubby.Paxos.Detection
import Chubby.Paxos.ElectionRest
import Chubby.Paxos.Applied
import Chubby.Paxos.DoneVector
import Chubby.Paxos.Forget
import Chubby.Lock.Server
import Chubby.Lock.Operations
import Chubby.Lock.Table
import Chubby.Lock.Release
import Chubby.Lock.LeaseRelease
import Chubby.Lock.Wedge
import Chubby.Lock.PendingExpiry
import Chubby.Lock.Interleaving
import Chubby.Lock.Linearization
import Chubby.Lock.KeyLock
import Chubby.Lock.Acknowledged
import Chubby.Lock.Replicated
import Chubby.Lock.ServiceRun
import Chubby.Lock.Cell
import Chubby.Lock.CellEvent
import Chubby.Lock.Exclusion
import Chubby.Lock.KeyOwner
import Chubby.Lock.OwnLocks
import Chubby.Lock.Failover
import Chubby.Lock.SlotNumbers
import Chubby.Lock.QuietPeriod
import Chubby.Lock.LeaderAddress
import Chubby.Lock.Request
import Chubby.Client.Session
import Chubby.Client.Continuity
import Chubby.Client.KeepAlive
import Chubby.Client.Confirmation
