import Ringpop.RingRouting
import Ringpop.Confluence
import Ringpop.BootstrapMerge
import Ringpop.LocalMember
import Ringpop.Healer
import Ringpop.StateTransitions
import Ringpop.Node
import Ringpop.NodeSteps
import Ringpop.NodeInvariant
import Ringpop.RingMirror
import Ringpop.DyingMembers
import Ringpop.MembershipIndex
import Ringpop.NodeReports
import Ringpop.MemberHistory
import Ringpop.Dissemination
import Ringpop.Piggyback
import Ringpop.RequestProxy
import Ringpop.ForwardedRequest
import Ringpop.PingReqSender
import Ringpop.Gossip
import Ringpop.GossipLoop
import Ringpop.DampTimers
import Ringpop.Flappers
import Ringpop.JoinRuns
import Ringpop.RedBlackRuns
import Ringpop.RepeatedCalls
import Ringpop.TreeObjects
import Ringpop.TreeIteration
import Ringpop.PreferenceList
import Ringpop.TerminatedWords
import Ringpop.ChecksumString
import Ringpop.JoinShortcut
import Ringpop.DampQuorum
import Ringpop.HealTargets
import Ringpop.ReverseFullSync
import Ringpop.MiddlewareRuns
import Ringpop.Turns
import Ringpop.MemberIterator
import Ringpop.PeriodicHealer
import Ringpop.Tombstones
import Ringpop.RequestProxySend
import Ringpop.ForwardSends
import Ringpop.InflightRequests
import Ringpop.Groups
import Ringpop.HandleOrProxyAll
import Ringpop.ClientAnswers
import Ringpop.Countdown
import Ringpop.SelfEvictRuns
import Ringpop.Tracer
import Ringpop.TracerStore
import Ringpop.TracerExpiry
import Ringpop.TracerOptions
import Ringpop.TracerAnswers
import Ringpop.TracerDestroy
import Ringpop.Provenance
import Ringpop.Cluster
import Ringpop.Convergence
import Ringpop.ClusterRings
import Ringpop.Suspicion
import Ringpop.TreeHeight
import Ringpop.UpdateRollup
import Ringpop.RetryDiscovery
import Ringpop.FailureDetection
import Ringpop.Lifecycle
import Ringpop.TrafficWork
