import HeaviestChain.Header.Mining
import HeaviestChain.Proofs.Chain.Acceptance
import HeaviestChain.Proofs.Chain.ForkChoice
import HeaviestChain.Proofs.Chain.Replay
import HeaviestChain.Service.Basic
import HeaviestChain.Settings
import HeaviestChain.Proofs.Rules.Window
import HeaviestChain.Proofs.Chain.Signals
import HeaviestChain.Proofs.Chain.Atomicity
import HeaviestChain.Proofs.Chain.Retry
import HeaviestChain.Proofs.Hash.Text
import HeaviestChain.Proofs.Record.Json
import HeaviestChain.Proofs.Record.Torn
import HeaviestChain.Proofs.Store.Disk
import HeaviestChain.Proofs.Store.Log
import HeaviestChain.Proofs.Store.Durability
import HeaviestChain.Proofs.Store.Session
import HeaviestChain.Proofs.Chain.Difficulty
import HeaviestChain.Proofs.Chain.MedianTime
import HeaviestChain.Proofs.Chain.ArrivalOrder
import HeaviestChain.Proofs.Chain.Availability
import HeaviestChain.Proofs.Chain.Restart
import HeaviestChain.Proofs.Chain.Interleaving
import HeaviestChain.Proofs.Target.Compact
import HeaviestChain.Proofs.Target.Rounding
import HeaviestChain.Proofs.Rules.Retarget
import HeaviestChain.Proofs.Chain.Succession
import HeaviestChain.Proofs.Chain.Reorganization
import HeaviestChain.Proofs.Target.Order
import HeaviestChain.Proofs.Rules.Scaling
import HeaviestChain.Proofs.Rules.Subsidy
import HeaviestChain.Proofs.Rules.Seeding
import HeaviestChain.Proofs.Record.Framing
import HeaviestChain.Proofs.Rules.Signaling
import HeaviestChain.Proofs.Store.Lines
import HeaviestChain.Proofs.Settings
import HeaviestChain.Proofs.Header.Mining
import HeaviestChain.Proofs.Hash.Grammar
import HeaviestChain.Proofs.Chain.Ancestors
import HeaviestChain.Proofs.Service.View
import HeaviestChain.Proofs.Store.Identity
