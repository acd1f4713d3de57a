import Ze.AttrPool.Counts
import Ze.AttrPool.Sharing
import Ze.AttrPool.BySlot
import Ze.Rib.PathLength
import Ze.Rib.Explain
import Ze.Rib.Multipath
import Ze.Rib.BestPrev
import Ze.LocRib.Ties
import Ze.LocRib.Lpm
import Ze.Rpki.Downstream
import Ze.Rpki.AspaTracker
import Ze.Rpki.RtrSession
import Ze.AdjRibIn.Replay
import Ze.Fib.Families
import Ze.SysRib.StepBack
import Ze.SysRib.Arrival
import Ze.SysRib.Locks
import Ze.SysRib.Publication
import Ze.L2tp.Queueing
import Ze.L2tp.Delivery
import Ze.Reactor.Owing
import Ze.Gr.Callbacks
import Ze.Isis.Exact
import Ze.Isis.Acknowledge
import Ze.IsisSpf.Ties
import Ze.IsisSpf.TwoWay
import Ze.OspfSpf.NextHops
import Ze.OspfSpf.Install
import Ze.Flow.Matchable
import Ze.Flow.RoundTrip
import Ze.Flow.Compare
import Ze.Isis.SequenceRuns
import Ze.Vrrp.Election
import Ze.Vrrp.Timers
import Ze.AsPath.Rails
import Ze.Nlri.Withdrawal
import Ze.RibStorage.RoundTrip
import Ze.Forward.Opaque
import Ze.Forward.Reframed
import Ze.Nlri.Chunk
import Ze.Nlri.Drop
import Ze.Bfd.Detection
import Ze.Bfd.Auth
import Ze.Dhcp.Declined
import Ze.Zefs.Batch
import Ze.OspfLsdb.Checksum
import Ze.OspfNeighbor.Agreement
import Ze.BgpFsm.Established
import Ze.SeqMap.Map
