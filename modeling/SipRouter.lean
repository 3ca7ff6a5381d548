import SipRouter.Timer.Lag
import SipRouter.Timer.Handler
import SipRouter.Timer.Slow
import SipRouter.Auth.Fresh
import SipRouter.Tcp.Split
import SipRouter.Tcp.Framing
import SipRouter.Tm.Final
import SipRouter.Tm.Busy
import SipRouter.Tm.Fork
import SipRouter.Tm.Match
import SipRouter.Usrloc.WriteBack
import SipRouter.Usrloc.Update
import SipRouter.Mem.Calls
import SipRouter.Dns.Srv
import SipRouter.Dns.Chain
import SipRouter.Blst.Contract
import SipRouter.Tcp.Alias
import SipRouter.Cpl.Time
import SipRouter.Cfg.Transaction
import SipRouter.Cfg.Delivery
import SipRouter.Io.Run
import SipRouter.Parser.Lazy
import SipRouter.Dlg.Conform
import SipRouter.Fwd.Branches
import SipRouter.Perm.IpSet
import SipRouter.PrefixRoute.Tree
import SipRouter.Pdt.Tree
import SipRouter.PrefixRoute.Reload
import SipRouter.Script.Control
import SipRouter.Registrar.MaxContacts
import SipRouter.Registrar.Qvalue
import SipRouter.Rtpp.Consistent
import SipRouter.Rtpp.Ports
import SipRouter.Ctl.Contained
import SipRouter.Pike.Flood
import SipRouter.Tm.Deadlines
