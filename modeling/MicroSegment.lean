import MicroSegment.Lib.FirstMatch
import MicroSegment.Lib.AssocFold
import MicroSegment.Lib.RoundRobin
import MicroSegment.Dp.PolicyTypes
import MicroSegment.Dp.PolicyLookup
import MicroSegment.Dp.PolicyRule
import MicroSegment.Dp.PolicyCfg
import MicroSegment.Dp.PolicyTable
import MicroSegment.Dp.PolicyBuild
import MicroSegment.Dp.PolicyInstall
import MicroSegment.Dp.PolicyPaths
import MicroSegment.Agent.DpCtrl
import MicroSegment.Dp.Ctrl
import MicroSegment.Share.Criteria
import MicroSegment.Share.CriteriaSpec
import MicroSegment.Controller.PolicySlots
import MicroSegment.Agent.PolicyConfig
import MicroSegment.Lib.Probe
import MicroSegment.Dpi.Packet
import MicroSegment.Dpi.PacketBounds
import MicroSegment.Lib.FoldRun
import MicroSegment.Agent.IPRule
import MicroSegment.Lib.ListMove
import MicroSegment.Controller.PolicyRuleHeads
import MicroSegment.Dp.Asm
import MicroSegment.Dpi.Frag
import MicroSegment.Lib.RangeFind
import MicroSegment.Dp.Bitmap
import MicroSegment.Lib.MapWalk
import MicroSegment.Dpi.Fqdn
import MicroSegment.Dpi.FqdnInv
import MicroSegment.Dpi.FqdnDelete
import MicroSegment.Dpi.FqdnWildcard
import MicroSegment.Dpi.FqdnSnoop
import MicroSegment.Lib.Decimal
import MicroSegment.Share.Version
import MicroSegment.Share.TimerWheel
import MicroSegment.Lib.Glob
import MicroSegment.Share.EqualMatch
import MicroSegment.Share.PortLink
import MicroSegment.Controller.NormalizePorts
import MicroSegment.Lib.BigEndian
import MicroSegment.Lib.BitPrefix
import MicroSegment.Share.IpNet
import MicroSegment.Share.IpEnclosure
import MicroSegment.Lib.SearchTree
import MicroSegment.Dp.Tree
import MicroSegment.Dp.TreeShape
import MicroSegment.Dp.TreeRemove
import MicroSegment.Dp.TreeWalk
import MicroSegment.Dp.TreeRun
import MicroSegment.Dp.TimerWheel
import MicroSegment.Dp.TimerWheelInv
import MicroSegment.Dp.TimerWheelDue
import MicroSegment.Dp.TimerWheelRoll
import MicroSegment.Dp.TimerWheelRun
import MicroSegment.Share.SubnetMerge
import MicroSegment.Dp.Asn1
import MicroSegment.Dpi.Ssl
