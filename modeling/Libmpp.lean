import Libmpp.H264e.Reencode
import Libmpp.EncRef.Indices
import Libmpp.EncRef.History
import Libmpp.H264e.InStep
import Libmpp.Base.TaskInvariant
import Libmpp.Base.SlotHolds
import Libmpp.Base.PacketCopy
import Libmpp.Base.SegmentsListed
import Libmpp.Base.BufferService
import Libmpp.Base.ClusterCount
import Libmpp.Base.SysCfgSize
import Libmpp.H264d.PicOrder
import Libmpp.H264d.Sequences
import Libmpp.H265d.UnusedSets
import Libmpp.H265d.SplitCuts
import Libmpp.H265d.Extradata
import Libmpp.H265d.Poc
import Libmpp.H265d.ShortTerm
import Libmpp.Avs2d.Doi
import Libmpp.CfgIo.Forest
import Libmpp.CfgIo.RoundTrip
import Libmpp.H265d.EosOnce
import Libmpp.Trie.Capacity
import Libmpp.Trie.Import
import Libmpp.Vp9d.HeaderSafe
import Libmpp.Vp9d.RefLife
import Libmpp.Kmpp.Flags
import Libmpp.Dec.WakeUp
import Libmpp.Avs2d.SplitCuts
import Libmpp.Bitstream.Bounds
import Libmpp.Bitstream.Syntax
import Libmpp.Osal.MemDelay
import Libmpp.Base.Bitput
import Libmpp.Base.MetaRuns
import Libmpp.H264d.Avcc
import Libmpp.H264d.SliceLists
import Libmpp.H264d.SubSpsRuns
import Libmpp.Vp9d.Superframe
import Libmpp.Hal.Bufs
import Libmpp.Enc.RcQp
import Libmpp.H265d.ScanCode
import Libmpp.Avs2d.StorageSafe
