import Luomi.Edb.Regions
import Luomi.Sdb.CutOff
import Luomi.Sdb.AutoKeys
import Luomi.Util.SkipListRuns
import Luomi.Rpc.AtMostOnce
import Luomi.Vnode.CommitRecovery
import Luomi.Rpc.LossFree
import Luomi.Rpc.SendQueue
import Luomi.Rpc.Bookkeeping
import Luomi.Util.TimerIsolation
import Luomi.Util.DataCacheRuns
import Luomi.Vnode.CommitWindowRuns
import Luomi.Vnode.InsertReplay
import Luomi.Vnode.CommitHeadRuns
import Luomi.Vnode.MeterObjRuns
import Luomi.Vnode.MeterExclusion
import Luomi.Vnode.SubmitRuns
import Luomi.Vnode.SubmitBounds
import Luomi.Vnode.ColumnBlockReads
import Luomi.Client.DistributedKeys
import Luomi.Vnode.PreFilterSound
import Luomi.Vnode.QueryBlockOrder
import Luomi.Client.WhereTranslation
import Luomi.Vnode.OffsetStart
import Luomi.Client.ArithmeticResults
import Luomi.Client.InsertDelivery
import Luomi.Client.SubQueryCompletion
import Luomi.Client.MetricMetaRoundTrip
import Luomi.Vnode.QueryRoundTrip
import Luomi.Util.BoolRunLength
import Luomi.Vnode.ImportLoss
import Luomi.Vnode.CommitInit
import Luomi.Sdb.CatchUp
import Luomi.Edb.ZipRoundTrip
import Luomi.Edb.QueryEnd
import Luomi.Client.ConnCacheRuns
import Luomi.Mgmt.GateRuns
import Luomi.Util.IdPoolRuns
import Luomi.Util.Interpolation
import Luomi.Util.LoserTreeMerge
import Luomi.Util.SkipListKeys
import Luomi.Base.HashChains
import Luomi.Sdb.IntHash
import Luomi.Util.DataCacheLife
import Luomi.Vnode.ImportBuffers
import Luomi.Client.MinMaxScan
import Luomi.Vnode.InterpolationSearch
import Luomi.Util.TimeZones
import Luomi.Util.StrHash
import Luomi.Util.LogRing
