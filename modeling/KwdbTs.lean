import KwdbTs.Storage.Basic
import KwdbTs.Storage.PayloadSlice
import KwdbTs.Storage.PutDataColumnar
import KwdbTs.Storage.PartitionRefs
import KwdbTs.Storage.TagTableRefs
import KwdbTs.Storage.HashRange
import KwdbTs.Engine.ColumnConvert
import KwdbTs.Storage.EntityAlloc
import KwdbTs.Engine.Block
import KwdbTs.Engine.TsIterator
import KwdbTs.Engine.RawIterator
import KwdbTs.Engine.AggIterator
import KwdbTs.Engine.SegmentTable
import KwdbTs.Engine.AggGeneral
import KwdbTs.Engine.AggEdge
import KwdbTs.Engine.AggShortCircuit
import KwdbTs.Engine.TableIterator
import KwdbTs.Exec.Distinct
import KwdbTs.Exec.StorageHandler
import KwdbTs.Storage.WalLog
import KwdbTs.Storage.EntityGroups
import KwdbTs.Storage.TableWalks
import KwdbTs.Storage.TableLifecycle
import KwdbTs.Storage.ColumnInfo
import KwdbTs.Storage.GroupLatches
import KwdbTs.Storage.SnapshotPools
import KwdbTs.Storage.AlterCheck
