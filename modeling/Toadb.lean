import Toadb.Lib.Transition
import Toadb.Storage.TupleHeader
import Toadb.Transaction.Snapshot
import Toadb.Transaction.SnapshotTheorems
import Toadb.Transaction.Control
import Toadb.Transaction.ControlTheorems
import Toadb.Transaction.IsolationTheorems
import Toadb.Transaction.RollbackTheorems
import Toadb.Buffer.HashTable
import Toadb.Buffer.HashTableTheorems
import Toadb.Buffer.Pool
import Toadb.Buffer.PoolTheorems
import Toadb.Buffer.PinTheorems
import Toadb.Lib.Bytes
import Toadb.Storage.RowData
import Toadb.Storage.Page
import Toadb.Storage.PageTheorems
import Toadb.Storage.TableFile
import Toadb.Storage.TableFileTheorems
import Toadb.Storage.UpdateTheorems
import Toadb.Storage.ReadBackTheorems
import Toadb.Storage.LayoutTheorems
import Toadb.Storage.VersionTheorems
import Toadb.Storage.Smgr
import Toadb.Storage.SmgrPageTheorems
import Toadb.Storage.VersionRead
import Toadb.Storage.VersionReadTheorems
import Toadb.Executor.ScanTableTheorems
import Toadb.Lib.VersionedTable
import Toadb.Executor.TableStore
import Toadb.Executor.TableStoreTheorems
import Toadb.Executor.TableHistoryTheorems
import Toadb.Lib.Pipeline
import Toadb.Executor.ExecSelect
import Toadb.Executor.ExecSelectTheorems
import Toadb.Executor.SelectStmtTheorems
import Toadb.Executor.ExecUpdateSelect
import Toadb.Executor.ScanRowTheorems
import Toadb.Executor.ModifyRowsTheorems
import Toadb.Executor.ModifyStmtTheorems
import Toadb.Executor.NestLoop
import Toadb.Executor.NestLoopTheorems
import Toadb.Executor.UpdateRowTheorems
import Toadb.Storage.ChainTheorems
import Toadb.Storage.ChainLinkTheorems
import Toadb.Executor.ModifyLocks
import Toadb.Executor.ModifyLocksTheorems
import Toadb.Executor.RowLocks
import Toadb.Executor.RowLocksTheorems
import Toadb.Lock.LocalLockTheorems
import Toadb.Transaction.SysGlobal
import Toadb.Transaction.SysGlobalTheorems
import Toadb.Lib.Framing
import Toadb.Portal.Netclient
import Toadb.Portal.NetclientTheorems
import Toadb.Portal.Servprocess
import Toadb.Portal.ServprocessTheorems
import Toadb.Portal.Tsqlclient
import Toadb.Portal.TsqlclientTheorems
import Toadb.Executor.ValueScan
import Toadb.Executor.ValueScanTheorems
import Toadb.Plan.QueryTheorems
import Toadb.Executor.ExecExpre
import Toadb.Executor.ExecExpreTheorems
import Toadb.Executor.ColumnFetch
import Toadb.Executor.ColumnFetchTheorems
import Toadb.Buffer.AllocBuffer
import Toadb.Buffer.AllocBufferTheorems
import Toadb.Executor.ExecProject
import Toadb.Executor.ExecProjectTheorems
import Toadb.Executor.PaxInsert
import Toadb.Executor.PaxInsertTheorems
import Toadb.Lib.DList
import Toadb.Portal.SessionTheorems
import Toadb.Portal.ThreadPool
import Toadb.Portal.ThreadPoolTheorems
import Toadb.Portal.ToadMainTheorems
import Toadb.Storage.AlignmentTheorems
import Toadb.Storage.RelCache
import Toadb.Storage.RelCacheTheorems
import Toadb.Storage.VirtualFiles
import Toadb.Storage.VirtualFilesTheorems
import Toadb.Buffer.FreeList
import Toadb.Buffer.FreeListTheorems
import Toadb.Buffer.GroupMembers
import Toadb.Buffer.GroupMembersTheorems
import Toadb.Buffer.HashTableLayoutTheorems
import Toadb.Buffer.HashTableMap
import Toadb.Buffer.HashTableMapTheorems
import Toadb.Executor.ColumnDecode
import Toadb.Executor.ColumnDecodeTheorems
import Toadb.Executor.IntegerExpreTheorems
import Toadb.Portal.RowText
import Toadb.Portal.RowTextTheorems
import Toadb.Storage.UndoPageTheorems
import Toadb.Executor.DeleteRowTheorems
import Toadb.Executor.ExecTable
import Toadb.Executor.ExecTableTheorems
import Toadb.Lib.Forest
import Toadb.Lib.Precedence
import Toadb.Lib.Scanner
import Toadb.Mem.Contexts
import Toadb.Mem.MemBlockTheorems
import Toadb.Mem.MemPageListTheorems
import Toadb.Mem.MemStackTheorems
import Toadb.Parser.ExprTextTheorems
import Toadb.Parser.StringLiteralTheorems
import Toadb.Plan.NodeList
import Toadb.Plan.NodeListTheorems
import Toadb.Plan.PlanTheorems
import Toadb.Plan.TargetListTheorems
import Toadb.Portal.NetPort
import Toadb.Portal.NetPortTheorems
import Toadb.Dlist.DListNode
import Toadb.Dlist.DListNodeTheorems
import Toadb.Lib.FetchMax
import Toadb.Lock.RWLock
import Toadb.Lock.RWLockTheorems
import Toadb.Lock.SpinLock
import Toadb.Lock.SpinLockTheorems
import Toadb.Plan.DelListTheorems
import Toadb.Transaction.Xtid
import Toadb.Transaction.XtidTheorems
import Toadb.Executor.UpdateStmtTheorems
