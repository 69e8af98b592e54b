import Wavm.Runtime.Host
import Wavm.Runtime.Table.Basic
import Wavm.Runtime.Table.Grow
import Wavm.Runtime.Table.Element
import Wavm.Runtime.Table.World
import Wavm.Runtime.Table.Intrinsics
import Wavm.Runtime.Table.Run
import Wavm.Runtime.Table.Invariant
import Wavm.Runtime.Table.Lifecycle
import Wavm.Runtime.Table.Bulk
import Wavm.Runtime.Table.Narrowing
import Wavm.Runtime.Table.Slots
import Wavm.Runtime.Table.Resources
import Wavm.Runtime.Table.Registry
import Wavm.Runtime.Table.Runs
import Wavm.Runtime.Table.Reservations
import Wavm.Runtime.Table.Concurrent
import Wavm.Runtime.Table.Solo
import Wavm.Runtime.Table.Values
import Wavm.Inline.DenseStaticIntSet
import Wavm.Inline.HashMap
import Wavm.WASTParse.ParseNumbers
import Wavm.WASTParse.Loops
import Wavm.WASTParse.Literals
