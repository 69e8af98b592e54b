import Wavm.Runtime.Table.Intrinsics

/-!
# Runs of the table subsystem

Every entry point of `Table.cpp` that the host or compiled code can call is one `Op`, carrying
its arguments and the platform's answers.  `World.step` runs one call to completion, including
calls that throw part-way; it is `none` only when the process ends (a fatal error or an access
violation the code does not translate).  `Reachable` is the closure of the process states before
the first table under admissible calls: the callers keep to the API's contract, pass live tables
and never pass the out-of-bounds sentinel, and the platform returns reservations inside the
address space.
-/

namespace Wavm.Runtime

/-- A call into the table subsystem, with the platform's answers for it. -/
inductive Op
  | createTable (compartment : CompartmentRef) (type : TableType) (element : Uptr)
      (debugName : String) (resourceQuota : Option QuotaRef) (reservation : Uptr)
      (commitSucceeds : Bool)
  | cloneTable (table : TableRef) (newCompartment : CompartmentRef) (reservation : Uptr)
      (commitSucceeds : Bool)
  | destroyTable (table : TableRef)
  | growTable (table : TableRef) (numElementsToGrow initialElement : Uptr) (commitSucceeds : Bool)
  | setTableElement (table : TableRef) (index newValue : Uptr)
  | getTableElement (table : TableRef) (index : Uptr)
  | initElemSegment (moduleInstance : ModuleRef) (elemSegmentIndex : Uptr)
      (elemVector : List Elem) (table : TableRef) (destOffset sourceOffset numElems : Uptr)
  | tableGrow (initialValue : Uptr) (deltaNumElements : U32) (table : TableRef)
      (commitSucceeds : Bool)
  | tableSize (table : TableRef)
  | tableGet (index : U32) (table : TableRef)
  | tableSet (index : U32) (value : Uptr) (table : TableRef)
  | tableInit (destIndex sourceIndex numElems : U32) (moduleInstance : ModuleRef)
      (table : TableRef) (elemSegmentIndex : Uptr)
  | elemDrop (moduleInstance : ModuleRef) (elemSegmentIndex : Uptr)
  | tableCopy (destOffset sourceOffset numElements : U32) (sourceTable destTable : TableRef)
  | tableFill (destOffset : U32) (value : Uptr) (numElements : U32) (destTable : TableRef)

variable (host : Host)

namespace World

/-- Run one call to completion. -/
def step (w : World) : Op → Option World
  | .createTable compartment type element debugName resourceQuota reservation commitSucceeds =>
    (w.createTable host compartment type element debugName resourceQuota reservation
      commitSucceeds).map Prod.fst
  | .cloneTable table newCompartment reservation commitSucceeds =>
    (w.cloneTable host table newCompartment reservation commitSucceeds).map Prod.fst
  | .destroyTable table => w.deleteTable host table
  | .growTable table numElementsToGrow initialElement commitSucceeds =>
    (w.growTable host table numElementsToGrow initialElement commitSucceeds).map Prod.fst
  | .setTableElement table index newValue =>
    some (match w.setTableElement host table index newValue with
      | .ok (w', _) => w'
      | .error _ => w)
  | .getTableElement _ _ => some w
  | .initElemSegment moduleInstance elemSegmentIndex elemVector table destOffset sourceOffset
      numElems =>
    some (w.initElemSegment host moduleInstance elemSegmentIndex elemVector table destOffset
      sourceOffset numElems).1
  | .tableGrow initialValue deltaNumElements table commitSucceeds =>
    (w.tableGrow host initialValue deltaNumElements table commitSucceeds).map Prod.fst
  | .tableSize _ => some w
  | .tableGet _ _ => some w
  | .tableSet index value table => some (w.tableSet host index value table).1
  | .tableInit destIndex sourceIndex numElems moduleInstance table elemSegmentIndex =>
    some (w.tableInit host destIndex sourceIndex numElems moduleInstance table elemSegmentIndex).1
  | .elemDrop moduleInstance elemSegmentIndex => some (w.elemDrop moduleInstance elemSegmentIndex).1
  | .tableCopy destOffset sourceOffset numElements sourceTable destTable =>
    some (w.tableCopy host destOffset sourceOffset numElements sourceTable destTable).1
  | .tableFill destOffset value numElements destTable =>
    some (w.tableFill host destOffset value numElements destTable).1

end World

/-- What `allocateVirtualPages` may return for a table's reservation: null, or the base of
fresh address space (no live table's reservation starts there) whose table part ends below the
guard page, inside the address space. -/
def ReservationFresh (w : World) (reservation : Uptr) : Prop :=
  reservation.toNat + tableMaxBytes.toNat < 2 ^ 64 ∧ ∀ ref, w.live ref → (w.heap ref).elements ≠ reservation

/-- The callers' side of the contract: tables passed in are live, no reference argument is the
out-of-bounds sentinel, and the platform's reservations are fresh. -/
def Op.Admissible (w : World) : Op → Prop
  | .createTable _ _ element _ _ reservation _ =>
    element ≠ host.outOfBoundsElement ∧ ReservationFresh w reservation
  | .cloneTable table _ reservation _ => w.live table ∧ ReservationFresh w reservation
  | .destroyTable table => w.live table
  | .growTable table _ initialElement _ => w.live table ∧ initialElement ≠ host.outOfBoundsElement
  | .setTableElement table _ newValue => w.live table ∧ newValue ≠ host.outOfBoundsElement
  | .getTableElement table _ => w.live table
  | .initElemSegment _ _ _ table _ _ _ => w.live table
  | .tableGrow initialValue _ table _ =>
    w.live table ∧ initialValue ≠ host.outOfBoundsElement
  | .tableSize table => w.live table
  | .tableGet _ table => w.live table
  | .tableSet _ value table => w.live table ∧ value ≠ host.outOfBoundsElement
  | .tableInit _ _ _ _ table _ => w.live table
  | .elemDrop _ _ => True
  | .tableCopy _ _ _ sourceTable destTable => w.live sourceTable ∧ w.live destTable
  | .tableFill _ value _ destTable => w.live destTable ∧ value ≠ host.outOfBoundsElement

/-- A process before its first table: no table objects, empty compartments, nothing charged to
any quota, no platform calls yet, and module instances whose functions are real functions. -/
structure World.Initial (w : World) : Prop where
  live_eq : ∀ ref, w.live ref = false
  tables_eq : w.tables = []
  compartment_tables : ∀ compartment id, (w.compartments compartment).tables id = none
  compartment_tableBases : ∀ compartment id, (w.compartments compartment).tableBases id = 0
  quotas_current : ∀ quota, (w.quotas quota).current = 0
  platformCalls_eq : w.platformCalls = []
  functions_ne : ∀ moduleInstance index,
    (w.moduleInstances moduleInstance).functions index ≠ host.outOfBoundsElement

/-- A process on `sampleHost` before its first table: compartments of four ids, quota `0`
allowing 16 elements, module instances whose functions sit at `0x3000`. -/
def sampleInitial : World where
  heap _ := Table.new 0 ⟨.funcref, ⟨0, 0⟩⟩ "" none
  live _ := false
  nextTable := 0
  tables := []
  compartments _ := ⟨fun _ => none, fun _ => 0, 4⟩
  quotas _ := ⟨0, 16⟩
  moduleInstances _ := ⟨fun _ => 0x3000, fun _ => none⟩
  referenceTypes _ := .funcref
  platformCalls := []

theorem sampleInitial_initial : sampleInitial.Initial sampleHost where
  live_eq _ := rfl
  tables_eq := rfl
  compartment_tables _ _ := rfl
  compartment_tableBases _ _ := rfl
  quotas_current _ := rfl
  platformCalls_eq := rfl
  functions_ne _ _ := by show (0x3000 : Uptr) ≠ 0x1000; decide

/-- The process states reachable by admissible calls. -/
inductive Reachable : World → Prop
  | initial {w : World} : w.Initial host → Reachable w
  | step {w w' : World} (op : Op) : Reachable w → op.Admissible host w → w.step host op = some w' →
      Reachable w'

/-- `createTable` of a `funcref` table of type `{min = 2, max = 4}` with a null initial element,
charged to quota `0`, whose reservation the platform places at `0x10000000`. -/
def sampleCreate : Op := .createTable 0 ⟨.funcref, ⟨2, 4⟩⟩ 0 "" (some 0) 0x10000000 true

theorem sampleCreate_isSome : (sampleInitial.step sampleHost sampleCreate).isSome = true := by
  decide

/-- The process after `sampleCreate`: table `0`, with two uninitialised elements. -/
def sampleCreated : World := (sampleInitial.step sampleHost sampleCreate).get sampleCreate_isSome

theorem sampleCreated_reachable : Reachable sampleHost sampleCreated :=
  .step sampleCreate (.initial sampleInitial_initial)
    ⟨by decide, by decide, fun _ h => absurd h Bool.false_ne_true⟩ (Option.some_get _).symm

end Wavm.Runtime
