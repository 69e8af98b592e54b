import Wavm.Runtime.Table.Grow
import Wavm.Runtime.Table.Element

/-!
# The process around the tables

The host API creates, clones and destroys tables inside a process whose state the table code
reads and writes: the heap of `Table` objects, the global `tables` vector that
`isAddressOwnedByTable` scans, each compartment's id map and `tableBases` array, the resource
quotas, the module instances whose element segments `table.init` reads, and the calls made to
the platform's virtual-memory layer.  `World` holds all of it.

The answers the platform gives (what `allocateVirtualPages` returns, whether a commit succeeds)
are arguments of the functions that call it.  A fatal error (`errorUnless`, `insertOrFail` or
`removeOrFail` failing) ends the process: those functions return `none`.
-/

namespace Wavm.Runtime

/-- `IR::Elem::Type`. -/
inductive ElemType
  | refNull
  | refFunc
  deriving DecidableEq, Repr

/-- `IR::Elem`: a null reference or a function index of the module instance. -/
structure Elem where
  type : ElemType
  index : Uptr
  deriving DecidableEq, Repr

/-- The parts of a `ModuleInstance` that `Table.cpp` reads and writes. -/
structure ModuleInstance where
  /-- `functions[i]`, the address of each function of the instance. -/
  functions : Uptr → Uptr
  /-- `elemSegments[i]`, the shared element vector, null once dropped. -/
  elemSegments : Uptr → Option (List Elem)

/-- The parts of a `Compartment` that `Table.cpp` reads and writes. -/
structure Compartment where
  /-- `tables`, the compartment's `IndexMap` from ids to tables. -/
  tables : Uptr → Option TableRef
  /-- `runtimeData->tableBases`, read by compiled code. -/
  tableBases : Uptr → Uptr
  /-- The number of ids the `tables` map hands out. -/
  maxTables : Uptr

namespace Compartment

/-- Modelled from the spec: `IndexMap::add(failIndex, element)` (`IndexMap` is not under
`src/`) takes the least unused id below the capacity, or returns `failIndex` when all are
used. -/
def add (compartment : Compartment) (failIndex : Uptr) (table : TableRef) : Compartment × Uptr :=
  match (List.range compartment.maxTables.toNat).find?
      (fun i => (compartment.tables (BitVec.ofNat 64 i)).isNone) with
  | some i =>
    let id := BitVec.ofNat 64 i
    ({ compartment with tables := Function.update compartment.tables id (some table) }, id)
  | none => (compartment, failIndex)

/-- Modelled from the spec: `IndexMap::insertOrFail`, a fatal error on a used id. -/
def insertOrFail (compartment : Compartment) (index : Uptr) (table : TableRef) :
    Option Compartment :=
  match compartment.tables index with
  | some _ => none
  | none => some { compartment with tables := Function.update compartment.tables index (some table) }

/-- Modelled from the spec: `IndexMap::removeOrFail`, a fatal error on an unused id. -/
def removeOrFail (compartment : Compartment) (index : Uptr) : Option Compartment :=
  match compartment.tables index with
  | none => none
  | some _ => some { compartment with tables := Function.update compartment.tables index none }

theorem insertOrFail_eq_some {compartment compartment' : Compartment} {index : Uptr}
    {table : TableRef} (h : compartment.insertOrFail index table = some compartment') :
    compartment.tables index = none ∧
      compartment' = { compartment with
        tables := Function.update compartment.tables index (some table) } := by
  unfold insertOrFail at h
  split at h
  · cases h
  · exact ⟨‹_›, (Option.some_inj.mp h).symm⟩

/-- `runtimeData->tableBases[index] = base`. -/
def setTableBase (compartment : Compartment) (index base : Uptr) : Compartment :=
  { compartment with tableBases := Function.update compartment.tableBases index base }

/-- `add` either hands out an unused id below the capacity, which is never `UINTPTR_MAX`, or
returns `failIndex` and leaves the map as it was. -/
theorem add_eq (compartment : Compartment) (failIndex : Uptr) (table : TableRef) :
    compartment.add failIndex table = (compartment, failIndex) ∨
      ∃ id, id ≠ uintptrMax ∧ compartment.tables id = none ∧
        compartment.add failIndex table =
          ({ compartment with tables := Function.update compartment.tables id (some table) }, id) := by
  unfold add
  split
  · rename_i i hfind
    have hnone := List.find?_some hfind
    have hi := List.mem_range.mp (List.mem_of_find?_eq_some hfind)
    have hlt := compartment.maxTables.isLt
    refine .inr ⟨_, fun h => ?_, by simpa using hnone, rfl⟩
    have htoNat := congrArg BitVec.toNat h
    rw [BitVec.toNat_ofNat, Nat.mod_eq_of_lt (by omega)] at htoNat
    exact absurd htoNat (by simp [uintptrMax]; omega)
  · exact .inl rfl

end Compartment

/-- A call the table code makes to the platform's virtual-memory layer. -/
inductive PlatformCall
  | allocateVirtualPages (numPages result : Uptr)
  | freeVirtualPages (baseAddress numPages : Uptr)
  deriving DecidableEq, Repr

/-- The process state the table code reads and writes. -/
structure World where
  /-- The `Table` objects, by address. -/
  heap : TableRef → Table
  /-- Which `Table` objects are allocated: `new`ed and not yet `delete`d. -/
  live : TableRef → Bool
  /-- The address the next `new Table` returns. -/
  nextTable : TableRef
  /-- The global `tables` vector. -/
  tables : List TableRef
  compartments : CompartmentRef → Compartment
  quotas : Quotas
  moduleInstances : ModuleRef → ModuleInstance
  /-- `asReferenceType(getExternType(object))` of every object. -/
  referenceTypes : Uptr → ReferenceType
  /-- Every call made to the platform's virtual-memory layer, in order. -/
  platformCalls : List PlatformCall

variable (host : Host)

namespace World

def setTable (w : World) (ref : TableRef) (table : Table) : World :=
  { w with heap := Function.update w.heap ref table }

def setCompartment (w : World) (ref : CompartmentRef) (compartment : Compartment) : World :=
  { w with compartments := Function.update w.compartments ref compartment }

def logPlatformCall (w : World) (call : PlatformCall) : World :=
  { w with platformCalls := w.platformCalls ++ [call] }

/-- `new Table(...)`: a fresh address holding the given object. -/
def newTable (w : World) (table : Table) : World × TableRef :=
  ({ w with
    heap := Function.update w.heap w.nextTable table
    live := Function.update w.live w.nextTable true
    nextTable := w.nextTable + 1 }, w.nextTable)

@[simp] theorem newTable_snd (w : World) (table : Table) : (w.newTable table).2 = w.nextTable := rfl

@[simp] theorem newTable_heap (w : World) (table : Table) :
    (w.newTable table).1.heap = Function.update w.heap w.nextTable table := rfl

@[simp] theorem newTable_live (w : World) (table : Table) :
    (w.newTable table).1.live = Function.update w.live w.nextTable true := rfl

@[simp] theorem newTable_nextTable (w : World) (table : Table) :
    (w.newTable table).1.nextTable = w.nextTable + 1 := rfl

@[simp] theorem newTable_tables (w : World) (table : Table) :
    (w.newTable table).1.tables = w.tables := rfl

@[simp] theorem newTable_compartments (w : World) (table : Table) :
    (w.newTable table).1.compartments = w.compartments := rfl

@[simp] theorem newTable_quotas (w : World) (table : Table) :
    (w.newTable table).1.quotas = w.quotas := rfl

@[simp] theorem newTable_moduleInstances (w : World) (table : Table) :
    (w.newTable table).1.moduleInstances = w.moduleInstances := rfl

@[simp] theorem newTable_platformCalls (w : World) (table : Table) :
    (w.newTable table).1.platformCalls = w.platformCalls := rfl

@[simp] theorem setTable_heap (w : World) (ref : TableRef) (table : Table) :
    (w.setTable ref table).heap = Function.update w.heap ref table := rfl

@[simp] theorem setTable_live (w : World) (ref : TableRef) (table : Table) :
    (w.setTable ref table).live = w.live := rfl

@[simp] theorem setTable_nextTable (w : World) (ref : TableRef) (table : Table) :
    (w.setTable ref table).nextTable = w.nextTable := rfl

@[simp] theorem setTable_tables (w : World) (ref : TableRef) (table : Table) :
    (w.setTable ref table).tables = w.tables := rfl

@[simp] theorem setTable_compartments (w : World) (ref : TableRef) (table : Table) :
    (w.setTable ref table).compartments = w.compartments := rfl

@[simp] theorem setTable_quotas (w : World) (ref : TableRef) (table : Table) :
    (w.setTable ref table).quotas = w.quotas := rfl

@[simp] theorem setTable_moduleInstances (w : World) (ref : TableRef) (table : Table) :
    (w.setTable ref table).moduleInstances = w.moduleInstances := rfl

@[simp] theorem setTable_referenceTypes (w : World) (ref : TableRef) (table : Table) :
    (w.setTable ref table).referenceTypes = w.referenceTypes := rfl

@[simp] theorem setTable_platformCalls (w : World) (ref : TableRef) (table : Table) :
    (w.setTable ref table).platformCalls = w.platformCalls := rfl

@[simp] theorem setCompartment_heap (w : World) (ref : CompartmentRef) (c : Compartment) :
    (w.setCompartment ref c).heap = w.heap := rfl

@[simp] theorem setCompartment_live (w : World) (ref : CompartmentRef) (c : Compartment) :
    (w.setCompartment ref c).live = w.live := rfl

@[simp] theorem setCompartment_nextTable (w : World) (ref : CompartmentRef) (c : Compartment) :
    (w.setCompartment ref c).nextTable = w.nextTable := rfl

@[simp] theorem setCompartment_tables (w : World) (ref : CompartmentRef) (c : Compartment) :
    (w.setCompartment ref c).tables = w.tables := rfl

@[simp] theorem setCompartment_compartments (w : World) (ref : CompartmentRef) (c : Compartment) :
    (w.setCompartment ref c).compartments = Function.update w.compartments ref c := rfl

@[simp] theorem setCompartment_quotas (w : World) (ref : CompartmentRef) (c : Compartment) :
    (w.setCompartment ref c).quotas = w.quotas := rfl

@[simp] theorem setCompartment_moduleInstances (w : World) (ref : CompartmentRef)
    (c : Compartment) : (w.setCompartment ref c).moduleInstances = w.moduleInstances := rfl

@[simp] theorem setCompartment_referenceTypes (w : World) (ref : CompartmentRef)
    (c : Compartment) : (w.setCompartment ref c).referenceTypes = w.referenceTypes := rfl

@[simp] theorem setCompartment_platformCalls (w : World) (ref : CompartmentRef)
    (c : Compartment) : (w.setCompartment ref c).platformCalls = w.platformCalls := rfl

@[simp] theorem logPlatformCall_heap (w : World) (call : PlatformCall) :
    (w.logPlatformCall call).heap = w.heap := rfl

@[simp] theorem logPlatformCall_live (w : World) (call : PlatformCall) :
    (w.logPlatformCall call).live = w.live := rfl

@[simp] theorem logPlatformCall_nextTable (w : World) (call : PlatformCall) :
    (w.logPlatformCall call).nextTable = w.nextTable := rfl

@[simp] theorem logPlatformCall_tables (w : World) (call : PlatformCall) :
    (w.logPlatformCall call).tables = w.tables := rfl

@[simp] theorem logPlatformCall_compartments (w : World) (call : PlatformCall) :
    (w.logPlatformCall call).compartments = w.compartments := rfl

@[simp] theorem logPlatformCall_quotas (w : World) (call : PlatformCall) :
    (w.logPlatformCall call).quotas = w.quotas := rfl

@[simp] theorem logPlatformCall_moduleInstances (w : World) (call : PlatformCall) :
    (w.logPlatformCall call).moduleInstances = w.moduleInstances := rfl

@[simp] theorem logPlatformCall_referenceTypes (w : World) (call : PlatformCall) :
    (w.logPlatformCall call).referenceTypes = w.referenceTypes := rfl

@[simp] theorem logPlatformCall_platformCalls (w : World) (call : PlatformCall) :
    (w.logPlatformCall call).platformCalls = w.platformCalls ++ [call] := rfl

@[simp] theorem setCompartment_setCompartment (w : World) (ref : CompartmentRef)
    (c c' : Compartment) : (w.setCompartment ref c).setCompartment ref c' = w.setCompartment ref c' := by
  simp [setCompartment]

/-- The first part of `Table::~Table`: a table with an id leaves its compartment's `tables`
and `tableBases`. -/
def leaveCompartment (w : World) (ref : TableRef) : Option World :=
  let table := w.heap ref
  if table.id ≠ uintptrMax then
    ((w.compartments table.compartment).removeOrFail table.id).map fun compartment =>
      w.setCompartment table.compartment (compartment.setTableBase table.id 0)
  else some w

/-- The rest of `Table::~Table`, and freeing the object: leave the global vector, release the
reservation, refund the quota. -/
def releaseTable (w : World) (ref : TableRef) : World :=
  let table := w.heap ref
  let w := { w with tables := w.tables.erase ref }
  let w := if table.numReservedBytes > 0 then
      w.logPlatformCall (.freeVirtualPages table.elements
        ((table.numReservedBytes >>> host.pageSizeLog2) + numGuardPages))
    else w
  let w := { w with quotas := freeTableElems w.quotas table.resourceQuota table.numElements.toNat }
  { w with live := Function.update w.live ref false }

/-- `delete table`: `Table::~Table`, then freeing the object. -/
def deleteTable (w : World) (ref : TableRef) : Option World :=
  (w.leaveCompartment ref).map (·.releaseTable host ref)

theorem leaveCompartment_of_id_eq {w : World} {ref : TableRef} (h : (w.heap ref).id = uintptrMax) :
    w.leaveCompartment ref = some w := by
  simp [leaveCompartment, h]

theorem leaveCompartment_eq_some {w w' : World} {ref : TableRef}
    (h : w.leaveCompartment ref = some w') :
    w' = w ∨ ((w.heap ref).id ≠ uintptrMax ∧ ∃ compartment,
      (w.compartments (w.heap ref).compartment).removeOrFail (w.heap ref).id = some compartment ∧
      w' = w.setCompartment (w.heap ref).compartment (compartment.setTableBase (w.heap ref).id 0)) := by
  simp only [leaveCompartment] at h
  split at h
  · obtain ⟨compartment, hremove, rfl⟩ := Option.map_eq_some'.mp h
    exact .inr ⟨‹_›, compartment, hremove, rfl⟩
  · exact .inl (Option.some_inj.mp h).symm

@[simp] theorem releaseTable_heap (w : World) (ref : TableRef) :
    (w.releaseTable host ref).heap = w.heap := by
  simp only [releaseTable]; split <;> rfl

@[simp] theorem releaseTable_live (w : World) (ref : TableRef) :
    (w.releaseTable host ref).live = Function.update w.live ref false := by
  simp only [releaseTable]; split <;> rfl

@[simp] theorem releaseTable_nextTable (w : World) (ref : TableRef) :
    (w.releaseTable host ref).nextTable = w.nextTable := by
  simp only [releaseTable]; split <;> rfl

@[simp] theorem releaseTable_tables (w : World) (ref : TableRef) :
    (w.releaseTable host ref).tables = w.tables.erase ref := by
  simp only [releaseTable]; split <;> rfl

@[simp] theorem releaseTable_compartments (w : World) (ref : TableRef) :
    (w.releaseTable host ref).compartments = w.compartments := by
  simp only [releaseTable]; split <;> rfl

@[simp] theorem releaseTable_quotas (w : World) (ref : TableRef) :
    (w.releaseTable host ref).quotas =
      freeTableElems w.quotas (w.heap ref).resourceQuota (w.heap ref).numElements.toNat := by
  simp only [releaseTable]; split <;> rfl

@[simp] theorem releaseTable_moduleInstances (w : World) (ref : TableRef) :
    (w.releaseTable host ref).moduleInstances = w.moduleInstances := by
  simp only [releaseTable]; split <;> rfl

@[simp] theorem releaseTable_referenceTypes (w : World) (ref : TableRef) :
    (w.releaseTable host ref).referenceTypes = w.referenceTypes := by
  simp only [releaseTable]; split <;> rfl

@[simp] theorem releaseTable_platformCalls (w : World) (ref : TableRef) :
    (w.releaseTable host ref).platformCalls = w.platformCalls ++
      if (w.heap ref).numReservedBytes > 0 then
        [.freeVirtualPages (w.heap ref).elements
          (((w.heap ref).numReservedBytes >>> host.pageSizeLog2) + numGuardPages)]
      else [] := by
  simp only [releaseTable]; split <;> simp [logPlatformCall]

/-- `createTableImpl`.  `reservation` is what `allocateVirtualPages` returns. -/
def createTableImpl (w : World) (compartment : CompartmentRef) (type : TableType)
    (debugName : String) (resourceQuota : Option QuotaRef) (reservation : Uptr) :
    Option (World × Option TableRef) := do
  let (w, ref) := w.newTable (Table.new compartment type debugName resourceQuota)
  let w := w.logPlatformCall
    (.allocateVirtualPages (tableMaxPages host + numGuardPages) reservation)
  let w := w.setTable ref { w.heap ref with
    elements := reservation
    numReservedBytes := tableMaxBytes
    numReservedElements := tableMaxElements }
  if reservation = 0 then
    let w ← w.deleteTable host ref
    pure (w, none)
  else pure ({ w with tables := w.tables ++ [ref] }, some ref)

/-- Store the outcome of `growTableImpl` on table `ref`. -/
def applyGrow (w : World) (ref : TableRef) (outcome : GrowOutcome) : World :=
  { w.setTable ref outcome.table with quotas := outcome.quotas }

@[simp] theorem applyGrow_heap (w : World) (ref : TableRef) (outcome : GrowOutcome) :
    (w.applyGrow ref outcome).heap = Function.update w.heap ref outcome.table := rfl

@[simp] theorem applyGrow_live (w : World) (ref : TableRef) (outcome : GrowOutcome) :
    (w.applyGrow ref outcome).live = w.live := rfl

@[simp] theorem applyGrow_nextTable (w : World) (ref : TableRef) (outcome : GrowOutcome) :
    (w.applyGrow ref outcome).nextTable = w.nextTable := rfl

@[simp] theorem applyGrow_tables (w : World) (ref : TableRef) (outcome : GrowOutcome) :
    (w.applyGrow ref outcome).tables = w.tables := rfl

@[simp] theorem applyGrow_compartments (w : World) (ref : TableRef) (outcome : GrowOutcome) :
    (w.applyGrow ref outcome).compartments = w.compartments := rfl

@[simp] theorem applyGrow_quotas (w : World) (ref : TableRef) (outcome : GrowOutcome) :
    (w.applyGrow ref outcome).quotas = outcome.quotas := rfl

@[simp] theorem applyGrow_moduleInstances (w : World) (ref : TableRef) (outcome : GrowOutcome) :
    (w.applyGrow ref outcome).moduleInstances = w.moduleInstances := rfl

@[simp] theorem applyGrow_platformCalls (w : World) (ref : TableRef) (outcome : GrowOutcome) :
    (w.applyGrow ref outcome).platformCalls = w.platformCalls := rfl

/-- `Runtime::createTable`. -/
def createTable (w : World) (compartment : CompartmentRef) (type : TableType) (element : Uptr)
    (debugName : String) (resourceQuota : Option QuotaRef) (reservation : Uptr)
    (commitSucceeds : Bool) : Option (World × Option TableRef) := do
  let (w, created) ← w.createTableImpl host compartment type debugName resourceQuota reservation
  match created with
  | none => pure (w, none)
  | some ref =>
    let element ← (if element = 0 then some host.uninitializedElement
      else if isSubtype (w.referenceTypes element) type.elementType then some element
      else none)
    let outcome ← growTableImpl host w.quotas (w.heap ref) type.size.min true element commitSucceeds
    let w := w.applyGrow ref outcome
    if outcome.oldNumElements.isNone then
      let w ← w.deleteTable host ref
      pure (w, none)
    else
      let (added, id) := (w.compartments compartment).add uintptrMax ref
      let w := (w.setTable ref { w.heap ref with id := id }).setCompartment compartment added
      if id = uintptrMax then
        let w ← w.deleteTable host ref
        pure (w, none)
      else pure (w.setCompartment compartment (added.setTableBase id (w.heap ref).elements), some ref)

/-- The copy loop of `cloneTable`: store each of `count` slots of `source`, from `index` up,
into the same slot of `target`. -/
def copyElements (source : Table) : Nat → Nat → Table → Option Table
  | _, 0, target => some target
  | index, count + 1, target => do
    let value ← source.load host index
    let target ← target.store host index value
    copyElements source (index + 1) count target

/-- Copying slots that lie on committed pages of both tables succeeds and sets exactly those
slots. -/
theorem copyElements_eq {source target : Table} {index count : Nat}
    (hsource : ∀ i, index ≤ i → i < index + count → source.committed (elementPage host i))
    (htarget : ∀ i, index ≤ i → i < index + count → target.committed (elementPage host i)) :
    copyElements host source index count target =
      some { target with slots := fun i =>
        if index ≤ i ∧ i < index + count then source.slots i else target.slots i } := by
  induction count generalizing index target with
  | zero =>
    have hslots : (fun i => if index ≤ i ∧ i < index + 0 then source.slots i else target.slots i) =
        target.slots := funext fun i => if_neg (by omega)
    rw [hslots]
    rfl
  | succ count ih =>
    have hload : source.load host index = some (source.slots index) := by
      simp [Table.load, hsource index le_rfl (by omega)]
    have hstore : target.store host index (source.slots index) =
        some (target.setSlot index (source.slots index)) := by
      simp [Table.store, htarget index le_rfl (by omega)]
    simp only [copyElements, hload, hstore, Option.bind_eq_bind, Option.some_bind]
    rw [@ih (target.setSlot index (source.slots index)) (index + 1)
      (fun i h1 h2 => hsource i (by omega) (by omega))
      (fun i h1 h2 => htarget i (by omega) (by omega))]
    congr 2
    funext i
    by_cases hi : i = index
    · subst hi; simp
    · simp only [Table.setSlot_slots, Function.update_noteq hi]
      congr 1
      exact propext ⟨fun h => ⟨by omega, by omega⟩, fun h => ⟨by omega, by omega⟩⟩

/-- `Runtime::cloneTable`. -/
def cloneTable (w : World) (table : TableRef) (newCompartment : CompartmentRef)
    (reservation : Uptr) (commitSucceeds : Bool) : Option (World × Option TableRef) := do
  let source := w.heap table
  let numElements := source.numElements
  let (w, created) ← w.createTableImpl host newCompartment source.type source.debugName
    source.resourceQuota reservation
  match created with
  | none => pure (w, none)
  | some ref =>
    let outcome ← growTableImpl host w.quotas (w.heap ref) numElements false
      host.uninitializedElement commitSucceeds
    let w := w.applyGrow ref outcome
    if outcome.oldNumElements.isNone then
      let w ← w.deleteTable host ref
      pure (w, none)
    else
      let copied ← copyElements host source 0 numElements.toNat (w.heap ref)
      let copied := { copied with id := source.id }
      let compartment ← (w.compartments newCompartment).insertOrFail source.id ref
      pure ((w.setTable ref copied).setCompartment newCompartment
        (compartment.setTableBase source.id copied.elements), some ref)

/-- The body of the loop of `Runtime::isAddressOwnedByTable`: whether the reservation of table
`ref` holds the address, and the index of the element there. -/
def ownsAddress (w : World) (address : Uptr) (ref : TableRef) : Option (TableRef × Uptr) :=
  let startAddress := (w.heap ref).elements
  let endAddress := (w.heap ref).elements + (w.heap ref).numReservedBytes
  if address ≥ startAddress ∧ address < endAddress then
    some (ref, (address - startAddress) / sizeofElement)
  else none

/-- `Runtime::isAddressOwnedByTable`: the first table of the global vector whose reservation
holds the address, with the index of the element there. -/
def isAddressOwnedByTable (w : World) (address : Uptr) : Option (TableRef × Uptr) :=
  w.tables.findSome? (w.ownsAddress address)

end World

end Wavm.Runtime
