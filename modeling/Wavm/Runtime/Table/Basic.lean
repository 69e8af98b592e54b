import Wavm.Runtime.Host

/-!
# Table objects

The `Table` object of `RuntimePrivate.h` as `Table.cpp` reads and writes it, the exceptions the
file raises, and the resource quota's table-element counter.

A table's slots live in its virtual reservation.  The model keeps that memory with the table:
`slots i` is the word at `elements[i]` and `committed p` says whether page `p` of the
reservation has physical backing.  A fresh reservation reads as zero words on no committed
page.  Loading or storing a slot on an uncommitted page is an access violation (`none`); inside
`unwindSignalsAsExceptions` the signal handler turns it into `OutOfBoundsTableAccess`, since the
faulting address lies in the table's reservation.

The table's mutexes are not modelled here: this is the sequential model, in which every call
runs to completion before the next one starts.  `Concurrent` interleaves the slot accesses.
-/

namespace Wavm.Runtime

/-- The address of a `Table` object. -/
abbrev TableRef := Nat

abbrev CompartmentRef := Nat

abbrev QuotaRef := Nat

abbrev ModuleRef := Nat

/-- `IR::ReferenceType`, the element kinds a table can hold. -/
inductive ReferenceType
  | anyref
  | funcref
  | nullref
  deriving DecidableEq, Repr

/-- Modelled from the spec: `IR::isSubtype` on reference types (`IR/Types.h` is not under
`src/`); `nullref` is below `funcref`, and every reference type is below `anyref`. -/
def isSubtype : ReferenceType → ReferenceType → Bool
  | _, .anyref => true
  | .nullref, .funcref => true
  | .funcref, .funcref => true
  | .nullref, .nullref => true
  | _, _ => false

/-- `IR::SizeConstraints`, in elements. -/
structure SizeConstraints where
  min : U64
  max : U64
  deriving DecidableEq, Repr

/-- `IR::TableType`. -/
structure TableType where
  elementType : ReferenceType
  size : SizeConstraints
  deriving DecidableEq, Repr

/-- The exception types `Table.cpp` throws, with the arguments it passes to them. -/
inductive Exception
  | outOfBoundsTableAccess (table : TableRef) (index : U64)
  | outOfBoundsElemSegmentAccess (moduleInstance : ModuleRef) (elemSegmentIndex : U64)
      (sourceIndex : Uptr)
  | invalidArgument
  | uninitializedTableElement (table : TableRef) (index : U64)
  | indirectCallSignatureMismatch
  deriving DecidableEq, Repr

/-! ## Resource quotas -/

/-- Modelled from the spec: the `tableElems` counter of a `ResourceQuota` (`ResourceQuota` is
not under `src/`).  It accounts element-count allocations against a maximum. -/
structure CurrentAndMax where
  current : Nat
  max : Nat
  deriving DecidableEq, Repr

/-- `tableElems.allocate(delta)`: charge `delta`, or refuse if that exceeds the maximum. -/
def CurrentAndMax.allocate (counter : CurrentAndMax) (delta : Nat) : Option CurrentAndMax :=
  if counter.current + delta ≤ counter.max then some ⟨counter.current + delta, counter.max⟩
  else none

/-- `tableElems.free(delta)`. -/
def CurrentAndMax.free (counter : CurrentAndMax) (delta : Nat) : CurrentAndMax :=
  ⟨counter.current - delta, counter.max⟩

/-- The table-element counters of every resource quota of the process. -/
abbrev Quotas := QuotaRef → CurrentAndMax

/-- `!table->resourceQuota || table->resourceQuota->tableElems.allocate(delta)`, with the
counters after the charge. -/
def allocateTableElems (quotas : Quotas) : Option QuotaRef → Nat → Option Quotas
  | none, _ => some quotas
  | some quota, delta => ((quotas quota).allocate delta).map (Function.update quotas quota)

/-- `if(table->resourceQuota) { table->resourceQuota->tableElems.free(delta); }` -/
def freeTableElems (quotas : Quotas) : Option QuotaRef → Nat → Quotas
  | none, _ => quotas
  | some quota, delta => Function.update quotas quota ((quotas quota).free delta)

theorem allocateTableElems_current {quotas charged : Quotas} {quota : Option QuotaRef}
    {delta : Nat} (h : allocateTableElems quotas quota delta = some charged) (q : QuotaRef) :
    (charged q).current =
      (quotas q).current + if quota = some q then delta else 0 := by
  cases quota with
  | none => cases h; simp
  | some r =>
    simp only [allocateTableElems, CurrentAndMax.allocate, Option.map_eq_some'] at h
    obtain ⟨counter, hcounter, rfl⟩ := h
    split at hcounter
    · cases hcounter
      by_cases hq : q = r
      · subst hq; simp
      · simp [Function.update, hq, Ne.symm hq]
    · cases hcounter

theorem freeTableElems_allocateTableElems {quotas charged : Quotas} {quota : Option QuotaRef}
    {delta : Nat} (h : allocateTableElems quotas quota delta = some charged) :
    freeTableElems charged quota delta = quotas := by
  cases quota with
  | none => cases h; rfl
  | some r =>
    simp only [allocateTableElems, CurrentAndMax.allocate, Option.map_eq_some'] at h
    obtain ⟨counter, hcounter, rfl⟩ := h
    split at hcounter
    · cases hcounter
      funext q
      by_cases hq : q = r
      · subst hq; simp [freeTableElems, CurrentAndMax.free]
      · simp [freeTableElems, Function.update, hq]
    · cases hcounter

theorem freeTableElems_current (quotas : Quotas) (quota : Option QuotaRef) (delta : Nat)
    (q : QuotaRef) :
    (freeTableElems quotas quota delta q).current =
      (quotas q).current - if quota = some q then delta else 0 := by
  cases quota with
  | none => simp [freeTableElems]
  | some r =>
    by_cases hq : q = r
    · subst hq; simp [freeTableElems, CurrentAndMax.free]
    · simp [freeTableElems, Function.update_noteq hq, Ne.symm hq]

/-- The quota admits a charge exactly when its counter stays within the maximum. -/
theorem allocateTableElems_isSome {quotas : Quotas} {quota : Option QuotaRef} {delta : Nat} :
    (allocateTableElems quotas quota delta).isSome ↔
      ∀ q, quota = some q → (quotas q).current + delta ≤ (quotas q).max := by
  cases quota with
  | none => simp [allocateTableElems]
  | some r =>
    simp only [allocateTableElems, CurrentAndMax.allocate, Option.isSome_map, Option.some.injEq,
      forall_eq']
    split <;> simp <;> omega

/-! ## The table object -/

/-- The fields of `Table` that `Table.cpp` uses, and the memory of its reservation. -/
structure Table where
  compartment : CompartmentRef
  type : TableType
  debugName : String
  resourceQuota : Option QuotaRef
  /-- The base of the reservation (`Table::Element*`), `0` when none was made. -/
  elements : Uptr
  numReservedBytes : Uptr
  numReservedElements : Uptr
  /-- `numElements`, the current element count `n`. -/
  numElements : Uptr
  /-- The id in the compartment's `tables`, `UINTPTR_MAX` while in none. -/
  id : Uptr
  /-- `elements[i].biasedValue`. -/
  slots : Nat → Uptr
  /-- Whether page `p` of the reservation is committed. -/
  committed : Nat → Bool

/-- Modelled from the spec: the constructor `Table(compartment, type, debugName,
resourceQuota)` (in `RuntimePrivate.h`, not under `src/`), which makes no reservation and puts
the table in no compartment. -/
def Table.new (compartment : CompartmentRef) (type : TableType) (debugName : String)
    (resourceQuota : Option QuotaRef) : Table where
  compartment := compartment
  type := type
  debugName := debugName
  resourceQuota := resourceQuota
  elements := 0
  numReservedBytes := 0
  numReservedElements := 0
  numElements := 0
  id := uintptrMax
  slots := fun _ => 0
  committed := fun _ => false

/-- The fields of a table's record that place it in the process: its compartment, its id there,
its reservation and its quota. -/
structure Table.SamePlace (t t' : Table) : Prop where
  compartment : t'.compartment = t.compartment
  id : t'.id = t.id
  elements : t'.elements = t.elements
  resourceQuota : t'.resourceQuota = t.resourceQuota

variable (host : Host)

namespace Table

/-- An acquire load of `elements[index]`; `none` is an access violation. -/
def load (table : Table) (index : Nat) : Option Uptr :=
  if table.committed (elementPage host index) then some (table.slots index) else none

/-- Overwrite one slot, on a page already known to be committed. -/
def setSlot (table : Table) (index : Nat) (value : Uptr) : Table :=
  { table with slots := Function.update table.slots index value }

/-- A release store to `elements[index]`; `none` is an access violation. -/
def store (table : Table) (index : Nat) (value : Uptr) : Option Table :=
  if table.committed (elementPage host index) then some (table.setSlot index value) else none

/-- `Platform::commitVirtualPages` on `numPages` pages of the reservation from `firstPage`. -/
def commit (table : Table) (firstPage numPages : Nat) : Table :=
  { table with committed := fun page =>
      table.committed page || (firstPage ≤ page && page < firstPage + numPages) }

@[simp] theorem setSlot_slots (table : Table) (index : Nat) (value : Uptr) :
    (table.setSlot index value).slots = Function.update table.slots index value := rfl

@[simp] theorem setSlot_numElements (table : Table) (index : Nat) (value : Uptr) :
    (table.setSlot index value).numElements = table.numElements := rfl

@[simp] theorem setSlot_numReservedElements (table : Table) (index : Nat) (value : Uptr) :
    (table.setSlot index value).numReservedElements = table.numReservedElements := rfl

@[simp] theorem setSlot_committed (table : Table) (index : Nat) (value : Uptr) :
    (table.setSlot index value).committed = table.committed := rfl

@[simp] theorem setSlot_type (table : Table) (index : Nat) (value : Uptr) :
    (table.setSlot index value).type = table.type := rfl

theorem load_eq_some {table : Table} {index : Nat} {value : Uptr}
    (h : table.load host index = some value) :
    table.committed (elementPage host index) ∧ table.slots index = value := by
  unfold load at h
  split at h
  · exact ⟨‹_›, Option.some_inj.mp h⟩
  · cases h

theorem store_eq_some {table table' : Table} {index : Nat} {value : Uptr}
    (h : table.store host index value = some table') :
    table.committed (elementPage host index) ∧ table' = table.setSlot index value := by
  unfold store at h
  split at h
  · exact ⟨‹_›, (Option.some_inj.mp h).symm⟩
  · cases h

end Table

/-! ## The reservation and the table invariant -/

/-- `tableMaxElements` in `createTableImpl`: `Uptr(1) << 32`. -/
def tableMaxElements : U64 := 1 <<< 32

/-- `tableMaxBytes` in `createTableImpl`. -/
def tableMaxBytes : U64 := sizeofElement * tableMaxElements

/-- `tableMaxPages` in `createTableImpl`. -/
def tableMaxPages : U64 := tableMaxBytes >>> host.pageSizeLog2

/-- `numGuardPages`. -/
def numGuardPages : Uptr := 1

@[simp] theorem tableMaxElements_toNat : tableMaxElements.toNat = 2 ^ 32 := rfl

@[simp] theorem tableMaxBytes_toNat : tableMaxBytes.toNat = 2 ^ 35 := rfl

/-- What holds of every table that `createTable` or `cloneTable` returns, between any two
calls on it: the count is within both limits, which fit in the reservation; the slots below the
count hold nonzero words (they never decode to the out-of-bounds sentinel); the rest of the
reservation holds zero words; and the committed pages cover the slots below the count. -/
structure TableInvariant (table : Table) : Prop where
  elements_ne_zero : table.elements ≠ 0
  numReservedBytes_eq : table.numReservedBytes = tableMaxBytes
  numReservedElements_eq : table.numReservedElements = tableMaxElements
  numElements_le_max : table.numElements.toNat ≤ table.type.size.max.toNat
  numElements_le_maxTableElems : table.numElements.toNat ≤ host.maxTableElems.toNat
  slots_ne_zero : ∀ i < table.numElements.toNat, table.slots i ≠ 0
  slots_eq_zero : ∀ i, table.numElements.toNat ≤ i → i < table.numReservedElements.toNat →
    table.slots i = 0
  committed_of_lt : ∀ page < (getNumPlatformPages host (table.numElements * sizeofElement)).toNat,
    table.committed page

namespace TableInvariant

variable {host} {table : Table} (hinv : TableInvariant host table)
include hinv

theorem numElements_le_reserved : table.numElements.toNat ≤ 2 ^ 32 :=
  hinv.numElements_le_maxTableElems.trans host.maxTableElems_le

/-- Every slot below the count lies on a committed page, so loading it never faults. -/
theorem committed_elementPage {i : Nat} (hi : i < table.numElements.toNat) :
    table.committed (elementPage host i) :=
  hinv.committed_of_lt _ (elementPage_lt host hinv.numElements_le_reserved hi)

theorem load_of_lt {i : Nat} (hi : i < table.numElements.toNat) :
    table.load host i = some (table.slots i) := by
  simp [Table.load, hinv.committed_elementPage hi]

end TableInvariant

/-- The invariant does not look at the table's id. -/
theorem TableInvariant.with_id {table : Table} (hinv : TableInvariant host table) (id : Uptr) :
    TableInvariant host { table with id := id } :=
  ⟨hinv.1, hinv.2, hinv.3, hinv.4, hinv.5, hinv.6, hinv.7, hinv.8⟩

/-- New slot contents keep the invariant when they are nonzero below the count and zero above
it. -/
theorem TableInvariant.with_slots {table : Table} (hinv : TableInvariant host table)
    {slots : Nat → Uptr} (hne : ∀ i < table.numElements.toNat, slots i ≠ 0)
    (hzero : ∀ i, table.numElements.toNat ≤ i → i < table.numReservedElements.toNat → slots i = 0) :
    TableInvariant host { table with slots := slots } :=
  ⟨hinv.1, hinv.2, hinv.3, hinv.4, hinv.5, hne, hzero, hinv.8⟩

/-- The table `createTableImpl` leaves once its reservation is made satisfies the invariant: no
elements, every slot zero, and no page needed. -/
theorem TableInvariant.reserved {compartment : CompartmentRef} {type : TableType}
    {debugName : String} {resourceQuota : Option QuotaRef} {reservation : Uptr}
    (hreservation : reservation ≠ 0) :
    TableInvariant host { Table.new compartment type debugName resourceQuota with
      elements := reservation
      numReservedBytes := tableMaxBytes
      numReservedElements := tableMaxElements } where
  elements_ne_zero := hreservation
  numReservedBytes_eq := rfl
  numReservedElements_eq := rfl
  numElements_le_max := Nat.zero_le _
  numElements_le_maxTableElems := Nat.zero_le _
  slots_ne_zero i hi := absurd hi (Nat.not_lt_zero i)
  slots_eq_zero _ _ _ := rfl
  committed_of_lt page hpage := by
    have hpos := pageSize_pos host
    have hzero : (getNumPlatformPages host ((0 : Uptr) * sizeofElement)).toNat = 0 := by
      rw [getNumPlatformPages_mul_toNat host (Nat.zero_le _)]
      exact Nat.div_eq_of_lt (by rw [show (0 : Uptr).toNat = 0 from rfl]; omega)
    exact absurd (lt_of_lt_of_eq hpage hzero) (Nat.not_lt_zero page)

/-- A sample table on `sampleHost`: type `{min = 2, max = 4}`, both
slots holding the uninitialised sentinel, the first page committed. -/
def sampleTable : Table :=
  { Table.new 0 ⟨.funcref, ⟨2, 4⟩⟩ "" none with
    elements := 0x10000000
    numReservedBytes := tableMaxBytes
    numReservedElements := tableMaxElements
    numElements := 2
    id := 0
    slots := fun i =>
      if i < 2 then objectToBiasedTableElementValue sampleHost sampleHost.uninitializedElement
      else 0
    committed := fun page => page == 0 }

theorem sampleTable_invariant : TableInvariant sampleHost sampleTable where
  elements_ne_zero := by decide
  numReservedBytes_eq := rfl
  numReservedElements_eq := rfl
  numElements_le_max := by decide
  numElements_le_maxTableElems := by decide
  slots_ne_zero i hi := by
    have hi : i < 2 := hi
    simp only [sampleTable, if_pos hi]
    decide
  slots_eq_zero i hi _ := by
    have hi : 2 ≤ i := hi
    simp only [sampleTable, if_neg (Nat.not_lt.mpr hi)]
  committed_of_lt page hpage := by
    have hpage : page < 1 := hpage
    simp only [sampleTable, beq_iff_eq]
    omega

end Wavm.Runtime
