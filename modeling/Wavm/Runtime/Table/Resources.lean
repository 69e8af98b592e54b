import Wavm.Runtime.Table.Lifecycle

/-!
# Quotas and reservations

The table-element counter of each resource quota always equals the sum of the counts of the live
tables charged to it: a growth charges exactly what it adds, every failing path of
`growTableImpl`, `createTable` and `cloneTable` refunds what it charged, and `Table::~Table`
refunds the table's own count.

`createTableImpl` sets `numReservedBytes` before it checks whether `allocateVirtualPages`
succeeded, and `Table::~Table` releases a reservation whenever `numReservedBytes` is nonzero.  A
failed reservation is therefore followed by a `freeVirtualPages` of the null address, for as many
pages as a real reservation has.
-/

namespace Wavm.Runtime

variable {host : Host}

/-- In every reachable process state, each quota's table-element consumption is the sum of the
counts of the live tables charged to it. -/
theorem reachable_quota_current_eq_sum {w : World} (hreach : Reachable host w) (quota : QuotaRef) :
    (w.quotas quota).current = ∑ ref ∈ Finset.range w.nextTable,
      if w.live ref ∧ (w.heap ref).resourceQuota = some quota then (w.heap ref).numElements.toNat
      else 0 :=
  hreach.invariant.quotas_current quota

theorem reachable_quota_current_eq_sum_sampleCreated :
    (sampleCreated.quotas 0).current = ∑ ref ∈ Finset.range sampleCreated.nextTable,
      if sampleCreated.live ref ∧ (sampleCreated.heap ref).resourceQuota = some 0 then
        (sampleCreated.heap ref).numElements.toNat
      else 0 :=
  reachable_quota_current_eq_sum sampleCreated_reachable 0

variable (host)

/-- Every `createTable` whose reservation fails returns null after the failed
`allocateVirtualPages` and a `freeVirtualPages` of the null address for the whole table. -/
theorem createTable_reservation_failed_frees_null (w : World) (compartment : CompartmentRef)
    (type : TableType) (element : Uptr) (debugName : String) (resourceQuota : Option QuotaRef)
    (commitSucceeds : Bool) :
    ∃ w', w.createTable host compartment type element debugName resourceQuota 0 commitSucceeds =
        some (w', none) ∧
      w'.platformCalls = w.platformCalls ++
        [.allocateVirtualPages (tableMaxPages host + numGuardPages) 0,
          .freeVirtualPages 0 ((tableMaxBytes >>> host.pageSizeLog2) + numGuardPages)] := by
  simp [World.createTable, World.createTableImpl, World.deleteTable,
    World.leaveCompartment_of_id_eq, Table.new]
  decide

end Wavm.Runtime
