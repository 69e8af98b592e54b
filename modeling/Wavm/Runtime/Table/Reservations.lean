import Wavm.Runtime.Table.Registry
import Wavm.Runtime.Table.Runs

/-!
# Reservations

`createTableImpl` reserves a table's address space with `Platform::allocateVirtualPages`, and
`Table::~Table` returns it with `Platform::freeVirtualPages`; no other table code calls the
platform's virtual-memory layer.  So in every reachable state every call of the log is one of
these two, on `tableMaxPages + numGuardPages` pages.

A non-null result of `allocateVirtualPages` is a reservation.  At every address the reservations
made there are the ones released there and the one of the live table reserved there, if any: a
reservation is released once, when its table is destroyed or when the creation or clone it was
made for fails, and not before.

A null result is a failed reservation and reserves nothing.  `createTableImpl` then deletes the
half-built table, and `Table::~Table`, which tests `numReservedBytes` and not `elements`, calls
`freeVirtualPages` on the null address (`createTable_reservation_failed_frees_null`).  The ledger
keeps those calls apart from the reservations: the frees of the null address are exactly as many
as the failed reservations.  Whether the platform returns a fresh address is `ReservationFresh`,
an assumption on the platform.

A creation or clone that returns null leaves the process as it was but for the allocation and the
free it logged and one more table address used.
-/

namespace Wavm.Runtime

variable (host : Host)

/-- The pages of a table's reservation, `tableMaxPages + numGuardPages`. -/
def reservationPages : Uptr := tableMaxPages host + numGuardPages

namespace World

/-- The reservations made at `address`: the calls of `allocateVirtualPages` for a table that
returned it.  A null result is a failed reservation, so none are made at the null address. -/
def reservations (w : World) (address : Uptr) : Nat :=
  if address = 0 then 0
  else w.platformCalls.count (.allocateVirtualPages (reservationPages host) address)

/-- The reservations released at `address`: the calls of `freeVirtualPages` on a table's
reservation there.  None at the null address, where nothing was reserved. -/
def releases (w : World) (address : Uptr) : Nat :=
  if address = 0 then 0
  else w.platformCalls.count (.freeVirtualPages address (reservationPages host))

/-- The failed reservations: the calls of `allocateVirtualPages` for a table that returned
null. -/
def failedReservations (w : World) : Nat :=
  w.platformCalls.count (.allocateVirtualPages (reservationPages host) 0)

/-- The calls of `freeVirtualPages` on the null address. -/
def nullFrees (w : World) : Nat :=
  w.platformCalls.count (.freeVirtualPages 0 (reservationPages host))

/-- How many tables of the global vector are reserved at `address`. -/
def reservedAt (w : World) (address : Uptr) : Nat :=
  w.tables.countP fun ref => (w.heap ref).elements == address

/-- Every call of the log allocates or frees the pages of a table's reservation; at every
non-null address the reservations are the releases and the tables reserved there; and the null
address is freed as often as a reservation failed. -/
structure Ledger (w : World) : Prop where
  calls : ∀ call ∈ w.platformCalls,
    (∃ address, call = .allocateVirtualPages (reservationPages host) address) ∨
      ∃ address, call = .freeVirtualPages address (reservationPages host)
  balance : ∀ address, address ≠ 0 →
    w.reservations host address = w.releases host address + w.reservedAt address
  nullFrees_eq : w.nullFrees host = w.failedReservations host

variable {host}
variable {w w' : World}

/-! ## The calls each function makes -/

/-- A reserved table's `delete` frees its reservation. -/
theorem deleteTable_platformCalls {ref : TableRef}
    (hreserved : (w.heap ref).numReservedBytes = tableMaxBytes)
    (h : w.deleteTable host ref = some w') :
    w'.platformCalls =
      w.platformCalls ++ [.freeVirtualPages (w.heap ref).elements (reservationPages host)] := by
  obtain ⟨w₁, hleave, rfl⟩ := Option.map_eq_some'.mp h
  have hleft : w₁.platformCalls = w.platformCalls ∧ w₁.heap = w.heap := by
    rcases leaveCompartment_eq_some hleave with rfl | ⟨-, -, -, rfl⟩ <;> simp
  rw [releaseTable_platformCalls, hleft.1, hleft.2, hreserved, if_pos (by decide)]
  rfl

/-- `createTableImpl` asks the platform for a reservation, and frees it again when it is null. -/
theorem createTableImpl_platformCalls {compartment : CompartmentRef} {type : TableType}
    {debugName : String} {resourceQuota : Option QuotaRef} {reservation : Uptr}
    {created : Option TableRef}
    (h : w.createTableImpl host compartment type debugName resourceQuota reservation =
      some (w', created)) :
    w'.platformCalls = w.platformCalls ++
      .allocateVirtualPages (reservationPages host) reservation ::
        if reservation = 0 then [.freeVirtualPages reservation (reservationPages host)]
        else [] := by
  unfold createTableImpl at h
  dsimp only [newTable] at h
  split at h
  · rename_i hzero
    rw [Option.bind_eq_bind, Option.bind_eq_some] at h
    obtain ⟨_, hdelete, hpure⟩ := h
    cases hpure
    rw [deleteTable_platformCalls (by simp) hdelete, if_pos hzero]
    simp [reservationPages]
  · rename_i hzero
    cases h
    rw [if_neg hzero]
    simp [reservationPages]

/-- The reservation of the table under construction, through its growth. -/
theorem applyGrow_reserved {w₁ : World} {ref : TableRef} {delta fill : Uptr}
    {initializeNewElements commitSucceeds : Bool} {outcome : GrowOutcome}
    (htable : TableInvariant host (w₁.heap ref))
    (hgrow : growTableImpl host w₁.quotas (w₁.heap ref) delta initializeNewElements fill
      commitSucceeds = some outcome) :
    ((w₁.applyGrow ref outcome).heap ref).elements = (w₁.heap ref).elements ∧
      ((w₁.applyGrow ref outcome).heap ref).numReservedBytes = tableMaxBytes := by
  have hevolves := (growTableImpl_evolves htable hgrow).1
  simp only [applyGrow_heap, Function.update_same]
  exact ⟨hevolves.place.elements, hevolves.numReservedBytes.trans htable.numReservedBytes_eq⟩

section Construction

variable {compartment : CompartmentRef} {type : TableType} {debugName : String}
  {resourceQuota : Option QuotaRef} {reservation : Uptr}

/-- A creation whose reservation failed has allocated and freed it. -/
theorem createTableImpl_failed {w₁ : World} (hinv : w.Invariant host)
    (himpl : w.createTableImpl host compartment type debugName resourceQuota reservation =
      some (w₁, none)) :
    w₁.platformCalls = w.platformCalls ++
      [.allocateVirtualPages (reservationPages host) reservation,
        .freeVirtualPages reservation (reservationPages host)] := by
  have hcalls := createTableImpl_platformCalls himpl
  rcases createTableImpl_eq_some hinv himpl with ⟨hzero, -, -⟩ | ⟨-, hsome, -⟩
  · simpa [hzero] using hcalls
  · cases hsome

/-- The table `createTableImpl` reserved, once grown: the next table, still reserved where the
one allocation of the log put it. -/
theorem createTableImpl_grown {w₁ : World} {ref : TableRef} {delta fill : Uptr}
    {initializeNewElements commitSucceeds : Bool} {outcome : GrowOutcome} (hinv : w.Invariant host)
    (himpl : w.createTableImpl host compartment type debugName resourceQuota reservation =
      some (w₁, some ref))
    (hgrow : growTableImpl host w₁.quotas (w₁.heap ref) delta initializeNewElements fill
      commitSucceeds = some outcome) :
    ref = w.nextTable ∧ reservation ≠ 0 ∧
      (w₁.applyGrow ref outcome).platformCalls =
        w.platformCalls ++ [.allocateVirtualPages (reservationPages host) reservation] ∧
      ((w₁.applyGrow ref outcome).heap ref).elements = reservation ∧
      ((w₁.applyGrow ref outcome).heap ref).numReservedBytes = tableMaxBytes := by
  have hcalls := createTableImpl_platformCalls himpl
  rcases createTableImpl_eq_some hinv himpl with
    ⟨-, hnone, -⟩ | ⟨hreservation, hsome, -, -, hheap⟩
  · cases hnone
  cases hsome
  have hreserved := applyGrow_reserved (hheap ▸ TableInvariant.reserved host hreservation) hgrow
  rw [hheap] at hreserved
  rw [if_neg hreservation] at hcalls
  exact ⟨rfl, hreservation, by simpa using hcalls, hreserved⟩

/-- Deleting the grown table again frees the one allocation. -/
theorem deleteTable_grown {w₂ : World} {ref : TableRef}
    (hcalls : w₂.platformCalls =
      w.platformCalls ++ [.allocateVirtualPages (reservationPages host) reservation])
    (helements : (w₂.heap ref).elements = reservation)
    (hreserved : (w₂.heap ref).numReservedBytes = tableMaxBytes)
    (hdelete : w₂.deleteTable host ref = some w') :
    w'.platformCalls = w.platformCalls ++
      [.allocateVirtualPages (reservationPages host) reservation,
        .freeVirtualPages reservation (reservationPages host)] := by
  rw [deleteTable_platformCalls hreserved hdelete, hcalls, helements]
  simp

end Construction

/-- `createTable` makes one allocation, and frees it again unless it returns the table, which is
reserved there. -/
theorem createTable_platformCalls {compartment : CompartmentRef} {type : TableType}
    {element : Uptr} {debugName : String} {resourceQuota : Option QuotaRef} {reservation : Uptr}
    {commitSucceeds : Bool} {created : Option TableRef} (hinv : w.Invariant host)
    (h : w.createTable host compartment type element debugName resourceQuota reservation
      commitSucceeds = some (w', created)) :
    w'.platformCalls = w.platformCalls ++
      .allocateVirtualPages (reservationPages host) reservation ::
        (if created.isSome then [] else [.freeVirtualPages reservation (reservationPages host)]) ∧
      (created.isSome → reservation ≠ 0 ∧ (w'.heap w.nextTable).elements = reservation) := by
  unfold createTable at h
  rw [Option.bind_eq_bind, Option.bind_eq_some] at h
  obtain ⟨⟨w₁, created₁⟩, himpl, h⟩ := h
  rcases created₁ with _ | ref
  · cases h
    exact ⟨by simpa using createTableImpl_failed hinv himpl, nofun⟩
  dsimp only at h
  rw [Option.bind_eq_bind, Option.bind_eq_some] at h
  obtain ⟨fill, -, h⟩ := h
  rw [Option.bind_eq_bind, Option.bind_eq_some] at h
  obtain ⟨outcome, hgrow, h⟩ := h
  obtain ⟨rfl, hreservation, hcalls, helements, hreserved⟩ :=
    createTableImpl_grown hinv himpl hgrow
  generalize w₁.applyGrow w.nextTable outcome = w₂ at h hcalls helements hreserved
  split at h
  · -- the growth was refused: the table is deleted again
    rw [Option.bind_eq_bind, Option.bind_eq_some] at h
    obtain ⟨_, hdelete, ⟨⟩⟩ := h
    exact ⟨by simpa using deleteTable_grown hcalls helements hreserved hdelete, nofun⟩
  generalize (w₂.compartments compartment).add uintptrMax w.nextTable = added at h
  obtain ⟨added, id⟩ := added
  dsimp only at h
  split at h
  · -- no id is free: the table is deleted again
    rw [Option.bind_eq_bind, Option.bind_eq_some] at h
    obtain ⟨_, hdelete, ⟨⟩⟩ := h
    have hgrown := deleteTable_grown (by simpa using hcalls) (by simpa using helements)
      (by simpa using hreserved) hdelete
    exact ⟨by simpa using hgrown, nofun⟩
  · cases h
    exact ⟨by simp [hcalls], fun _ => ⟨hreservation, by simpa using helements⟩⟩

/-- The copy loop of `cloneTable` writes slots and nothing else. -/
theorem copyElements_slots {source target copied : Table} {index count : Nat}
    (h : copyElements host source index count target = some copied) :
    copied = { target with slots := copied.slots } := by
  induction count generalizing index target with
  | zero => cases h; rfl
  | succ count ih =>
    simp only [copyElements, Option.bind_eq_bind, Option.bind_eq_some] at h
    obtain ⟨_, -, stored, hstore, hcopy⟩ := h
    obtain ⟨-, rfl⟩ := Table.store_eq_some host hstore
    rw [ih hcopy]
    rfl

/-- `cloneTable` makes one allocation, and frees it again unless it returns the clone, which is
reserved there. -/
theorem cloneTable_platformCalls {table : TableRef} {newCompartment : CompartmentRef}
    {reservation : Uptr} {commitSucceeds : Bool} {created : Option TableRef}
    (hinv : w.Invariant host)
    (h : w.cloneTable host table newCompartment reservation commitSucceeds = some (w', created)) :
    w'.platformCalls = w.platformCalls ++
      .allocateVirtualPages (reservationPages host) reservation ::
        (if created.isSome then [] else [.freeVirtualPages reservation (reservationPages host)]) ∧
      (created.isSome → reservation ≠ 0 ∧ (w'.heap w.nextTable).elements = reservation) := by
  unfold cloneTable at h
  rw [Option.bind_eq_bind, Option.bind_eq_some] at h
  obtain ⟨⟨w₁, created₁⟩, himpl, h⟩ := h
  rcases created₁ with _ | ref
  · cases h
    exact ⟨by simpa using createTableImpl_failed hinv himpl, nofun⟩
  dsimp only at h
  rw [Option.bind_eq_bind, Option.bind_eq_some] at h
  obtain ⟨outcome, hgrow, h⟩ := h
  obtain ⟨rfl, hreservation, hcalls, helements, hreserved⟩ :=
    createTableImpl_grown hinv himpl hgrow
  generalize w₁.applyGrow w.nextTable outcome = w₂ at h hcalls helements hreserved
  split at h
  · -- the growth was refused: the clone is deleted again
    rw [Option.bind_eq_bind, Option.bind_eq_some] at h
    obtain ⟨_, hdelete, ⟨⟩⟩ := h
    exact ⟨by simpa using deleteTable_grown hcalls helements hreserved hdelete, nofun⟩
  rw [Option.bind_eq_bind, Option.bind_eq_some] at h
  obtain ⟨copied, hcopy, h⟩ := h
  rw [Option.bind_eq_bind, Option.bind_eq_some] at h
  obtain ⟨_, -, ⟨⟩⟩ := h
  refine ⟨by simp [hcalls], fun _ => ⟨hreservation, ?_⟩⟩
  simp only [setCompartment_heap, setTable_heap, Function.update_same]
  rw [copyElements_slots hcopy]
  exact helements

/-! ## The ledger -/

theorem reservedAt_congr {address : Uptr} (htables : w'.tables = w.tables)
    (hheap : ∀ ref ∈ w.tables, (w'.heap ref).elements = (w.heap ref).elements) :
    w'.reservedAt address = w.reservedAt address := by
  rw [reservedAt, reservedAt, htables]
  exact List.countP_congr fun ref href => by rw [hheap ref href]

/-- A call that appends allocations and frees of reservations to the log keeps the ledger when,
at every non-null address, what it reserves and the tables it leaves reserved there match what it
releases and the tables reserved there before, and it frees the null address as often as its
reservations fail. -/
theorem Ledger.of_append (hledger : w.Ledger host) {calls : List PlatformCall}
    (hcalls : w'.platformCalls = w.platformCalls ++ calls)
    (hkinds : ∀ call ∈ calls,
      (∃ address, call = .allocateVirtualPages (reservationPages host) address) ∨
        ∃ address, call = .freeVirtualPages address (reservationPages host))
    (hbalance : ∀ address, address ≠ 0 →
      calls.count (.allocateVirtualPages (reservationPages host) address) + w.reservedAt address =
        calls.count (.freeVirtualPages address (reservationPages host)) + w'.reservedAt address)
    (hnull : calls.count (.freeVirtualPages 0 (reservationPages host)) =
      calls.count (.allocateVirtualPages (reservationPages host) 0)) :
    w'.Ledger host := by
  refine ⟨fun call hcall => ?_, fun address haddress => ?_, ?_⟩
  · rw [hcalls] at hcall
    exact (List.mem_append.mp hcall).elim (hledger.calls call) (hkinds call)
  · have hold := hledger.balance address haddress
    have hnew := hbalance address haddress
    simp only [reservations, releases, if_neg haddress, hcalls, List.count_append] at hold ⊢
    omega
  · have hold := hledger.nullFrees_eq
    simp only [nullFrees, failedReservations, hcalls, List.count_append] at hold ⊢
    omega

/-- A call that leaves the log, the global vector and the reservations of its tables keeps the
ledger. -/
theorem Ledger.of_unchanged (hledger : w.Ledger host) (hcalls : w'.platformCalls = w.platformCalls)
    (htables : w'.tables = w.tables)
    (hheap : ∀ ref ∈ w.tables, (w'.heap ref).elements = (w.heap ref).elements) :
    w'.Ledger host :=
  hledger.of_append (hcalls.trans (List.append_nil _).symm) nofun
    (fun _ _ => by simp [reservedAt_congr htables hheap]) rfl

/-- A creation that fails allocates and frees one reservation and changes no table of the global
vector. -/
theorem Ledger.of_restores (hinv : w.Invariant host) (hledger : w.Ledger host)
    (hrestores : w.Restores w') {reservation : Uptr}
    (hcalls : w'.platformCalls = w.platformCalls ++
      [.allocateVirtualPages (reservationPages host) reservation,
        .freeVirtualPages reservation (reservationPages host)]) :
    w'.Ledger host := by
  have hreserved : ∀ address, w'.reservedAt address = w.reservedAt address := fun _ =>
    reservedAt_congr hrestores.tables fun ref href =>
      by rw [hrestores.heap ref fun h => hinv.nextTable_not_mem (h ▸ href)]
  exact hledger.of_append hcalls (by simp) (fun address _ => by simp [List.count_cons, hreserved])
    (by simp [List.count_cons])

/-- A creation that succeeds allocates the reservation of the table it adds. -/
theorem Ledger.of_adds (hinv : w.Invariant host) (hledger : w.Ledger host)
    (hadds : w.Adds host w') {reservation : Uptr}
    (hcalls : w'.platformCalls = w.platformCalls ++
      [.allocateVirtualPages (reservationPages host) reservation])
    (hreservation : reservation ≠ 0) (helements : (w'.heap w.nextTable).elements = reservation) :
    w'.Ledger host := by
  have hreserved : ∀ address, w'.reservedAt address =
      w.reservedAt address + if reservation = address then 1 else 0 := fun address => by
    have hold : (w.tables.countP fun ref => (w'.heap ref).elements == address) =
        w.reservedAt address :=
      List.countP_congr fun ref href => by
        rw [hadds.heap ref fun h => hinv.nextTable_not_mem (h ▸ href)]
    rw [reservedAt, hadds.tables, List.countP_append, hold]
    simp [List.countP_cons, helements]
  exact hledger.of_append hcalls (by simp)
    (fun address _ => by simp [List.count_cons, hreserved]; omega)
    (by simp [List.count_cons]; exact (if_neg hreservation).symm)

/-- Destroying a live table frees its reservation and takes it out of the global vector. -/
theorem Ledger.of_removes {ref : TableRef} (hinv : w.Invariant host) (hledger : w.Ledger host)
    (hlive : w.live ref) (hremoves : w.Removes w' ref)
    (hcalls : w'.platformCalls = w.platformCalls ++
      [.freeVirtualPages (w.heap ref).elements (reservationPages host)]) :
    w'.Ledger host := by
  have hreserved : ∀ address, w'.reservedAt address +
      (if (w.heap ref).elements = address then 1 else 0) = w.reservedAt address := fun address => by
    rw [reservedAt, reservedAt, hremoves.tables, hremoves.heap,
      ((List.perm_cons_erase ((hinv.mem_tables ref).mpr hlive)).countP_eq _), List.countP_cons]
    simp
  have hnonnull := (hinv.tableInvariant ref hlive).elements_ne_zero
  exact hledger.of_append hcalls (by simp)
    (fun address _ => by have := hreserved address; simp [List.count_cons]; omega)
    (by simp [List.count_cons]; exact hnonnull)

/-- Writing slots keeps the ledger. -/
theorem SlotsWritten.ledger {ref : TableRef} (h : SlotsWritten ref w w')
    (hledger : w.Ledger host) : w'.Ledger host := by
  obtain ⟨slots, rfl⟩ := h
  exact hledger.of_unchanged (by simp) (by simp) fun r _ => by
    by_cases hr : r = ref <;> simp [hr]

/-- A growth keeps the ledger: it keeps the table's reservation. -/
theorem growTable_ledger {table : TableRef} {delta fill : Uptr} {commitSucceeds : Bool}
    {old : Option Uptr} (htable : TableInvariant host (w.heap table)) (hledger : w.Ledger host)
    (h : w.growTable host table delta fill commitSucceeds = some (w', old)) : w'.Ledger host := by
  obtain ⟨outcome, hgrow, hresult⟩ := Option.map_eq_some'.mp h
  cases hresult
  have helements := (growTableImpl_evolves htable hgrow).1.place.elements
  exact hledger.of_unchanged (by simp) (by simp) fun r _ => by
    by_cases hr : r = table <;> simp [hr, helements]

theorem elemDrop_ledger (hledger : w.Ledger host) (moduleInstance : ModuleRef)
    (elemSegmentIndex : Uptr) : (w.elemDrop moduleInstance elemSegmentIndex).1.Ledger host := by
  simp only [World.elemDrop]
  split
  · exact hledger
  · exact hledger.of_unchanged rfl rfl fun _ _ => rfl

/-- Every admissible call keeps the ledger. -/
theorem Ledger.step {op : Op} (hinv : w.Invariant host) (hledger : w.Ledger host)
    (hadmissible : op.Admissible host w) (h : w.step host op = some w') : w'.Ledger host := by
  cases op with
  | createTable compartment type element debugName resourceQuota reservation commitSucceeds =>
    obtain ⟨⟨_, created⟩, hcreate, rfl⟩ := Option.map_eq_some'.mp h
    obtain ⟨hcalls, helements⟩ := createTable_platformCalls hinv hcreate
    rcases createTable_eq_some hinv hadmissible.1 hadmissible.2 hcreate with
      ⟨rfl, hrestores⟩ | ⟨rfl, hadds⟩
    · exact hledger.of_restores hinv hrestores (by simpa using hcalls)
    · exact hledger.of_adds hinv hadds (by simpa using hcalls) (helements rfl).1 (helements rfl).2
  | cloneTable table newCompartment reservation commitSucceeds =>
    obtain ⟨⟨_, created⟩, hclone, rfl⟩ := Option.map_eq_some'.mp h
    obtain ⟨hcalls, helements⟩ := cloneTable_platformCalls hinv hclone
    rcases cloneTable_eq_some hinv hadmissible.1 hadmissible.2 hclone with
      ⟨rfl, hrestores⟩ | ⟨rfl, hadds⟩
    · exact hledger.of_restores hinv hrestores (by simpa using hcalls)
    · exact hledger.of_adds hinv hadds (by simpa using hcalls) (helements rfl).1 (helements rfl).2
  | destroyTable table =>
    obtain ⟨w'', hdelete, hremoves⟩ := deleteTable_removes hinv hadmissible
    have hcalls := deleteTable_platformCalls
      (hinv.tableInvariant table hadmissible).numReservedBytes_eq hdelete
    rw [World.step, hdelete, Option.some_inj] at h
    subst h
    exact hledger.of_removes hinv hadmissible hremoves hcalls
  | growTable table numElementsToGrow initialElement commitSucceeds =>
    obtain ⟨⟨_, old⟩, hgrow, rfl⟩ := Option.map_eq_some'.mp h
    exact growTable_ledger (hinv.tableInvariant table hadmissible.1) hledger hgrow
  | setTableElement table index newValue =>
    cases h
    split
    · exact (setTableElement_slotsWritten ‹_›).ledger hledger
    · exact hledger
  | getTableElement => cases h; exact hledger
  | initElemSegment => cases h; exact (initElemSegment_slotsWritten ..).ledger hledger
  | tableGrow initialValue deltaNumElements table commitSucceeds =>
    obtain ⟨⟨_, result⟩, htableGrow, rfl⟩ := Option.map_eq_some'.mp h
    obtain ⟨⟨_, old⟩, hgrow, hresult⟩ := Option.map_eq_some'.mp htableGrow
    cases hresult
    exact growTable_ledger (hinv.tableInvariant table hadmissible.1) hledger hgrow
  | tableSize => cases h; exact hledger
  | tableGet => cases h; exact hledger
  | tableSet =>
    cases h
    unfold World.tableSet
    split
    · exact (setTableElement_slotsWritten ‹_›).ledger hledger
    · exact hledger
  | tableInit =>
    cases h
    unfold World.tableInit
    split
    · exact hledger
    · exact (initElemSegment_slotsWritten ..).ledger hledger
  | elemDrop => cases h; exact elemDrop_ledger hledger ..
  | tableCopy => cases h; exact (tableCopy_slotsWritten ..).ledger hledger
  | tableFill => cases h; exact (tableFill_slotsWritten ..).ledger hledger

theorem Initial.ledger (h : w.Initial host) : w.Ledger host :=
  ⟨by simp [h.platformCalls_eq], fun _ _ => by
    simp [reservations, releases, reservedAt, h.platformCalls_eq, h.tables_eq],
    by simp [nullFrees, failedReservations, h.platformCalls_eq]⟩

end World

variable {host}

theorem Reachable.ledger {w : World} (hreach : Reachable host w) : w.Ledger host := by
  induction hreach with
  | initial hinitial => exact hinitial.ledger
  | step op hreach hadmissible hstep ih => exact ih.step hreach.invariant hadmissible hstep

end Wavm.Runtime
