import Mathlib.Data.List.Nodup
import Wavm.Runtime.Table.Lifecycle

/-!
# Compartment ids and the global table vector

Compiled code reaches a table's elements through `runtimeData->tableBases[id]`, and the signal
handler finds the table that owns a faulting address by scanning the global `tables` vector.
In every reachable process state both agree with the live tables: a compartment maps an id to a
live table exactly when `tableBases` holds that table's elements under the table's own id, an
unused id has a null base, and the vector holds each live table once and nothing else.  A
creation or clone that fails leaves both as they were.

The scan reports an element index below the reservation's element count; when the live tables'
reservations do not overlap, it finds exactly the table whose reservation holds the address.
-/

namespace Wavm.Runtime

variable (host : Host)

namespace World

/-- What compiled code and the id maps rely on: each compartment maps an id only to a live
table; a live table is mapped by an id exactly when `tableBases` holds its elements there and the
table carries that id; an unused id has a null base; and a creation or clone that fails leaves
every compartment as it was, with the failed table under no id. -/
structure CompartmentsAgree (w : World) : Prop where
  live_of_tables : ∀ compartment id ref,
    (w.compartments compartment).tables id = some ref → w.live ref
  tables_iff : ∀ compartment id ref, w.live ref →
    ((w.compartments compartment).tables id = some ref ↔
      (w.compartments compartment).tableBases id = (w.heap ref).elements ∧ (w.heap ref).id = id)
  tableBases_null : ∀ compartment id,
    (w.compartments compartment).tables id = none → (w.compartments compartment).tableBases id = 0
  createTable_failed : ∀ compartment type element debugName resourceQuota reservation
    commitSucceeds w',
    (Op.createTable compartment type element debugName resourceQuota reservation
      commitSucceeds).Admissible host w →
    w.createTable host compartment type element debugName resourceQuota reservation
      commitSucceeds = some (w', none) →
    w'.compartments = w.compartments ∧
      ∀ compartment id, (w'.compartments compartment).tables id ≠ some w.nextTable
  cloneTable_failed : ∀ table newCompartment reservation commitSucceeds w',
    (Op.cloneTable table newCompartment reservation commitSucceeds).Admissible host w →
    w.cloneTable host table newCompartment reservation commitSucceeds = some (w', none) →
    w'.compartments = w.compartments ∧
      ∀ compartment id, (w'.compartments compartment).tables id ≠ some w.nextTable

/-- What the signal handler relies on: the global vector holds each live table once and no other
table, a creation or clone that fails adds nothing to it, and a destroyed table leaves it.  The
scan of `isAddressOwnedByTable` reports an index below the reservation's element count and, when
the live tables' reservations do not overlap, finds exactly the live table whose reservation
holds the address. -/
structure TablesRegistered (w : World) : Prop where
  count_tables : ∀ ref, w.tables.count ref = if w.live ref then 1 else 0
  createTable_failed : ∀ compartment type element debugName resourceQuota reservation
    commitSucceeds w',
    (Op.createTable compartment type element debugName resourceQuota reservation
      commitSucceeds).Admissible host w →
    w.createTable host compartment type element debugName resourceQuota reservation
      commitSucceeds = some (w', none) →
    w'.tables = w.tables ∧ w.nextTable ∉ w'.tables
  cloneTable_failed : ∀ table newCompartment reservation commitSucceeds w',
    (Op.cloneTable table newCompartment reservation commitSucceeds).Admissible host w →
    w.cloneTable host table newCompartment reservation commitSucceeds = some (w', none) →
    w'.tables = w.tables ∧ w.nextTable ∉ w'.tables
  deleteTable_not_mem : ∀ ref w', w.live ref → w.deleteTable host ref = some w' → ref ∉ w'.tables
  index_lt : ∀ address ref index, w.isAddressOwnedByTable address = some (ref, index) →
    index.toNat < (w.heap ref).numReservedElements.toNat
  owner_iff : (∀ ref ref', w.live ref → w.live ref' → ref ≠ ref' →
      (w.heap ref).elements.toNat + (w.heap ref).numReservedBytes.toNat ≤
        (w.heap ref').elements.toNat ∨
      (w.heap ref').elements.toNat + (w.heap ref').numReservedBytes.toNat ≤
        (w.heap ref).elements.toNat) →
    ∀ address ref index, w.isAddressOwnedByTable address = some (ref, index) ↔
      w.live ref ∧ (w.heap ref).elements.toNat ≤ address.toNat ∧
      address.toNat < (w.heap ref).elements.toNat + (w.heap ref).numReservedBytes.toNat ∧
      index = (address - (w.heap ref).elements) / sizeofElement

variable {host}

/-! ## Failed creations -/

theorem createTable_eq_none {w w' : World} {compartment : CompartmentRef} {type : TableType}
    {element : Uptr} {debugName : String} {resourceQuota : Option QuotaRef} {reservation : Uptr}
    {commitSucceeds : Bool} (hinv : w.Invariant host)
    (helement : element ≠ host.outOfBoundsElement) (hfresh : ReservationFresh w reservation)
    (h : w.createTable host compartment type element debugName resourceQuota reservation
      commitSucceeds = some (w', none)) :
    w.Restores w' :=
  (createTable_eq_some hinv helement hfresh h).elim And.right
    fun h => (Option.some_ne_none _ h.1.symm).elim

theorem cloneTable_eq_none {w w' : World} {table : TableRef} {newCompartment : CompartmentRef}
    {reservation : Uptr} {commitSucceeds : Bool} (hinv : w.Invariant host) (hlive : w.live table)
    (hfresh : ReservationFresh w reservation)
    (h : w.cloneTable host table newCompartment reservation commitSucceeds = some (w', none)) :
    w.Restores w' :=
  (cloneTable_eq_some hinv hlive hfresh h).elim And.right
    fun h => (Option.some_ne_none _ h.1.symm).elim

/-- After a failed creation the failed table is under no id of any compartment. -/
theorem Invariant.restores_tables_ne {w w' : World} (hinv : w.Invariant host)
    (h : w.Restores w') (compartment : CompartmentRef) (id : Uptr) :
    (w'.compartments compartment).tables id ≠ some w.nextTable := fun htables => by
  rw [h.compartments] at htables
  have hlive := (hinv.compartment_tables compartment id _ htables).1
  rw [hinv.not_live_nextTable] at hlive
  cases hlive

/-! ## Compartments -/

/-- A compartment maps an id to a live table exactly when `tableBases` holds the table's
elements there: a null base marks an unused id, and no two live tables share their elements. -/
theorem Invariant.tables_eq_some_iff {w : World} (hinv : w.Invariant host)
    {compartment : CompartmentRef} {id : Uptr} {ref : TableRef} (hlive : w.live ref) :
    (w.compartments compartment).tables id = some ref ↔
      (w.compartments compartment).tableBases id = (w.heap ref).elements ∧
        (w.heap ref).id = id := by
  constructor
  · intro htables
    obtain ⟨-, -, hid, hbase⟩ := hinv.compartment_tables compartment id ref htables
    exact ⟨hbase, hid⟩
  · rintro ⟨hbase, -⟩
    cases htables : (w.compartments compartment).tables id with
    | none =>
      rw [hinv.compartment_tableBases compartment id htables] at hbase
      exact absurd hbase.symm (hinv.tableInvariant ref hlive).elements_ne_zero
    | some ref' =>
      obtain ⟨hlive', -, -, hbase'⟩ := hinv.compartment_tables compartment id ref' htables
      rw [hinv.elements_injective ref' ref hlive' hlive (hbase'.symm.trans hbase)]

theorem Invariant.compartmentsAgree {w : World} (hinv : w.Invariant host) :
    w.CompartmentsAgree host where
  live_of_tables compartment id ref htables := (hinv.compartment_tables compartment id ref htables).1
  tables_iff _ _ _ hlive := hinv.tables_eq_some_iff hlive
  tableBases_null := hinv.compartment_tableBases
  createTable_failed _ _ _ _ _ _ _ _ hadmissible h := by
    have hrestores := createTable_eq_none hinv hadmissible.1 hadmissible.2 h
    exact ⟨hrestores.compartments, hinv.restores_tables_ne hrestores⟩
  cloneTable_failed _ _ _ _ _ hadmissible h := by
    have hrestores := cloneTable_eq_none hinv hadmissible.1 hadmissible.2 h
    exact ⟨hrestores.compartments, hinv.restores_tables_ne hrestores⟩

/-! ## The global vector -/

/-- When at most one element of a list has an answer, `findSome?` returns exactly the answers
of the list's elements. -/
theorem findSome?_eq_some_iff_of_unique {α β : Type} {l : List α} {f : α → Option β} {b : β}
    (huniq : ∀ x ∈ l, ∀ y ∈ l, (f x).isSome → (f y).isSome → x = y) :
    l.findSome? f = some b ↔ ∃ x ∈ l, f x = some b := by
  refine ⟨List.exists_of_findSome?_eq_some, ?_⟩
  induction l with
  | nil => simp
  | cons a l ih =>
    rintro ⟨x, hx, hfx⟩
    cases ha : f a with
    | some _ =>
      obtain rfl : x = a := huniq x hx a (List.mem_cons_self a l) (by simp [hfx]) (by simp [ha])
      rw [List.findSome?_cons_of_isSome _ (by simp [ha]), hfx]
    | none =>
      have hxa : x ≠ a := by rintro rfl; rw [ha] at hfx; cases hfx
      rw [List.findSome?_cons_of_isNone _ (by simp [ha])]
      exact ih (fun x hx y hy => huniq x (List.mem_cons_of_mem a hx) y (List.mem_cons_of_mem a hy))
        ⟨x, (List.mem_cons.mp hx).resolve_left hxa, hfx⟩

/-- A live table's reservation ends inside the address space, so the scan's comparisons on
addresses are comparisons of numbers. -/
theorem Invariant.ownsAddress_eq_some {w : World} (hinv : w.Invariant host) {address : Uptr}
    {ref owner : TableRef} {index : Uptr} (hlive : w.live ref) :
    w.ownsAddress address ref = some (owner, index) ↔ owner = ref ∧
      (w.heap ref).elements.toNat ≤ address.toNat ∧
      address.toNat < (w.heap ref).elements.toNat + (w.heap ref).numReservedBytes.toNat ∧
      index = (address - (w.heap ref).elements) / sizeofElement := by
  have hlt := hinv.elements_lt ref hlive
  rw [← (hinv.tableInvariant ref hlive).numReservedBytes_eq] at hlt
  have hrange : address ≥ (w.heap ref).elements ∧
      address < (w.heap ref).elements + (w.heap ref).numReservedBytes ↔
      (w.heap ref).elements.toNat ≤ address.toNat ∧
        address.toNat < (w.heap ref).elements.toNat + (w.heap ref).numReservedBytes.toNat := by
    rw [ge_iff_le, BitVec.le_def, BitVec.lt_def, BitVec.toNat_add, Nat.mod_eq_of_lt hlt]
  simp only [ownsAddress]
  by_cases h : (w.heap ref).elements.toNat ≤ address.toNat ∧
      address.toNat < (w.heap ref).elements.toNat + (w.heap ref).numReservedBytes.toNat
  · rw [if_pos (hrange.mpr h), Option.some_inj, Prod.mk.injEq]
    exact ⟨fun ⟨howner, hindex⟩ => ⟨howner.symm, h.1, h.2, hindex.symm⟩,
      fun ⟨howner, _, _, hindex⟩ => ⟨howner.symm, hindex.symm⟩⟩
  · rw [if_neg (mt hrange.mp h)]
    exact ⟨fun hnone => Option.noConfusion hnone, fun ⟨_, hlo, hhi, _⟩ => absurd ⟨hlo, hhi⟩ h⟩

theorem Invariant.ownsAddress_isSome {w : World} (hinv : w.Invariant host) {address : Uptr}
    {ref : TableRef} (hlive : w.live ref) :
    (w.ownsAddress address ref).isSome ↔ (w.heap ref).elements.toNat ≤ address.toNat ∧
      address.toNat < (w.heap ref).elements.toNat + (w.heap ref).numReservedBytes.toNat := by
  rw [Option.isSome_iff_exists]
  constructor
  · rintro ⟨⟨owner, index⟩, h⟩
    obtain ⟨-, hlo, hhi, -⟩ := (hinv.ownsAddress_eq_some hlive).mp h
    exact ⟨hlo, hhi⟩
  · intro h
    exact ⟨_, (hinv.ownsAddress_eq_some hlive).mpr ⟨rfl, h.1, h.2, rfl⟩⟩

/-- The index the scan reports lies inside the reservation, which holds `tableMaxElements`
elements. -/
theorem Invariant.index_lt {w : World} (hinv : w.Invariant host) {address : Uptr}
    {ref owner : TableRef} {index : Uptr} (hlive : w.live ref)
    (h : w.ownsAddress address ref = some (owner, index)) :
    index.toNat < (w.heap owner).numReservedElements.toNat := by
  obtain ⟨rfl, hlo, hhi, rfl⟩ := (hinv.ownsAddress_eq_some hlive).mp h
  have htable := hinv.tableInvariant owner hlive
  rw [htable.numReservedBytes_eq, tableMaxBytes_toNat] at hhi
  rw [htable.numReservedElements_eq, tableMaxElements_toNat, BitVec.toNat_udiv, BitVec.toNat_sub]
  show _ / 8 < _
  omega

theorem Invariant.tablesRegistered {w : World} (hinv : w.Invariant host) :
    w.TablesRegistered host where
  count_tables ref := by
    simp only [List.count_eq_of_nodup hinv.tables_nodup, hinv.mem_tables]
  createTable_failed _ _ _ _ _ _ _ _ hadmissible h := by
    have hrestores := createTable_eq_none hinv hadmissible.1 hadmissible.2 h
    exact ⟨hrestores.tables, hrestores.tables ▸ hinv.nextTable_not_mem⟩
  cloneTable_failed _ _ _ _ _ hadmissible h := by
    have hrestores := cloneTable_eq_none hinv hadmissible.1 hadmissible.2 h
    exact ⟨hrestores.tables, hrestores.tables ▸ hinv.nextTable_not_mem⟩
  deleteTable_not_mem ref _ hlive h := by
    obtain ⟨_, hdelete, hremoves⟩ := deleteTable_removes hinv hlive
    cases hdelete.symm.trans h
    rw [hremoves.tables]
    exact hinv.tables_nodup.not_mem_erase
  index_lt address ref index h := by
    obtain ⟨owner, hmem, howns⟩ := List.exists_of_findSome?_eq_some h
    exact hinv.index_lt ((hinv.mem_tables owner).mp hmem) howns
  owner_iff hdisjoint address ref index := by
    have huniq : ∀ x ∈ w.tables, ∀ y ∈ w.tables, (w.ownsAddress address x).isSome →
        (w.ownsAddress address y).isSome → x = y := by
      intro x hx y hy hxs hys
      have hxlive := (hinv.mem_tables x).mp hx
      have hylive := (hinv.mem_tables y).mp hy
      rw [hinv.ownsAddress_isSome hxlive] at hxs
      rw [hinv.ownsAddress_isSome hylive] at hys
      by_contra hne
      rcases hdisjoint x y hxlive hylive hne with h | h <;> omega
    rw [isAddressOwnedByTable, findSome?_eq_some_iff_of_unique huniq]
    constructor
    · rintro ⟨x, hx, h⟩
      have hxlive := (hinv.mem_tables x).mp hx
      obtain ⟨rfl, hrange⟩ := (hinv.ownsAddress_eq_some hxlive).mp h
      exact ⟨hxlive, hrange⟩
    · rintro ⟨hlive, hrange⟩
      exact ⟨ref, (hinv.mem_tables ref).mpr hlive, (hinv.ownsAddress_eq_some hlive).mpr ⟨rfl, hrange⟩⟩

end World

variable {host}

/-- In every reachable process state (any admissible calls, failing ones included) each
compartment's id map and `tableBases` agree with the live tables, and a creation or clone that
fails from there leaves them as they were. -/
theorem reachable_compartments_agree {w : World} (hreach : Reachable host w) :
    w.CompartmentsAgree host :=
  hreach.invariant.compartmentsAgree

theorem reachable_compartments_agree_sampleCreated :
    sampleCreated.CompartmentsAgree sampleHost :=
  reachable_compartments_agree sampleCreated_reachable

/-- In every reachable process state the global vector holds exactly the live tables, once each,
and `isAddressOwnedByTable` finds the owner of every address inside a live reservation when the
reservations do not overlap. -/
theorem reachable_tables_registered {w : World} (hreach : Reachable host w) :
    w.TablesRegistered host :=
  hreach.invariant.tablesRegistered

theorem reachable_tables_registered_sampleCreated : sampleCreated.TablesRegistered sampleHost :=
  reachable_tables_registered sampleCreated_reachable

end Wavm.Runtime
