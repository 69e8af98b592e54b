import Wavm.Runtime.Table.Invariant

/-!
# Creating, cloning and destroying tables

`createTable` and `cloneTable` make a table object at the next address, reserve its address
space, grow it, and then either publish it in a compartment or delete it again.  Three relations
between the state before the call and a later one describe these paths: `Constructing` holds
between making the object and publishing or deleting it, `Restores` describes what a failed call
leaves, and `Adds` what a successful one leaves.  The invariant crosses `Restores` and `Adds`,
and `Table::~Table` of a live table keeps it as well; `Reachable.invariant` puts every call
together.
-/

namespace Wavm.Runtime

open Finset

variable (host : Host)

namespace World

/-- What a failed creation leaves: one more table address used, and nothing the invariant reads
changed. -/
structure Restores (w w' : World) : Prop where
  live : w'.live = w.live
  nextTable : w'.nextTable = w.nextTable + 1
  heap : ∀ ref, ref ≠ w.nextTable → w'.heap ref = w.heap ref
  tables : w'.tables = w.tables
  compartments : w'.compartments = w.compartments
  quotas : ∀ quota, (w'.quotas quota).current = (w.quotas quota).current
  moduleInstances : w'.moduleInstances = w.moduleInstances

/-- What a successful creation leaves: a new live table at the next address, last in the global
vector, published under its id in its compartment, with its elements charged to its quota. -/
structure Adds (w w' : World) : Prop where
  live : w'.live = Function.update w.live w.nextTable true
  nextTable : w'.nextTable = w.nextTable + 1
  heap : ∀ ref, ref ≠ w.nextTable → w'.heap ref = w.heap ref
  tables : w'.tables = w.tables ++ [w.nextTable]
  tableInvariant : TableInvariant host (w'.heap w.nextTable)
  fresh : ReservationFresh w (w'.heap w.nextTable).elements
  id_ne : (w'.heap w.nextTable).id ≠ uintptrMax
  id_free : (w.compartments (w'.heap w.nextTable).compartment).tables
    (w'.heap w.nextTable).id = none
  compartments_tables : ∀ compartment id, (w'.compartments compartment).tables id =
    if compartment = (w'.heap w.nextTable).compartment ∧ id = (w'.heap w.nextTable).id then
      some w.nextTable
    else (w.compartments compartment).tables id
  compartments_tableBases : ∀ compartment id, (w'.compartments compartment).tableBases id =
    if compartment = (w'.heap w.nextTable).compartment ∧ id = (w'.heap w.nextTable).id then
      (w'.heap w.nextTable).elements
    else (w.compartments compartment).tableBases id
  quotas : ∀ quota, (w'.quotas quota).current = (w.quotas quota).current +
    if (w'.heap w.nextTable).resourceQuota = some quota then
      (w'.heap w.nextTable).numElements.toNat
    else 0
  moduleInstances : w'.moduleInstances = w.moduleInstances

/-- What destroying a live table leaves: the table is dead, out of the global vector and out of
its compartment, and its quota no longer charged for it. -/
structure Removes (w w' : World) (ref : TableRef) : Prop where
  live : w'.live = Function.update w.live ref false
  nextTable : w'.nextTable = w.nextTable
  heap : w'.heap = w.heap
  tables : w'.tables = w.tables.erase ref
  compartments_tables : ∀ compartment id, (w'.compartments compartment).tables id =
    if compartment = (w.heap ref).compartment ∧ id = (w.heap ref).id then none
    else (w.compartments compartment).tables id
  compartments_tableBases : ∀ compartment id, (w'.compartments compartment).tableBases id =
    if compartment = (w.heap ref).compartment ∧ id = (w.heap ref).id then 0
    else (w.compartments compartment).tableBases id
  quotas : ∀ quota, (w'.quotas quota).current = (w.quotas quota).current -
    if (w.heap ref).resourceQuota = some quota then (w.heap ref).numElements.toNat else 0
  moduleInstances : w'.moduleInstances = w.moduleInstances

/-- A state of `createTable` or `cloneTable` between making the table object and publishing or
deleting it: the new table is live at the next address, perhaps already in the global vector,
and its count is charged to its quota. -/
structure Constructing (w w' : World) : Prop where
  live : w'.live = Function.update w.live w.nextTable true
  nextTable : w'.nextTable = w.nextTable + 1
  heap : ∀ ref, ref ≠ w.nextTable → w'.heap ref = w.heap ref
  tables : w'.tables = w.tables ∨ w'.tables = w.tables ++ [w.nextTable]
  compartments : w'.compartments = w.compartments
  quotas : ∀ quota, (w'.quotas quota).current = (w.quotas quota).current +
    if (w'.heap w.nextTable).resourceQuota = some quota then
      (w'.heap w.nextTable).numElements.toNat
    else 0
  moduleInstances : w'.moduleInstances = w.moduleInstances

variable {host}

theorem Invariant.not_live_nextTable {w : World} (hinv : w.Invariant host) :
    w.live w.nextTable = false :=
  Bool.eq_false_iff.mpr fun hlive => lt_irrefl _ (hinv.live_lt _ hlive)

theorem Invariant.nextTable_not_mem {w : World} (hinv : w.Invariant host) :
    w.nextTable ∉ w.tables := fun hmem =>
  Bool.false_ne_true (hinv.not_live_nextTable.symm.trans ((hinv.mem_tables _).mp hmem))

/-- The charge of a quota over one more address, which holds no live table. -/
theorem chargedElements_succ {w w' : World} (hnext : w'.nextTable = w.nextTable + 1)
    (hlive : ∀ ref, w'.live ref ↔ w.live ref)
    (hheap : ∀ ref, w.live ref → w'.heap ref = w.heap ref) (hnew : w.live w.nextTable = false)
    (quota : QuotaRef) : w'.chargedElements quota = w.chargedElements quota := by
  rw [chargedElements, chargedElements, hnext, sum_range_succ]
  simp only [hlive, hnew, Bool.false_eq_true, false_and, if_false, add_zero]
  refine sum_congr rfl fun ref _ => ?_
  by_cases h : w.live ref
  · rw [hheap ref h]
  · simp [h]

theorem Invariant.restores {w w' : World} (hinv : w.Invariant host) (h : w.Restores w') :
    w'.Invariant host := by
  have hnew := hinv.not_live_nextTable
  have hheap : ∀ ref, w.live ref → w'.heap ref = w.heap ref := fun ref hlive =>
    h.heap ref fun href => by rw [href, hnew] at hlive; cases hlive
  refine
    { live_lt := fun ref hlive => ?_
      mem_tables := fun ref => ?_
      tables_nodup := h.tables ▸ hinv.tables_nodup
      tableInvariant := fun ref hlive => ?_
      elements_injective := fun ref ref' hlive hlive' => ?_
      elements_lt := fun ref hlive => ?_
      functions_ne := h.moduleInstances ▸ hinv.functions_ne
      quotas_current := fun quota => ?_
      compartment_tables := fun compartment id ref hid => ?_
      compartment_tableBases := h.compartments ▸ hinv.compartment_tableBases
      live_compartment := fun ref hlive => ?_ }
  · rw [h.live] at hlive
    exact (hinv.live_lt ref hlive).trans (h.nextTable ▸ Nat.lt_succ_self _)
  · rw [h.tables, h.live]
    exact hinv.mem_tables ref
  · rw [h.live] at hlive
    exact hheap ref hlive ▸ hinv.tableInvariant ref hlive
  · rw [h.live] at hlive hlive'
    rw [hheap ref hlive, hheap ref' hlive']
    exact hinv.elements_injective ref ref' hlive hlive'
  · rw [h.live] at hlive
    exact hheap ref hlive ▸ hinv.elements_lt ref hlive
  · rw [h.quotas, chargedElements_succ h.nextTable (by simp [h.live]) hheap hnew]
    exact hinv.quotas_current quota
  · rw [h.compartments] at hid ⊢
    obtain ⟨hlive, hrest⟩ := hinv.compartment_tables compartment id ref hid
    exact ⟨h.live ▸ hlive, hheap ref hlive ▸ hrest⟩
  · rw [h.live] at hlive
    rw [hheap ref hlive, h.compartments]
    exact hinv.live_compartment ref hlive

/-- The charge of a quota over one more address, which holds a new live table. -/
theorem chargedElements_adds {w w' : World} (h : w.Adds host w')
    (quota : QuotaRef) :
    w'.chargedElements quota = w.chargedElements quota +
      if (w'.heap w.nextTable).resourceQuota = some quota then
        (w'.heap w.nextTable).numElements.toNat
      else 0 := by
  rw [chargedElements, chargedElements, h.nextTable, sum_range_succ, h.live]
  simp only [Function.update_same, true_and]
  congr 1
  refine sum_congr rfl fun ref href => ?_
  have hne : ref ≠ w.nextTable := (mem_range.mp href).ne
  rw [Function.update_noteq hne, h.heap ref hne]

theorem Invariant.adds {w w' : World} (hinv : w.Invariant host) (h : w.Adds host w') :
    w'.Invariant host := by
  have hnew := hinv.not_live_nextTable
  have hne : ∀ ref, w.live ref → ref ≠ w.nextTable := fun ref hlive href => by
    rw [href, hnew] at hlive; cases hlive
  have hheap : ∀ ref, w.live ref → w'.heap ref = w.heap ref := fun ref hlive =>
    h.heap ref (hne ref hlive)
  have hlive_iff : ∀ ref, w'.live ref ↔ ref = w.nextTable ∨ w.live ref := fun ref => by
    rw [h.live]
    by_cases href : ref = w.nextTable
    · subst href; simp
    · simp [Function.update_noteq href, href]
  refine
    { live_lt := fun ref hlive => ?_
      mem_tables := fun ref => ?_
      tables_nodup := ?_
      tableInvariant := fun ref hlive => ?_
      elements_injective := fun ref ref' hlive hlive' => ?_
      elements_lt := fun ref hlive => ?_
      functions_ne := h.moduleInstances ▸ hinv.functions_ne
      quotas_current := fun quota => ?_
      compartment_tables := fun compartment id ref hid => ?_
      compartment_tableBases := fun compartment id hid => ?_
      live_compartment := fun ref hlive => ?_ }
  · rw [h.nextTable]
    rcases (hlive_iff ref).mp hlive with rfl | hlive
    · exact Nat.lt_succ_self _
    · exact (hinv.live_lt ref hlive).trans (Nat.lt_succ_self _)
  · rw [h.tables, List.mem_append, List.mem_singleton, hlive_iff, hinv.mem_tables, or_comm]
  · rw [h.tables, ← List.concat_eq_append]
    exact hinv.tables_nodup.concat fun hmem => hne _ ((hinv.mem_tables _).mp hmem) rfl
  · rcases (hlive_iff ref).mp hlive with rfl | hlive
    · exact h.tableInvariant
    · exact hheap ref hlive ▸ hinv.tableInvariant ref hlive
  · rcases (hlive_iff ref).mp hlive with rfl | hlive <;>
      rcases (hlive_iff ref').mp hlive' with rfl | hlive'
    · exact fun _ => rfl
    · rw [hheap ref' hlive']
      exact fun heq => absurd heq.symm (h.fresh.2 ref' hlive')
    · rw [hheap ref hlive]
      exact fun heq => absurd heq (h.fresh.2 ref hlive)
    · rw [hheap ref hlive, hheap ref' hlive']
      exact hinv.elements_injective ref ref' hlive hlive'
  · rcases (hlive_iff ref).mp hlive with rfl | hlive
    · exact h.fresh.1
    · exact hheap ref hlive ▸ hinv.elements_lt ref hlive
  · rw [h.quotas, chargedElements_adds h, hinv.quotas_current]
  · rw [h.compartments_tables] at hid
    rw [h.compartments_tableBases]
    split_ifs at hid ⊢ with hplace
    · cases hid
      exact ⟨(hlive_iff _).mpr (.inl rfl), hplace.1.symm, hplace.2.symm, rfl⟩
    · obtain ⟨hlive, hrest⟩ := hinv.compartment_tables compartment id ref hid
      exact ⟨(hlive_iff ref).mpr (.inr hlive), hheap ref hlive ▸ hrest⟩
  · rw [h.compartments_tables] at hid
    rw [h.compartments_tableBases]
    split_ifs at hid ⊢
    exact hinv.compartment_tableBases compartment id hid
  · rcases (hlive_iff ref).mp hlive with rfl | hlive
    · exact ⟨h.id_ne, by rw [h.compartments_tables, if_pos ⟨rfl, rfl⟩]⟩
    · obtain ⟨hid, hmap⟩ := hinv.live_compartment ref hlive
      rw [hheap ref hlive, h.compartments_tables]
      refine ⟨hid, ?_⟩
      split_ifs with hplace
      · rw [hplace.1, hplace.2, h.id_free] at hmap
        cases hmap
      · exact hmap

/-! ## Destroying a table -/

/-- `delete` of a live table never fails: its id is in its compartment's map. -/
theorem deleteTable_removes {w : World} {ref : TableRef} (hinv : w.Invariant host)
    (hlive : w.live ref) : ∃ w', w.deleteTable host ref = some w' ∧ w.Removes w' ref := by
  obtain ⟨hid, hmap⟩ := hinv.live_compartment ref hlive
  cases hdelete : w.deleteTable host ref with
  | none => simp [deleteTable, leaveCompartment, hid, Compartment.removeOrFail, hmap] at hdelete
  | some w' =>
  simp only [deleteTable, leaveCompartment, hid, Compartment.removeOrFail, hmap] at hdelete
  rw [if_pos hid] at hdelete
  cases hdelete
  refine ⟨_, rfl, ⟨?_, ?_, ?_, ?_, fun compartment id => ?_, fun compartment id => ?_,
    fun quota => ?_, ?_⟩⟩
  any_goals simp [freeTableElems_current]
  all_goals
    by_cases hc : compartment = (w.heap ref).compartment
    · subst hc
      by_cases hi : id = (w.heap ref).id
      · subst hi; simp [Compartment.setTableBase]
      · simp [Compartment.setTableBase, hi]
    · simp [Function.update_noteq hc, hc]

theorem Invariant.removes {w w' : World} {ref : TableRef} (hinv : w.Invariant host)
    (hlive : w.live ref) (h : w.Removes w' ref) : w'.Invariant host := by
  have hlive_iff : ∀ r, w'.live r ↔ r ≠ ref ∧ w.live r := fun r => by
    rw [h.live]
    by_cases hr : r = ref
    · subst hr; simp
    · simp [Function.update_noteq hr, hr]
  obtain ⟨hid, hmap⟩ := hinv.live_compartment ref hlive
  /- A live table other than `ref` is filed under another compartment or id. -/
  have hother : ∀ r, w.live r → r ≠ ref →
      ¬((w.heap r).compartment = (w.heap ref).compartment ∧ (w.heap r).id = (w.heap ref).id) :=
    fun r hr hne hplace => hne (Option.some_inj.mp
      ((hinv.live_compartment r hr).2.symm.trans (by rw [hplace.1, hplace.2, hmap])))
  refine
    { live_lt := fun r hr => ?_
      mem_tables := fun r => ?_
      tables_nodup := h.tables ▸ hinv.tables_nodup.erase ref
      tableInvariant := fun r hr => ?_
      elements_injective := fun r r' hr hr' => ?_
      elements_lt := fun r hr => ?_
      functions_ne := h.moduleInstances ▸ hinv.functions_ne
      quotas_current := fun quota => ?_
      compartment_tables := fun compartment id r hr => ?_
      compartment_tableBases := fun compartment id hr => ?_
      live_compartment := fun r hr => ?_ }
  · exact h.nextTable ▸ hinv.live_lt r ((hlive_iff r).mp hr).2
  · rw [h.tables, hinv.tables_nodup.mem_erase_iff, hinv.mem_tables, hlive_iff]
  · exact h.heap ▸ hinv.tableInvariant r ((hlive_iff r).mp hr).2
  · exact h.heap ▸ hinv.elements_injective r r' ((hlive_iff r).mp hr).2 ((hlive_iff r').mp hr').2
  · exact h.heap ▸ hinv.elements_lt r ((hlive_iff r).mp hr).2
  · have hsum := @sum_range_add_eq w.nextTable ref
      (fun x => if w.live x ∧ (w.heap x).resourceQuota = some quota then
        (w.heap x).numElements.toNat else 0)
      (fun x => if w'.live x ∧ (w'.heap x).resourceQuota = some quota then
        (w'.heap x).numElements.toNat else 0)
      (hinv.live_lt ref hlive) fun x hx => by simp [h.heap, hlive_iff, hx]
    simp only [(hlive_iff ref).not.mpr (fun h => h.1 rfl), hlive, true_and, Bool.false_eq_true,
      false_and, if_false, add_zero] at hsum
    rw [h.quotas, hinv.quotas_current, chargedElements, chargedElements, h.nextTable]
    exact (Nat.eq_sub_of_add_eq hsum).symm
  · rw [h.compartments_tables] at hr
    rw [h.compartments_tableBases, h.heap, hlive_iff]
    split_ifs at hr ⊢ with hplace
    obtain ⟨hlive, hrest⟩ := hinv.compartment_tables compartment id r hr
    refine ⟨⟨fun hr => hplace ?_, hlive⟩, hrest⟩
    subst hr
    exact ⟨hrest.1.symm, hrest.2.1.symm⟩
  · rw [h.compartments_tables] at hr
    rw [h.compartments_tableBases]
    split_ifs at hr ⊢
    · rfl
    · exact hinv.compartment_tableBases compartment id hr
  · obtain ⟨hne, hr⟩ := (hlive_iff r).mp hr
    rw [h.heap, h.compartments_tables, if_neg (hother r hr hne)]
    exact hinv.live_compartment r hr

theorem Invariant.deleteTable {w w' : World} {ref : TableRef} (hinv : w.Invariant host)
    (hlive : w.live ref) (h : w.deleteTable host ref = some w') : w'.Invariant host :=
  have ⟨_, hdelete, hremoves⟩ := deleteTable_removes hinv hlive
  Option.some_inj.mp (hdelete.symm.trans h) ▸ hinv.removes hlive hremoves

/-! ## Creating a table -/

/-- `createTableImpl` always returns. -/
theorem createTableImpl_isSome (w : World) (compartment : CompartmentRef) (type : TableType)
    (debugName : String) (resourceQuota : Option QuotaRef) (reservation : Uptr) :
    (w.createTableImpl host compartment type debugName resourceQuota reservation).isSome := by
  unfold createTableImpl newTable
  dsimp only
  split
  · simp [deleteTable, leaveCompartment, Table.new]
  · rfl

/-- What `createTableImpl` leaves: after a failed reservation, the process as it was (the object
deleted again); otherwise the new table, reserved and empty, last in the global vector. -/
theorem createTableImpl_eq_some {w w' : World} {compartment : CompartmentRef} {type : TableType}
    {debugName : String} {resourceQuota : Option QuotaRef} {reservation : Uptr}
    {created : Option TableRef} (hinv : w.Invariant host)
    (h : w.createTableImpl host compartment type debugName resourceQuota reservation =
      some (w', created)) :
    (reservation = 0 ∧ created = none ∧ w.Restores w') ∨
    (reservation ≠ 0 ∧ created = some w.nextTable ∧ w.Constructing w' ∧
      w'.tables = w.tables ++ [w.nextTable] ∧
      w'.heap w.nextTable = { Table.new compartment type debugName resourceQuota with
        elements := reservation
        numReservedBytes := tableMaxBytes
        numReservedElements := tableMaxElements }) := by
  have hnew := hinv.not_live_nextTable
  unfold createTableImpl at h
  split at h
  rename_i w₁ ref hcreated
  obtain ⟨rfl, rfl⟩ : w₁ = (w.newTable (Table.new compartment type debugName resourceQuota)).1 ∧
      ref = w.nextTable :=
    ⟨by rw [hcreated], by rw [← newTable_snd w (Table.new compartment type debugName resourceQuota),
      hcreated]⟩
  dsimp only at h
  split at h
  · rw [Option.bind_eq_bind, Option.bind_eq_some] at h
    obtain ⟨_, hdelete, hpure⟩ := h
    rw [deleteTable, leaveCompartment_of_id_eq (by simp [Table.new])] at hdelete
    cases hdelete
    cases hpure
    refine .inl ⟨‹_›, rfl, ⟨?_, by simp, fun ref href => by simp [href], ?_, by simp,
      fun quota => by simp [freeTableElems_current, Table.new], by simp⟩⟩
    · simp [Function.update_eq_self_iff, hnew]
    · simpa using List.erase_of_not_mem hinv.nextTable_not_mem
  · cases h
    refine .inr ⟨‹_›, rfl, ⟨by simp, by simp, fun ref href => by simp [href], .inr (by simp), by simp,
      fun quota => by simp [Table.new], by simp⟩, by simp, by simp⟩

theorem Constructing.applyGrow {w w' : World} {delta fill : Uptr}
    {initializeNewElements commitSucceeds : Bool} {outcome : GrowOutcome}
    (hc : w.Constructing w') (htable : TableInvariant host (w'.heap w.nextTable))
    (h : growTableImpl host w'.quotas (w'.heap w.nextTable) delta initializeNewElements fill
      commitSucceeds = some outcome) :
    w.Constructing (w'.applyGrow w.nextTable outcome) := by
  obtain ⟨hplace, hquotas⟩ := growTableImpl_charges htable h
  refine ⟨by simp [hc.live], by simp [hc.nextTable], fun ref href => by simp [href, hc.heap ref href],
    by simpa using hc.tables, by simp [hc.compartments], fun quota => ?_, by simp [hc.moduleInstances]⟩
  have hq := hquotas quota
  have hc' := hc.quotas quota
  simp only [applyGrow_quotas, applyGrow_heap, Function.update_same, hplace.resourceQuota] at hq hc' ⊢
  omega

/-- Deleting the table under construction, while it has no id, restores the process. -/
theorem Constructing.deleteTable {w w' w'' : World} (hinv : w.Invariant host)
    (hc : w.Constructing w') (hid : (w'.heap w.nextTable).id = uintptrMax)
    (h : w'.deleteTable host w.nextTable = some w'') : w.Restores w'' := by
  rw [World.deleteTable, leaveCompartment_of_id_eq hid, Option.map_some', Option.some_inj] at h
  subst h
  have hmem := hinv.nextTable_not_mem
  refine ⟨?_, by simp [hc.nextTable], fun ref href => by simp [hc.heap ref href], ?_,
    by simp [hc.compartments], fun quota => ?_, by simp [hc.moduleInstances]⟩
  · simp [hc.live, Function.update_eq_self_iff, hinv.not_live_nextTable]
  · rcases hc.tables with htables | htables <;> rw [releaseTable_tables, htables]
    · exact List.erase_of_not_mem hmem
    · rw [List.erase_append_right _ hmem]
      simp
  · have hc' := hc.quotas quota
    rw [releaseTable_quotas, freeTableElems_current]
    omega

/-- Publishing the table under construction, under a free id of its compartment and with a
fresh reservation, adds it to the process. -/
theorem Constructing.adds {w w' : World} {t : Table} {ref : CompartmentRef}
    {compartment : Compartment} (hc : w.Constructing w')
    (htables : w'.tables = w.tables ++ [w.nextTable])
    (hquota : t.resourceQuota = (w'.heap w.nextTable).resourceQuota)
    (hcount : t.numElements = (w'.heap w.nextTable).numElements)
    (htable : TableInvariant host t) (hfresh : ReservationFresh w t.elements)
    (hcompartment : t.compartment = ref) (hid : t.id ≠ uintptrMax)
    (hfree : (w.compartments ref).tables t.id = none)
    (hmap : compartment.tables = Function.update (w.compartments ref).tables t.id (some w.nextTable))
    (hbases : compartment.tableBases =
      Function.update (w.compartments ref).tableBases t.id t.elements) :
    w.Adds host ((w'.setTable w.nextTable t).setCompartment ref compartment) := by
  subst hcompartment
  refine ⟨by simp [hc.live], by simp [hc.nextTable], fun ref href => by simp [href, hc.heap ref href],
    by simp [htables], by simpa using htable, by simpa using hfresh, by simpa using hid,
    by simpa using hfree, fun c id => ?_, fun c id => ?_, fun quota => ?_,
    by simp [hc.moduleInstances]⟩
  · by_cases hcomp : c = t.compartment
    · subst hcomp
      by_cases hid' : id = t.id
      · subst hid'; simp [hmap]
      · simp [hmap, hid', Function.update_noteq hid']
    · simp [Function.update_noteq hcomp, hcomp, hc.compartments]
  · by_cases hcomp : c = t.compartment
    · subst hcomp
      by_cases hid' : id = t.id
      · subst hid'; simp [hbases]
      · simp [hbases, hid', Function.update_noteq hid']
    · simp [Function.update_noteq hcomp, hcomp, hc.compartments]
  · simpa [hquota, hcount] using hc.quotas quota

/-- `Runtime::createTable` with an initial element other than the out-of-bounds sentinel and a
fresh reservation either fails and leaves the process as it was, or adds the new table. -/
theorem createTable_eq_some {w w' : World} {compartment : CompartmentRef} {type : TableType}
    {element : Uptr} {debugName : String} {resourceQuota : Option QuotaRef} {reservation : Uptr}
    {commitSucceeds : Bool} {created : Option TableRef} (hinv : w.Invariant host)
    (helement : element ≠ host.outOfBoundsElement) (hfresh : ReservationFresh w reservation)
    (h : w.createTable host compartment type element debugName resourceQuota reservation
      commitSucceeds = some (w', created)) :
    (created = none ∧ w.Restores w') ∨ (created = some w.nextTable ∧ w.Adds host w') := by
  unfold createTable at h
  rw [Option.bind_eq_bind, Option.bind_eq_some] at h
  obtain ⟨⟨w₁, created₁⟩, himpl, h⟩ := h
  rcases createTableImpl_eq_some hinv himpl with ⟨-, rfl, hrestores⟩ | ⟨hreservation, rfl, hc, htables, hheap⟩
  · cases h
    exact .inl ⟨rfl, hrestores⟩
  dsimp only at h
  rw [Option.bind_eq_bind, Option.bind_eq_some] at h
  obtain ⟨fill, hfill, h⟩ := h
  have hfill : fill ≠ host.outOfBoundsElement := by
    split at hfill
    · cases hfill; exact host.uninitializedElement_ne_outOfBoundsElement
    · split at hfill
      · cases hfill; exact helement
      · cases hfill
  rw [Option.bind_eq_bind, Option.bind_eq_some] at h
  obtain ⟨outcome, hgrow, h⟩ := h
  have htable₁ : TableInvariant host (w₁.heap w.nextTable) := hheap ▸ TableInvariant.reserved host hreservation
  have hc₂ := hc.applyGrow htable₁ hgrow
  have hplace := (growTableImpl_charges htable₁ hgrow).1
  have htable₂ := growTableImpl_tableInvariant htable₁ hfill hgrow
  generalize hw₂ : w₁.applyGrow w.nextTable outcome = w₂ at h hc₂
  have hheap₂ : w₂.heap w.nextTable = outcome.table := by rw [← hw₂]; simp
  have htables₂ : w₂.tables = w.tables ++ [w.nextTable] := by rw [← hw₂]; simpa using htables
  have hplace₂ : (w₂.heap w.nextTable).SamePlace
      { Table.new compartment type debugName resourceQuota with
        elements := reservation
        numReservedBytes := tableMaxBytes
        numReservedElements := tableMaxElements } := by
    rw [hheap₂, ← hheap]
    exact ⟨hplace.1.symm, hplace.2.symm, hplace.3.symm, hplace.4.symm⟩
  generalize hadd : (w₂.compartments compartment).add uintptrMax w.nextTable = added at h
  obtain ⟨added, id⟩ := added
  dsimp only at h
  split at h
  · rw [Option.bind_eq_bind, Option.bind_eq_some] at h
    obtain ⟨_, hdelete, hpure⟩ := h
    cases hpure
    exact .inl ⟨rfl, hc₂.deleteTable hinv (hplace₂.id.symm.trans rfl) hdelete⟩
  rcases Compartment.add_eq (w₂.compartments compartment) uintptrMax w.nextTable with
    hfail | ⟨id', hne, hnone, hsucc⟩ <;> rw [hadd, Prod.mk.injEq] at *
  · obtain ⟨rfl, rfl⟩ := hfail
    rw [if_pos rfl, Option.bind_eq_bind, Option.bind_eq_some] at h
    obtain ⟨_, hdelete, hpure⟩ := h
    cases hpure
    refine .inl ⟨rfl, Constructing.deleteTable hinv ⟨by simp [hc₂.live], by simp [hc₂.nextTable],
      fun ref href => by simp [href, hc₂.heap ref href], by simpa using hc₂.tables,
      by simp [hc₂.compartments], fun quota => by simpa using hc₂.quotas quota,
      by simp [hc₂.moduleInstances]⟩ (by simp) hdelete⟩
  · obtain ⟨rfl, rfl⟩ := hsucc
    rw [if_neg hne] at h
    cases h
    rw [setCompartment_setCompartment]
    refine .inr ⟨rfl, hc₂.adds htables₂ rfl rfl (hheap₂ ▸ htable₂.with_id host id)
      (show ReservationFresh w (w₂.heap w.nextTable).elements from hplace₂.elements ▸ hfresh)
      (hplace₂.compartment.symm.trans rfl) hne
      (by rwa [hc₂.compartments] at hnone) (by simp [Compartment.setTableBase, hc₂.compartments])
      (by simp [Compartment.setTableBase, hc₂.compartments])⟩

/-! ## Cloning a table -/

/-- The table `cloneTable` builds from an empty one: grown to the source's count without
initialising the new slots, which its copy loop then fills from the source.  The copy loop
returns; the copy keeps the empty table's place and type, has the source's count, and satisfies
the invariant. -/
theorem cloneTable_copied {quotas : Quotas} {source t : Table} {fill : Uptr}
    {commitSucceeds : Bool} {outcome : GrowOutcome}
    (hsource : TableInvariant host source) (ht : TableInvariant host t)
    (hempty : t.numElements = 0)
    (hgrow : growTableImpl host quotas t source.numElements false fill commitSucceeds =
      some outcome)
    (hold : outcome.oldNumElements.isNone = false) :
    ∃ copied, copyElements host source 0 source.numElements.toNat outcome.table = some copied ∧
      copied = { outcome.table with slots := copied.slots } ∧ TableInvariant host copied ∧
      copied.type = t.type ∧ copied.numElements = source.numElements ∧
      ∀ i, copied.slots i = if i < source.numElements.toNat then source.slots i else t.slots i := by
  have hsourcePages : ∀ i, 0 ≤ i → i < 0 + source.numElements.toNat →
      source.committed (elementPage host i) := fun i _ hi =>
    hsource.committed_elementPage (by omega)
  rcases growTableImpl_eq_some ht hgrow with ⟨htable, -, hzero | hnone⟩ | ⟨hadmitted, charged, -, rfl⟩
  · rw [htable]
    have hcount : source.numElements.toNat = 0 := by rw [hzero]; rfl
    refine ⟨_, copyElements_eq host hsourcePages (fun i _ hi => absurd hi (by omega)), rfl,
      ht.with_slots host (fun i hi => ?_) fun i hi hres => ?_, rfl, hempty.trans hzero.symm,
      fun i => by simp [hcount]⟩
    · rw [hempty] at hi; exact absurd hi (Nat.not_lt_zero i)
    · simpa [hcount] using ht.slots_eq_zero i hi hres
  · rw [hnone] at hold; cases hold
  · have hnew : (t.numElements + source.numElements).toNat = source.numElements.toNat := by
      rw [hempty]; simp
    have hgrown := ht.grown host hadmitted.2.1 hadmitted.2.2.1
      (host.uninitializedElement_ne_outOfBoundsElement ∘
        (objectToBiasedTableElementValue_eq_zero host _).mp)
    refine ⟨_, @copyElements_eq host source
      (t.grown host source.numElements false (objectToBiasedTableElementValue host fill)) 0 _
      hsourcePages fun i _ hi => hgrown.committed_elementPage
        (by simp only [Table.grown, hnew]; omega), rfl,
      hgrown.with_slots host (fun i hi => ?_) fun i hi _ => ?_, rfl,
      by simp [Table.grown, hempty], fun i => ?_⟩
    · simp only [Table.grown, hnew] at hi
      simp only [Nat.zero_le, zero_add, true_and, if_pos hi]
      exact hsource.slots_ne_zero i hi
    · simp only [Table.grown, hnew] at hi ⊢
      rw [if_neg (by omega), if_neg (by simp)]
      exact ht.slots_eq_zero i (by rw [hempty]; exact Nat.zero_le i) (by assumption)
    · simp [Table.grown]

/-- The growth of the empty table `cloneTable` builds goes through exactly when the source has no
element to copy, or the quota admits its count and the commit of its pages succeeds. -/
theorem cloneTable_grown_iff {quotas : Quotas} {source t : Table} {fill : Uptr}
    {commitSucceeds : Bool} {outcome : GrowOutcome}
    (hsource : TableInvariant host source) (ht : TableInvariant host t)
    (hempty : t.numElements = 0) (htype : t.type = source.type)
    (hgrow : growTableImpl host quotas t source.numElements false fill commitSucceeds =
      some outcome) :
    outcome.oldNumElements.isSome ↔ source.numElements = 0 ∨
      (allocateTableElems quotas t.resourceQuota source.numElements.toNat).isSome ∧
        commitSucceeds = true := by
  by_cases hdelta : source.numElements = 0
  · rw [hdelta, growTableImpl_zero, Option.some_inj] at hgrow
    subst hgrow
    simp [hdelta]
  have hpages : getNumPlatformPages host ((t.numElements + source.numElements) * sizeofElement) ≠
      getNumPlatformPages host (t.numElements * sizeofElement) := by
    rw [hempty, zero_add,
      (getNumPlatformPages_mul_eq_zero host (show (0 : Uptr).toNat ≤ 2 ^ 32 by decide)).mpr rfl]
    exact (getNumPlatformPages_mul_eq_zero host hsource.numElements_le_reserved).not.mpr hdelta
  rcases growTableImpl_cases host ht hdelta with ⟨charged, hadmitted, hcharge, hgrown⟩ |
    ⟨hrefused, hgrown⟩ <;> rw [hgrown, Option.some_inj] at hgrow <;> subst hgrow
  · -- admitted: the quota took the charge and the commit went through
    simp only [Option.isSome_some, true_iff]
    exact .inr ⟨by rw [hcharge]; rfl, hadmitted.2.2.2 hpages⟩
  · -- refused: with the charge admitted and the commit done, the growth would be admitted
    simp only [Option.isSome_none, Bool.false_eq_true, false_iff, not_or, not_and]
    refine ⟨hdelta, fun hcharge hcommit => hrefused ⟨allocateTableElems_isSome.mp hcharge, ?_, ?_,
      fun _ => hcommit⟩⟩
    · rw [hempty, htype]; simpa using hsource.numElements_le_max
    · rw [hempty]; simpa using hsource.numElements_le_maxTableElems

/-- `Runtime::cloneTable` of a live table with a fresh reservation either fails and leaves the
process as it was, or adds the clone. -/
theorem cloneTable_eq_some {w w' : World} {table : TableRef} {newCompartment : CompartmentRef}
    {reservation : Uptr} {commitSucceeds : Bool} {created : Option TableRef}
    (hinv : w.Invariant host) (hlive : w.live table) (hfresh : ReservationFresh w reservation)
    (h : w.cloneTable host table newCompartment reservation commitSucceeds = some (w', created)) :
    (created = none ∧ w.Restores w') ∨ (created = some w.nextTable ∧ w.Adds host w') := by
  have hsource := hinv.tableInvariant table hlive
  unfold cloneTable at h
  rw [Option.bind_eq_bind, Option.bind_eq_some] at h
  obtain ⟨⟨w₁, created₁⟩, himpl, h⟩ := h
  rcases createTableImpl_eq_some hinv himpl with ⟨-, rfl, hrestores⟩ | ⟨hreservation, rfl, hc, htables, hheap⟩
  · cases h
    exact .inl ⟨rfl, hrestores⟩
  dsimp only at h
  rw [Option.bind_eq_bind, Option.bind_eq_some] at h
  obtain ⟨outcome, hgrow, h⟩ := h
  have htable₁ : TableInvariant host (w₁.heap w.nextTable) := hheap ▸ TableInvariant.reserved host hreservation
  have hc₂ := hc.applyGrow htable₁ hgrow
  have hplace := (growTableImpl_charges htable₁ hgrow).1
  generalize hw₂ : w₁.applyGrow w.nextTable outcome = w₂ at h hc₂
  have hheap₂ : w₂.heap w.nextTable = outcome.table := by rw [← hw₂]; simp
  have htables₂ : w₂.tables = w.tables ++ [w.nextTable] := by rw [← hw₂]; simpa using htables
  split at h
  · rw [Option.bind_eq_bind, Option.bind_eq_some] at h
    obtain ⟨_, hdelete, hpure⟩ := h
    cases hpure
    exact .inl ⟨rfl, hc₂.deleteTable hinv (by rw [hheap₂, hplace.id, hheap]; rfl) hdelete⟩
  rename_i hold
  rw [Option.bind_eq_bind, Option.bind_eq_some] at h
  obtain ⟨copied, hcopy, h⟩ := h
  rw [Option.bind_eq_bind, Option.bind_eq_some] at h
  obtain ⟨compartment, hinsert, h⟩ := h
  cases h
  obtain ⟨hfree, rfl⟩ := Compartment.insertOrFail_eq_some hinsert
  obtain ⟨copied', hcopy', hcopied, hcopiedInv, -⟩ := cloneTable_copied hsource htable₁
    (by rw [hheap]; rfl) hgrow (Bool.eq_false_iff.mpr hold)
  rw [hheap₂, hcopy', Option.some_inj] at hcopy
  subst copied'
  have hplace' : (w₁.heap w.nextTable).SamePlace copied := by
    rw [hcopied]; exact ⟨hplace.1, hplace.2, hplace.3, hplace.4⟩
  obtain ⟨hid, -⟩ := hinv.live_compartment table hlive
  refine .inr ⟨rfl, hc₂.adds htables₂ ?_ ?_ (hcopiedInv.with_id host _) ?_ ?_ hid
    (by rwa [hc₂.compartments] at hfree) (by simp [Compartment.setTableBase, hc₂.compartments])
    (by simp [Compartment.setTableBase, hc₂.compartments])⟩
  · rw [hheap₂, hcopied]
  · rw [hheap₂, hcopied]
  · show ReservationFresh w copied.elements
    rw [hplace'.elements, hheap]
    exact hfresh
  · show copied.compartment = newCompartment
    rw [hplace'.compartment, hheap]
    rfl

/-! ## Every call -/

/-- Every admissible call keeps the invariant. -/
theorem Invariant.step {w w' : World} {op : Op} (hinv : w.Invariant host)
    (hadmissible : op.Admissible host w) (h : w.step host op = some w') : w'.Invariant host := by
  cases op with
  | createTable compartment type element debugName resourceQuota reservation commitSucceeds =>
    obtain ⟨⟨_, created⟩, hcreate, rfl⟩ := Option.map_eq_some'.mp h
    rcases createTable_eq_some hinv hadmissible.1 hadmissible.2 hcreate with ⟨-, h⟩ | ⟨-, h⟩
    · exact hinv.restores h
    · exact hinv.adds h
  | cloneTable table newCompartment reservation commitSucceeds =>
    obtain ⟨⟨_, created⟩, hclone, rfl⟩ := Option.map_eq_some'.mp h
    rcases cloneTable_eq_some hinv hadmissible.1 hadmissible.2 hclone with ⟨-, h⟩ | ⟨-, h⟩
    · exact hinv.restores h
    · exact hinv.adds h
  | destroyTable table => exact hinv.deleteTable hadmissible h
  | growTable table numElementsToGrow initialElement commitSucceeds =>
    obtain ⟨⟨_, old⟩, hgrow, rfl⟩ := Option.map_eq_some'.mp h
    exact hinv.growTable host hadmissible.1 hadmissible.2 hgrow
  | setTableElement table index newValue =>
    cases h
    split
    · exact (hinv.setTableElement host hadmissible.1 hadmissible.2 ‹_›).1
    · exact hinv
  | getTableElement => cases h; exact hinv
  | initElemSegment => cases h; exact hinv.initElemSegment host hadmissible
  | tableGrow initialValue deltaNumElements table commitSucceeds =>
    obtain ⟨⟨_, result⟩, hgrow, rfl⟩ := Option.map_eq_some'.mp h
    exact hinv.tableGrow host hadmissible.1 hadmissible.2 hgrow
  | tableSize => cases h; exact hinv
  | tableGet => cases h; exact hinv
  | tableSet => cases h; exact hinv.tableSet host hadmissible.1 hadmissible.2
  | tableInit => cases h; exact hinv.tableInit host hadmissible
  | elemDrop => cases h; exact hinv.elemDrop host
  | tableCopy => cases h; exact hinv.tableCopy host hadmissible.2
  | tableFill => cases h; exact hinv.tableFill host hadmissible.1 hadmissible.2

end World

variable {host}

/-- Every reachable process state satisfies the invariant. -/
theorem Reachable.invariant {w : World} (h : Reachable host w) : w.Invariant host := by
  induction h with
  | initial hinitial => exact World.Initial.invariant host hinitial
  | step _ _ hadmissible hstep ih => exact ih.step hadmissible hstep

/-! ## What a clone holds -/

/-- `Runtime::cloneTable` of a live table of a reachable state, into a compartment whose slot for
the source's id is free, always returns and leaves the source table as it was.  It returns a table
exactly when the platform reserves its address space and the source has no element or the quota
admits the source's count and the commit of its pages succeeds.  That table has the source's type
and count, the source's slots below the count and zero from the count up, and the source's id,
under which the new compartment holds it and its element base. -/
theorem cloneTable_spec {w : World} (hreach : Reachable host w) {table : TableRef}
    (newCompartment : CompartmentRef) (reservation : Uptr) (commitSucceeds : Bool)
    (hlive : w.live table)
    (hfree : (w.compartments newCompartment).tables (w.heap table).id = none) :
    ∃ w' created, w.cloneTable host table newCompartment reservation commitSucceeds =
        some (w', created) ∧ w'.heap table = w.heap table ∧
      (created.isSome ↔ reservation ≠ 0 ∧ ((w.heap table).numElements = 0 ∨
        (allocateTableElems w.quotas (w.heap table).resourceQuota
          (w.heap table).numElements.toNat).isSome ∧ commitSucceeds = true)) ∧
      ∀ clone, created = some clone →
        (w'.heap clone).type = (w.heap table).type ∧
        (w'.heap clone).numElements = (w.heap table).numElements ∧
        (∀ i < (w.heap table).numElements.toNat,
          (w'.heap clone).slots i = (w.heap table).slots i) ∧
        (∀ i, (w.heap table).numElements.toNat ≤ i → (w'.heap clone).slots i = 0) ∧
        (w'.heap clone).id = (w.heap table).id ∧
        (w'.compartments newCompartment).tables (w.heap table).id = some clone ∧
        (w'.compartments newCompartment).tableBases (w.heap table).id =
          (w'.heap clone).elements := by
  have hinv := hreach.invariant
  have hsource := hinv.tableInvariant table hlive
  have hne : table ≠ w.nextTable := fun h => by
    rw [h, hinv.not_live_nextTable] at hlive; cases hlive
  have hcreate : (w.createTableImpl host newCompartment (w.heap table).type
      (w.heap table).debugName (w.heap table).resourceQuota reservation).isSome :=
    w.createTableImpl_isSome newCompartment _ _ _ reservation
  obtain ⟨⟨w₁, created₁⟩, himpl⟩ := Option.isSome_iff_exists.mp hcreate
  unfold World.cloneTable
  dsimp only
  rw [himpl]
  rcases World.createTableImpl_eq_some hinv himpl with
    ⟨hzero, rfl, hrestores⟩ | ⟨hreservation, rfl, hc, -, hheap⟩
  · exact ⟨w₁, none, rfl, hrestores.heap table hne, by simp [hzero], fun _ h => nomatch h⟩
  have htable₁ : TableInvariant host (w₁.heap w.nextTable) :=
    hheap ▸ TableInvariant.reserved host hreservation
  have hgrow : (growTableImpl host w₁.quotas (w₁.heap w.nextTable) (w.heap table).numElements
      false host.uninitializedElement commitSucceeds).isSome := growTableImpl_isSome host htable₁
  obtain ⟨outcome, hgrow⟩ := Option.isSome_iff_exists.mp hgrow
  have hquotas : w₁.quotas = w.quotas := by
    simp only [World.createTableImpl, hreservation, if_false] at himpl
    cases himpl
    rfl
  have hadmits : outcome.oldNumElements.isSome ↔ (w.heap table).numElements = 0 ∨
      (allocateTableElems w.quotas (w.heap table).resourceQuota
        (w.heap table).numElements.toNat).isSome ∧ commitSucceeds = true := by
    simpa [hquotas, hheap, Table.new] using
      World.cloneTable_grown_iff hsource htable₁ (by rw [hheap]; rfl) (by rw [hheap]; rfl) hgrow
  have hc₂ := hc.applyGrow htable₁ hgrow
  have hplace := (growTableImpl_charges htable₁ hgrow).1
  simp only [Option.bind_eq_bind, Option.some_bind, hgrow]
  have hheap₂ : (w₁.applyGrow w.nextTable outcome).heap w.nextTable = outcome.table := by simp
  split
  · -- the growth was refused: the new table is deleted again
    have hid : ((w₁.applyGrow w.nextTable outcome).heap w.nextTable).id = uintptrMax := by
      rw [hheap₂, hplace.id, hheap]
      rfl
    have hdelete : (w₁.applyGrow w.nextTable outcome).deleteTable host w.nextTable =
        some ((w₁.applyGrow w.nextTable outcome).releaseTable host w.nextTable) := by
      rw [World.deleteTable, World.leaveCompartment_of_id_eq hid]
      rfl
    rw [hdelete]
    rename_i hold
    exact ⟨_, none, rfl, (hc₂.deleteTable hinv hid hdelete).heap table hne,
      iff_of_false (by simp) fun h => Option.not_isSome_iff_eq_none.mpr
        (Option.isNone_iff_eq_none.mp hold) (hadmits.mpr h.2), fun _ h => nomatch h⟩
  · -- the growth went through: the copy loop returns and the id is free
    rename_i hold
    obtain ⟨copied, hcopy, -, -, htype, hcount, hslots⟩ := World.cloneTable_copied hsource
      htable₁ (by rw [hheap]; rfl) hgrow (Bool.eq_false_iff.mpr hold)
    rw [hheap₂, hcopy, hc₂.compartments]
    simp only [Option.some_bind, Compartment.insertOrFail, hfree]
    refine ⟨_, _, rfl, by simp [hne, hc.heap table hne], ?_, fun clone hclone => ?_⟩
    · exact iff_of_true rfl ⟨hreservation, hadmits.mp
        (Option.isSome_iff_ne_none.mpr (hold ∘ Option.isNone_iff_eq_none.mpr))⟩
    cases hclone
    simp only [World.setCompartment_heap, World.setTable_heap, Function.update_same,
      World.setCompartment_compartments, Compartment.setTableBase]
    refine ⟨htype.trans (by rw [hheap]; rfl), hcount, fun i hi => ?_, fun i hi => ?_, trivial,
      by simp, by simp⟩
    · rw [hslots, if_pos hi]
    · rw [hslots, if_neg (by omega), hheap]
      rfl

theorem cloneTable_spec_sampleCreated :
    (sampleCreated.compartments 1).tables (sampleCreated.heap 0).id = none ∧
    ∃ w' created, sampleCreated.cloneTable sampleHost 0 1 0x20000000 true =
        some (w', created) ∧ w'.heap 0 = sampleCreated.heap 0 ∧
      (created.isSome ↔ (0x20000000 : Uptr) ≠ 0 ∧ ((sampleCreated.heap 0).numElements = 0 ∨
        (allocateTableElems sampleCreated.quotas (sampleCreated.heap 0).resourceQuota
          (sampleCreated.heap 0).numElements.toNat).isSome ∧ true = true)) ∧
      ∀ clone, created = some clone →
        (w'.heap clone).type = (sampleCreated.heap 0).type ∧
        (w'.heap clone).numElements = (sampleCreated.heap 0).numElements ∧
        (∀ i < (sampleCreated.heap 0).numElements.toNat,
          (w'.heap clone).slots i = (sampleCreated.heap 0).slots i) ∧
        (∀ i, (sampleCreated.heap 0).numElements.toNat ≤ i → (w'.heap clone).slots i = 0) ∧
        (w'.heap clone).id = (sampleCreated.heap 0).id ∧
        (w'.compartments 1).tables (sampleCreated.heap 0).id = some clone ∧
        (w'.compartments 1).tableBases (sampleCreated.heap 0).id = (w'.heap clone).elements :=
  ⟨by decide, cloneTable_spec sampleCreated_reachable 1 0x20000000 true (by decide) (by decide)⟩

end Wavm.Runtime
