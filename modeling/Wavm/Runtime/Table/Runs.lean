import Mathlib.Logic.Relation
import Wavm.Runtime.Table.Bulk

/-!
# What runs of calls keep

`Reachable.invariant` says what holds in each reachable state.  This file says how a state and
any later one are related, along every run of admissible calls.

* Quotas: a counter's maximum never changes.  Its consumption rises only through `allocate`,
  which admits a charge within the maximum, and falls through `free`.  So no reachable state
  charges more elements to a quota than its maximum.
* Tables: a table that is live at both ends of a run keeps its compartment, id, reservation, quota
  and type.  Its count never decreases, and no committed page is decommitted.  Compiled code
  caches the reservation's base in `tableBases`; growth never moves it.
* Segments: an element segment is only ever dropped.  Once dropped, `table.init` and `elem.drop`
  on it throw `invalidArgument` in every later state.

Each call changes the record or the life of at most one existing table, the one it names
(`Op.target`).  Creating and cloning a table change no existing table.
-/

namespace Wavm.Runtime

variable (host : Host)

/-! ## Quota counters -/

/-- A quota counter at one state and at a later one: the maximum is the same, and the
consumption has not risen or lies within the maximum. -/
structure CurrentAndMax.Evolves (counter counter' : CurrentAndMax) : Prop where
  max_eq : counter'.max = counter.max
  current : counter'.current ≤ counter.current ∨ counter'.current ≤ counter'.max

namespace CurrentAndMax.Evolves

variable {counter counter' counter'' : CurrentAndMax}

theorem refl (counter : CurrentAndMax) : counter.Evolves counter := ⟨rfl, .inl le_rfl⟩

theorem trans (h : counter.Evolves counter') (h' : counter'.Evolves counter'') :
    counter.Evolves counter'' where
  max_eq := h'.max_eq.trans h.max_eq
  current := by have := h.current; have := h'.current; have := h'.max_eq; omega

/-- A consumption within the maximum stays within it. -/
theorem le_max (h : counter.Evolves counter') (hle : counter.current ≤ counter.max) :
    counter'.current ≤ counter'.max := by
  have := h.current; have := h.max_eq; omega

end CurrentAndMax.Evolves

theorem allocateTableElems_evolves {quotas charged : Quotas} {quota : Option QuotaRef}
    {delta : Nat} (h : allocateTableElems quotas quota delta = some charged) (q : QuotaRef) :
    (quotas q).Evolves (charged q) := by
  cases quota with
  | none => cases h; exact .refl _
  | some r =>
    simp only [allocateTableElems, CurrentAndMax.allocate, Option.map_eq_some'] at h
    obtain ⟨counter, hcounter, rfl⟩ := h
    split at hcounter
    · cases hcounter
      by_cases hq : q = r
      · subst hq; simpa using ⟨rfl, .inr ‹_›⟩
      · rw [Function.update_noteq hq]; exact .refl _
    · cases hcounter

theorem freeTableElems_evolves (quotas : Quotas) (quota : Option QuotaRef) (delta : Nat)
    (q : QuotaRef) : (quotas q).Evolves (freeTableElems quotas quota delta q) := by
  cases quota with
  | none => exact .refl _
  | some r =>
    by_cases hq : q = r
    · subst hq
      simpa [freeTableElems] using (⟨rfl, .inl (Nat.sub_le _ _)⟩ :
        (quotas q).Evolves ((quotas q).free delta))
    · simp only [freeTableElems, Function.update_noteq hq]; exact .refl _

/-! ## Table records -/

/-- A table's record at one state and at a later one, while the table stays live: the same place
(compartment, id, reservation base and quota), type and reservation size, a count that has not
decreased, and no page decommitted. -/
structure Table.Evolves (t t' : Table) : Prop where
  place : t.SamePlace t'
  type : t'.type = t.type
  numReservedBytes : t'.numReservedBytes = t.numReservedBytes
  numElements_le : t.numElements.toNat ≤ t'.numElements.toNat
  committed : ∀ page, t.committed page → t'.committed page

namespace Table.Evolves

variable {t t' t'' : Table}

theorem refl (t : Table) : t.Evolves t :=
  ⟨⟨rfl, rfl, rfl, rfl⟩, rfl, rfl, le_rfl, fun _ h => h⟩

theorem trans (h : t.Evolves t') (h' : t'.Evolves t'') : t.Evolves t'' where
  place := ⟨h'.place.1.trans h.place.1, h'.place.2.trans h.place.2, h'.place.3.trans h.place.3,
    h'.place.4.trans h.place.4⟩
  type := h'.type.trans h.type
  numReservedBytes := h'.numReservedBytes.trans h.numReservedBytes
  numElements_le := h.numElements_le.trans h'.numElements_le
  committed page hpage := h'.committed page (h.committed page hpage)

/-- Writing slots changes nothing else of the record. -/
theorem with_slots (t : Table) (slots : Nat → Uptr) : t.Evolves { t with slots := slots } :=
  ⟨⟨rfl, rfl, rfl, rfl⟩, rfl, rfl, le_rfl, fun _ h => h⟩

end Table.Evolves

variable {host}

/-- Every path of `growTableImpl` from a table satisfying `TableInvariant` evolves the table and
every quota counter: a refused growth changes neither, an admitted one raises the count without
wrapping, only adds committed pages, and charges through `allocate`. -/
theorem growTableImpl_evolves {quotas : Quotas} {table : Table} {delta fill : Uptr}
    {initializeNewElements commitSucceeds : Bool} {outcome : GrowOutcome}
    (hinv : TableInvariant host table)
    (h : growTableImpl host quotas table delta initializeNewElements fill commitSucceeds =
      some outcome) :
    table.Evolves outcome.table ∧ ∀ q, (quotas q).Evolves (outcome.quotas q) := by
  rcases growTableImpl_eq_some hinv h with ⟨htable, hquotas, -⟩ |
    ⟨hadmitted, charged, hcharge, rfl⟩
  · rw [htable, hquotas]
    exact ⟨.refl _, fun q => .refl _⟩
  · have hnew := numElements_add_toNat hadmitted.2.1
    refine ⟨⟨⟨rfl, rfl, rfl, rfl⟩, rfl, rfl, ?_, fun page hpage => ?_⟩,
      allocateTableElems_evolves hcharge⟩
    · simp only [Table.grown, hnew]; omega
    · simp [Table.grown, hpage]

/-! ## Process states -/

/-- The table a call names: the table it writes, grows or destroys.  Creating and cloning a
table name no existing table. -/
def Op.target : Op → Option TableRef
  | .destroyTable table => some table
  | .growTable table _ _ _ => some table
  | .setTableElement table _ _ => some table
  | .initElemSegment _ _ _ table _ _ _ => some table
  | .tableGrow _ _ table _ => some table
  | .tableSet _ _ table => some table
  | .tableInit _ _ _ _ table _ => some table
  | .tableCopy _ _ _ _ destTable => some destTable
  | .tableFill _ _ _ destTable => some destTable
  | _ => none

namespace World

/-- A process state and a later one: no address is handed out twice and no destroyed table comes
back, every table live at both ends has an evolved record, every quota counter has evolved, each
element segment is as it was or dropped, and the functions of module instances are the same. -/
structure Evolves (w w' : World) : Prop where
  nextTable_le : w.nextTable ≤ w'.nextTable
  dead : ∀ ref < w.nextTable, w.live ref = false → w'.live ref = false
  tables : ∀ ref < w.nextTable, w'.live ref → (w.heap ref).Evolves (w'.heap ref)
  quotas : ∀ quota, (w.quotas quota).Evolves (w'.quotas quota)
  elemSegments : ∀ moduleInstance index,
    (w'.moduleInstances moduleInstance).elemSegments index =
      (w.moduleInstances moduleInstance).elemSegments index ∨
    (w'.moduleInstances moduleInstance).elemSegments index = none
  functions : ∀ moduleInstance,
    (w'.moduleInstances moduleInstance).functions = (w.moduleInstances moduleInstance).functions

/-- One call from `w` to `w'` that may change the table `target` and no other table below
`nextTable`: the others keep their life and their record. -/
structure Changes (w w' : World) (target : Option TableRef) : Prop where
  evolves : w.Evolves w'
  frame : ∀ ref < w.nextTable, target ≠ some ref →
    w'.live ref = w.live ref ∧ w'.heap ref = w.heap ref

variable {w w' w'' : World}

theorem Evolves.refl (w : World) : w.Evolves w :=
  ⟨le_rfl, fun _ _ h => h, fun _ _ _ => .refl _, fun _ => .refl _, fun _ _ => .inl rfl,
    fun _ => rfl⟩

theorem Evolves.trans (h : w.Evolves w') (h' : w'.Evolves w'') : w.Evolves w'' where
  nextTable_le := h.nextTable_le.trans h'.nextTable_le
  dead ref hlt hdead := h'.dead ref (hlt.trans_le h.nextTable_le) (h.dead ref hlt hdead)
  tables ref hlt hlive'' := by
    have hlt' := hlt.trans_le h.nextTable_le
    have hlive' : w'.live ref := by
      by_contra hdead
      rw [h'.dead ref hlt' (Bool.eq_false_iff.mpr hdead)] at hlive''
      cases hlive''
    exact (h.tables ref hlt hlive').trans (h'.tables ref hlt' hlive'')
  quotas quota := (h.quotas quota).trans (h'.quotas quota)
  elemSegments moduleInstance index := by
    rcases h'.elemSegments moduleInstance index with hsame | hnone
    · rw [hsame]; exact h.elemSegments moduleInstance index
    · exact .inr hnone
  functions moduleInstance := (h'.functions moduleInstance).trans (h.functions moduleInstance)

theorem Changes.refl (w : World) (target : Option TableRef) : w.Changes w target :=
  ⟨.refl w, fun _ _ _ => ⟨rfl, rfl⟩⟩

/-- A call that changes no table below `nextTable` changes at most any one. -/
theorem Changes.of_none {target : Option TableRef} (h : w.Changes w' none) : w.Changes w' target :=
  ⟨h.evolves, fun ref hlt _ => h.frame ref hlt (Option.noConfusion)⟩

/-! ## Calls that write slots -/

/-- `w'` is `w` with the slots of table `ref` rewritten and nothing else changed. -/
def SlotsWritten (ref : TableRef) (w w' : World) : Prop :=
  ∃ slots, w' = w.setTable ref { w.heap ref with slots := slots }

theorem SlotsWritten.refl (ref : TableRef) (w : World) : SlotsWritten ref w w :=
  ⟨(w.heap ref).slots, (setTable_heap_self w ref).symm⟩

theorem SlotsWritten.trans {ref : TableRef} (h : SlotsWritten ref w w')
    (h' : SlotsWritten ref w' w'') : SlotsWritten ref w w'' := by
  obtain ⟨slots, rfl⟩ := h
  obtain ⟨slots', rfl⟩ := h'
  exact ⟨slots', by simp⟩

theorem SlotsWritten.setSlot (ref : TableRef) (w : World) (index : Nat) (value : Uptr) :
    SlotsWritten ref w (w.setTable ref ((w.heap ref).setSlot index value)) :=
  ⟨_, rfl⟩

/-- Rewriting the slots of `ref` changes its record by `Table.Evolves` and no other. -/
theorem SlotsWritten.changes {ref : TableRef} (h : SlotsWritten ref w w') :
    w.Changes w' (some ref) := by
  obtain ⟨slots, rfl⟩ := h
  refine ⟨⟨le_rfl, fun _ _ h => h, fun r _ _ => ?_, fun _ => .refl _, fun _ _ => .inl rfl,
    fun _ => rfl⟩, fun r _ hne => ?_⟩
  · rw [heap_setTable]
    split
    · subst r; exact .with_slots _ _
    · exact .refl _
  · exact ⟨rfl, by rw [heap_setTable, if_neg fun h : r = ref => hne (h ▸ rfl)]⟩

/-- A loop whose every iteration rewrites slots of `ref` rewrites slots of `ref`, also when it
stops early. -/
theorem SlotsWritten.forIndices {ε : Type} {ref : TableRef}
    {body : Nat → World → Except ε World}
    (hbody : ∀ index w w', body index w = .ok w' → SlotsWritten ref w w') (first count : Nat)
    (w : World) : SlotsWritten ref w (Wavm.Runtime.forIndices body first count w).1 :=
  forIndices_invariant (SlotsWritten ref w) (fun index _ _ hstate hstep =>
    hstate.trans (hbody index _ _ hstep)) first count w (.refl ref w)

/-- A set that succeeds rewrites one slot of the table, whatever the table's state. -/
theorem setTableElementNonNull_slotsWritten {table : TableRef} {index object old : Uptr}
    (h : w.setTableElementNonNull host table index object = .ok (w', old)) :
    SlotsWritten table w w' := by
  simp only [World.setTableElementNonNull, Wavm.Runtime.setTableElementNonNull, Except.map] at h
  split at h
  · cases h
  rename_i result hresult
  split at hresult
  · cases hresult
  split at hresult
  · cases hresult
  split at hresult
  · cases hresult
  cases hresult
  cases h
  exact .setSlot table w _ _

theorem setTableElement_slotsWritten {table : TableRef} {index newValue old : Uptr}
    (h : w.setTableElement host table index newValue = .ok (w', old)) :
    SlotsWritten table w w' :=
  have ⟨_, hset⟩ := setTableElement_eq_ok host h
  setTableElementNonNull_slotsWritten hset

theorem copyElement_slotsWritten {sourceTable destTable : TableRef} {sourceIndex destIndex : Uptr}
    (h : w.copyElement host sourceTable destTable sourceIndex destIndex = .ok w') :
    SlotsWritten destTable w w' := by
  simp only [World.copyElement, bind, Except.bind] at h
  split at h
  · cases h
  split at h
  · cases h
  cases h
  exact setTableElementNonNull_slotsWritten ‹_›

/-! ## Growth, dropping a segment, destroying a table -/

/-- Storing what `growTableImpl` returns for a table satisfying `TableInvariant` changes that
table's record only, and evolves it and the quotas. -/
theorem applyGrow_changes {table : TableRef} {delta fill : Uptr}
    {initializeNewElements commitSucceeds : Bool} {outcome : GrowOutcome}
    (htable : TableInvariant host (w.heap table))
    (h : growTableImpl host w.quotas (w.heap table) delta initializeNewElements fill
      commitSucceeds = some outcome) :
    w.Changes (w.applyGrow table outcome) (some table) := by
  obtain ⟨hevolves, hquotas⟩ := growTableImpl_evolves htable h
  refine ⟨⟨le_rfl, fun _ _ h => h, fun r _ _ => ?_, hquotas, fun _ _ => .inl rfl,
    fun _ => rfl⟩, fun r _ hne => ?_⟩
  · by_cases hr : r = table
    · subst r; simpa using hevolves
    · simpa [Function.update_noteq hr] using Table.Evolves.refl _
  · exact ⟨rfl, by simp [Function.update_noteq fun h : r = table => hne (h ▸ rfl)]⟩

theorem growTable_changes {table : TableRef} {delta fill : Uptr} {commitSucceeds : Bool}
    {old : Option Uptr} (htable : TableInvariant host (w.heap table))
    (h : w.growTable host table delta fill commitSucceeds = some (w', old)) :
    w.Changes w' (some table) := by
  obtain ⟨outcome, hgrow, hresult⟩ := Option.map_eq_some'.mp h
  cases hresult
  exact applyGrow_changes htable hgrow

/-- `elem.drop` drops the one segment and changes nothing else. -/
theorem elemDrop_changes (moduleInstance : ModuleRef) (elemSegmentIndex : Uptr) :
    w.Changes (w.elemDrop moduleInstance elemSegmentIndex).1 none := by
  simp only [World.elemDrop]
  split
  · exact .refl w none
  refine ⟨⟨le_rfl, fun _ _ h => h, fun _ _ _ => .refl _, fun _ => .refl _, fun m i => ?_,
    fun m => ?_⟩, fun _ _ _ => ⟨rfl, rfl⟩⟩
  · by_cases hm : m = moduleInstance
    · subst m
      by_cases hi : i = elemSegmentIndex
      · subst i; simp
      · simp [Function.update_noteq hi]
    · simp [Function.update_noteq hm]
  · by_cases hm : m = moduleInstance
    · subst m; simp
    · simp [Function.update_noteq hm]

/-- `delete table` frees the one table and refunds its quota; it changes no record. -/
theorem deleteTable_changes {ref : TableRef} (h : w.deleteTable host ref = some w') :
    w.Changes w' (some ref) := by
  obtain ⟨w₁, hleave, rfl⟩ := Option.map_eq_some'.mp h
  have hleft : w₁.heap = w.heap ∧ w₁.live = w.live ∧ w₁.nextTable = w.nextTable ∧
      w₁.quotas = w.quotas ∧ w₁.moduleInstances = w.moduleInstances := by
    rcases leaveCompartment_eq_some hleave with rfl | ⟨-, -, -, rfl⟩ <;> simp
  obtain ⟨hheap, hlive, hnext, hquotas, hmodules⟩ := hleft
  refine ⟨⟨by simp [hnext], fun r _ hdead => ?_, fun r _ _ => by simpa [hheap] using .refl _,
    fun quota => ?_, fun _ _ => .inl (by simp [hmodules]), fun _ => by simp [hmodules]⟩,
    fun r _ hne => ⟨?_, by simp [hheap]⟩⟩
  · by_cases hr : r = ref
    · subst r; simp
    · simpa [Function.update_noteq hr, hlive] using hdead
  · simpa [hquotas, hheap] using freeTableElems_evolves w.quotas _ _ quota
  · simp [hlive, Function.update_noteq fun h : r = ref => hne (h ▸ rfl)]

/-! ## Creating and cloning a table -/

/-- `createTableImpl` charges no quota: after a failed reservation it deletes the empty table
again. -/
theorem createTableImpl_quotas {compartment : CompartmentRef} {type : TableType}
    {debugName : String} {resourceQuota : Option QuotaRef} {reservation : Uptr}
    {created : Option TableRef}
    (h : w.createTableImpl host compartment type debugName resourceQuota reservation =
      some (w', created)) (quota : QuotaRef) :
    (w.quotas quota).Evolves (w'.quotas quota) := by
  unfold createTableImpl at h
  dsimp only [newTable] at h
  split at h
  · rw [Option.bind_eq_bind, Option.bind_eq_some] at h
    obtain ⟨_, hdelete, hpure⟩ := h
    cases hpure
    simpa using (deleteTable_changes hdelete).evolves.quotas quota
  · cases h
    exact .refl _

/-- What a creation or a clone leaves, `Restores` or `Adds`, changes no record below the
next address, given how it moved the quotas. -/
theorem Changes.of_fresh (hnext : w'.nextTable = w.nextTable + 1)
    (hlive : ∀ ref < w.nextTable, w'.live ref = w.live ref)
    (hheap : ∀ ref, ref ≠ w.nextTable → w'.heap ref = w.heap ref)
    (hquotas : ∀ quota, (w.quotas quota).Evolves (w'.quotas quota))
    (hmodules : w'.moduleInstances = w.moduleInstances) : w.Changes w' none :=
  ⟨⟨hnext ▸ Nat.le_succ _, fun ref hlt hdead => (hlive ref hlt).trans hdead,
    fun ref hlt _ => hheap ref hlt.ne ▸ .refl _, hquotas, fun _ _ => .inl (by rw [hmodules]),
    fun _ => by rw [hmodules]⟩, fun ref hlt _ => ⟨hlive ref hlt, hheap ref hlt.ne⟩⟩

theorem Changes.of_restores (h : w.Restores w')
    (hquotas : ∀ quota, (w.quotas quota).Evolves (w'.quotas quota)) : w.Changes w' none :=
  .of_fresh h.nextTable (fun _ _ => by rw [h.live]) h.heap hquotas h.moduleInstances

theorem Changes.of_adds (h : w.Adds host w')
    (hquotas : ∀ quota, (w.quotas quota).Evolves (w'.quotas quota)) : w.Changes w' none :=
  .of_fresh h.nextTable (fun _ hlt => by rw [h.live, Function.update_noteq hlt.ne]) h.heap hquotas
    h.moduleInstances

/-- The quotas after `createTable`: no charge from `createTableImpl`, the initial growth's, and
the refund of a deletion if the table is not published. -/
theorem createTable_quotas {compartment : CompartmentRef} {type : TableType} {element : Uptr}
    {debugName : String} {resourceQuota : Option QuotaRef} {reservation : Uptr}
    {commitSucceeds : Bool} {created : Option TableRef} (hinv : w.Invariant host)
    (h : w.createTable host compartment type element debugName resourceQuota reservation
      commitSucceeds = some (w', created)) (quota : QuotaRef) :
    (w.quotas quota).Evolves (w'.quotas quota) := by
  unfold createTable at h
  rw [Option.bind_eq_bind, Option.bind_eq_some] at h
  obtain ⟨⟨w₁, created₁⟩, himpl, h⟩ := h
  have h₁ := createTableImpl_quotas himpl quota
  rcases createTableImpl_eq_some hinv himpl with
    ⟨-, rfl, -⟩ | ⟨hreservation, rfl, -, -, hheap⟩
  · cases h
    exact h₁
  dsimp only at h
  rw [Option.bind_eq_bind, Option.bind_eq_some] at h
  obtain ⟨fill, -, h⟩ := h
  rw [Option.bind_eq_bind, Option.bind_eq_some] at h
  obtain ⟨outcome, hgrow, h⟩ := h
  have h₂ : (w.quotas quota).Evolves ((w₁.applyGrow w.nextTable outcome).quotas quota) :=
    h₁.trans ((growTableImpl_evolves (hheap ▸ TableInvariant.reserved host hreservation)
      hgrow).2 quota)
  generalize w₁.applyGrow w.nextTable outcome = w₂ at h h₂
  split at h
  · rw [Option.bind_eq_bind, Option.bind_eq_some] at h
    obtain ⟨_, hdelete, hpure⟩ := h
    cases hpure
    exact h₂.trans ((deleteTable_changes hdelete).evolves.quotas quota)
  generalize (w₂.compartments compartment).add uintptrMax w.nextTable = added at h
  obtain ⟨added, id⟩ := added
  dsimp only at h
  split at h
  · rw [Option.bind_eq_bind, Option.bind_eq_some] at h
    obtain ⟨_, hdelete, hpure⟩ := h
    cases hpure
    exact h₂.trans (by simpa using (deleteTable_changes hdelete).evolves.quotas quota)
  · cases h
    simpa using h₂

/-- The quotas after `cloneTable`, as for `createTable`. -/
theorem cloneTable_quotas {table : TableRef} {newCompartment : CompartmentRef}
    {reservation : Uptr} {commitSucceeds : Bool} {created : Option TableRef}
    (hinv : w.Invariant host)
    (h : w.cloneTable host table newCompartment reservation commitSucceeds = some (w', created))
    (quota : QuotaRef) : (w.quotas quota).Evolves (w'.quotas quota) := by
  unfold cloneTable at h
  rw [Option.bind_eq_bind, Option.bind_eq_some] at h
  obtain ⟨⟨w₁, created₁⟩, himpl, h⟩ := h
  have h₁ := createTableImpl_quotas himpl quota
  rcases createTableImpl_eq_some hinv himpl with
    ⟨-, rfl, -⟩ | ⟨hreservation, rfl, -, -, hheap⟩
  · cases h
    exact h₁
  dsimp only at h
  rw [Option.bind_eq_bind, Option.bind_eq_some] at h
  obtain ⟨outcome, hgrow, h⟩ := h
  have h₂ : (w.quotas quota).Evolves ((w₁.applyGrow w.nextTable outcome).quotas quota) :=
    h₁.trans ((growTableImpl_evolves (hheap ▸ TableInvariant.reserved host hreservation)
      hgrow).2 quota)
  generalize w₁.applyGrow w.nextTable outcome = w₂ at h h₂
  split at h
  · rw [Option.bind_eq_bind, Option.bind_eq_some] at h
    obtain ⟨_, hdelete, hpure⟩ := h
    cases hpure
    exact h₂.trans ((deleteTable_changes hdelete).evolves.quotas quota)
  rw [Option.bind_eq_bind, Option.bind_eq_some] at h
  obtain ⟨_, -, h⟩ := h
  rw [Option.bind_eq_bind, Option.bind_eq_some] at h
  obtain ⟨_, -, h⟩ := h
  cases h
  simpa using h₂

/-! ## Every call -/

theorem initElemSegment_slotsWritten (moduleInstance : ModuleRef) (elemSegmentIndex : Uptr)
    (elemVector : List Elem) (table : TableRef) (destOffset sourceOffset numElems : Uptr) :
    SlotsWritten table w (w.initElemSegment host moduleInstance elemSegmentIndex elemVector table
      destOffset sourceOffset numElems).1 := by
  refine SlotsWritten.forIndices (fun index w w' h => ?_) _ _ w
  dsimp only at h
  split at h
  · cases h
  · obtain ⟨_, hset⟩ := Except.map_fst_eq_ok h
    exact setTableElement_slotsWritten hset

theorem tableCopy_slotsWritten (destOffset sourceOffset numElements : U32)
    (sourceTable destTable : TableRef) :
    SlotsWritten destTable w
      (w.tableCopy host destOffset sourceOffset numElements sourceTable destTable).1 := by
  unfold World.tableCopy
  split <;> exact SlotsWritten.forIndices (fun _ _ _ h => copyElement_slotsWritten h) _ _ w

theorem tableFill_slotsWritten (destOffset : U32) (value : Uptr) (numElements : U32)
    (destTable : TableRef) :
    SlotsWritten destTable w (w.tableFill host destOffset value numElements destTable).1 :=
  SlotsWritten.forIndices (fun _ _ _ h =>
    have ⟨_, hset⟩ := Except.map_fst_eq_ok h
    setTableElementNonNull_slotsWritten hset) _ _ w

/-- Every admissible call from a state satisfying the invariant evolves the process and changes
the record of no table below `nextTable` other than the one it names. -/
theorem Invariant.step_changes {op : Op} (hinv : w.Invariant host)
    (hadmissible : op.Admissible host w) (h : w.step host op = some w') :
    w.Changes w' op.target := by
  cases op with
  | createTable compartment type element debugName resourceQuota reservation commitSucceeds =>
    obtain ⟨⟨_, created⟩, hcreate, rfl⟩ := Option.map_eq_some'.mp h
    have hquotas := createTable_quotas hinv hcreate
    rcases createTable_eq_some hinv hadmissible.1 hadmissible.2 hcreate with ⟨-, h⟩ | ⟨-, h⟩
    · exact .of_restores h hquotas
    · exact .of_adds h hquotas
  | cloneTable table newCompartment reservation commitSucceeds =>
    obtain ⟨⟨_, created⟩, hclone, rfl⟩ := Option.map_eq_some'.mp h
    have hquotas := cloneTable_quotas hinv hclone
    rcases cloneTable_eq_some hinv hadmissible.1 hadmissible.2 hclone with ⟨-, h⟩ | ⟨-, h⟩
    · exact .of_restores h hquotas
    · exact .of_adds h hquotas
  | destroyTable table => exact deleteTable_changes h
  | growTable table numElementsToGrow initialElement commitSucceeds =>
    obtain ⟨⟨_, old⟩, hgrow, rfl⟩ := Option.map_eq_some'.mp h
    exact growTable_changes (hinv.tableInvariant table hadmissible.1) hgrow
  | setTableElement table index newValue =>
    cases h
    split
    · exact (setTableElement_slotsWritten ‹_›).changes
    · exact .refl w _
  | getTableElement => cases h; exact .refl w _
  | initElemSegment => cases h; exact (initElemSegment_slotsWritten ..).changes
  | tableGrow initialValue deltaNumElements table commitSucceeds =>
    obtain ⟨⟨_, result⟩, htableGrow, rfl⟩ := Option.map_eq_some'.mp h
    obtain ⟨⟨_, old⟩, hgrow, hresult⟩ := Option.map_eq_some'.mp htableGrow
    cases hresult
    exact growTable_changes (hinv.tableInvariant table hadmissible.1) hgrow
  | tableSize => cases h; exact .refl w _
  | tableGet => cases h; exact .refl w _
  | tableSet =>
    cases h
    unfold World.tableSet
    split
    · exact (setTableElement_slotsWritten ‹_›).changes
    · exact .refl w _
  | tableInit =>
    cases h
    unfold World.tableInit
    split
    · exact .refl w _
    · exact (initElemSegment_slotsWritten ..).changes
  | elemDrop => cases h; exact (elemDrop_changes ..).of_none
  | tableCopy => cases h; exact (tableCopy_slotsWritten ..).changes
  | tableFill => cases h; exact (tableFill_slotsWritten ..).changes

variable (host) in
/-- One admissible call from `w` returns `w'`. -/
def Next (w w' : World) : Prop := ∃ op, op.Admissible host w ∧ w.step host op = some w'

end World

/-! ## Runs -/

/-- Every run of admissible calls from a reachable state ends in a reachable state, which the
run has evolved. -/
theorem Reachable.run {w w' : World} (hreach : Reachable host w)
    (hrun : Relation.ReflTransGen (World.Next host) w w') : Reachable host w' ∧ w.Evolves w' := by
  induction hrun with
  | refl => exact ⟨hreach, .refl w⟩
  | tail _ hnext ih =>
    obtain ⟨op, hadmissible, hstep⟩ := hnext
    exact ⟨.step op ih.1 hadmissible hstep,
      ih.2.trans (ih.1.invariant.step_changes hadmissible hstep).evolves⟩

/-- `table.grow` of table `0` of `sampleCreated` by one null element. -/
def sampleGrow : Op := .tableGrow 0 1 0 true

theorem sampleGrow_isSome : (sampleCreated.step sampleHost sampleGrow).isSome = true := by
  decide

/-- The process after `sampleGrow`: table `0` with three elements. -/
def sampleGrown : World := (sampleCreated.step sampleHost sampleGrow).get sampleGrow_isSome

theorem sampleGrown_run : Relation.ReflTransGen (World.Next sampleHost) sampleCreated sampleGrown :=
  .single ⟨sampleGrow, ⟨by decide, by decide⟩, (Option.some_get _).symm⟩

/-- In every reachable state, the consumption of every quota, and so the count of the live tables
charged to it, is within the quota's maximum. -/
theorem reachable_quota_within_max {w : World} (hreach : Reachable host w) (quota : QuotaRef) :
    (w.quotas quota).current ≤ (w.quotas quota).max ∧
      w.chargedElements quota ≤ (w.quotas quota).max := by
  have hle : (w.quotas quota).current ≤ (w.quotas quota).max := by
    induction hreach with
    | initial hinitial => simp [hinitial.quotas_current]
    | step op hreach hadmissible hstep ih =>
      exact ((hreach.invariant.step_changes hadmissible hstep).evolves.quotas quota).le_max ih
  exact ⟨hle, hreach.invariant.quotas_current quota ▸ hle⟩

theorem reachable_quota_within_max_sampleGrown :
    (sampleGrown.quotas 0).current ≤ (sampleGrown.quotas 0).max ∧
      sampleGrown.chargedElements 0 ≤ (sampleGrown.quotas 0).max :=
  reachable_quota_within_max (sampleCreated_reachable.run sampleGrown_run).1 0

/-- Over every run of admissible calls from a reachable state, a table live at both ends keeps
its compartment, id, reservation base, quota, type and reservation size; its count never
decreases, and none of its committed pages is decommitted. -/
theorem run_live_table_evolves {w w' : World} (hreach : Reachable host w)
    (hrun : Relation.ReflTransGen (World.Next host) w w') {ref : TableRef} (hlive : w.live ref)
    (hlive' : w'.live ref) : (w.heap ref).Evolves (w'.heap ref) :=
  (hreach.run hrun).2.tables ref (hreach.invariant.live_lt ref hlive) hlive'

theorem run_live_table_evolves_sampleGrown :
    sampleCreated.live 0 ∧ sampleGrown.live 0 ∧
      (sampleCreated.heap 0).Evolves (sampleGrown.heap 0) :=
  ⟨by decide, by decide,
    run_live_table_evolves sampleCreated_reachable sampleGrown_run (by decide) (by decide)⟩

/-- Over every run of admissible calls from a reachable state, an element segment is either as it
was or dropped.  Once it is dropped, `table.init` and `elem.drop` on it throw `invalidArgument` and
change nothing, in every later state. -/
theorem run_elemSegment_dropped {w w' : World} (hreach : Reachable host w)
    (hrun : Relation.ReflTransGen (World.Next host) w w') (moduleInstance : ModuleRef)
    (elemSegmentIndex : Uptr) :
    ((w'.moduleInstances moduleInstance).elemSegments elemSegmentIndex =
        (w.moduleInstances moduleInstance).elemSegments elemSegmentIndex ∨
      (w'.moduleInstances moduleInstance).elemSegments elemSegmentIndex = none) ∧
    ((w.moduleInstances moduleInstance).elemSegments elemSegmentIndex = none →
      (∀ destIndex sourceIndex numElems table,
        w'.tableInit host destIndex sourceIndex numElems moduleInstance table elemSegmentIndex =
          (w', some .invalidArgument)) ∧
      w'.elemDrop moduleInstance elemSegmentIndex = (w', some .invalidArgument)) := by
  have hsegment := (hreach.run hrun).2.elemSegments moduleInstance elemSegmentIndex
  refine ⟨hsegment, fun hdropped => ?_⟩
  have hdropped' : (w'.moduleInstances moduleInstance).elemSegments elemSegmentIndex = none := by
    rcases hsegment with h | h
    · rw [h, hdropped]
    · exact h
  exact ⟨fun _ _ _ _ => by simp [World.tableInit, hdropped'],
    by simp [World.elemDrop, hdropped']⟩

/-- `sampleSegmentCreated` after `elem.drop` of segment `0` of module instance `0`. -/
def sampleSegmentDropped : World := (sampleSegmentCreated.elemDrop 0 0).1

theorem sampleSegmentDropped_reachable : Reachable sampleHost sampleSegmentDropped :=
  .step (.elemDrop 0 0) sampleSegmentCreated_reachable trivial rfl

theorem run_elemSegment_dropped_sampleSegmentDropped :
    ((sampleSegmentDropped.moduleInstances 0).elemSegments 0 =
        (sampleSegmentDropped.moduleInstances 0).elemSegments 0 ∨
      (sampleSegmentDropped.moduleInstances 0).elemSegments 0 = none) ∧
    ((sampleSegmentDropped.moduleInstances 0).elemSegments 0 = none →
      (∀ destIndex sourceIndex numElems table,
        sampleSegmentDropped.tableInit sampleHost destIndex sourceIndex numElems 0 table 0 =
          (sampleSegmentDropped, some .invalidArgument)) ∧
      sampleSegmentDropped.elemDrop 0 0 = (sampleSegmentDropped, some .invalidArgument)) :=
  run_elemSegment_dropped sampleSegmentDropped_reachable .refl 0 0

/-- Over every run of admissible calls from a reachable state none of which names a live table
(by writing, growing or destroying it), the table stays live and its record, slots included, is
unchanged. -/
theorem run_unnamed_table_unchanged {w w' : World} {ref : TableRef} (hreach : Reachable host w)
    (hrun : Relation.ReflTransGen (fun w w' => ∃ op : Op, op.target ≠ some ref ∧
      op.Admissible host w ∧ w.step host op = some w') w w')
    (hlive : w.live ref) : w'.live ref ∧ w'.heap ref = w.heap ref := by
  have hlt := hreach.invariant.live_lt ref hlive
  suffices
      Reachable host w' ∧ w.Evolves w' ∧ w'.live ref = w.live ref ∧ w'.heap ref = w.heap ref
    from ⟨this.2.2.1.trans hlive, this.2.2.2⟩
  induction hrun with
  | refl => exact ⟨hreach, .refl w, rfl, rfl⟩
  | tail _ hnext ih =>
    obtain ⟨op, hne, hadmissible, hstep⟩ := hnext
    obtain ⟨hreach', hevolves, hlive', hheap⟩ := ih
    have hchanges := hreach'.invariant.step_changes hadmissible hstep
    have hframe := hchanges.frame ref (hlt.trans_le hevolves.nextTable_le) hne
    exact ⟨.step op hreach' hadmissible hstep, hevolves.trans hchanges.evolves,
      hframe.1.trans hlive', hframe.2.trans hheap⟩

theorem run_unnamed_table_unchanged_sampleSegmentDropped :
    sampleSegmentCreated.live 0 ∧ sampleSegmentDropped.live 0 ∧
      sampleSegmentDropped.heap 0 = sampleSegmentCreated.heap 0 :=
  ⟨by decide, run_unnamed_table_unchanged sampleSegmentCreated_reachable
    (.single ⟨.elemDrop 0 0, by decide, trivial, rfl⟩) (by decide)⟩

end Wavm.Runtime
