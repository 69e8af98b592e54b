import Mathlib.Algebra.BigOperators.Group.Finset
import Wavm.Runtime.Table.Run

/-!
# The process invariant

`World.Invariant` collects what holds of every reachable process state: table addresses below
`nextTable` are the only ones ever allocated; the global vector holds each live table once and
nothing else; every live table satisfies `TableInvariant`, owns its own reservation, and that
reservation lies inside the address space; each quota's consumption is the sum of the counts of
the live tables charged to it; and each compartment's `tables` map and `tableBases` array agree
with the ids of its live tables.

Most calls change the record of one live table and nothing else but, for a growth, the quota
counters.  `Invariant.setTable` carries the invariant across such a change once; the calls that
write slots, and growth, then only check that the new record keeps `TableInvariant`.  Creation,
cloning and destruction are in `Lifecycle`.
-/

namespace Wavm.Runtime

open Finset

/-- Changing one summand of a sum over `range n` changes the sum by the difference. -/
theorem sum_range_add_eq {n r : Nat} {f g : Nat → Nat} (hr : r < n)
    (h : ∀ x, x ≠ r → g x = f x) :
    (range n).sum g + f r = (range n).sum f + g r := by
  have hrest : ((range n).erase r).sum g = ((range n).erase r).sum f :=
    sum_congr rfl fun x hx => h x (ne_of_mem_erase hx)
  have hg : g r + ((range n).erase r).sum g = (range n).sum g :=
    add_sum_erase (range n) g (mem_range.mpr hr)
  have hf : f r + ((range n).erase r).sum f = (range n).sum f :=
    add_sum_erase (range n) f (mem_range.mpr hr)
  omega

variable (host : Host)

namespace World

/-- The elements of the live tables charged to `quota`. -/
def chargedElements (w : World) (quota : QuotaRef) : Nat :=
  ∑ ref ∈ range w.nextTable,
    if w.live ref ∧ (w.heap ref).resourceQuota = some quota then (w.heap ref).numElements.toNat
    else 0

/-- What holds of every reachable process state. -/
structure Invariant (w : World) : Prop where
  live_lt : ∀ ref, w.live ref → ref < w.nextTable
  mem_tables : ∀ ref, ref ∈ w.tables ↔ w.live ref
  tables_nodup : w.tables.Nodup
  tableInvariant : ∀ ref, w.live ref → TableInvariant host (w.heap ref)
  elements_injective : ∀ ref ref', w.live ref → w.live ref' →
    (w.heap ref).elements = (w.heap ref').elements → ref = ref'
  elements_lt : ∀ ref, w.live ref → (w.heap ref).elements.toNat + tableMaxBytes.toNat < 2 ^ 64
  functions_ne : ∀ moduleInstance index,
    (w.moduleInstances moduleInstance).functions index ≠ host.outOfBoundsElement
  quotas_current : ∀ quota, (w.quotas quota).current = w.chargedElements quota
  compartment_tables : ∀ compartment id ref, (w.compartments compartment).tables id = some ref →
    w.live ref ∧ (w.heap ref).compartment = compartment ∧ (w.heap ref).id = id ∧
      (w.compartments compartment).tableBases id = (w.heap ref).elements
  compartment_tableBases : ∀ compartment id, (w.compartments compartment).tables id = none →
    (w.compartments compartment).tableBases id = 0
  live_compartment : ∀ ref, w.live ref → (w.heap ref).id ≠ uintptrMax ∧
    (w.compartments (w.heap ref).compartment).tables (w.heap ref).id = some ref

theorem Initial.invariant {w : World} (h : w.Initial host) : w.Invariant host where
  live_lt ref hlive := by simp [h.live_eq] at hlive
  mem_tables ref := by simp [h.live_eq, h.tables_eq]
  tables_nodup := by simp [h.tables_eq]
  tableInvariant ref hlive := by simp [h.live_eq] at hlive
  elements_injective ref _ hlive := by simp [h.live_eq] at hlive
  elements_lt ref hlive := by simp [h.live_eq] at hlive
  functions_ne := h.functions_ne
  quotas_current quota := by simp [chargedElements, h.live_eq, h.quotas_current]
  compartment_tables compartment id ref hid := by simp [h.compartment_tables] at hid
  compartment_tableBases compartment id _ := h.compartment_tableBases compartment id
  live_compartment ref hlive := by simp [h.live_eq] at hlive

/-! ## Changing one table's record -/

/-- A write to a live table's record changes the charge of its quota by the change in its
count. -/
theorem chargedElements_setTable {w : World} {ref : TableRef} (hinv : w.Invariant host)
    (hlive : w.live ref) (t : Table) (quotas : Quotas) (quota : QuotaRef) :
    ({ w.setTable ref t with quotas := quotas } : World).chargedElements quota +
        (if (w.heap ref).resourceQuota = some quota then (w.heap ref).numElements.toNat else 0) =
      w.chargedElements quota +
        if t.resourceQuota = some quota then t.numElements.toNat else 0 := by
  have hsum := @sum_range_add_eq w.nextTable ref
    (fun x => if w.live x ∧ (w.heap x).resourceQuota = some quota then
      (w.heap x).numElements.toNat else 0)
    (fun x => if w.live x ∧ (Function.update w.heap ref t x).resourceQuota = some quota then
      (Function.update w.heap ref t x).numElements.toNat else 0)
    (hinv.live_lt ref hlive) fun x hx => by simp only [Function.update_noteq hx]
  simpa [hlive] using hsum

/-- The invariant survives a change to one live table's record that keeps its place and its
`TableInvariant`, together with quota counters that follow the change in its count. -/
theorem Invariant.setTable {w : World} {ref : TableRef} {t : Table} {quotas : Quotas}
    (hinv : w.Invariant host) (hlive : w.live ref) (hplace : (w.heap ref).SamePlace t)
    (htable : TableInvariant host t)
    (hquotas : ∀ quota, (quotas quota).current +
        (if (w.heap ref).resourceQuota = some quota then (w.heap ref).numElements.toNat else 0) =
      (w.quotas quota).current + if t.resourceQuota = some quota then t.numElements.toNat else 0) :
    ({ w.setTable ref t with quotas := quotas } : World).Invariant host := by
  have hplace' : ∀ r, (Function.update w.heap ref t r).SamePlace (w.heap r) := fun r => by
    by_cases hr : r = ref
    · subst hr
      simp only [Function.update_same]
      exact ⟨hplace.1.symm, hplace.2.symm, hplace.3.symm, hplace.4.symm⟩
    · simp only [Function.update_noteq hr]
      exact ⟨rfl, rfl, rfl, rfl⟩
  refine
    { live_lt := hinv.live_lt
      mem_tables := hinv.mem_tables
      tables_nodup := hinv.tables_nodup
      tableInvariant := fun r hr => ?_
      elements_injective := fun r r' => ?_
      elements_lt := fun r => ?_
      functions_ne := hinv.functions_ne
      quotas_current := fun quota => ?_
      compartment_tables := fun compartment id r => ?_
      compartment_tableBases := hinv.compartment_tableBases
      live_compartment := fun r => ?_ }
  · by_cases h : r = ref
    · subst h
      simpa using htable
    · simpa [Function.update_noteq h] using hinv.tableInvariant r hr
  · simpa [(hplace' r).elements, (hplace' r').elements] using hinv.elements_injective r r'
  · simpa [(hplace' r).elements] using hinv.elements_lt r
  · show (quotas quota).current = _
    have hcharge := chargedElements_setTable host hinv hlive t quotas quota
    have hcurrent := hinv.quotas_current quota
    have hq := hquotas quota
    omega
  · simpa [(hplace' r).compartment, (hplace' r).id, (hplace' r).elements] using
      hinv.compartment_tables compartment id r
  · simpa [(hplace' r).compartment, (hplace' r).id] using hinv.live_compartment r

/-- A record change that keeps the count, with the quotas left alone. -/
theorem Invariant.setTable_of_numElements {w : World} {ref : TableRef} {t : Table}
    (hinv : w.Invariant host) (hlive : w.live ref) (hplace : (w.heap ref).SamePlace t)
    (htable : TableInvariant host t) (hcount : t.numElements = (w.heap ref).numElements) :
    (w.setTable ref t).Invariant host :=
  hinv.setTable host hlive hplace htable fun _ => by rw [hcount, hplace.resourceQuota]

/-! ## Calls that write slots -/

/-- A set of a live table that succeeds wrote one slot below the count. -/
theorem setTableElementNonNull_eq_ok {w w' : World} {table : TableRef} {index object old : Uptr}
    (htable : TableInvariant host (w.heap table))
    (h : w.setTableElementNonNull host table index object = .ok (w', old)) :
    index.toNat < (w.heap table).numElements.toNat ∧
      w' = w.setTable table
        ((w.heap table).setSlot index.toNat (objectToBiasedTableElementValue host object)) ∧
      old = biasedTableElementValueToObject host ((w.heap table).slots index.toNat) := by
  simp only [World.setTableElementNonNull, Except.map] at h
  split at h
  · cases h
  · rename_i result hresult
    obtain ⟨t', old'⟩ := result
    cases h
    obtain ⟨hindex, rfl, rfl⟩ := Wavm.Runtime.setTableElementNonNull_eq_ok htable hresult
    exact ⟨hindex, rfl, rfl⟩

/-- `Runtime::setTableElement` on the process is the non-null set of the translated value. -/
theorem setTableElement_eq_map (w : World) (table : TableRef) (index newValue : Uptr) :
    w.setTableElement host table index newValue =
      (w.setTableElementNonNull host table index
        (if newValue = 0 then host.uninitializedElement else newValue)).map
        fun (w', old) => (w', if old = host.uninitializedElement then 0 else old) := by
  simp only [World.setTableElement, World.setTableElementNonNull, Wavm.Runtime.setTableElement_eq]
  cases Wavm.Runtime.setTableElementNonNull host table (w.heap table) index
    (if newValue = 0 then host.uninitializedElement else newValue) <;> rfl

theorem setTableElement_eq_ok {w w' : World} {table : TableRef} {index newValue old : Uptr}
    (h : w.setTableElement host table index newValue = .ok (w', old)) :
    ∃ old', w.setTableElementNonNull host table index
      (if newValue = 0 then host.uninitializedElement else newValue) = .ok (w', old') := by
  rw [setTableElement_eq_map] at h
  cases hset : w.setTableElementNonNull host table index
      (if newValue = 0 then host.uninitializedElement else newValue) with
  | error e => rw [hset] at h; cases h
  | ok result => rw [hset] at h; cases h; exact ⟨_, rfl⟩

/-- A set of a live table that succeeds, of an object other than the out-of-bounds sentinel,
keeps the invariant and the table live. -/
theorem Invariant.setTableElementNonNull {w w' : World} {table : TableRef}
    {index object old : Uptr} (hinv : w.Invariant host) (hlive : w.live table)
    (hobject : object ≠ host.outOfBoundsElement)
    (h : w.setTableElementNonNull host table index object = .ok (w', old)) :
    w'.Invariant host ∧ w'.live table := by
  have hold := hinv.tableInvariant table hlive
  obtain ⟨hindex, rfl, -⟩ := setTableElementNonNull_eq_ok host hold h
  exact ⟨hinv.setTable_of_numElements host hlive ⟨rfl, rfl, rfl, rfl⟩
    (hold.setSlot host hindex
      fun h => hobject ((objectToBiasedTableElementValue_eq_zero host _).mp h)) rfl, hlive⟩

theorem Invariant.setTableElement {w w' : World} {table : TableRef} {index newValue old : Uptr}
    (hinv : w.Invariant host) (hlive : w.live table) (hvalue : newValue ≠ host.outOfBoundsElement)
    (h : w.setTableElement host table index newValue = .ok (w', old)) :
    w'.Invariant host ∧ w'.live table :=
  have ⟨_, hset⟩ := setTableElement_eq_ok host h
  hinv.setTableElementNonNull host hlive (translated_ne hvalue) hset

end World

theorem Except.map_fst_eq_ok {ε α β : Type} {x : Except ε (α × β)} {a : α}
    (h : x.map Prod.fst = .ok a) : ∃ b, x = .ok (a, b) := by
  cases x with
  | error e => cases h
  | ok p => cases h; exact ⟨p.2, rfl⟩

namespace World

/-- A loop of calls on a live table keeps the invariant when each call does. -/
theorem Invariant.forIndices {ε : Type} {table : TableRef} {body : Nat → World → Except ε World}
    (hbody : ∀ index w w', w.Invariant host → w.live table → body index w = .ok w' →
      w'.Invariant host ∧ w'.live table)
    {w : World} (hinv : w.Invariant host) (hlive : w.live table) (first count : Nat) :
    (Wavm.Runtime.forIndices body first count w).1.Invariant host :=
  (forIndices_invariant (fun w => w.Invariant host ∧ w.live table)
    (fun index _ _ hstate => hbody index _ _ hstate.1 hstate.2) first count w ⟨hinv, hlive⟩).1

theorem Invariant.initElemSegment {w : World} {moduleInstance : ModuleRef}
    {elemSegmentIndex : Uptr} {elemVector : List Elem} {table : TableRef}
    {destOffset sourceOffset numElems : Uptr} (hinv : w.Invariant host) (hlive : w.live table) :
    (w.initElemSegment host moduleInstance elemSegmentIndex elemVector table destOffset
      sourceOffset numElems).1.Invariant host := by
  refine hinv.forIndices host (fun index w w' hinv hlive h => ?_) hlive _ _
  dsimp only at h
  split at h
  · cases h
  · obtain ⟨old, hset⟩ := Except.map_fst_eq_ok h
    refine hinv.setTableElement host hlive ?_ hset
    split
    · exact host.outOfBoundsElement_ne_zero.symm
    · exact hinv.functions_ne _ _

/-- One element of `table.copy` that succeeds keeps the invariant: what it read is never the
out-of-bounds sentinel. -/
theorem Invariant.copyElement {w w' : World} {sourceTable destTable : TableRef}
    {sourceIndex destIndex : Uptr} (hinv : w.Invariant host) (hlive : w.live destTable)
    (h : w.copyElement host sourceTable destTable sourceIndex destIndex = .ok w') :
    w'.Invariant host ∧ w'.live destTable := by
  simp only [World.copyElement, bind, Except.bind] at h
  split at h
  · cases h
  · rename_i object hget
    split at h
    · cases h
    · rename_i result hset
      cases h
      exact hinv.setTableElementNonNull host hlive (getTableElementNonNull_ne hget) hset

theorem Invariant.tableCopy {w : World} {destOffset sourceOffset numElements : U32}
    {sourceTable destTable : TableRef} (hinv : w.Invariant host) (hlive : w.live destTable) :
    (w.tableCopy host destOffset sourceOffset numElements sourceTable destTable).1.Invariant host := by
  unfold World.tableCopy
  split <;>
    exact hinv.forIndices host (fun _ _ _ hinv hlive h => hinv.copyElement host hlive h) hlive _ _

theorem Invariant.tableFill {w : World} {destOffset : U32} {value : Uptr} {numElements : U32}
    {destTable : TableRef} (hinv : w.Invariant host) (hlive : w.live destTable)
    (hvalue : value ≠ host.outOfBoundsElement) :
    (w.tableFill host destOffset value numElements destTable).1.Invariant host :=
  hinv.forIndices host (fun _ _ _ hinv hlive h =>
    have ⟨_, hset⟩ := Except.map_fst_eq_ok h
    hinv.setTableElementNonNull host hlive (translated_ne hvalue) hset) hlive _ _

theorem Invariant.tableSet {w : World} {index : U32} {value : Uptr} {table : TableRef}
    (hinv : w.Invariant host) (hlive : w.live table) (hvalue : value ≠ host.outOfBoundsElement) :
    (w.tableSet host index value table).1.Invariant host := by
  unfold World.tableSet
  split
  · exact (hinv.setTableElement host hlive hvalue ‹_›).1
  · exact hinv

theorem Invariant.tableInit {w : World} {destIndex sourceIndex numElems : U32}
    {moduleInstance : ModuleRef} {table : TableRef} {elemSegmentIndex : Uptr}
    (hinv : w.Invariant host) (hlive : w.live table) :
    (w.tableInit host destIndex sourceIndex numElems moduleInstance table
      elemSegmentIndex).1.Invariant host := by
  unfold World.tableInit
  split
  · exact hinv
  · exact hinv.initElemSegment host hlive

/-- Dropping a segment changes no function of any instance. -/
theorem Invariant.elemDrop {w : World} {moduleInstance : ModuleRef} {elemSegmentIndex : Uptr}
    (hinv : w.Invariant host) : (w.elemDrop moduleInstance elemSegmentIndex).1.Invariant host := by
  simp only [World.elemDrop]
  split
  · exact hinv
  · refine { hinv with functions_ne := fun moduleInstance' index => ?_ }
    by_cases h : moduleInstance' = moduleInstance
    · subst h
      simpa using hinv.functions_ne moduleInstance' index
    · simpa [Function.update_noteq h] using hinv.functions_ne moduleInstance' index

/-! ## Growth -/

/-- Storing what an initialising `growTableImpl` of a live table returns keeps the invariant:
a refused growth changes nothing, and an admitted one charges its quota exactly the new
elements. -/
theorem Invariant.applyGrow {w : World} {table : TableRef} {delta fill : Uptr}
    {commitSucceeds : Bool} {outcome : GrowOutcome} (hinv : w.Invariant host)
    (hlive : w.live table) (hfill : fill ≠ host.outOfBoundsElement)
    (h : growTableImpl host w.quotas (w.heap table) delta true fill commitSucceeds = some outcome) :
    (w.applyGrow table outcome).Invariant host :=
  have hold := hinv.tableInvariant table hlive
  have ⟨hplace, hquotas⟩ := growTableImpl_charges hold h
  hinv.setTable host hlive hplace (growTableImpl_tableInvariant hold hfill h) fun quota => by
    rw [hquotas quota, hplace.resourceQuota]

theorem Invariant.growTable {w w' : World} {table : TableRef} {delta fill : Uptr}
    {commitSucceeds : Bool} {old : Option Uptr} (hinv : w.Invariant host) (hlive : w.live table)
    (hfill : fill ≠ host.outOfBoundsElement)
    (h : w.growTable host table delta fill commitSucceeds = some (w', old)) : w'.Invariant host := by
  obtain ⟨outcome, hgrow, hresult⟩ := Option.map_eq_some'.mp h
  cases hresult
  exact hinv.applyGrow host hlive hfill hgrow

theorem Invariant.tableGrow {w w' : World} {initialValue : Uptr} {deltaNumElements : U32}
    {table : TableRef} {commitSucceeds : Bool} {result : I32} (hinv : w.Invariant host)
    (hlive : w.live table) (hvalue : initialValue ≠ host.outOfBoundsElement)
    (h : w.tableGrow host initialValue deltaNumElements table commitSucceeds = some (w', result)) :
    w'.Invariant host := by
  obtain ⟨⟨w'', old⟩, hgrow, hresult⟩ := Option.map_eq_some'.mp h
  cases hresult
  exact hinv.growTable host hlive (translated_ne hvalue) hgrow

end World

end Wavm.Runtime
