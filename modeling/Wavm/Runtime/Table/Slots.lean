import Wavm.Runtime.Table.Lifecycle

/-!
# What the slots of a reachable table hold

Every live table of a reachable process state satisfies `TableInvariant`: its count is within
both limits, the words below the count are nonzero (no slot reads as the out-of-bounds sentinel),
the rest of the reservation holds zero words, and the slots below the count lie on committed
pages.

The entry points translate a null reference into the uninitialised sentinel before storing it,
except `Runtime::growTable`, which hands its initial element to `growTableImpl` as it is.  A null
initial element therefore leaves the new slots decoding to null, and `getTableElementNonNull`
returns null for them, which its `wavmAssert(object)` rules out.
-/

namespace Wavm.Runtime

variable {host : Host}

/-- Every live table of every reachable process state (any admissible calls on any tables, those
that fail or stop part-way included) has its count within the type's maximum and
`IR::maxTableElems`, which fits in the reservation; nonzero words below the count, which never
decode to the out-of-bounds sentinel; zero words from the count to the end of the reservation;
and the pages holding its slots committed. -/
theorem reachable_live_table_invariant {w : World} {ref : TableRef} (hreach : Reachable host w)
    (hlive : w.live ref) :
    (w.heap ref).numElements.toNat ≤ (w.heap ref).type.size.max.toNat ∧
    (w.heap ref).numElements.toNat ≤ host.maxTableElems.toNat ∧
    host.maxTableElems.toNat ≤ (w.heap ref).numReservedElements.toNat ∧
    (∀ i < (w.heap ref).numElements.toNat, (w.heap ref).slots i ≠ 0 ∧
      biasedTableElementValueToObject host ((w.heap ref).slots i) ≠ host.outOfBoundsElement) ∧
    (∀ i, (w.heap ref).numElements.toNat ≤ i → i < (w.heap ref).numReservedElements.toNat →
      (w.heap ref).slots i = 0) ∧
    ∀ page < (getNumPlatformPages host ((w.heap ref).numElements * sizeofElement)).toNat,
      (w.heap ref).committed page := by
  have hinv := hreach.invariant.tableInvariant ref hlive
  refine ⟨hinv.numElements_le_max, hinv.numElements_le_maxTableElems, ?_,
    fun i hi => ⟨hinv.slots_ne_zero i hi, ?_⟩, hinv.slots_eq_zero, hinv.committed_of_lt⟩
  · rw [hinv.numReservedElements_eq, tableMaxElements_toNat]
    exact host.maxTableElems_le
  · rw [Ne, biasedTableElementValueToObject_eq_outOfBoundsElement]
    exact hinv.slots_ne_zero i hi

theorem reachable_live_table_invariant_sampleCreated :
    (sampleCreated.heap 0).numElements.toNat ≤ (sampleCreated.heap 0).type.size.max.toNat ∧
    (sampleCreated.heap 0).numElements.toNat ≤ sampleHost.maxTableElems.toNat ∧
    sampleHost.maxTableElems.toNat ≤ (sampleCreated.heap 0).numReservedElements.toNat ∧
    (∀ i < (sampleCreated.heap 0).numElements.toNat, (sampleCreated.heap 0).slots i ≠ 0 ∧
      biasedTableElementValueToObject sampleHost ((sampleCreated.heap 0).slots i) ≠
        sampleHost.outOfBoundsElement) ∧
    (∀ i, (sampleCreated.heap 0).numElements.toNat ≤ i →
      i < (sampleCreated.heap 0).numReservedElements.toNat → (sampleCreated.heap 0).slots i = 0) ∧
    ∀ page < (getNumPlatformPages sampleHost
        ((sampleCreated.heap 0).numElements * sizeofElement)).toNat,
      (sampleCreated.heap 0).committed page :=
  reachable_live_table_invariant sampleCreated_reachable (by decide)

/-- `Runtime::growTable` of a live table of a reachable state by `δ ≠ 0` with a null initial
element, when the quota, both limits and the commit admit it, succeeds and leaves a reachable
state in which every new slot decodes to null and `getTableElementNonNull` returns null. -/
theorem growTable_null_stores_null {w : World} {table : TableRef} {delta : Uptr}
    {commitSucceeds : Bool} (hreach : Reachable host w) (hlive : w.live table) (hdelta : delta ≠ 0)
    (hadmitted : GrowAdmitted host w.quotas (w.heap table) delta commitSucceeds) :
    ∃ w', w.growTable host table delta 0 commitSucceeds = some (w', some (w.heap table).numElements) ∧
      Reachable host w' ∧
      (w'.heap table).numElements.toNat = (w.heap table).numElements.toNat + delta.toNat ∧
      ∀ i, (w.heap table).numElements.toNat ≤ i → i < (w'.heap table).numElements.toNat →
        biasedTableElementValueToObject host ((w'.heap table).slots i) = 0 ∧
        getTableElementNonNull host table (w'.heap table) (BitVec.ofNat 64 i) = .ok 0 := by
  have hold := hreach.invariant.tableInvariant table hlive
  have hnew := numElements_add_toNat hadmitted.2.1
  rcases @growTableImpl_cases host w.quotas (w.heap table) delta true 0 commitSucceeds hold hdelta with
    ⟨charged, -, -, hgrow⟩ | ⟨hrefused, -⟩
  · have hstep : w.growTable host table delta 0 commitSucceeds =
        some (w.applyGrow table ⟨(w.heap table).grown host delta true
          (objectToBiasedTableElementValue host 0), charged, some (w.heap table).numElements⟩,
          some (w.heap table).numElements) := by
      rw [World.growTable, hgrow]
      rfl
    have hgrown := hold.grown host hadmitted.2.1 hadmitted.2.2.1
      (fun h => host.outOfBoundsElement_ne_zero
        ((objectToBiasedTableElementValue_eq_zero host 0).mp h).symm)
    refine ⟨_, hstep, .step (.growTable table delta 0 commitSucceeds) hreach
      ⟨hlive, host.outOfBoundsElement_ne_zero.symm⟩ (by rw [World.step, hstep]; rfl), ?_,
      fun i hi hi' => ?_⟩
    · simp [Table.grown, hnew]
    · simp only [World.applyGrow_heap, Function.update_same] at hi' ⊢
      have hlt : i < 2 ^ 64 := by
        have := hgrown.numElements_le_reserved
        omega
      have hslot : ((w.heap table).grown host delta true
          (objectToBiasedTableElementValue host 0)).slots i =
          objectToBiasedTableElementValue host 0 := by
        simp only [Table.grown] at hi' ⊢
        rw [hnew] at hi'
        exact if_pos ⟨trivial, hi, hi'⟩
      have hindex : (BitVec.ofNat 64 i).toNat = i := by
        rw [BitVec.toNat_ofNat, Nat.mod_eq_of_lt hlt]
      refine ⟨by rw [hslot, biasedTableElementValueToObject_objectToBiasedTableElementValue], ?_⟩
      rw [getTableElementNonNull_of_lt hgrown (by rwa [hindex]), hindex, hslot,
        biasedTableElementValueToObject_objectToBiasedTableElementValue]
  · exact absurd hadmitted hrefused

theorem growTable_null_stores_null_sampleCreated :
    ∃ w', sampleCreated.growTable sampleHost 0 1 0 true =
        some (w', some (sampleCreated.heap 0).numElements) ∧
      Reachable sampleHost w' ∧
      (w'.heap 0).numElements.toNat = (sampleCreated.heap 0).numElements.toNat + (1 : Uptr).toNat ∧
      ∀ i, (sampleCreated.heap 0).numElements.toNat ≤ i → i < (w'.heap 0).numElements.toNat →
        biasedTableElementValueToObject sampleHost ((w'.heap 0).slots i) = 0 ∧
        getTableElementNonNull sampleHost 0 (w'.heap 0) (BitVec.ofNat 64 i) = .ok 0 :=
  growTable_null_stores_null sampleCreated_reachable (by decide) (by decide)
    ⟨fun quota hquota => by
      obtain rfl : quota = 0 := Option.some_inj.mp (hquota.symm.trans (by decide))
      decide, by decide, by decide, fun _ => rfl⟩

end Wavm.Runtime
