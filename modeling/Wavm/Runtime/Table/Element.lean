import Wavm.Runtime.Table.Basic

/-!
# Reading and writing table elements

`setTableElementNonNull` and `getTableElementNonNull` bound the index by the reservation, not by
the current count, and leave the rest to the encoding: every slot from the count up holds the
zero word, which decodes to the out-of-bounds sentinel, or lies on an uncommitted page, whose
access violation the signal handler turns into the same exception.  `Runtime::setTableElement`
and `Runtime::getTableElement` translate null to the uninitialised sentinel and back.

In the sequential model a compare-exchange always sees the value its loop loaded, so the retry
loop of `setTableElementNonNull` runs once (a spurious failure reloads the same value).  The
interleaved loop is in `Concurrent`.

The results are `Except` values: a call that throws returns no table, so it leaves the table
as it was.
-/

namespace Wavm.Runtime

variable (host : Host)

/-- `setTableElementNonNull`: the new table and the object the slot held before. -/
def setTableElementNonNull (table : TableRef) (t : Table) (index object : Uptr) :
    Except Exception (Table × Uptr) :=
  if index ≥ t.numReservedElements then .error (.outOfBoundsTableAccess table index)
  else
    let saturatedIndex := branchlessMin index (t.numReservedElements - 1)
    let biasedValue := objectToBiasedTableElementValue host object
    match t.load host saturatedIndex.toNat with
    | none => .error (.outOfBoundsTableAccess table saturatedIndex)
    | some oldBiasedValue =>
      if biasedTableElementValueToObject host oldBiasedValue = host.outOfBoundsElement then
        .error (.outOfBoundsTableAccess table index)
      else .ok (t.setSlot saturatedIndex.toNat biasedValue,
        biasedTableElementValueToObject host oldBiasedValue)

/-- `getTableElementNonNull`. -/
def getTableElementNonNull (table : TableRef) (t : Table) (index : Uptr) : Except Exception Uptr :=
  if index ≥ t.numReservedElements then .error (.outOfBoundsTableAccess table index)
  else
    let saturatedIndex := branchlessMin index (t.numReservedElements - 1)
    match t.load host saturatedIndex.toNat with
    | none => .error (.outOfBoundsTableAccess table saturatedIndex)
    | some biasedValue =>
      let object := biasedTableElementValueToObject host biasedValue
      if object = host.outOfBoundsElement then .error (.outOfBoundsTableAccess table index)
      else .ok object

/-- `Runtime::setTableElement`: null is written as the uninitialised sentinel, and an old
uninitialised sentinel is returned as null. -/
def setTableElement (table : TableRef) (t : Table) (index newValue : Uptr) :
    Except Exception (Table × Uptr) := do
  let newValue := if newValue = 0 then host.uninitializedElement else newValue
  let (t', oldObject) ← setTableElementNonNull host table t index newValue
  pure (t', if oldObject = host.uninitializedElement then 0 else oldObject)

/-- `Runtime::getTableElement`: the uninitialised sentinel is returned as null. -/
def getTableElement (table : TableRef) (t : Table) (index : Uptr) : Except Exception Uptr := do
  let object ← getTableElementNonNull host table t index
  pure (if object = host.uninitializedElement then 0 else object)

/-- `Runtime::getTableNumElements`. -/
def getTableNumElements (t : Table) : Uptr := t.numElements

/-- `Runtime::getTableType`. -/
def getTableType (t : Table) : TableType := t.type

/-! ## In bounds and out of bounds -/

section Bounds

variable {host} {table : TableRef} {t : Table} {index : Uptr}

/-- Indices below the reservation are not saturated. -/
theorem saturatedIndex_eq (hinv : TableInvariant host t) (hindex : index < t.numReservedElements) :
    branchlessMin index (t.numReservedElements - 1) = index := by
  rw [hinv.numReservedElements_eq] at hindex ⊢
  exact branchlessMin_sub_one hindex

theorem lt_numReservedElements (hinv : TableInvariant host t)
    (hindex : index.toNat < t.numElements.toNat) : index < t.numReservedElements := by
  have := hinv.numElements_le_reserved
  rw [hinv.numReservedElements_eq, BitVec.lt_def, tableMaxElements_toNat]
  omega

theorem setTableElementNonNull_of_lt (hinv : TableInvariant host t)
    (hindex : index.toNat < t.numElements.toNat) (object : Uptr) :
    setTableElementNonNull host table t index object =
      .ok (t.setSlot index.toNat (objectToBiasedTableElementValue host object),
        biasedTableElementValueToObject host (t.slots index.toNat)) := by
  have hreserved := lt_numReservedElements hinv hindex
  simp only [setTableElementNonNull, ge_iff_le, BitVec.not_le.mpr hreserved, if_false,
    saturatedIndex_eq hinv hreserved, hinv.load_of_lt hindex,
    biasedTableElementValueToObject_eq_outOfBoundsElement, hinv.slots_ne_zero _ hindex]

theorem getTableElementNonNull_of_lt (hinv : TableInvariant host t)
    (hindex : index.toNat < t.numElements.toNat) :
    getTableElementNonNull host table t index =
      .ok (biasedTableElementValueToObject host (t.slots index.toNat)) := by
  have hreserved := lt_numReservedElements hinv hindex
  simp only [getTableElementNonNull, ge_iff_le, BitVec.not_le.mpr hreserved, if_false,
    saturatedIndex_eq hinv hreserved, hinv.load_of_lt hindex,
    biasedTableElementValueToObject_eq_outOfBoundsElement, hinv.slots_ne_zero _ hindex]

/-- From the count up, a load either faults or reads the zero word: both end in
`OutOfBoundsTableAccess` for the given index. -/
theorem load_of_le (hinv : TableInvariant host t) (hindex : t.numElements.toNat ≤ index.toNat)
    (hreserved : index < t.numReservedElements) :
    t.load host index.toNat = none ∨ t.load host index.toNat = some 0 := by
  unfold Table.load
  split
  · exact .inr (congrArg some (hinv.slots_eq_zero _ hindex hreserved))
  · exact .inl rfl

theorem setTableElementNonNull_of_le (hinv : TableInvariant host t)
    (hindex : t.numElements.toNat ≤ index.toNat) (object : Uptr) :
    setTableElementNonNull host table t index object =
      .error (.outOfBoundsTableAccess table index) := by
  unfold setTableElementNonNull
  split
  · rfl
  · rename_i hreserved
    have hreserved : index < t.numReservedElements := BitVec.not_le.mp hreserved
    simp only [saturatedIndex_eq hinv hreserved]
    rcases load_of_le hinv hindex hreserved with hload | hload <;> simp [hload]

theorem getTableElementNonNull_of_le (hinv : TableInvariant host t)
    (hindex : t.numElements.toNat ≤ index.toNat) :
    getTableElementNonNull host table t index = .error (.outOfBoundsTableAccess table index) := by
  unfold getTableElementNonNull
  split
  · rfl
  · rename_i hreserved
    have hreserved : index < t.numReservedElements := BitVec.not_le.mp hreserved
    simp only [saturatedIndex_eq hinv hreserved]
    rcases load_of_le hinv hindex hreserved with hload | hload <;> simp [hload]

/-- A set that succeeds wrote below the count. -/
theorem setTableElementNonNull_eq_ok {object old : Uptr} {t' : Table}
    (hinv : TableInvariant host t)
    (h : setTableElementNonNull host table t index object = .ok (t', old)) :
    index.toNat < t.numElements.toNat ∧
      t' = t.setSlot index.toNat (objectToBiasedTableElementValue host object) ∧
      old = biasedTableElementValueToObject host (t.slots index.toNat) := by
  by_cases hindex : index.toNat < t.numElements.toNat
  · rw [setTableElementNonNull_of_lt hinv hindex] at h
    cases h
    exact ⟨hindex, rfl, rfl⟩
  · rw [setTableElementNonNull_of_le hinv (Nat.le_of_not_lt hindex)] at h
    cases h

/-- A get never returns the out-of-bounds sentinel. -/
theorem getTableElementNonNull_ne {object : Uptr}
    (h : getTableElementNonNull host table t index = .ok object) :
    object ≠ host.outOfBoundsElement := by
  simp only [getTableElementNonNull] at h
  split at h
  · cases h
  · split at h
    · cases h
    · split at h
      · cases h
      · cases h
        assumption

/-- `Runtime::setTableElement` is `setTableElementNonNull` of the translated value. -/
theorem setTableElement_eq (newValue : Uptr) :
    setTableElement host table t index newValue =
      (setTableElementNonNull host table t index
        (if newValue = 0 then host.uninitializedElement else newValue)).map
        fun (t', old) => (t', if old = host.uninitializedElement then 0 else old) := by
  simp only [setTableElement, bind, Except.bind, Except.map]
  split <;> rfl

/-- The value `Runtime::setTableElement` stores is never the out-of-bounds sentinel unless it is
given that sentinel. -/
theorem translated_ne {newValue : Uptr} (h : newValue ≠ host.outOfBoundsElement) :
    (if newValue = 0 then host.uninitializedElement else newValue) ≠ host.outOfBoundsElement := by
  split
  · exact host.uninitializedElement_ne_outOfBoundsElement
  · exact h

end Bounds

/-- Writing a nonzero word below the count keeps `TableInvariant`. -/
theorem TableInvariant.setSlot {t : Table} {index : Nat} {value : Uptr}
    (hinv : TableInvariant host t) (hindex : index < t.numElements.toNat) (hvalue : value ≠ 0) :
    TableInvariant host (t.setSlot index value) where
  elements_ne_zero := hinv.elements_ne_zero
  numReservedBytes_eq := hinv.numReservedBytes_eq
  numReservedElements_eq := hinv.numReservedElements_eq
  numElements_le_max := hinv.numElements_le_max
  numElements_le_maxTableElems := hinv.numElements_le_maxTableElems
  slots_ne_zero i hi := by
    by_cases h : i = index
    · subst h; simpa using hvalue
    · simpa [Function.update_noteq h] using hinv.slots_ne_zero i hi
  slots_eq_zero i hi hres := by
    have hne : i ≠ index := by simp at hi; omega
    simpa [Function.update_noteq hne] using hinv.slots_eq_zero i hi hres
  committed_of_lt := hinv.committed_of_lt

/-- From every table satisfying `TableInvariant`, and for every reference `v` that is null or a
live object other than the two sentinels: below the count, `setTableElement` returns the object
the slot held (null for the uninitialised sentinel), changes that slot only, and a following
`getTableElement` returns `v`; from the count up (the reservation's end included) both raise
`OutOfBoundsTableAccess` for the index and return no new table. -/
theorem setTableElement_getTableElement_spec (table : TableRef) (t : Table) (index v : Uptr)
    (hinv : TableInvariant host t)
    (hv : v ≠ host.outOfBoundsElement ∧ v ≠ host.uninitializedElement) :
    (index.toNat < t.numElements.toNat →
      let stored := if v = 0 then host.uninitializedElement else v
      let old := biasedTableElementValueToObject host (t.slots index.toNat)
      setTableElement host table t index v =
        .ok (t.setSlot index.toNat (objectToBiasedTableElementValue host stored),
          if old = host.uninitializedElement then 0 else old) ∧
      getTableElement host table
        (t.setSlot index.toNat (objectToBiasedTableElementValue host stored)) index = .ok v) ∧
    (t.numElements.toNat ≤ index.toNat →
      setTableElement host table t index v = .error (.outOfBoundsTableAccess table index) ∧
      getTableElement host table t index = .error (.outOfBoundsTableAccess table index)) := by
  have hstored : (if v = 0 then host.uninitializedElement else v) ≠ host.outOfBoundsElement := by
    split
    · exact host.uninitializedElement_ne_outOfBoundsElement
    · exact hv.1
  refine ⟨fun hindex => ⟨?_, ?_⟩, fun hindex => ⟨?_, ?_⟩⟩
  · simp [setTableElement, setTableElementNonNull_of_lt hinv hindex]
  · have hinv' := hinv.setSlot host hindex
      (fun h => hstored ((objectToBiasedTableElementValue_eq_zero host _).mp h))
    rw [getTableElement, getTableElementNonNull_of_lt hinv' hindex]
    by_cases hzero : v = 0
    · simp [hzero]
    · have hzero : v ≠ 0#64 := hzero
      simp [hzero, hv.2]
  · simp [setTableElement, setTableElementNonNull_of_le hinv hindex]
  · simp [getTableElement, getTableElementNonNull_of_le hinv hindex]

theorem setTableElement_getTableElement_spec_sampleTable :
    TableInvariant sampleHost sampleTable ∧
    ((0 : Uptr) ≠ sampleHost.outOfBoundsElement ∧ (0 : Uptr) ≠ sampleHost.uninitializedElement) ∧
    ((1 : Uptr).toNat < sampleTable.numElements.toNat →
      let stored := if (0 : Uptr) = 0 then sampleHost.uninitializedElement else 0
      let old := biasedTableElementValueToObject sampleHost (sampleTable.slots (1 : Uptr).toNat)
      setTableElement sampleHost 0 sampleTable 1 0 =
        .ok (sampleTable.setSlot (1 : Uptr).toNat
            (objectToBiasedTableElementValue sampleHost stored),
          if old = sampleHost.uninitializedElement then 0 else old) ∧
      getTableElement sampleHost 0
        (sampleTable.setSlot (1 : Uptr).toNat (objectToBiasedTableElementValue sampleHost stored))
        1 = .ok 0) ∧
    (sampleTable.numElements.toNat ≤ (1 : Uptr).toNat →
      setTableElement sampleHost 0 sampleTable 1 0 = .error (.outOfBoundsTableAccess 0 1) ∧
      getTableElement sampleHost 0 sampleTable 1 = .error (.outOfBoundsTableAccess 0 1)) :=
  ⟨sampleTable_invariant, ⟨by decide, by decide⟩,
    setTableElement_getTableElement_spec sampleHost 0 sampleTable 1 0 sampleTable_invariant
      ⟨by decide, by decide⟩⟩

end Wavm.Runtime
