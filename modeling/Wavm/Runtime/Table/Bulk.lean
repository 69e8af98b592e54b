import Wavm.Runtime.Table.Lifecycle

/-!
# Bulk operations on a table

`table.copy`, `table.fill` and `table.init` are loops of single-element calls on live tables.
Below the counts each call succeeds and changes one slot, so a loop that stays below the counts
is one update of the destination's slots; a loop that leaves them stops at the first index out
of range with the writes of the iterations before it.

`table.copy` chooses its direction so that, when the two ranges overlap in one table, no source
slot is overwritten before it is read: descending when copying to higher indices, ascending
otherwise.  Its loop invariant depends on that choice, and the whole loop then has the semantics
of `memmove`.
-/

namespace Wavm.Runtime

/-- The slots from `first` below `last` replaced by `words`, every other slot kept. -/
def writeRange (slots : Nat → Uptr) (first last : Nat) (words : Nat → Uptr) (i : Nat) : Uptr :=
  if first ≤ i ∧ i < last then words i else slots i

theorem writeRange_of_le {slots : Nat → Uptr} {first last : Nat} {words : Nat → Uptr}
    (h : last ≤ first) : writeRange slots first last words = slots :=
  funext fun _ => if_neg (by omega)

/-- Writing the first slot of a range and then the rest of it writes the whole range. -/
theorem writeRange_update {slots words : Nat → Uptr} {first count : Nat} {value : Uptr}
    (hvalue : value = words first) :
    writeRange (Function.update slots first value) (first + 1) (first + 1 + count) words =
      writeRange slots first (first + (count + 1)) words := by
  funext i
  simp only [writeRange, Function.update_apply]
  split_ifs <;> first | rfl | omega | (subst_vars; rfl)

/-- The slots `memmove` leaves: the `count` slots from `destOffset` take the source's slots from
`sourceOffset` as they were before the copy, and every other slot keeps the destination's
word. -/
def memmoveSlots (source dest : Nat → Uptr) (sourceOffset destOffset count : Nat) : Nat → Uptr :=
  writeRange dest destOffset (destOffset + count) fun i => source (i - destOffset + sourceOffset)

/-- The word `initElemSegment` writes for a segment element: `setTableElement` of null for
`ref_null`, and of the instance's function for `ref_func`. -/
def elemSlot (host : Host) (moduleInstance : ModuleInstance) (elem : Elem) : Uptr :=
  let elemObject := match elem.type with
    | .refNull => 0
    | .refFunc => moduleInstance.functions elem.index
  objectToBiasedTableElementValue host
    (if elemObject = 0 then host.uninitializedElement else elemObject)

/-- `U64(offset) + U64(index)` of the intrinsics does not wrap. -/
theorem setWidth_add_ofNat_toNat (offset : U32) {index : Nat} (hindex : index < 2 ^ 32) :
    (offset.setWidth 64 + BitVec.ofNat 64 index).toNat = offset.toNat + index := by
  have := offset.isLt
  simp only [BitVec.toNat_add, BitVec.toNat_setWidth, BitVec.toNat_ofNat]
  omega

theorem setWidth_add_ofNat_eq (offset : U32) {index : Nat} (hindex : index < 2 ^ 32) :
    offset.setWidth 64 + BitVec.ofNat 64 index = BitVec.ofNat 64 (offset.toNat + index) :=
  BitVec.eq_of_toNat_eq (by
    rw [setWidth_add_ofNat_toNat offset hindex, BitVec.toNat_ofNat,
      Nat.mod_eq_of_lt (by have := offset.isLt; omega)])

@[simp] theorem setWidth_toNat (x : U32) : (x.setWidth 64).toNat = x.toNat := by
  rw [BitVec.toNat_setWidth, Nat.mod_eq_of_lt (lt_trans x.isLt (by decide))]

/-- `U64(offset) + U64(numElements - index - 1)` of the descending copy does not wrap. -/
theorem setWidth_add_sub_toNat (offset numElements : U32) {index : Nat}
    (hindex : index < numElements.toNat) :
    (offset.setWidth 64 + (numElements.setWidth 64 - BitVec.ofNat 64 index - 1)).toNat =
      offset.toNat + (numElements.toNat - index - 1) := by
  have := offset.isLt
  have := numElements.isLt
  bv_omega

variable {host : Host}

namespace World

@[simp] theorem setTable_setTable (w : World) (ref : TableRef) (t t' : Table) :
    (w.setTable ref t).setTable ref t' = w.setTable ref t' := by
  simp [setTable]

theorem setTable_heap_self (w : World) (ref : TableRef) : w.setTable ref (w.heap ref) = w := by
  simp [setTable]

/-- Replacing a table's slots by its own slots changes nothing. -/
theorem setTable_with_slots_self (w : World) (ref : TableRef) {slots : Nat → Uptr}
    (h : slots = (w.heap ref).slots) : w.setTable ref { w.heap ref with slots := slots } = w := by
  subst h
  exact setTable_heap_self w ref

theorem heap_setTable (w : World) (ref : TableRef) (t : Table) (ref' : TableRef) :
    (w.setTable ref t).heap ref' = if ref' = ref then t else w.heap ref' := by
  simp [Function.update_apply]

/-- Writing a nonzero word below a table's count keeps `TableInvariant` and the count of every
table. -/
theorem setSlot_heap {w : World} {dest ref : TableRef} {index : Nat} {value : Uptr}
    (hdest : TableInvariant host (w.heap dest)) (hindex : index < (w.heap dest).numElements.toNat)
    (hvalue : value ≠ 0) (href : TableInvariant host (w.heap ref)) :
    TableInvariant host ((w.setTable dest ((w.heap dest).setSlot index value)).heap ref) ∧
      ((w.setTable dest ((w.heap dest).setSlot index value)).heap ref).numElements =
        (w.heap ref).numElements := by
  rw [heap_setTable]
  split
  · subst ref
    exact ⟨hdest.setSlot host hindex hvalue, rfl⟩
  · exact ⟨href, rfl⟩

theorem except_map_fst_ok {α β : Type} (a : α) (b : β) :
    (Except.ok (a, b) : Except Exception (α × β)).map Prod.fst = .ok a := rfl

theorem setTableElementNonNull_of_lt {w : World} {table : TableRef} {index object : Uptr}
    (hinv : TableInvariant host (w.heap table))
    (hindex : index.toNat < (w.heap table).numElements.toNat) :
    w.setTableElementNonNull host table index object =
      .ok (w.setTable table ((w.heap table).setSlot index.toNat
          (objectToBiasedTableElementValue host object)),
        biasedTableElementValueToObject host ((w.heap table).slots index.toNat)) := by
  simp only [World.setTableElementNonNull, Wavm.Runtime.setTableElementNonNull_of_lt hinv hindex,
    Except.map]

theorem setTableElementNonNull_of_le {w : World} {table : TableRef} {index object : Uptr}
    (hinv : TableInvariant host (w.heap table))
    (hindex : (w.heap table).numElements.toNat ≤ index.toNat) :
    w.setTableElementNonNull host table index object =
      .error (.outOfBoundsTableAccess table index) := by
  simp only [World.setTableElementNonNull, Wavm.Runtime.setTableElementNonNull_of_le hinv hindex,
    Except.map]

/-! ## `table.copy` -/

/-- One element of `table.copy` between slots below both counts copies the word: the object it
reads is stored back with the same encoding. -/
theorem copyElement_of_lt {w : World} {sourceTable destTable : TableRef}
    {sourceIndex destIndex : Uptr} (hsource : TableInvariant host (w.heap sourceTable))
    (hdest : TableInvariant host (w.heap destTable))
    (hs : sourceIndex.toNat < (w.heap sourceTable).numElements.toNat)
    (hd : destIndex.toNat < (w.heap destTable).numElements.toNat) :
    w.copyElement host sourceTable destTable sourceIndex destIndex =
      .ok (w.setTable destTable ((w.heap destTable).setSlot destIndex.toNat
        ((w.heap sourceTable).slots sourceIndex.toNat))) := by
  simp only [copyElement, getTableElementNonNull_of_lt hsource hs,
    setTableElementNonNull_of_lt hdest hd, bind, Except.bind, pure, Except.pure,
    objectToBiasedTableElementValue_biasedTableElementValueToObject]

section Copy

variable {sourceTable destTable : TableRef}

/-- The step of both copy loops: copying slot `s` to slot `d`, both below the counts, keeps the
invariant of both tables and their counts. -/
theorem copyElement_step {w : World} {s d : Nat}
    (hsource : TableInvariant host (w.heap sourceTable))
    (hdest : TableInvariant host (w.heap destTable))
    (hs : s < (w.heap sourceTable).numElements.toNat)
    (hd : d < (w.heap destTable).numElements.toNat) :
    let w' := w.setTable destTable ((w.heap destTable).setSlot d ((w.heap sourceTable).slots s))
    (TableInvariant host (w'.heap sourceTable) ∧
      (w'.heap sourceTable).numElements = (w.heap sourceTable).numElements) ∧
    (TableInvariant host (w'.heap destTable) ∧
      (w'.heap destTable).numElements = (w.heap destTable).numElements) :=
  have hne := hsource.slots_ne_zero s hs
  ⟨setSlot_heap hdest hd hne hsource, setSlot_heap hdest hd hne hdest⟩

/-- The ascending loop of `table.copy`, from iteration `first` on, when the destination range
does not start above the source range. -/
theorem forIndices_copy_ascending {sourceOffset destOffset : U32}
    (hdir : destOffset.toNat ≤ sourceOffset.toNat) (count : Nat) :
    ∀ (first : Nat) (w : World), TableInvariant host (w.heap sourceTable) →
      TableInvariant host (w.heap destTable) →
      sourceOffset.toNat + first + count ≤ (w.heap sourceTable).numElements.toNat →
      destOffset.toNat + first + count ≤ (w.heap destTable).numElements.toNat →
      forIndices (fun index w => w.copyElement host sourceTable destTable
          (sourceOffset.setWidth 64 + BitVec.ofNat 64 index)
          (destOffset.setWidth 64 + BitVec.ofNat 64 index)) first count w =
        (w.setTable destTable { w.heap destTable with
          slots := memmoveSlots (w.heap sourceTable).slots (w.heap destTable).slots
            (sourceOffset.toNat + first) (destOffset.toNat + first) count }, none) := by
  induction count with
  | zero =>
    intro first w _ _ _ _
    have hslots : memmoveSlots (w.heap sourceTable).slots (w.heap destTable).slots
        (sourceOffset.toNat + first) (destOffset.toNat + first) 0 = (w.heap destTable).slots :=
      funext fun i => if_neg (by omega)
    rw [hslots, setTable_heap_self]
    rfl
  | succ count ih =>
    intro first w hsource hdest hs hd
    have hbound := hsource.numElements_le_reserved
    have hstep := copyElement_step hsource hdest (s := sourceOffset.toNat + first)
      (d := destOffset.toNat + first) (by omega) (by omega)
    simp only [forIndices]
    rw [copyElement_of_lt hsource hdest
        (by rw [setWidth_add_ofNat_toNat _ (by omega)]; omega)
        (by rw [setWidth_add_ofNat_toNat _ (by omega)]; omega)]
    dsimp only
    rw [setWidth_add_ofNat_toNat _ (by omega), setWidth_add_ofNat_toNat _ (by omega),
      ih (first + 1) _ hstep.1.1 hstep.2.1 (by rw [hstep.1.2]; omega) (by rw [hstep.2.2]; omega),
      setTable_setTable]
    congr 2
    simp only [heap_setTable, ite_true]
    congr 1
    funext i
    by_cases hsame : sourceTable = destTable
    · subst hsame
      simp only [ite_true, memmoveSlots, writeRange, Table.setSlot_slots, Function.update_apply]
      split_ifs <;> first | rfl | omega | (congr 1; omega)
    · simp only [if_neg hsame, memmoveSlots, writeRange, Table.setSlot_slots,
        Function.update_apply]
      split_ifs <;> first | rfl | omega | (congr 1; omega)

/-- The descending loop of `table.copy` over the last `count` of `numElements` iterations, when
the source range starts below the destination range. -/
theorem forIndices_copy_descending {sourceOffset destOffset numElements : U32}
    (hdir : sourceOffset.toNat < destOffset.toNat) (count : Nat) :
    ∀ (first : Nat) (w : World), first + count = numElements.toNat →
      TableInvariant host (w.heap sourceTable) → TableInvariant host (w.heap destTable) →
      sourceOffset.toNat + count ≤ (w.heap sourceTable).numElements.toNat →
      destOffset.toNat + count ≤ (w.heap destTable).numElements.toNat →
      forIndices (fun index w =>
          let offset := numElements.setWidth 64 - BitVec.ofNat 64 index - 1
          w.copyElement host sourceTable destTable (sourceOffset.setWidth 64 + offset)
            (destOffset.setWidth 64 + offset)) first count w =
        (w.setTable destTable { w.heap destTable with
          slots := memmoveSlots (w.heap sourceTable).slots (w.heap destTable).slots
            sourceOffset.toNat destOffset.toNat count }, none) := by
  induction count with
  | zero =>
    intro first w _ _ _ _ _
    have hslots : memmoveSlots (w.heap sourceTable).slots (w.heap destTable).slots
        sourceOffset.toNat destOffset.toNat 0 = (w.heap destTable).slots :=
      funext fun i => if_neg (by omega)
    rw [hslots, setTable_heap_self]
    rfl
  | succ count ih =>
    intro first w hfirst hsource hdest hs hd
    have hstep := copyElement_step hsource hdest (s := sourceOffset.toNat + count)
      (d := destOffset.toNat + count) (by omega) (by omega)
    have hoffset : numElements.toNat - first - 1 = count := by omega
    simp only [forIndices]
    rw [copyElement_of_lt hsource hdest
        (by rw [setWidth_add_sub_toNat _ _ (by omega)]; omega)
        (by rw [setWidth_add_sub_toNat _ _ (by omega)]; omega)]
    dsimp only
    rw [setWidth_add_sub_toNat _ _ (by omega), setWidth_add_sub_toNat _ _ (by omega), hoffset,
      ih (first + 1) _ (by omega) hstep.1.1 hstep.2.1 (by rw [hstep.1.2]; omega)
        (by rw [hstep.2.2]; omega),
      setTable_setTable]
    congr 2
    simp only [heap_setTable, ite_true]
    congr 1
    funext i
    by_cases hsame : sourceTable = destTable
    · subst hsame
      simp only [ite_true, memmoveSlots, writeRange, Table.setSlot_slots, Function.update_apply]
      split_ifs <;> first | rfl | omega | (congr 1; omega)
    · simp only [if_neg hsame, memmoveSlots, writeRange, Table.setSlot_slots,
        Function.update_apply]
      split_ifs <;> first | rfl | omega | (congr 1; omega)

end Copy

/-! ## `table.fill` -/

/-- The loop of `table.fill` from iteration `first` on: the iterations whose index is below the
count write their slot, and the first one from the count up raises `OutOfBoundsTableAccess`
for its index. -/
theorem forIndices_fill {destTable : TableRef} {destOffset : U32} {value : Uptr}
    (hvalue : value ≠ host.outOfBoundsElement) (count : Nat) :
    ∀ (first : Nat) (w : World), TableInvariant host (w.heap destTable) →
      first + count ≤ 2 ^ 32 →
      let written := min count ((w.heap destTable).numElements.toNat - (destOffset.toNat + first))
      forIndices (fun index w => (w.setTableElementNonNull host destTable
          (destOffset.setWidth 64 + BitVec.ofNat 64 index) value).map Prod.fst) first count w =
        (w.setTable destTable { w.heap destTable with
          slots := writeRange (w.heap destTable).slots (destOffset.toNat + first)
            (destOffset.toNat + first + written) fun _ => objectToBiasedTableElementValue host value },
          if written < count then
            some (.outOfBoundsTableAccess destTable
              (BitVec.ofNat 64 (destOffset.toNat + first + written)))
          else none) := by
  have hencoded : objectToBiasedTableElementValue host value ≠ 0 :=
    fun h => hvalue ((objectToBiasedTableElementValue_eq_zero host _).mp h)
  induction count with
  | zero =>
    intro first w _ _
    dsimp only
    rw [writeRange_of_le (by omega), setTable_with_slots_self _ _ rfl, if_neg (by omega)]
    rfl
  | succ count ih =>
    intro first w hdest hfirst
    have hindex := setWidth_add_ofNat_toNat destOffset (show first < 2 ^ 32 by omega)
    simp only [forIndices]
    by_cases hin : destOffset.toNat + first < (w.heap destTable).numElements.toNat
    · have hstep := setSlot_heap hdest hin hencoded hdest
      rw [setTableElementNonNull_of_lt hdest (by rw [hindex]; exact hin), except_map_fst_ok]
      dsimp only
      rw [hindex, ih (first + 1) _ hstep.1 (by omega)]
      simp only [setTable_setTable, heap_setTable, ite_true, Table.setSlot_numElements]
      have hwritten : min (count + 1) ((w.heap destTable).numElements.toNat -
          (destOffset.toNat + first)) = min count ((w.heap destTable).numElements.toNat -
          (destOffset.toNat + (first + 1))) + 1 := by omega
      rw [hwritten]
      congr 1
      · congr 2
        funext i
        simp only [writeRange, Table.setSlot_slots, Table.setSlot_numElements,
          Function.update_apply]
        split_ifs <;> first | rfl | omega
      · simp only [Nat.add_lt_add_iff_right, (show destOffset.toNat + first + (min count
          ((w.heap destTable).numElements.toNat - (destOffset.toNat + (first + 1))) + 1) =
            destOffset.toNat + (first + 1) + min count ((w.heap destTable).numElements.toNat -
              (destOffset.toNat + (first + 1))) by omega)]
    · rw [setTableElementNonNull_of_le hdest (by omega)]
      have hnone : min (count + 1) ((w.heap destTable).numElements.toNat -
          (destOffset.toNat + first)) = 0 := by omega
      rw [hnone, writeRange_of_le (by omega), setTable_with_slots_self _ _ rfl,
        if_pos (Nat.succ_pos count), setWidth_add_ofNat_eq _ (by omega)]
      rfl

/-! ## `table.init` -/

/-- `Runtime::setTableElement` below the count writes the encoding of the translated value into
its slot. -/
theorem setTableElement_map_of_lt {w : World} {table : TableRef} {index newValue : Uptr}
    (hinv : TableInvariant host (w.heap table))
    (hindex : index.toNat < (w.heap table).numElements.toNat) :
    (w.setTableElement host table index newValue).map Prod.fst =
      .ok (w.setTable table ((w.heap table).setSlot index.toNat (objectToBiasedTableElementValue host
        (if newValue = 0 then host.uninitializedElement else newValue)))) := by
  rw [setTableElement_eq_map, setTableElementNonNull_of_lt hinv hindex]
  rfl

/-- The loop of `Runtime::initElemSegment` from iteration `first` on, with its destination range
below the count: the iterations whose source index is inside the segment write their slot, and
the first one past the segment raises `OutOfBoundsElemSegmentAccess` for its source index. -/
theorem forIndices_initElemSegment {moduleInstance : ModuleRef} {elemSegmentIndex : Uptr}
    {elemVector : List Elem} {table : TableRef} {destOffset sourceOffset : Uptr}
    (count : Nat) : ∀ (first : Nat) (w : World), TableInvariant host (w.heap table) →
      (∀ index, (w.moduleInstances moduleInstance).functions index ≠ host.outOfBoundsElement) →
      sourceOffset.toNat + first + count < 2 ^ 64 →
      destOffset.toNat + first + count ≤ (w.heap table).numElements.toNat →
      let written := min count (elemVector.length - (sourceOffset.toNat + first))
      forIndices (fun index w =>
          let sourceIndex := sourceOffset + BitVec.ofNat 64 index
          let destIndex := destOffset + BitVec.ofNat 64 index
          if h : sourceIndex.toNat ≥ elemVector.length ∨ sourceIndex < sourceOffset then
            .error (.outOfBoundsElemSegmentAccess moduleInstance elemSegmentIndex sourceIndex)
          else
            let elem := elemVector.get ⟨sourceIndex.toNat, Nat.lt_of_not_le fun h' => h (.inl h')⟩
            let elemObject := match elem.type with
              | .refNull => 0
              | .refFunc => (w.moduleInstances moduleInstance).functions elem.index
            (w.setTableElement host table destIndex elemObject).map Prod.fst) first count w =
        (w.setTable table { w.heap table with
          slots := writeRange (w.heap table).slots (destOffset.toNat + first)
            (destOffset.toNat + first + written) fun i =>
              elemSlot host (w.moduleInstances moduleInstance)
                (elemVector.getD (i - destOffset.toNat + sourceOffset.toNat) ⟨.refNull, 0⟩) },
          if written < count then
            some (.outOfBoundsElemSegmentAccess moduleInstance elemSegmentIndex
              (BitVec.ofNat 64 (sourceOffset.toNat + first + written)))
          else none) := by
  induction count with
  | zero =>
    intro first w _ _ _ _
    dsimp only
    rw [writeRange_of_le (by omega), setTable_with_slots_self _ _ rfl, if_neg (by omega)]
    rfl
  | succ count ih =>
    intro first w hinv hfunctions hsource hdest
    have hdestLt : (destOffset + BitVec.ofNat 64 first).toNat = destOffset.toNat + first := by
      have := hinv.numElements_le_reserved
      rw [BitVec.toNat_add, BitVec.toNat_ofNat]
      omega
    have hsourceEq : (sourceOffset + BitVec.ofNat 64 first).toNat = sourceOffset.toNat + first := by
      rw [BitVec.toNat_add, BitVec.toNat_ofNat]
      omega
    simp only [forIndices]
    by_cases hin : sourceOffset.toNat + first < elemVector.length
    · rw [dif_neg (by rw [hsourceEq, BitVec.lt_def, hsourceEq]; omega)]
      simp only [hsourceEq]
      rw [setTableElement_map_of_lt hinv (by rw [hdestLt]; omega)]
      dsimp only
      have hobject : (match (elemVector.get ⟨sourceOffset.toNat + first, hin⟩).type with
          | .refNull => (0 : Uptr)
          | .refFunc => (w.moduleInstances moduleInstance).functions
              (elemVector.get ⟨sourceOffset.toNat + first, hin⟩).index) ≠ host.outOfBoundsElement := by
        split
        · exact host.outOfBoundsElement_ne_zero.symm
        · exact hfunctions _
      have hstep := setSlot_heap hinv (show destOffset.toNat + first < _ by omega)
        (fun h => translated_ne hobject ((objectToBiasedTableElementValue_eq_zero host _).mp h)) hinv
      simp only [hdestLt]
      rw [ih (first + 1) _ hstep.1 (by simpa using hfunctions) (by omega)
        (by rw [hstep.2]; omega)]
      simp only [setTable_setTable, heap_setTable, ite_true, Table.setSlot_numElements,
        setTable_moduleInstances]
      have hwritten : min (count + 1) (elemVector.length - (sourceOffset.toNat + first)) =
          min count (elemVector.length - (sourceOffset.toNat + (first + 1))) + 1 := by omega
      rw [hwritten]
      congr 1
      · rw [Table.setSlot_slots]
        congr 2
        refine writeRange_update ?_
        simp only [elemSlot, (show destOffset.toNat + first - destOffset.toNat +
          sourceOffset.toNat = sourceOffset.toNat + first by omega), List.getD_eq_getElem?_getD,
          List.getElem?_eq_getElem hin, Option.getD_some, List.get_eq_getElem]
      · simp only [Nat.add_lt_add_iff_right, (show sourceOffset.toNat + first + (min count
          (elemVector.length - (sourceOffset.toNat + (first + 1))) + 1) =
            sourceOffset.toNat + (first + 1) + min count (elemVector.length -
              (sourceOffset.toNat + (first + 1))) by omega)]
    · rw [dif_pos (.inl (by rw [hsourceEq]; omega))]
      have hnone : min (count + 1) (elemVector.length - (sourceOffset.toNat + first)) = 0 := by
        omega
      dsimp only
      rw [hnone, writeRange_of_le (by omega), setTable_with_slots_self _ _ rfl,
        if_pos (Nat.succ_pos count)]
      congr 3
      exact BitVec.eq_of_toNat_eq (by
        rw [hsourceEq, BitVec.toNat_ofNat, Nat.mod_eq_of_lt (by omega)]; rfl)

end World

/-- A slot below the count that holds what `Runtime::setTableElement` stores for `v` reads back
as `v`, unless `v` is the uninitialised sentinel. -/
theorem getTableElement_of_stored {table : TableRef} {t : Table} {index v : Uptr}
    (hinv : TableInvariant host t) (hindex : index.toNat < t.numElements.toNat)
    (hslot : t.slots index.toNat =
      objectToBiasedTableElementValue host (if v = 0 then host.uninitializedElement else v))
    (hv : v ≠ host.uninitializedElement) :
    getTableElement host table t index = .ok v := by
  rw [getTableElement, getTableElementNonNull_of_lt hinv hindex, hslot,
    biasedTableElementValueToObject_objectToBiasedTableElementValue]
  by_cases hzero : v = 0
  · simp [hzero]
  · have hzero : v ≠ 0#64 := hzero
    simp [hzero, hv]

/-- `table.copy` between two live tables of a reachable state, possibly the same one, with both
ranges below the counts, raises nothing and changes only the destination's slots: slot
`destOffset + k` takes the source's slot `sourceOffset + k` as it was before the call, for every
`k < numElements`, whatever the overlap. -/
theorem tableCopy_memmove {w : World} (hreach : Reachable host w) {sourceTable destTable : TableRef}
    (hsource : w.live sourceTable) (hdest : w.live destTable)
    (destOffset sourceOffset numElements : U32)
    (hs : sourceOffset.toNat + numElements.toNat ≤ (w.heap sourceTable).numElements.toNat)
    (hd : destOffset.toNat + numElements.toNat ≤ (w.heap destTable).numElements.toNat) :
    w.tableCopy host destOffset sourceOffset numElements sourceTable destTable =
      (w.setTable destTable { w.heap destTable with
        slots := memmoveSlots (w.heap sourceTable).slots (w.heap destTable).slots
          sourceOffset.toNat destOffset.toNat numElements.toNat }, none) := by
  have hsourceInv := hreach.invariant.tableInvariant sourceTable hsource
  have hdestInv := hreach.invariant.tableInvariant destTable hdest
  unfold World.tableCopy
  split
  · exact World.forIndices_copy_descending (BitVec.lt_def.mp ‹_›) _ 0 w (by omega) hsourceInv
      hdestInv hs hd
  · simpa using World.forIndices_copy_ascending (Nat.le_of_not_lt (mt BitVec.lt_def.mpr ‹_›)) _ 0
      w hsourceInv hdestInv (by simpa using hs) (by simpa using hd)

theorem tableCopy_memmove_sampleCreated :
    sampleCreated.tableCopy sampleHost 1 0 1 0 0 =
      (sampleCreated.setTable 0 { sampleCreated.heap 0 with
        slots := memmoveSlots (sampleCreated.heap 0).slots (sampleCreated.heap 0).slots
          (0 : U32).toNat (1 : U32).toNat (1 : U32).toNat }, none) :=
  tableCopy_memmove sampleCreated_reachable (by decide) (by decide) 1 0 1 (by decide) (by decide)

/-- `table.fill` on a live table of a reachable state, with a value that is null or a live
object other than the two sentinels.  With the range below the count it raises nothing, writes
the stored form of the value into the range and leaves every other slot as it was, and each slot
of the range then reads back as the value.  With the range past the count and at least one
element, it writes the slots of the range below the count and raises `OutOfBoundsTableAccess`
for the first index from the count up.  With no element it does nothing. -/
theorem tableFill_spec {w : World} (hreach : Reachable host w) {destTable : TableRef}
    (hlive : w.live destTable) (destOffset : U32) (value : Uptr) (numElements : U32)
    (hvalue : value ≠ host.outOfBoundsElement ∧ value ≠ host.uninitializedElement) :
    let n := (w.heap destTable).numElements.toNat
    let filled := fun last => w.setTable destTable { w.heap destTable with
      slots := writeRange (w.heap destTable).slots destOffset.toNat last fun _ =>
        objectToBiasedTableElementValue host
          (if value = 0 then host.uninitializedElement else value) }
    (destOffset.toNat + numElements.toNat ≤ n →
      w.tableFill host destOffset value numElements destTable =
        (filled (destOffset.toNat + numElements.toNat), none) ∧
      ∀ k < numElements.toNat, getTableElement host destTable
        ((filled (destOffset.toNat + numElements.toNat)).heap destTable)
        (BitVec.ofNat 64 (destOffset.toNat + k)) = .ok value) ∧
    (n < destOffset.toNat + numElements.toNat → 0 < numElements.toNat →
      w.tableFill host destOffset value numElements destTable =
        (filled n, some (.outOfBoundsTableAccess destTable
          (BitVec.ofNat 64 (max destOffset.toNat n))))) ∧
    (numElements = 0 → w.tableFill host destOffset value numElements destTable = (w, none)) := by
  dsimp only
  have hinv := hreach.invariant
  have hloop := @World.forIndices_fill host destTable destOffset _ (translated_ne hvalue.1)
    numElements.toNat 0 w (hinv.tableInvariant destTable hlive) (by have := numElements.isLt; omega)
  simp only [Nat.add_zero] at hloop
  have hfill : w.tableFill host destOffset value numElements destTable = _ := hloop
  refine ⟨fun hin => ?_, fun hout hpos => ?_, fun hzero => ?_⟩
  · rw [hfill, Nat.min_eq_left (by omega), if_neg (Nat.lt_irrefl _)]
    refine ⟨rfl, fun k hk => ?_⟩
    have hres : (w.tableFill host destOffset value numElements destTable).1.Invariant host :=
      hinv.tableFill host hlive hvalue.1
    rw [hfill, Nat.min_eq_left (by omega)] at hres
    have hindex : (BitVec.ofNat 64 (destOffset.toNat + k)).toNat = destOffset.toNat + k :=
      Nat.mod_eq_of_lt (by have := destOffset.isLt; have := numElements.isLt; omega)
    refine getTableElement_of_stored (hres.tableInvariant destTable hlive) ?_ ?_ hvalue.2 <;>
      simp only [hindex, World.setTable_heap, Function.update_same, writeRange]
    · omega
    · exact if_pos (by omega)
  · have hlt : min numElements.toNat ((w.heap destTable).numElements.toNat - destOffset.toNat) <
        numElements.toNat := by omega
    rw [hfill, if_pos hlt]
    by_cases hle : destOffset.toNat ≤ (w.heap destTable).numElements.toNat
    · rw [show destOffset.toNat + min numElements.toNat
          ((w.heap destTable).numElements.toNat - destOffset.toNat) =
          (w.heap destTable).numElements.toNat by omega, max_eq_right hle]
    · rw [show destOffset.toNat + min numElements.toNat
          ((w.heap destTable).numElements.toNat - destOffset.toNat) = destOffset.toNat by omega,
        max_eq_left (by omega), writeRange_of_le le_rfl, writeRange_of_le (by omega)]
  · subst hzero
    rw [hfill]
    simp only [show (0 : U32).toNat = 0 from rfl, Nat.zero_min, Nat.add_zero, Nat.lt_irrefl,
      if_false]
    rw [writeRange_of_le le_rfl, World.setTable_with_slots_self _ _ rfl]

theorem tableFill_spec_sampleCreated :
    let n := (sampleCreated.heap 0).numElements.toNat
    let filled := fun last => sampleCreated.setTable 0 { sampleCreated.heap 0 with
      slots := writeRange (sampleCreated.heap 0).slots (1 : U32).toNat last fun _ =>
        objectToBiasedTableElementValue sampleHost
          (if (0 : Uptr) = 0 then sampleHost.uninitializedElement else 0) }
    ((1 : U32).toNat + (2 : U32).toNat ≤ n →
      sampleCreated.tableFill sampleHost 1 0 2 0 = (filled ((1 : U32).toNat + (2 : U32).toNat), none) ∧
      ∀ k < (2 : U32).toNat, getTableElement sampleHost 0
        ((filled ((1 : U32).toNat + (2 : U32).toNat)).heap 0)
        (BitVec.ofNat 64 ((1 : U32).toNat + k)) = .ok 0) ∧
    (n < (1 : U32).toNat + (2 : U32).toNat → 0 < (2 : U32).toNat →
      sampleCreated.tableFill sampleHost 1 0 2 0 =
        (filled n, some (.outOfBoundsTableAccess 0 (BitVec.ofNat 64 (max (1 : U32).toNat n))))) ∧
    ((2 : U32) = 0 → sampleCreated.tableFill sampleHost 1 0 2 0 = (sampleCreated, none)) :=
  tableFill_spec sampleCreated_reachable (by decide) 1 0 2 ⟨by decide, by decide⟩

/-- `table.fill` of no element past the count raises nothing and changes nothing. -/
theorem tableFill_empty_past_count :
    (sampleCreated.heap 0).numElements.toNat < (3 : U32).toNat ∧
      sampleCreated.tableFill sampleHost 3 0 0 0 = (sampleCreated, none) :=
  ⟨by decide, rfl⟩

/-! ## `table.init` -/

theorem initElemSegment_eq_forIndices (w : World) (moduleInstance : ModuleRef)
    (elemSegmentIndex : Uptr) (elemVector : List Elem) (table : TableRef)
    (destOffset sourceOffset numElems : Uptr) :
    w.initElemSegment host moduleInstance elemSegmentIndex elemVector table destOffset sourceOffset
      numElems = forIndices (fun index w =>
          let sourceIndex := sourceOffset + BitVec.ofNat 64 index
          let destIndex := destOffset + BitVec.ofNat 64 index
          if h : sourceIndex.toNat ≥ elemVector.length ∨ sourceIndex < sourceOffset then
            .error (.outOfBoundsElemSegmentAccess moduleInstance elemSegmentIndex sourceIndex)
          else
            let elem := elemVector.get ⟨sourceIndex.toNat, Nat.lt_of_not_le fun h' => h (.inl h')⟩
            let elemObject := match elem.type with
              | .refNull => 0
              | .refFunc => (w.moduleInstances moduleInstance).functions elem.index
            (w.setTableElement host table destIndex elemObject).map Prod.fst) 0 numElems.toNat w :=
  rfl

/-- `table.init` of a segment that has not been dropped, on a live table of a reachable state,
with the destination range below the count: the loop of `initElemSegment` from its start. -/
theorem tableInit_eq {w : World} (hreach : Reachable host w) {moduleInstance : ModuleRef}
    {table : TableRef} {elemSegmentIndex : Uptr} {elemVector : List Elem} (hlive : w.live table)
    (hsegment : (w.moduleInstances moduleInstance).elemSegments elemSegmentIndex = some elemVector)
    (destIndex sourceIndex numElems : U32)
    (hdest : destIndex.toNat + numElems.toNat ≤ (w.heap table).numElements.toNat) :
    let written := min numElems.toNat (elemVector.length - sourceIndex.toNat)
    w.tableInit host destIndex sourceIndex numElems moduleInstance table elemSegmentIndex =
      (w.setTable table { w.heap table with
        slots := writeRange (w.heap table).slots destIndex.toNat (destIndex.toNat + written)
          fun i => elemSlot host (w.moduleInstances moduleInstance)
            (elemVector.getD (i - destIndex.toNat + sourceIndex.toNat) ⟨.refNull, 0⟩) },
        if written < numElems.toNat then
          some (.outOfBoundsElemSegmentAccess moduleInstance elemSegmentIndex
            (BitVec.ofNat 64 (sourceIndex.toNat + written)))
        else none) := by
  have hinv := hreach.invariant
  have hloop := @World.forIndices_initElemSegment host moduleInstance elemSegmentIndex
    elemVector table (destIndex.setWidth 64) (sourceIndex.setWidth 64) numElems.toNat 0 w (hinv.tableInvariant table hlive) (hinv.functions_ne moduleInstance)
    (by have := sourceIndex.isLt; have := numElems.isLt; simp only [setWidth_toNat]; omega)
    (by simp only [setWidth_toNat, Nat.add_zero]; exact hdest)
  simp only [setWidth_toNat, Nat.add_zero] at hloop
  simp only [World.tableInit, hsegment, initElemSegment_eq_forIndices, setWidth_toNat]
  exact hloop

/-- `table.init` of a segment that has not been dropped, on a live table of a reachable state,
with both ranges inside: it raises nothing, writes slot `destIndex + k` as `setTableElement`
writes element `sourceIndex + k` of the segment for every `k < numElems` (the uninitialised
sentinel for `ref_null`, the instance's function for `ref_func`), and leaves every other slot as
it was. -/
theorem tableInit_spec {w : World} (hreach : Reachable host w) {moduleInstance : ModuleRef}
    {table : TableRef} {elemSegmentIndex : Uptr} {elemVector : List Elem} (hlive : w.live table)
    (hsegment : (w.moduleInstances moduleInstance).elemSegments elemSegmentIndex = some elemVector)
    (destIndex sourceIndex numElems : U32)
    (hsource : sourceIndex.toNat + numElems.toNat ≤ elemVector.length)
    (hdest : destIndex.toNat + numElems.toNat ≤ (w.heap table).numElements.toNat) :
    w.tableInit host destIndex sourceIndex numElems moduleInstance table elemSegmentIndex =
      (w.setTable table { w.heap table with
        slots := writeRange (w.heap table).slots destIndex.toNat
          (destIndex.toNat + numElems.toNat) fun i =>
            elemSlot host (w.moduleInstances moduleInstance)
              (elemVector.getD (i - destIndex.toNat + sourceIndex.toNat) ⟨.refNull, 0⟩) }, none) := by
  rw [tableInit_eq hreach hlive hsegment destIndex sourceIndex numElems hdest,
    Nat.min_eq_left (by omega), if_neg (Nat.lt_irrefl _)]

/-- `sampleInitial` with element segment `0` of every module instance holding two `ref_func 0`
elements. -/
def sampleSegmentInitial : World :=
  { sampleInitial with
    moduleInstances := fun _ => ⟨fun _ => 0x3000,
      fun i => if i = 0 then some [⟨.refFunc, 0⟩, ⟨.refFunc, 0⟩] else none⟩ }

theorem sampleSegmentInitial_initial : sampleSegmentInitial.Initial sampleHost where
  live_eq _ := rfl
  tables_eq := rfl
  compartment_tables _ _ := rfl
  compartment_tableBases _ _ := rfl
  quotas_current _ := rfl
  platformCalls_eq := rfl
  functions_ne _ _ := by show (0x3000 : Uptr) ≠ 0x1000; decide

theorem sampleSegmentCreate_isSome :
    (sampleSegmentInitial.step sampleHost sampleCreate).isSome = true := by
  decide

/-- The process after `sampleCreate` from `sampleSegmentInitial`: table `0` with two
uninitialised elements, and the segment of two functions. -/
def sampleSegmentCreated : World :=
  (sampleSegmentInitial.step sampleHost sampleCreate).get sampleSegmentCreate_isSome

theorem sampleSegmentCreated_reachable : Reachable sampleHost sampleSegmentCreated :=
  .step sampleCreate (.initial sampleSegmentInitial_initial)
    ⟨by decide, by decide, fun _ h => absurd h Bool.false_ne_true⟩ (Option.some_get _).symm

theorem tableInit_spec_sampleSegmentCreated :
    sampleSegmentCreated.tableInit sampleHost 0 0 2 0 0 0 =
      (sampleSegmentCreated.setTable 0 { sampleSegmentCreated.heap 0 with
        slots := writeRange (sampleSegmentCreated.heap 0).slots (0 : U32).toNat
          ((0 : U32).toNat + (2 : U32).toNat) fun i =>
            elemSlot sampleHost (sampleSegmentCreated.moduleInstances 0)
              (([⟨.refFunc, 0⟩, ⟨.refFunc, 0⟩] : List Elem).getD
                (i - (0 : U32).toNat + (0 : U32).toNat) ⟨.refNull, 0⟩) }, none) :=
  tableInit_spec sampleSegmentCreated_reachable (by decide) (by rfl) 0 0 2 (by decide) (by decide)

/-- `table.init` of a segment that has not been dropped, on a live table of a reachable state,
with the destination range inside the table and the source range past the end of the segment:
it writes the slots whose source index is inside the segment, as `setTableElement` does, and
then raises `OutOfBoundsElemSegmentAccess` for the first source index past the segment; with no
element it does nothing. -/
theorem tableInit_out_of_segment {w : World} (hreach : Reachable host w)
    {moduleInstance : ModuleRef} {table : TableRef} {elemSegmentIndex : Uptr}
    {elemVector : List Elem} (hlive : w.live table)
    (hsegment : (w.moduleInstances moduleInstance).elemSegments elemSegmentIndex = some elemVector)
    (destIndex sourceIndex numElems : U32)
    (hsource : elemVector.length < sourceIndex.toNat + numElems.toNat)
    (hdest : destIndex.toNat + numElems.toNat ≤ (w.heap table).numElements.toNat) :
    w.tableInit host destIndex sourceIndex numElems moduleInstance table elemSegmentIndex =
      (w.setTable table { w.heap table with
        slots := writeRange (w.heap table).slots destIndex.toNat
          (destIndex.toNat + (elemVector.length - sourceIndex.toNat)) fun i =>
            elemSlot host (w.moduleInstances moduleInstance)
              (elemVector.getD (i - destIndex.toNat + sourceIndex.toNat) ⟨.refNull, 0⟩) },
        if 0 < numElems.toNat then
          some (.outOfBoundsElemSegmentAccess moduleInstance elemSegmentIndex
            (BitVec.ofNat 64 (max sourceIndex.toNat elemVector.length)))
        else none) := by
  rw [tableInit_eq hreach hlive hsegment destIndex sourceIndex numElems hdest,
    Nat.min_eq_right (by omega),
    show sourceIndex.toNat + (elemVector.length - sourceIndex.toNat) =
      max sourceIndex.toNat elemVector.length by omega]
  by_cases hzero : numElems.toNat = 0
  · rw [if_neg (by omega), if_neg (by omega)]
  · rw [if_pos (by omega), if_pos (by omega)]

theorem tableInit_out_of_segment_sampleSegmentCreated :
    sampleSegmentCreated.tableInit sampleHost 0 1 2 0 0 0 =
      (sampleSegmentCreated.setTable 0 { sampleSegmentCreated.heap 0 with
        slots := writeRange (sampleSegmentCreated.heap 0).slots (0 : U32).toNat
          ((0 : U32).toNat + (([⟨.refFunc, 0⟩, ⟨.refFunc, 0⟩] : List Elem).length - (1 : U32).toNat))
          fun i => elemSlot sampleHost (sampleSegmentCreated.moduleInstances 0)
            (([⟨.refFunc, 0⟩, ⟨.refFunc, 0⟩] : List Elem).getD (i - (0 : U32).toNat + (1 : U32).toNat)
              ⟨.refNull, 0⟩) },
        if 0 < (2 : U32).toNat then
          some (.outOfBoundsElemSegmentAccess 0 0 (BitVec.ofNat 64
            (max (1 : U32).toNat ([⟨.refFunc, 0⟩, ⟨.refFunc, 0⟩] : List Elem).length)))
        else none) :=
  tableInit_out_of_segment sampleSegmentCreated_reachable (by decide) (by rfl) 0 1 2 (by decide)
    (by decide)

/-- `table.init` past the end of a segment does not leave the table as it was: with a segment of
two elements and a table of two, `table.init(dest = 0, src = 1, n = 2)` raises
`OutOfBoundsElemSegmentAccess` for source index 2 after it has written slot 0. -/
theorem tableInit_writes_before_raising :
    (sampleSegmentCreated.moduleInstances 0).elemSegments 0 =
      some [⟨.refFunc, 0⟩, ⟨.refFunc, 0⟩] ∧
    (0 : U32).toNat + (2 : U32).toNat ≤ (sampleSegmentCreated.heap 0).numElements.toNat ∧
    2 < (1 : U32).toNat + (2 : U32).toNat ∧
    (sampleSegmentCreated.tableInit sampleHost 0 1 2 0 0 0).2 =
      some (.outOfBoundsElemSegmentAccess 0 0 2) ∧
    ((sampleSegmentCreated.tableInit sampleHost 0 1 2 0 0 0).1.heap 0).slots 0 ≠
      (sampleSegmentCreated.heap 0).slots 0 := by
  decide

end Wavm.Runtime
