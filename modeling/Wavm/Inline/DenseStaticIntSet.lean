import Mathlib.Data.BitVec
import Mathlib.Data.Fintype.Basic
import Mathlib.Data.List.FinRange
import Mathlib.Order.Interval.Finset.Fin

/-!
# Dense sets of small integers

`DenseStaticIntSet<Index, maxIndexPlusOne>` keeps one bit for each index below
`maxIndexPlusOne` in an array of `numElements` words of 64 bits: index `i` is bit
`i % indicesPerElement` of word `i / indicesPerElement`.  When `maxIndexPlusOne` is not a
multiple of 64 the last word has padding bits that stand for no index.  `contains`, `add` and
`remove` read and write one bit; `isEmpty` and `operator==` read whole words, so they agree with
`contains` only while the padding bits are zero.

The constructors, `add`, `addRange`, `remove`, `|`, `&` and `^` keep the padding bits zero, and
`operator~` flips them: `~DenseStaticIntSet<U8, 1>(0)` contains no index, yet it is not
`isEmpty` and not equal to `DenseStaticIntSet<U8, 1>()`.

`getSmallestMember` and `getSmallestNonMember` find the lowest set or clear bit, and return
`maxIndexPlusOne` when there is none, all converted to `Index`.  When `Index` cannot hold
`maxIndexPlusOne`, as `U8` cannot hold 256, that "not found" value is 0, an index of the set.

Indices are modelled as naturals below `maxIndexPlusOne`, as the `wavmAssert`s of `contains`,
`add` and `addRange` require them to be.  `Index` is an unsigned type of `indexBits` bits.  Its
width matters in two places: the loop counter of `addRange`, whose `++index` wraps at
`2 ^ indexBits` (the loop is run on `fuel`), and the conversion of the results of
`getSmallestMember` and `getSmallestNonMember`.
-/

namespace Wavm

/-- `indicesPerElement`: the bits of one `Uptr` element. -/
def indicesPerElement : Nat := 64

/-- `numElements`: the elements that hold `maxIndexPlusOne` bits. -/
def numElements (maxIndexPlusOne : Nat) : Nat :=
  (maxIndexPlusOne + indicesPerElement - 1) / indicesPerElement

/-- `DenseStaticIntSet<Index, maxIndexPlusOne>`: its array of elements. -/
structure DenseStaticIntSet (maxIndexPlusOne : Nat) where
  elements : Fin (numElements maxIndexPlusOne) → BitVec 64

namespace DenseStaticIntSet

variable {maxIndexPlusOne : Nat}

theorem div_lt_numElements {position : Nat} (h : position < maxIndexPlusOne) :
    position / indicesPerElement < numElements maxIndexPlusOne := by
  unfold numElements indicesPerElement
  omega

/-- `index / indicesPerElement`, the element that holds an index. -/
def elementOf (index : Fin maxIndexPlusOne) : Fin (numElements maxIndexPlusOne) :=
  ⟨index / indicesPerElement, div_lt_numElements index.isLt⟩

/-- `Element(1) << (index % indicesPerElement)`. -/
def mask (index : Nat) : BitVec 64 := 1 <<< (index % indicesPerElement)

/-- `DenseStaticIntSet()`. -/
def empty : DenseStaticIntSet maxIndexPlusOne := ⟨fun _ => 0⟩

/-- `contains(index)`. -/
def contains (s : DenseStaticIntSet maxIndexPlusOne) (index : Fin maxIndexPlusOne) : Bool :=
  (s.elements (elementOf index) &&& mask index) != 0

/-- `isEmpty()`: the or of all the elements is zero. -/
def isEmpty (s : DenseStaticIntSet maxIndexPlusOne) : Bool :=
  (List.finRange (numElements maxIndexPlusOne)).foldl
    (fun combinedElements elementIndex => combinedElements ||| s.elements elementIndex) 0 == 0

/-- `countTrailingZeroes` of `Platform/Intrinsic.h`, which is not under `src/`: the number of zero
bits below the lowest set bit of a word, 64 for zero.  Both callers here pass nonzero words. -/
def countTrailingZeroes (value : BitVec 64) : Nat :=
  ((Fin.find fun bitIndex : Fin 64 => value.getLsbD bitIndex = true).map Fin.val).getD 64

/-- `getSmallestMember()` with an `Index` of `indexBits` bits: the lowest set bit of the first
element that has any bits set, or `maxIndexPlusOne` when there is none, converted to `Index`. -/
def getSmallestMember (indexBits : Nat) (s : DenseStaticIntSet maxIndexPlusOne) : Nat :=
  match Fin.find fun elementIndex => s.elements elementIndex ≠ 0 with
  | some elementIndex =>
    (elementIndex * indicesPerElement + countTrailingZeroes (s.elements elementIndex)) %
      2 ^ indexBits
  | none => maxIndexPlusOne % 2 ^ indexBits

/-- `getSmallestNonMember()` with an `Index` of `indexBits` bits: the lowest clear bit of the
first element that does not have all bits set, converted to `Index`; `maxIndexPlusOne`, converted,
when that is not below `maxIndexPlusOne` or there is no such element. -/
def getSmallestNonMember (indexBits : Nat) (s : DenseStaticIntSet maxIndexPlusOne) : Nat :=
  match Fin.find fun elementIndex => ~~~s.elements elementIndex ≠ 0 with
  | some elementIndex =>
    let result := (elementIndex * indicesPerElement +
      countTrailingZeroes (~~~s.elements elementIndex)) % 2 ^ indexBits
    if result ≥ maxIndexPlusOne then maxIndexPlusOne % 2 ^ indexBits else result
  | none => maxIndexPlusOne % 2 ^ indexBits

/-- `add(index)`. -/
def add (s : DenseStaticIntSet maxIndexPlusOne) (index : Fin maxIndexPlusOne) :
    DenseStaticIntSet maxIndexPlusOne :=
  ⟨Function.update s.elements (elementOf index) (s.elements (elementOf index) ||| mask index)⟩

/-- `DenseStaticIntSet(index)`. -/
def single (index : Fin maxIndexPlusOne) : DenseStaticIntSet maxIndexPlusOne := empty.add index

/-- The loop of `addRange` with an `Index` of `indexBits` bits: while `index <= rangeMax` it
`add`s `index` and steps `++index`, which wraps at `2 ^ indexBits`; `none` when `fuel` runs out
first. -/
def addRangeLoop (indexBits : Nat) (rangeMax : Fin maxIndexPlusOne) :
    Nat → Nat → DenseStaticIntSet maxIndexPlusOne → Option (DenseStaticIntSet maxIndexPlusOne)
  | 0, _, _ => none
  | fuel + 1, index, s =>
    if h : index ≤ rangeMax then
      addRangeLoop indexBits rangeMax fuel ((index + 1) % 2 ^ indexBits)
        (s.add ⟨index, lt_of_le_of_lt h rangeMax.isLt⟩)
    else some s

/-- `addRange(rangeMin, rangeMax)` with an `Index` of `indexBits` bits, given `fuel` iterations. -/
def addRange (indexBits : Nat) (s : DenseStaticIntSet maxIndexPlusOne)
    (rangeMin rangeMax : Fin maxIndexPlusOne) (fuel : Nat) :
    Option (DenseStaticIntSet maxIndexPlusOne) :=
  addRangeLoop indexBits rangeMax fuel rangeMin s

/-- `remove(index)`: the set without `index`, and whether it held it. -/
def remove (s : DenseStaticIntSet maxIndexPlusOne) (index : Fin maxIndexPlusOne) :
    DenseStaticIntSet maxIndexPlusOne × Bool :=
  let elementMask := mask index
  let hadIndex := (s.elements (elementOf index) &&& elementMask) != 0
  (⟨Function.update s.elements (elementOf index) (s.elements (elementOf index) &&& ~~~elementMask)⟩,
    hadIndex)

/-- `operator~`. -/
def complement (s : DenseStaticIntSet maxIndexPlusOne) : DenseStaticIntSet maxIndexPlusOne :=
  ⟨fun elementIndex => ~~~s.elements elementIndex⟩

/-- `operator|`. -/
def or (left right : DenseStaticIntSet maxIndexPlusOne) : DenseStaticIntSet maxIndexPlusOne :=
  ⟨fun elementIndex => left.elements elementIndex ||| right.elements elementIndex⟩

/-- `operator&`. -/
def and (left right : DenseStaticIntSet maxIndexPlusOne) : DenseStaticIntSet maxIndexPlusOne :=
  ⟨fun elementIndex => left.elements elementIndex &&& right.elements elementIndex⟩

/-- `operator^`. -/
def xor (left right : DenseStaticIntSet maxIndexPlusOne) : DenseStaticIntSet maxIndexPlusOne :=
  ⟨fun elementIndex => left.elements elementIndex ^^^ right.elements elementIndex⟩

/-- `operator==`: `memcmp` of the two arrays of elements. -/
def eq (left right : DenseStaticIntSet maxIndexPlusOne) : Bool :=
  decide (left.elements = right.elements)

instance : Complement (DenseStaticIntSet maxIndexPlusOne) := ⟨complement⟩
instance : OrOp (DenseStaticIntSet maxIndexPlusOne) := ⟨or⟩
instance : AndOp (DenseStaticIntSet maxIndexPlusOne) := ⟨and⟩
instance : Xor (DenseStaticIntSet maxIndexPlusOne) := ⟨xor⟩

/-! ## The bits of the elements -/

/-- Bit `position` of the elements: bit `position % indicesPerElement` of element
`position / indicesPerElement`, and `false` past the last element. -/
def bit (s : DenseStaticIntSet maxIndexPlusOne) (position : Nat) : Bool :=
  if h : position / indicesPerElement < numElements maxIndexPlusOne then
    (s.elements ⟨position / indicesPerElement, h⟩).getLsbD (position % indicesPerElement)
  else false

/-- No bit from `maxIndexPlusOne` up is set. -/
def PaddingZero (s : DenseStaticIntSet maxIndexPlusOne) : Prop :=
  ∀ position, maxIndexPlusOne ≤ position → s.bit position = false

theorem bit_elements (s : DenseStaticIntSet maxIndexPlusOne) (e : Fin (numElements maxIndexPlusOne))
    {j : Nat} (hj : j < 64) : s.bit (e * indicesPerElement + j) = (s.elements e).getLsbD j := by
  have hdiv : (e * indicesPerElement + j) / indicesPerElement = e := by
    unfold indicesPerElement; omega
  have hmod : (e * indicesPerElement + j) % indicesPerElement = j := by
    unfold indicesPerElement; omega
  unfold bit
  rw [dif_pos (by rw [hdiv]; exact e.isLt)]
  simp only [hdiv, hmod]

/-- Two sets are equal exactly when their bits are. -/
theorem ext_bit {s t : DenseStaticIntSet maxIndexPlusOne}
    (h : ∀ position, s.bit position = t.bit position) : s = t := by
  obtain ⟨f⟩ := s
  obtain ⟨g⟩ := t
  congr 1
  funext e
  apply BitVec.eq_of_getLsbD_eq
  intro j
  have := h (e * indicesPerElement + j)
  rwa [bit_elements _ e j.isLt, bit_elements _ e j.isLt] at this

/-- The bit of an index is bit `index % indicesPerElement` of its element. -/
theorem bit_elementOf (s : DenseStaticIntSet maxIndexPlusOne) {position : Nat}
    (index : Fin maxIndexPlusOne) (hdiv : position / indicesPerElement = index / indicesPerElement) :
    s.bit position = (s.elements (elementOf index)).getLsbD (position % indicesPerElement) := by
  unfold bit
  rw [dif_pos (hdiv ▸ (elementOf index).isLt)]
  simp only [elementOf, hdiv]

theorem mask_eq_twoPow (index : Nat) :
    mask index = BitVec.twoPow 64 (index % indicesPerElement) := rfl

theorem mask_getLsbD (index k : Nat) :
    (mask index).getLsbD k = decide (index % indicesPerElement = k) := by
  have hk : index % indicesPerElement < 64 := Nat.mod_lt _ (by decide)
  simp [mask_eq_twoPow, BitVec.getLsbD_twoPow, hk]

theorem and_mask_ne_zero (x : BitVec 64) (index : Nat) :
    ((x &&& mask index) != 0) = x.getLsbD (index % indicesPerElement) := by
  have hk : index % indicesPerElement < 64 := Nat.mod_lt _ (by decide)
  have hne : BitVec.twoPow 64 (index % indicesPerElement) ≠ 0 := fun h => by
    have := congrArg (·.getLsbD (index % indicesPerElement)) h
    simp [BitVec.getLsbD_twoPow, hk] at this
  rw [mask_eq_twoPow, BitVec.and_twoPow]
  cases x.getLsbD (index % indicesPerElement)
  · simp
  · simpa using hne

/-- `contains` reads the bit of the index. -/
theorem contains_eq_bit (s : DenseStaticIntSet maxIndexPlusOne) (index : Fin maxIndexPlusOne) :
    s.contains index = s.bit index := by
  rw [contains, and_mask_ne_zero, bit_elementOf s index rfl]

/-- Writing the element that holds `index` changes exactly the bits of that element. -/
theorem bit_update (s : DenseStaticIntSet maxIndexPlusOne) (index : Fin maxIndexPlusOne)
    (word : BitVec 64) (position : Nat) :
    (⟨Function.update s.elements (elementOf index) word⟩ : DenseStaticIntSet maxIndexPlusOne).bit
        position =
      if position / indicesPerElement = index / indicesPerElement then
        word.getLsbD (position % indicesPerElement)
      else s.bit position := by
  split
  · rename_i hdiv
    rw [bit_elementOf _ index hdiv]
    show (Function.update s.elements (elementOf index) word (elementOf index)).getLsbD _ = _
    rw [Function.update_same]
  · rename_i hdiv
    unfold bit
    split
    · dsimp only
      rw [Function.update_noteq (by intro h; exact hdiv (congrArg Fin.val h))]
    · rfl

/-! ## The operations on bits -/

@[simp] theorem bit_empty (position : Nat) :
    (empty : DenseStaticIntSet maxIndexPlusOne).bit position = false := by
  unfold bit; split <;> simp [empty]

@[simp] theorem bit_add (s : DenseStaticIntSet maxIndexPlusOne) (index : Fin maxIndexPlusOne)
    (position : Nat) : (s.add index).bit position = (s.bit position || decide (position = index)) := by
  rw [add, bit_update]
  split
  · rename_i hdiv
    rw [BitVec.getLsbD_or, mask_getLsbD, ← bit_elementOf s index hdiv]
    unfold indicesPerElement at hdiv ⊢
    exact congrArg _ (decide_eq_decide.mpr ⟨fun h => by omega, fun h => by omega⟩)
  · rename_i hdiv
    have hne : position ≠ index := fun h => hdiv (by rw [h])
    simp [hne]

@[simp] theorem bit_remove (s : DenseStaticIntSet maxIndexPlusOne) (index : Fin maxIndexPlusOne)
    (position : Nat) :
    (s.remove index).1.bit position = (s.bit position && !decide (position = index)) := by
  dsimp only [remove]
  rw [bit_update]
  split
  · rename_i hdiv
    have hk : position % indicesPerElement < 64 := Nat.mod_lt _ (by decide)
    rw [BitVec.getLsbD_and, BitVec.getLsbD_not, mask_getLsbD, ← bit_elementOf s index hdiv,
      decide_eq_true hk, Bool.true_and]
    unfold indicesPerElement at hdiv ⊢
    exact congrArg _ (congrArg _ (decide_eq_decide.mpr ⟨fun h => by omega, fun h => by omega⟩))
  · rename_i hdiv
    have hne : position ≠ index := fun h => hdiv (by rw [h])
    simp [hne]

@[simp] theorem bit_complement (s : DenseStaticIntSet maxIndexPlusOne) (position : Nat) :
    (~~~s).bit position =
      (decide (position / indicesPerElement < numElements maxIndexPlusOne) && !s.bit position) := by
  have hk : position % indicesPerElement < 64 := Nat.mod_lt _ (by decide)
  show (complement s).bit position = _
  unfold bit
  split <;> simp [complement, hk, *]

@[simp] theorem bit_or (left right : DenseStaticIntSet maxIndexPlusOne) (position : Nat) :
    (left ||| right).bit position = (left.bit position || right.bit position) := by
  show (or left right).bit position = _
  unfold bit
  split <;> simp [or]

@[simp] theorem bit_and (left right : DenseStaticIntSet maxIndexPlusOne) (position : Nat) :
    (left &&& right).bit position = (left.bit position && right.bit position) := by
  show (and left right).bit position = _
  unfold bit
  split <;> simp [and]

@[simp] theorem bit_xor (left right : DenseStaticIntSet maxIndexPlusOne) (position : Nat) :
    (left ^^^ right).bit position = (left.bit position ^^ right.bit position) := by
  show (xor left right).bit position = _
  unfold bit
  split <;> simp [xor]

/-! ## Whole-word queries -/

theorem or_eq_zero_iff {x y : BitVec 64} : x ||| y = 0 ↔ x = 0 ∧ y = 0 := by
  constructor
  · intro h
    have hbits : ∀ j, x.getLsbD j = false ∧ y.getLsbD j = false := fun j => by
      simpa using congrArg (·.getLsbD j) h
    exact ⟨BitVec.eq_of_getLsbD_eq fun j => by simp [(hbits j).1],
      BitVec.eq_of_getLsbD_eq fun j => by simp [(hbits j).2]⟩
  · rintro ⟨rfl, rfl⟩
    rfl

theorem foldl_or_eq_zero {α : Type} (f : α → BitVec 64) (l : List α) (acc : BitVec 64) :
    l.foldl (fun combined a => combined ||| f a) acc = 0 ↔ acc = 0 ∧ ∀ a ∈ l, f a = 0 := by
  induction l generalizing acc with
  | nil => simp
  | cons a l ih =>
    simp only [List.foldl_cons, ih, or_eq_zero_iff, List.mem_cons, forall_eq_or_imp, and_assoc]

/-- `isEmpty` holds exactly when no bit is set, padding bits included. -/
theorem isEmpty_iff (s : DenseStaticIntSet maxIndexPlusOne) :
    s.isEmpty = true ↔ ∀ position, s.bit position = false := by
  rw [isEmpty, beq_iff_eq, foldl_or_eq_zero]
  simp only [true_and, List.mem_finRange, forall_const]
  constructor
  · intro h position
    unfold bit
    split
    · simp [h]
    · rfl
  · intro h e
    apply BitVec.eq_of_getLsbD_eq
    intro j
    rw [← bit_elements s e j.isLt, h]
    simp

/-- `operator==` holds exactly when all bits agree, padding bits included. -/
theorem eq_iff (s t : DenseStaticIntSet maxIndexPlusOne) :
    s.eq t = true ↔ ∀ position, s.bit position = t.bit position := by
  rw [eq, decide_eq_true_iff]
  constructor
  · intro h position
    unfold bit
    rw [h]
  · intro h
    exact congrArg elements (ext_bit h)

/-! ## The padding bits -/

theorem paddingZero_empty : (empty : DenseStaticIntSet maxIndexPlusOne).PaddingZero :=
  fun position _ => bit_empty position

namespace PaddingZero

variable {s t : DenseStaticIntSet maxIndexPlusOne}

theorem add (hs : s.PaddingZero) (index : Fin maxIndexPlusOne) : (s.add index).PaddingZero :=
  fun position hposition => by
    have hne : position ≠ index := by have := index.isLt; omega
    simp [hs position hposition, hne]

/-- Every set the loop of `addRange` ends with, whatever the width of `Index`, has zero padding
bits: it only `add`s indices up to `rangeMax`. -/
theorem addRangeLoop {indexBits : Nat} {rangeMax : Fin maxIndexPlusOne} {fuel index : Nat}
    {s' : DenseStaticIntSet maxIndexPlusOne} (hs : s.PaddingZero)
    (hloop : s.addRangeLoop indexBits rangeMax fuel index = some s') : s'.PaddingZero := by
  induction fuel generalizing s index with
  | zero => cases hloop
  | succ fuel ih =>
    rw [DenseStaticIntSet.addRangeLoop] at hloop
    split at hloop
    · exact ih (hs.add _) hloop
    · exact Option.some_inj.mp hloop ▸ hs

theorem remove (hs : s.PaddingZero) (index : Fin maxIndexPlusOne) :
    (s.remove index).1.PaddingZero := fun position hposition => by
  simp [hs position hposition]

theorem or (hs : s.PaddingZero) (ht : t.PaddingZero) : (s ||| t).PaddingZero :=
  fun position hposition => by simp [hs position hposition, ht position hposition]

theorem and (hs : s.PaddingZero) (t : DenseStaticIntSet maxIndexPlusOne) :
    (s &&& t).PaddingZero :=
  fun position hposition => by simp [hs position hposition]

theorem xor (hs : s.PaddingZero) (ht : t.PaddingZero) : (s ^^^ t).PaddingZero :=
  fun position hposition => by simp [hs position hposition, ht position hposition]

/-- With zero padding bits, `isEmpty` means that no index is contained. -/
theorem isEmpty_iff (hs : s.PaddingZero) :
    s.isEmpty = true ↔ ∀ index, s.contains index = false := by
  rw [DenseStaticIntSet.isEmpty_iff]
  constructor
  · intro h index
    rw [contains_eq_bit, h]
  · intro h position
    by_cases hposition : position < maxIndexPlusOne
    · simpa [contains_eq_bit] using h ⟨position, hposition⟩
    · exact hs position (Nat.le_of_not_lt hposition)

/-- With zero padding bits, `operator==` means that the same indices are contained. -/
theorem eq_iff (hs : s.PaddingZero) (ht : t.PaddingZero) :
    s.eq t = true ↔ ∀ index, s.contains index = t.contains index := by
  rw [DenseStaticIntSet.eq_iff]
  constructor
  · intro h index
    rw [contains_eq_bit, contains_eq_bit, h]
  · intro h position
    by_cases hposition : position < maxIndexPlusOne
    · simpa [contains_eq_bit] using h ⟨position, hposition⟩
    · rw [hs position (Nat.le_of_not_lt hposition), ht position (Nat.le_of_not_lt hposition)]

end PaddingZero

/-- `operator~` flips the bit of every index, whatever the padding bits hold. -/
theorem contains_complement (s : DenseStaticIntSet maxIndexPlusOne) (index : Fin maxIndexPlusOne) :
    (~~~s).contains index = !s.contains index := by
  rw [contains_eq_bit, contains_eq_bit, bit_complement,
    decide_eq_true (div_lt_numElements index.isLt), Bool.true_and]

/-- When `maxIndexPlusOne` is not a multiple of 64, the complement of a set that holds every
index holds none, yet its first padding bit is set: it is neither `isEmpty` nor equal to the empty
set. -/
theorem complement_of_contains_all {s : DenseStaticIntSet maxIndexPlusOne} (hs : s.PaddingZero)
    (hall : ∀ index, s.contains index = true) (hmod : maxIndexPlusOne % indicesPerElement ≠ 0) :
    (~~~s).bit maxIndexPlusOne = true ∧ (∀ index, (~~~s).contains index = false) ∧
      (~~~s).isEmpty = false ∧ (~~~s).eq empty = false := by
  have hpadding : (~~~s).bit maxIndexPlusOne = true := by
    rw [bit_complement, hs _ le_rfl, Bool.not_false, Bool.and_true, decide_eq_true_iff]
    unfold indicesPerElement at hmod
    unfold numElements indicesPerElement
    omega
  refine ⟨hpadding, fun index => by rw [contains_complement, hall]; rfl,
    Bool.eq_false_iff.mpr fun hempty => ?_, Bool.eq_false_iff.mpr fun heq => ?_⟩
  · rw [(DenseStaticIntSet.isEmpty_iff _).mp hempty] at hpadding
    cases hpadding
  · rw [(DenseStaticIntSet.eq_iff _ _).mp heq, bit_empty] at hpadding
    cases hpadding

/-- When `maxIndexPlusOne` is a multiple of 64 there are no padding bits. -/
theorem paddingZero_of_mod_eq_zero (hmod : maxIndexPlusOne % indicesPerElement = 0)
    (s : DenseStaticIntSet maxIndexPlusOne) : s.PaddingZero := fun position hposition => by
  unfold bit
  rw [dif_neg]
  unfold indicesPerElement at hmod
  unfold numElements indicesPerElement
  omega

/-! ## The loop of `addRange` -/

@[simp] theorem contains_add (s : DenseStaticIntSet maxIndexPlusOne) (index i : Fin maxIndexPlusOne) :
    (s.add index).contains i = (s.contains i || decide (i = index)) := by
  simp only [contains_eq_bit, bit_add, Fin.val_inj]

section AddRange

variable {indexBits : Nat} {rangeMax : Fin maxIndexPlusOne}

/-- Below the top of `Index` the counter does not wrap: from `index ≤ rangeMax + 1` every result of
the loop holds the indices from `index` to `rangeMax` besides those of the set. -/
theorem addRangeLoop_contains (hmax : rangeMax.val + 1 < 2 ^ indexBits) {fuel index : Nat}
    {s s' : DenseStaticIntSet maxIndexPlusOne} (hindex : index ≤ rangeMax.val + 1)
    (hloop : s.addRangeLoop indexBits rangeMax fuel index = some s') (i : Fin maxIndexPlusOne) :
    s'.contains i = true ↔ s.contains i = true ∨ index ≤ i.val ∧ i.val ≤ rangeMax.val := by
  induction fuel generalizing index s with
  | zero => cases hloop
  | succ fuel ih =>
    rw [addRangeLoop] at hloop
    split at hloop
    · rw [Nat.mod_eq_of_lt (by omega)] at hloop
      rw [ih (by omega) hloop, contains_add, Bool.or_eq_true, decide_eq_true_iff, Fin.ext_iff,
        or_assoc]
      exact or_congr_right (show i.val = index ∨ _ ↔ _ by omega)
    · rw [← Option.some_inj.mp hloop]
      exact ⟨.inl, fun h => h.resolve_right (by omega)⟩

/-- Below the top of `Index`, `rangeMax + 2 - index` iterations are enough for the loop to stop. -/
theorem addRangeLoop_isSome (hmax : rangeMax.val + 1 < 2 ^ indexBits) {fuel index : Nat}
    (s : DenseStaticIntSet maxIndexPlusOne) (hindex : index ≤ rangeMax.val + 1)
    (hfuel : rangeMax.val + 1 - index < fuel) :
    (s.addRangeLoop indexBits rangeMax fuel index).isSome := by
  induction fuel generalizing index s with
  | zero => exact absurd hfuel (Nat.not_lt_zero _)
  | succ fuel ih =>
    rw [addRangeLoop]
    split
    · rw [Nat.mod_eq_of_lt (by omega)]
      exact ih _ (by omega) (by omega)
    · rfl

/-- When `rangeMax` is the largest value of `Index`, every `index` of `Index` is at most `rangeMax`
and `++index` after it wraps to 0: the loop never stops, whatever the fuel. -/
theorem addRangeLoop_top (hmax : rangeMax.val + 1 = 2 ^ indexBits) {fuel index : Nat}
    (s : DenseStaticIntSet maxIndexPlusOne) (hindex : index < 2 ^ indexBits) :
    s.addRangeLoop indexBits rangeMax fuel index = none := by
  induction fuel generalizing index s with
  | zero => rfl
  | succ fuel ih =>
    rw [addRangeLoop, dif_pos (show index ≤ rangeMax.val by omega)]
    exact ih _ (Nat.mod_lt _ (Nat.two_pow_pos _))

end AddRange

/-- `addRange(rangeMin, rangeMax)` stops exactly when `rangeMax` is not the largest value of
`Index`, and then the set holds the range besides the indices it held.  When `rangeMax` is the
largest value, `index <= rangeMax` holds for every `index` and the loop runs forever. -/
theorem addRange_terminates_iff (indexBits : Nat) (s : DenseStaticIntSet maxIndexPlusOne)
    {rangeMin rangeMax : Fin maxIndexPlusOne} (hrange : rangeMin ≤ rangeMax)
    (hindex : rangeMax.val < 2 ^ indexBits) :
    ((∃ fuel s', s.addRange indexBits rangeMin rangeMax fuel = some s') ↔
        rangeMax.val + 1 < 2 ^ indexBits) ∧
      ∀ fuel s', s.addRange indexBits rangeMin rangeMax fuel = some s' →
        ∀ i, s'.contains i = true ↔ s.contains i = true ∨ rangeMin ≤ i ∧ i ≤ rangeMax := by
  have hle : rangeMin.val ≤ rangeMax.val := hrange
  have hstops : (∃ fuel s', s.addRange indexBits rangeMin rangeMax fuel = some s') ↔
      rangeMax.val + 1 < 2 ^ indexBits := by
    constructor
    · rintro ⟨fuel, s', hloop⟩
      refine lt_of_le_of_ne hindex fun htop => ?_
      rw [addRange, addRangeLoop_top htop s (lt_of_le_of_lt hle hindex)] at hloop
      cases hloop
    · intro hmax
      obtain ⟨s', hloop⟩ :=
        Option.isSome_iff_exists.mp (addRangeLoop_isSome hmax s (Nat.le_succ_of_le hle)
          (Nat.lt_succ_self (rangeMax.val + 1 - rangeMin.val)))
      exact ⟨_, s', hloop⟩
  exact ⟨hstops, fun fuel s' hloop =>
    addRangeLoop_contains (hstops.mp ⟨fuel, s', hloop⟩) (Nat.le_succ_of_le hle) hloop⟩

/-- `DenseStaticIntSet<U8, 256>().addRange(0, 255)` never stops. -/
theorem addRange_terminates_iff_u8Top :
    (0 : Fin 256) ≤ 255 ∧ (255 : Fin 256).val < 2 ^ 8 ∧
      ¬∃ fuel s', (empty : DenseStaticIntSet 256).addRange 8 0 255 fuel = some s' :=
  ⟨by decide, by decide, fun h =>
    absurd ((addRange_terminates_iff 8 empty (by decide) (by decide)).1.mp h) (by decide)⟩

/-! ## The smallest member and non-member -/

/-- The lowest set bit of a nonzero word is below 64, and `countTrailingZeroes` finds it. -/
theorem countTrailingZeroes_spec {value : BitVec 64} (hvalue : value ≠ 0) :
    countTrailingZeroes value < 64 ∧ value.getLsbD (countTrailingZeroes value) = true ∧
      ∀ k < countTrailingZeroes value, value.getLsbD k = false := by
  have hsome : (Fin.find fun bitIndex : Fin 64 => value.getLsbD bitIndex = true).isSome := by
    rw [Fin.isSome_find_iff]
    by_contra hnone
    push_neg at hnone
    exact hvalue (BitVec.eq_of_getLsbD_eq fun i => by simpa using hnone i)
  obtain ⟨bitIndex, hfind⟩ := Option.isSome_iff_exists.mp hsome
  obtain ⟨hset, hmin⟩ := Fin.find_eq_some_iff.mp hfind
  rw [countTrailingZeroes, hfind, Option.map_some', Option.getD_some]
  refine ⟨bitIndex.isLt, hset, fun k hk => ?_⟩
  by_contra hk'
  exact absurd (hmin ⟨k, by omega⟩ (by simpa using hk')) (not_le.mpr hk)

/-- Bit `position` is the lowest set bit of the set. -/
def LowestBit (s : DenseStaticIntSet maxIndexPlusOne) (position : Nat) : Prop :=
  s.bit position = true ∧ ∀ q < position, s.bit q = false

theorem LowestBit.eq {s : DenseStaticIntSet maxIndexPlusOne} {p q : Nat} (hp : s.LowestBit p)
    (hq : s.LowestBit q) : p = q := by
  rcases Nat.lt_trichotomy p q with h | h | h
  · exact absurd (hq.2 p h) (by rw [hp.1]; decide)
  · exact h
  · exact absurd (hp.2 q h) (by rw [hq.1]; decide)

/-- The lowest set bit of the first element with a bit set is the lowest set bit of the set. -/
theorem lowestBit_of_find {s : DenseStaticIntSet maxIndexPlusOne}
    {elementIndex : Fin (numElements maxIndexPlusOne)}
    (hfind : (Fin.find fun e => s.elements e ≠ 0) = some elementIndex) :
    s.LowestBit (elementIndex * indicesPerElement + countTrailingZeroes (s.elements elementIndex)) := by
  obtain ⟨hne, hmin⟩ := Fin.find_eq_some_iff.mp hfind
  obtain ⟨hlt, hset, hbelow⟩ := countTrailingZeroes_spec hne
  refine ⟨by rw [bit_elements s _ hlt]; exact hset, fun q hq => ?_⟩
  unfold indicesPerElement at hq
  have helement : q / 64 < numElements maxIndexPlusOne := by have := elementIndex.isLt; omega
  have hq' : q = (⟨q / 64, helement⟩ : Fin _) * indicesPerElement + q % 64 := by
    unfold indicesPerElement; dsimp only; omega
  rw [hq', bit_elements s _ (Nat.mod_lt _ (by decide))]
  by_cases hbefore : q / 64 < elementIndex
  · -- an earlier element, which is zero
    have hzero : s.elements ⟨q / 64, helement⟩ = 0 := by
      by_contra h
      exact absurd (hmin _ h) (not_le.mpr hbefore)
    rw [hzero]
    exact BitVec.getLsbD_zero
  · -- the same element, below its lowest set bit
    have hsame : (⟨q / 64, helement⟩ : Fin _) = elementIndex :=
      Fin.ext (show q / 64 = elementIndex.val by omega)
    rw [hsame]
    exact hbelow _ (by omega)

/-- When every element is zero, no bit is set. -/
theorem bit_of_find_eq_none {s : DenseStaticIntSet maxIndexPlusOne}
    (hfind : (Fin.find fun e => s.elements e ≠ 0) = none) (position : Nat) :
    s.bit position = false := by
  have hzero := Fin.find_eq_none_iff.mp hfind
  unfold bit
  split
  · rw [not_not.mp (hzero _)]
    exact BitVec.getLsbD_zero
  · rfl

/-- The least index in a set is its lowest set bit. -/
theorem lowestBit_of_least {s : DenseStaticIntSet maxIndexPlusOne} {i : Fin maxIndexPlusOne}
    (hi : s.contains i = true) (hleast : ∀ j < i, s.contains j = false) : s.LowestBit i :=
  ⟨contains_eq_bit s i ▸ hi, fun q hq => by
    have := hleast ⟨q, lt_trans hq i.isLt⟩ hq
    rwa [contains_eq_bit] at this⟩

/-- The least index not in a set is the lowest set bit of its complement. -/
theorem lowestBit_complement_of_least {s : DenseStaticIntSet maxIndexPlusOne}
    {i : Fin maxIndexPlusOne} (hi : s.contains i = false) (hleast : ∀ j < i, s.contains j = true) :
    (~~~s).LowestBit i := by
  refine ⟨?_, fun q hq => ?_⟩
  · rw [← contains_eq_bit, contains_complement, hi]
    rfl
  · have := hleast ⟨q, lt_trans hq i.isLt⟩ hq
    rw [← contains_eq_bit (~~~s) ⟨q, lt_trans hq i.isLt⟩, contains_complement, this]
    rfl

/-- `getSmallestMember` returns the least index in the set, converted to `Index`. -/
theorem getSmallestMember_of_least (indexBits : Nat) {s : DenseStaticIntSet maxIndexPlusOne}
    {i : Fin maxIndexPlusOne} (hi : s.contains i = true) (hleast : ∀ j < i, s.contains j = false) :
    s.getSmallestMember indexBits = i.val % 2 ^ indexBits := by
  have hlowest := lowestBit_of_least hi hleast
  unfold getSmallestMember
  split
  · rename_i elementIndex hfind
    rw [(lowestBit_of_find hfind).eq hlowest]
  · rename_i hfind
    exact absurd hlowest.1 (by rw [bit_of_find_eq_none hfind]; decide)

example : (single (70 : Fin 200)).getSmallestMember 8 = 70 := by decide

/-- With zero padding bits, `getSmallestMember` of a set with no index returns
`maxIndexPlusOne`, converted to `Index`. -/
theorem getSmallestMember_of_empty (indexBits : Nat) {s : DenseStaticIntSet maxIndexPlusOne}
    (hs : s.PaddingZero) (hempty : ∀ i, s.contains i = false) :
    s.getSmallestMember indexBits = maxIndexPlusOne % 2 ^ indexBits := by
  unfold getSmallestMember
  split
  · rename_i elementIndex hfind
    have hlowest := lowestBit_of_find hfind
    generalize elementIndex * indicesPerElement + countTrailingZeroes (s.elements elementIndex) =
      position at hlowest
    have hbit : s.bit position = false := by
      by_cases hposition : position < maxIndexPlusOne
      · rw [← contains_eq_bit s ⟨position, hposition⟩, hempty]
      · exact hs position (not_lt.mp hposition)
    exact absurd hlowest.1 (by rw [hbit]; decide)
  · rfl

/-- `getSmallestNonMember` returns the least index not in the set, converted to `Index`. -/
theorem getSmallestNonMember_of_least (indexBits : Nat) {s : DenseStaticIntSet maxIndexPlusOne}
    {i : Fin maxIndexPlusOne} (hi : s.contains i = false) (hleast : ∀ j < i, s.contains j = true) :
    s.getSmallestNonMember indexBits = i.val % 2 ^ indexBits := by
  have hlowest := lowestBit_complement_of_least hi hleast
  unfold getSmallestNonMember
  split
  · rename_i elementIndex hfind
    have hposition : elementIndex * indicesPerElement +
        countTrailingZeroes (~~~s.elements elementIndex) = i :=
      (lowestBit_of_find (s := ~~~s) hfind).eq hlowest
    dsimp only
    rw [hposition]
    exact if_neg (not_le.mpr (lt_of_le_of_lt (Nat.mod_le _ _) i.isLt))
  · rename_i hfind
    exact absurd hlowest.1 (by rw [bit_of_find_eq_none (s := ~~~s) hfind]; decide)

/-- With zero padding bits, `getSmallestNonMember` of a set with every index returns
`maxIndexPlusOne`, converted to `Index`: the lowest clear bit, if any, is the padding bit
`maxIndexPlusOne`. -/
theorem getSmallestNonMember_of_full (indexBits : Nat) {s : DenseStaticIntSet maxIndexPlusOne}
    (hs : s.PaddingZero) (hfull : ∀ i, s.contains i = true) :
    s.getSmallestNonMember indexBits = maxIndexPlusOne % 2 ^ indexBits := by
  unfold getSmallestNonMember
  split
  · rename_i elementIndex hfind
    have hlowest : (~~~s).LowestBit (elementIndex * indicesPerElement +
        countTrailingZeroes (~~~s.elements elementIndex)) := lowestBit_of_find (s := ~~~s) hfind
    generalize elementIndex * indicesPerElement + countTrailingZeroes (~~~s.elements elementIndex) =
      position at hlowest ⊢
    have hset := hlowest.1
    rw [bit_complement, Bool.and_eq_true, decide_eq_true_iff, Bool.not_eq_true'] at hset
    -- the lowest clear bit is not an index, and no padding bit below it is clear
    have hle : maxIndexPlusOne ≤ position := not_lt.mp fun h => by
      simpa [contains_eq_bit, hset.2] using hfull ⟨position, h⟩
    have hposition : position = maxIndexPlusOne := by
      by_contra hne
      have := hlowest.2 maxIndexPlusOne (lt_of_le_of_ne hle (Ne.symm hne))
      rw [bit_complement, hs _ le_rfl, Bool.not_false, Bool.and_true, decide_eq_false_iff_not] at this
      exact this (lt_of_le_of_lt (Nat.div_le_div_right hle) hset.1)
    rw [hposition]
    exact ite_self _
  · rfl

/-- With zero padding bits, `getSmallestMember` returns the least index in the set and
`maxIndexPlusOne` for a set with no index, and `getSmallestNonMember` returns the least index not
in the set and `maxIndexPlusOne` for a set with every index, each converted to `Index`: modulo
`2 ^ indexBits`.  When `Index` cannot hold `maxIndexPlusOne`, as `U8` cannot hold 256, the "not
found" value becomes an index below `maxIndexPlusOne`. -/
theorem getSmallest_mod_indexBits (indexBits : Nat) {s : DenseStaticIntSet maxIndexPlusOne}
    (hs : s.PaddingZero) :
    (∀ i, s.contains i = true → (∀ j < i, s.contains j = false) →
      s.getSmallestMember indexBits = i.val % 2 ^ indexBits) ∧
    ((∀ i, s.contains i = false) →
      s.getSmallestMember indexBits = maxIndexPlusOne % 2 ^ indexBits) ∧
    (∀ i, s.contains i = false → (∀ j < i, s.contains j = true) →
      s.getSmallestNonMember indexBits = i.val % 2 ^ indexBits) ∧
    ((∀ i, s.contains i = true) →
      s.getSmallestNonMember indexBits = maxIndexPlusOne % 2 ^ indexBits) :=
  ⟨fun _ hi hleast => getSmallestMember_of_least indexBits hi hleast,
    getSmallestMember_of_empty indexBits hs,
    fun _ hi hleast => getSmallestNonMember_of_least indexBits hi hleast,
    getSmallestNonMember_of_full indexBits hs⟩

/-- `DenseStaticIntSet<U8, 256>`: the smallest member of the empty set and the smallest
non-member of the full set are both `(U8)256 = 0`, an index of the set. -/
theorem getSmallest_mod_indexBits_u8 :
    (empty : DenseStaticIntSet 256).PaddingZero ∧ (~~~empty : DenseStaticIntSet 256).PaddingZero ∧
      (empty : DenseStaticIntSet 256).getSmallestMember 8 = 0 ∧
      (~~~empty : DenseStaticIntSet 256).getSmallestNonMember 8 = 0 :=
  have hfull : (~~~empty : DenseStaticIntSet 256).PaddingZero :=
    paddingZero_of_mod_eq_zero (by decide) _
  ⟨paddingZero_empty, hfull,
    (getSmallest_mod_indexBits 8 paddingZero_empty).2.1 fun i => by
      rw [contains_eq_bit, bit_empty],
    (getSmallest_mod_indexBits 8 hfull).2.2.2 fun i => by
      rw [contains_complement, contains_eq_bit, bit_empty]
      rfl⟩

/-! ## The indices a set stands for -/

/-- The indices a set contains. -/
def toFinset (s : DenseStaticIntSet maxIndexPlusOne) : Finset (Fin maxIndexPlusOne) :=
  Finset.univ.filter fun index => s.contains index

@[simp] theorem mem_toFinset {s : DenseStaticIntSet maxIndexPlusOne} {index : Fin maxIndexPlusOne} :
    index ∈ s.toFinset ↔ s.contains index = true := by
  simp [toFinset]

section ToFinset

variable (s t : DenseStaticIntSet maxIndexPlusOne) (index : Fin maxIndexPlusOne)

theorem toFinset_empty : (empty : DenseStaticIntSet maxIndexPlusOne).toFinset = ∅ :=
  Finset.ext fun i => by simp [contains_eq_bit]

theorem toFinset_add : (s.add index).toFinset = insert index s.toFinset :=
  Finset.ext fun i => by simp [or_comm]

theorem toFinset_remove : (s.remove index).1.toFinset = s.toFinset.erase index :=
  Finset.ext fun i => by simp [contains_eq_bit, Fin.val_inj, and_comm]

theorem toFinset_complement : (~~~s).toFinset = s.toFinsetᶜ :=
  Finset.ext fun i => by simp [contains_complement]

theorem toFinset_or : (s ||| t).toFinset = s.toFinset ∪ t.toFinset :=
  Finset.ext fun i => by simp [contains_eq_bit]

theorem toFinset_and : (s &&& t).toFinset = s.toFinset ∩ t.toFinset :=
  Finset.ext fun i => by simp [contains_eq_bit]

theorem toFinset_xor : (s ^^^ t).toFinset = symmDiff s.toFinset t.toFinset :=
  Finset.ext fun i => by
    simp only [mem_toFinset, contains_eq_bit, bit_xor, Finset.mem_symmDiff]
    cases s.bit i <;> cases t.bit i <;> simp

end ToFinset

section AddRangeLoop

variable {indexBits : Nat} {rangeMax : Fin maxIndexPlusOne}

/-- From the top of `Index` up, every `index` of `Index` is at most `rangeMax`: the loop never
stops. -/
theorem addRangeLoop_eq_none (hmax : 2 ^ indexBits ≤ rangeMax.val + 1) {fuel index : Nat}
    (s : DenseStaticIntSet maxIndexPlusOne) (hindex : index ≤ rangeMax.val) :
    s.addRangeLoop indexBits rangeMax fuel index = none := by
  induction fuel generalizing index s with
  | zero => rfl
  | succ fuel ih =>
    rw [addRangeLoop, dif_pos hindex]
    exact ih _ (by have := Nat.mod_lt (index + 1) (Nat.two_pow_pos indexBits); omega)

/-- Whatever the width of `Index`, every set the loop of `addRange` ends with holds the indices
of the set and those from `index` to `rangeMax`: once `++index` could wrap, it never ends. -/
theorem addRangeLoop_toFinset {fuel index : Nat} {s s' : DenseStaticIntSet maxIndexPlusOne}
    (hloop : s.addRangeLoop indexBits rangeMax fuel index = some s') :
    s'.toFinset = s.toFinset ∪ Finset.univ.filter fun i => index ≤ i.val ∧ i.val ≤ rangeMax.val := by
  by_cases hindex : index ≤ rangeMax.val
  · by_cases hmax : rangeMax.val + 1 < 2 ^ indexBits
    · exact Finset.ext fun i => by simp [addRangeLoop_contains hmax (by omega) hloop i]
    · rw [addRangeLoop_eq_none (by omega) s hindex] at hloop
      cases hloop
  · cases fuel with
    | zero => cases hloop
    | succ fuel =>
      rw [addRangeLoop, dif_neg hindex, Option.some_inj] at hloop
      subst hloop
      rw [Finset.filter_false_of_mem fun i _ h => hindex (h.1.trans h.2), Finset.union_empty]

end AddRangeLoop

/-! ## Sets built by expressions -/

/-- An expression that builds a set from the constructors and the operations. -/
inductive SetExpr (maxIndexPlusOne : Nat)
  | empty
  | single (index : Fin maxIndexPlusOne)
  | add (s : SetExpr maxIndexPlusOne) (index : Fin maxIndexPlusOne)
  | addRange (s : SetExpr maxIndexPlusOne) (rangeMin rangeMax : Fin maxIndexPlusOne)
  | remove (s : SetExpr maxIndexPlusOne) (index : Fin maxIndexPlusOne)
  | complement (s : SetExpr maxIndexPlusOne)
  | or (left right : SetExpr maxIndexPlusOne)
  | and (left right : SetExpr maxIndexPlusOne)
  | xor (left right : SetExpr maxIndexPlusOne)

namespace SetExpr

/-- The set an expression builds, with an `Index` of `indexBits` bits and `fuel` iterations for
each `addRange`: `none` when one of them runs out. -/
def eval (indexBits fuel : Nat) :
    SetExpr maxIndexPlusOne → Option (DenseStaticIntSet maxIndexPlusOne)
  | .empty => some DenseStaticIntSet.empty
  | .single index => some (DenseStaticIntSet.single index)
  | .add s index => (s.eval indexBits fuel).map fun s => s.add index
  | .addRange s rangeMin rangeMax =>
    (s.eval indexBits fuel).bind fun s => s.addRange indexBits rangeMin rangeMax fuel
  | .remove s index => (s.eval indexBits fuel).map fun s => (s.remove index).1
  | .complement s => (s.eval indexBits fuel).map fun s => ~~~s
  | .or left right =>
    (left.eval indexBits fuel).bind fun s => (right.eval indexBits fuel).map fun t => s ||| t
  | .and left right =>
    (left.eval indexBits fuel).bind fun s => (right.eval indexBits fuel).map fun t => s &&& t
  | .xor left right =>
    (left.eval indexBits fuel).bind fun s => (right.eval indexBits fuel).map fun t => s ^^^ t

/-- Whether an expression avoids `operator~`. -/
def complementFree : SetExpr maxIndexPlusOne → Bool
  | .empty | .single _ => true
  | .add s _ | .addRange s _ _ | .remove s _ => s.complementFree
  | .complement _ => false
  | .or left right | .and left right | .xor left right =>
    left.complementFree && right.complementFree

/-- Every set built without `operator~`, for any width of `Index`, has zero padding bits. -/
theorem paddingZero_eval {indexBits fuel : Nat} {s : DenseStaticIntSet maxIndexPlusOne}
    (e : SetExpr maxIndexPlusOne) (h : e.complementFree = true)
    (heval : e.eval indexBits fuel = some s) : s.PaddingZero := by
  induction e generalizing s with
  | empty => exact Option.some_inj.mp heval ▸ paddingZero_empty
  | single index => exact Option.some_inj.mp heval ▸ paddingZero_empty.add index
  | add e index ih =>
    obtain ⟨t, ht, rfl⟩ := Option.map_eq_some'.mp heval
    exact (ih h ht).add index
  | addRange e rangeMin rangeMax ih =>
    obtain ⟨t, ht, hloop⟩ := Option.bind_eq_some.mp heval
    exact (ih h ht).addRangeLoop hloop
  | remove e index ih =>
    obtain ⟨t, ht, rfl⟩ := Option.map_eq_some'.mp heval
    exact (ih h ht).remove index
  | complement => cases h
  | or left right ihl ihr =>
    rw [complementFree, Bool.and_eq_true] at h
    obtain ⟨l, hl, hmap⟩ := Option.bind_eq_some.mp heval
    obtain ⟨r, hr, rfl⟩ := Option.map_eq_some'.mp hmap
    exact (ihl h.1 hl).or (ihr h.2 hr)
  | and left right ihl ihr =>
    rw [complementFree, Bool.and_eq_true] at h
    obtain ⟨l, hl, hmap⟩ := Option.bind_eq_some.mp heval
    obtain ⟨r, -, rfl⟩ := Option.map_eq_some'.mp hmap
    exact (ihl h.1 hl).and r
  | xor left right ihl ihr =>
    rw [complementFree, Bool.and_eq_true] at h
    obtain ⟨l, hl, hmap⟩ := Option.bind_eq_some.mp heval
    obtain ⟨r, hr, rfl⟩ := Option.map_eq_some'.mp hmap
    exact (ihl h.1 hl).xor (ihr h.2 hr)


/-- What an expression means: the set of indices the specification of each operation builds. -/
def denote : SetExpr maxIndexPlusOne → Finset (Fin maxIndexPlusOne)
  | .empty => ∅
  | .single index => {index}
  | .add s index => insert index s.denote
  | .addRange s rangeMin rangeMax => s.denote ∪ Finset.Icc rangeMin rangeMax
  | .remove s index => s.denote.erase index
  | .complement s => s.denoteᶜ
  | .or left right => left.denote ∪ right.denote
  | .and left right => left.denote ∩ right.denote
  | .xor left right => symmDiff left.denote right.denote

/-- Whether every `addRange` of an expression stops below the largest value of an `Index` of
`indexBits` bits. -/
def rangesFit (indexBits : Nat) : SetExpr maxIndexPlusOne → Bool
  | .empty | .single _ => true
  | .add s _ | .remove s _ | .complement s => s.rangesFit indexBits
  | .addRange s _ rangeMax => s.rangesFit indexBits && decide (rangeMax.val + 1 < 2 ^ indexBits)
  | .or left right | .and left right | .xor left right =>
    left.rangesFit indexBits && right.rangesFit indexBits

theorem eval_toFinset {indexBits fuel : Nat} {s : DenseStaticIntSet maxIndexPlusOne}
    (e : SetExpr maxIndexPlusOne) (heval : e.eval indexBits fuel = some s) :
    s.toFinset = e.denote := by
  induction e generalizing s with
  | empty => rw [← Option.some_inj.mp heval, toFinset_empty]; rfl
  | single index =>
    rw [← Option.some_inj.mp heval, DenseStaticIntSet.single, toFinset_add, toFinset_empty]; rfl
  | add e index ih =>
    obtain ⟨t, ht, rfl⟩ := Option.map_eq_some'.mp heval
    rw [toFinset_add, ih ht]; rfl
  | addRange e rangeMin rangeMax ih =>
    obtain ⟨t, ht, hloop⟩ := Option.bind_eq_some.mp heval
    rw [addRangeLoop_toFinset hloop, ih ht, denote]
    congr 1
    exact Finset.ext fun i => by
      simp only [Finset.mem_filter, Finset.mem_univ, true_and, Finset.mem_Icc]
      rfl
  | remove e index ih =>
    obtain ⟨t, ht, rfl⟩ := Option.map_eq_some'.mp heval
    rw [toFinset_remove, ih ht]; rfl
  | complement e ih =>
    obtain ⟨t, ht, rfl⟩ := Option.map_eq_some'.mp heval
    rw [toFinset_complement, ih ht]; rfl
  | or left right ihl ihr =>
    obtain ⟨l, hl, hmap⟩ := Option.bind_eq_some.mp heval
    obtain ⟨r, hr, rfl⟩ := Option.map_eq_some'.mp hmap
    rw [toFinset_or, ihl hl, ihr hr]; rfl
  | and left right ihl ihr =>
    obtain ⟨l, hl, hmap⟩ := Option.bind_eq_some.mp heval
    obtain ⟨r, hr, rfl⟩ := Option.map_eq_some'.mp hmap
    rw [toFinset_and, ihl hl, ihr hr]; rfl
  | xor left right ihl ihr =>
    obtain ⟨l, hl, hmap⟩ := Option.bind_eq_some.mp heval
    obtain ⟨r, hr, rfl⟩ := Option.map_eq_some'.mp hmap
    rw [toFinset_xor, ihl hl, ihr hr]; rfl

/-- When every `addRange` stops below the top of `Index`, more iterations than there are indices
build the set. -/
theorem eval_isSome {indexBits fuel : Nat} (e : SetExpr maxIndexPlusOne)
    (hfit : e.rangesFit indexBits = true) (hfuel : maxIndexPlusOne < fuel) :
    (e.eval indexBits fuel).isSome := by
  induction e with
  | empty | single => rfl
  | add e _ ih | remove e _ ih | complement e ih =>
    obtain ⟨t, ht⟩ := Option.isSome_iff_exists.mp (ih hfit)
    simp [eval, ht]
  | addRange e rangeMin rangeMax ih =>
    rw [rangesFit, Bool.and_eq_true, decide_eq_true_iff] at hfit
    obtain ⟨t, ht⟩ := Option.isSome_iff_exists.mp (ih hfit.1)
    rw [eval, ht, Option.some_bind, DenseStaticIntSet.addRange]
    by_cases hrange : rangeMin.val ≤ rangeMax.val + 1
    · exact addRangeLoop_isSome hfit.2 t hrange (by omega)
    · obtain ⟨fuel, rfl⟩ : ∃ k, fuel = k + 1 := ⟨fuel - 1, by omega⟩
      rw [addRangeLoop, dif_neg (by omega)]
      rfl
  | or left right ihl ihr | and left right ihl ihr | xor left right ihl ihr =>
    rw [rangesFit, Bool.and_eq_true] at hfit
    obtain ⟨l, hl⟩ := Option.isSome_iff_exists.mp (ihl hfit.1)
    obtain ⟨r, hr⟩ := Option.isSome_iff_exists.mp (ihr hfit.2)
    simp [eval, hl, hr]

/-- The operations refine their specifications on sets of indices.  Every set an expression
builds, whatever the width of `Index` and the fuel, contains exactly the indices of the
expression's meaning, `operator~` included; and when no `addRange` reaches the top of `Index`,
more iterations than there are indices build it. -/
theorem eval_refines (e : SetExpr maxIndexPlusOne) (indexBits fuel : Nat) :
    (∀ s, e.eval indexBits fuel = some s → s.toFinset = e.denote) ∧
      (e.rangesFit indexBits = true → maxIndexPlusOne < fuel →
        ∃ s, e.eval indexBits fuel = some s) :=
  ⟨fun _ heval => eval_toFinset e heval, fun hfit hfuel =>
    Option.isSome_iff_exists.mp (eval_isSome e hfit hfuel)⟩

/-- Without `operator~`, `isEmpty` and `operator==`, which read whole elements, padding bits
included, decide exactly whether the set an expression means is empty and whether two
expressions mean the same set. -/
theorem eval_isEmpty_eq_denote {indexBits fuel : Nat} {e e' : SetExpr maxIndexPlusOne}
    {s s' : DenseStaticIntSet maxIndexPlusOne} (hfree : e.complementFree = true)
    (hfree' : e'.complementFree = true) (heval : e.eval indexBits fuel = some s)
    (heval' : e'.eval indexBits fuel = some s') :
    (s.isEmpty = true ↔ e.denote = ∅) ∧ (s.eq s' = true ↔ e.denote = e'.denote) := by
  have hs := paddingZero_eval e hfree heval
  have hs' := paddingZero_eval e' hfree' heval'
  rw [← eval_toFinset e heval, ← eval_toFinset e' heval', hs.isEmpty_iff, hs.eq_iff hs',
    Finset.eq_empty_iff_forall_not_mem, Finset.ext_iff]
  refine ⟨forall_congr' fun index => ?_, forall_congr' fun index => ?_⟩
  · simp
  · rw [mem_toFinset, mem_toFinset]
    exact Bool.eq_iff_iff

theorem eval_isEmpty_eq_denote_sample :
    (SetExpr.single (3 : Fin 8)).complementFree = true ∧
      (SetExpr.add .empty (3 : Fin 8)).complementFree = true ∧
      (SetExpr.single (3 : Fin 8)).eval 8 0 = some (DenseStaticIntSet.single 3) ∧
      (SetExpr.add .empty (3 : Fin 8)).eval 8 0 = some (DenseStaticIntSet.empty.add 3) ∧
      ((DenseStaticIntSet.single (3 : Fin 8)).isEmpty = true ↔
        (SetExpr.single (3 : Fin 8)).denote = ∅) ∧
      ((DenseStaticIntSet.single (3 : Fin 8)).eq (DenseStaticIntSet.empty.add 3) = true ↔
        (SetExpr.single (3 : Fin 8)).denote = (SetExpr.add .empty (3 : Fin 8)).denote) :=
  ⟨rfl, rfl, rfl, rfl, @eval_isEmpty_eq_denote 8 8 0 (.single 3) (.add .empty 3) _ _ rfl rfl rfl rfl⟩

end SetExpr

/-- `~DenseStaticIntSet<U8, 1>(0)`. -/
def complementOfZero : DenseStaticIntSet 1 := ~~~single 0

example : (SetExpr.complement (.single 0)).eval 8 0 = some complementOfZero := rfl

/-- `~DenseStaticIntSet<U8, 1>(0)` has its padding bit 1 set: it contains no index, yet it is not
`isEmpty` and not equal to `DenseStaticIntSet<U8, 1>()`. -/
theorem complementOfZero_padding_bit :
    complementOfZero.bit 1 = true ∧ (∀ index, complementOfZero.contains index = false) ∧
      complementOfZero.isEmpty = false ∧ complementOfZero.eq empty = false :=
  complement_of_contains_all (paddingZero_empty.add 0) (by decide) (by decide)

end DenseStaticIntSet

end Wavm
