import Mathlib.Data.BitVec

/-!
# Host words, platform parameters and the biased table-element encoding

`Table.cpp` computes with the host's pointer-sized integer `Uptr` and with `U64`, `U32` and
`I32` values.  The model is that of a 64-bit host: all four are bit vectors, so that every
subtraction, addition and narrowing cast wraps exactly as the C++ code does.

The table code takes a few values from outside the file: the page size of the platform layer,
the limit `IR::maxTableElems`, and the addresses of the two process-wide dummy functions that
`getOutOfBoundsElement` and `getUninitializedElement` allocate once.  They are the fields of
`Host`, together with the facts the code relies on about them.

A table slot stores an object address biased by the out-of-bounds sentinel.  The encoding and
its inverse are the last part of this module; every statement about slots later on goes through
their round-trip lemmas.
-/

namespace Wavm.Runtime

/-- The host's pointer-sized unsigned integer, on a 64-bit host. -/
abbrev Uptr := BitVec 64

abbrev U64 := BitVec 64

abbrev U32 := BitVec 32

abbrev I32 := BitVec 32

/-- `UINTPTR_MAX`, also the id of a table that is in no compartment. -/
def uintptrMax : Uptr := BitVec.allOnes 64

/-- Modelled from the spec: `branchlessMin` (declared outside `src/`) computes the saturated
index `min(i, reserved_count − 1)` without a branch. -/
def branchlessMin (a b : U64) : U64 := if a < b then a else b

/-- Below `b`, `branchlessMin a (b - 1)` is `a`: saturating leaves every index inside the bound
as it is. -/
theorem branchlessMin_sub_one {a b : U64} (h : a < b) : branchlessMin a (b - 1) = a := by
  unfold branchlessMin
  split
  · rfl
  · bv_omega

/-- What the table code takes from the platform layer and from `IR`.  A real host fixes one
value of this structure for the whole process. -/
structure Host where
  /-- `Platform::getPageSizeLog2()`. -/
  pageSizeLog2 : Nat
  /-- `IR::maxTableElems`, declared in `IR.h`. -/
  maxTableElems : U64
  /-- The address of the function object `getOutOfBoundsElement` returns. -/
  outOfBoundsElement : Uptr
  /-- The address of the function object `getUninitializedElement` returns. -/
  uninitializedElement : Uptr
  /-- `Uptr(1) << getPageSizeLog2()` is a page size of the host. -/
  pageSizeLog2_lt : pageSizeLog2 < 64
  /-- The 2³²-element reservation that `createTableImpl` makes holds every table that
  `growTableImpl` admits: `IR.h` sets the limit to `UINT32_MAX`. -/
  maxTableElems_le : maxTableElems.toNat ≤ 2 ^ 32
  /-- Both sentinels come from `new Function(...)`: they are non-null and distinct. -/
  outOfBoundsElement_ne_zero : outOfBoundsElement ≠ 0
  uninitializedElement_ne_zero : uninitializedElement ≠ 0
  uninitializedElement_ne_outOfBoundsElement : uninitializedElement ≠ outOfBoundsElement

/-- A 64-bit host with 4 KiB pages and `IR::maxTableElems = UINT32_MAX`, its two sentinels at
two distinct addresses. -/
def sampleHost : Host where
  pageSizeLog2 := 12
  maxTableElems := 0xFFFFFFFF
  outOfBoundsElement := 0x1000
  uninitializedElement := 0x2000
  pageSizeLog2_lt := by decide
  maxTableElems_le := by decide
  outOfBoundsElement_ne_zero := by decide
  uninitializedElement_ne_zero := by decide
  uninitializedElement_ne_outOfBoundsElement := by decide

variable (host : Host)

/-! ## Platform pages -/

/-- `sizeof(Table::Element)`: one `std::atomic<Uptr>`. -/
def sizeofElement : Uptr := 8

/-- `getNumPlatformPages`: the number of pages that hold `numBytes` bytes, rounded up. -/
def getNumPlatformPages (numBytes : Uptr) : Uptr :=
  (numBytes + ((1 : Uptr) <<< host.pageSizeLog2) - 1) >>> host.pageSizeLog2

/-- The page of a table's reservation that holds `elements[index]`.  Reservations are page
aligned, so this is the byte offset of the slot divided by the page size. -/
def elementPage (index : Nat) : Nat := index * 8 / 2 ^ host.pageSizeLog2

theorem pageSize_pos : 0 < 2 ^ host.pageSizeLog2 := Nat.two_pow_pos _

theorem pageSize_toNat : ((1 : Uptr) <<< host.pageSizeLog2).toNat = 2 ^ host.pageSizeLog2 := by
  have hone : (1 : Uptr).toNat = 1 := rfl
  rw [BitVec.toNat_shiftLeft, hone, Nat.one_shiftLeft]
  exact Nat.mod_eq_of_lt (Nat.pow_lt_pow_right Nat.one_lt_two host.pageSizeLog2_lt)

/-- Without wraparound, `getNumPlatformPages` is the rounded-up quotient. -/
theorem getNumPlatformPages_toNat {numBytes : Uptr}
    (h : numBytes.toNat + 2 ^ host.pageSizeLog2 ≤ 2 ^ 64) :
    (getNumPlatformPages host numBytes).toNat =
      (numBytes.toNat + 2 ^ host.pageSizeLog2 - 1) / 2 ^ host.pageSizeLog2 := by
  have hpos := pageSize_pos host
  have hsum : (numBytes + ((1 : Uptr) <<< host.pageSizeLog2) - 1).toNat =
      numBytes.toNat + 2 ^ host.pageSizeLog2 - 1 := by
    rw [BitVec.toNat_sub, BitVec.toNat_add, pageSize_toNat]
    have hone : (1 : Uptr).toNat = 1 := rfl
    rw [hone]
    omega
  rw [getNumPlatformPages, BitVec.toNat_ushiftRight, Nat.shiftRight_eq_div_pow, hsum]

theorem toNat_mul_sizeofElement {n : Uptr} (hn : n.toNat ≤ 2 ^ 32) :
    (n * sizeofElement).toNat = n.toNat * 8 := by
  rw [BitVec.toNat_mul]
  exact Nat.mod_eq_of_lt (by change n.toNat * 8 < 2 ^ 64; omega)

/-- For a table of at most 2³² elements, the page count of its slots is the rounded-up
quotient. -/
theorem getNumPlatformPages_mul_toNat {n : Uptr} (hn : n.toNat ≤ 2 ^ 32) :
    (getNumPlatformPages host (n * sizeofElement)).toNat =
      (n.toNat * 8 + 2 ^ host.pageSizeLog2 - 1) / 2 ^ host.pageSizeLog2 := by
  have hroom : 2 ^ host.pageSizeLog2 ≤ 2 ^ 63 :=
    Nat.pow_le_pow_right Nat.two_pos (Nat.le_of_lt_succ host.pageSizeLog2_lt)
  rw [getNumPlatformPages_toNat host (by rw [toNat_mul_sizeofElement hn]; omega),
    toNat_mul_sizeofElement hn]

theorem getNumPlatformPages_mul_le {m n : Uptr} (hmn : m.toNat ≤ n.toNat) (hn : n.toNat ≤ 2 ^ 32) :
    (getNumPlatformPages host (m * sizeofElement)).toNat ≤
      (getNumPlatformPages host (n * sizeofElement)).toNat := by
  rw [getNumPlatformPages_mul_toNat host (hmn.trans hn), getNumPlatformPages_mul_toNat host hn]
  exact Nat.div_le_div_right (by omega)

/-- Elements need a page exactly when there is at least one. -/
theorem getNumPlatformPages_mul_eq_zero {n : Uptr} (hn : n.toNat ≤ 2 ^ 32) :
    getNumPlatformPages host (n * sizeofElement) = 0 ↔ n = 0 := by
  have hpos := pageSize_pos host
  rw [BitVec.toNat_eq, getNumPlatformPages_mul_toNat host hn, BitVec.toNat_eq,
    show (0 : Uptr).toNat = 0 from rfl, Nat.div_eq_zero_iff hpos]
  omega

/-- A table of `n ≤ 2³²` elements has every one of its slots on a page below
`getNumPlatformPages(n * sizeof(Table::Element))`. -/
theorem elementPage_lt {n : Uptr} {index : Nat} (hn : n.toNat ≤ 2 ^ 32) (hi : index < n.toNat) :
    elementPage host index < (getNumPlatformPages host (n * sizeofElement)).toNat := by
  have hpos := pageSize_pos host
  rw [getNumPlatformPages_mul_toNat host hn, elementPage, Nat.lt_iff_add_one_le,
    Nat.le_div_iff_mul_le hpos, Nat.add_mul, Nat.one_mul]
  have hdiv := Nat.div_mul_le_self (index * 8) (2 ^ host.pageSizeLog2)
  generalize index * 8 / 2 ^ host.pageSizeLog2 * 2 ^ host.pageSizeLog2 = q at hdiv ⊢
  omega

/-! ## Sentinels and the biased encoding -/

/-- `objectToBiasedTableElementValue`: the word a slot stores for an object. -/
def objectToBiasedTableElementValue (object : Uptr) : Uptr :=
  object - host.outOfBoundsElement

/-- `biasedTableElementValueToObject`: the object a stored word stands for. -/
def biasedTableElementValueToObject (biasedValue : Uptr) : Uptr :=
  biasedValue + host.outOfBoundsElement

@[simp]
theorem biasedTableElementValueToObject_objectToBiasedTableElementValue (object : Uptr) :
    biasedTableElementValueToObject host (objectToBiasedTableElementValue host object) = object :=
  BitVec.sub_add_cancel _ _

@[simp]
theorem objectToBiasedTableElementValue_biasedTableElementValueToObject (biasedValue : Uptr) :
    objectToBiasedTableElementValue host (biasedTableElementValueToObject host biasedValue) =
      biasedValue := by
  simp [objectToBiasedTableElementValue, biasedTableElementValueToObject]

/-- The zero word, and only it, decodes to the out-of-bounds sentinel. -/
@[simp]
theorem biasedTableElementValueToObject_eq_outOfBoundsElement (biasedValue : Uptr) :
    biasedTableElementValueToObject host biasedValue = host.outOfBoundsElement ↔
      biasedValue = 0 := by
  simp only [biasedTableElementValueToObject]
  bv_omega

/-- Only the out-of-bounds sentinel is encoded as the zero word. -/
@[simp]
theorem objectToBiasedTableElementValue_eq_zero (object : Uptr) :
    objectToBiasedTableElementValue host object = 0 ↔ object = host.outOfBoundsElement := by
  simp only [objectToBiasedTableElementValue]
  bv_omega

end Wavm.Runtime
