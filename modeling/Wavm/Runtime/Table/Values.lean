import Wavm.Runtime.Table.Concurrent

/-!
# Where the words in the slots come from

A slot of a shared table is written only by the compare-exchange of `setTableElementNonNull` and
by the stores of the initialising loop of `growTableImpl`; an iteration of `table.copy` sets the
object it has just read.  So no interleaving makes a word up: in every state, every slot holds a
word some slot held when the threads started, or the biased form of an object a thread was given
to set or to grow the table with, and `getTableElementNonNull` returns only the objects these
words stand for.

`WordsIn V` says that every slot, the word of the running growth and every word a thread may
still write are in `V`: the words of its pending sets and growths and the word of its
compare-exchange.  Every step keeps it, whatever `V` is; the words of the starting state are the
least `V` it holds for.

This says nothing about which of these words a slot holds, nor in which order the writes land;
`Concurrent` says where they land.

Which slots a get reads is fixed by the frontier alone: in every state an interleaving reaches, a
get succeeds exactly below it.  While a growth runs, the elements it has stored are read before
the count that covers them is published, and the elements it has not reached end in
`OutOfBoundsTableAccess`, as past the count.
-/

namespace Wavm.Runtime

variable (host : Host) (V : Uptr → Prop)

/-- The words an access may write are in `V`. -/
def Access.WordsIn : Access → Prop
  | .set _ object => V (objectToBiasedTableElementValue host object)
  | .get _ => True
  | .copy _ _ => True
  | .grow _ initializeToElement => V (objectToBiasedTableElementValue host initializeToElement)

/-- The words a thread may still write are in `V`. -/
def Thread.WordsIn : Thread → Prop
  | .run accesses => ∀ a ∈ accesses, a.WordsIn host V
  | .exchange _ _ biasedValue _ rest => V biasedValue ∧ ∀ a ∈ rest, a.WordsIn host V
  | .resizing rest => ∀ a ∈ rest, a.WordsIn host V
  | .threw _ => True

namespace Shared

/-- Every slot, the word of the running growth and every word a thread may still write are in
`V`. -/
structure WordsIn (s : Shared) : Prop where
  slots : ∀ i, V (s.table.slots i)
  resize : ∀ r, s.resize = some r → V r.biasedValue
  threads : ∀ t, (s.threads t).WordsIn host V

variable {host V}

theorem WordsIn.setThread {s : Shared} {t : ThreadRef} {thread : Thread} (h : s.WordsIn host V)
    (hthread : thread.WordsIn host V) : (s.setThread t thread).WordsIn host V :=
  ⟨h.slots, h.resize, fun t' => by
    by_cases ht : t' = t
    · subst ht; simpa using hthread
    · simpa [Function.update_noteq ht] using h.threads t'⟩

theorem WordsIn.setSlot {s : Shared} {i : Nat} {v : Uptr} (h : s.WordsIn host V) (hv : V v) :
    { s with table := s.table.setSlot i v }.WordsIn host V :=
  ⟨fun j => by
    by_cases hj : j = i
    · subst hj; simpa [Table.setSlot] using hv
    · simpa [Table.setSlot, Function.update_noteq hj] using h.slots j, h.resize, h.threads⟩

/-- The object `getTableElementNonNull` returns is the one the word of a slot stands for. -/
theorem getTableElementNonNull_slot {ref : TableRef} {t : Table} {index object : Uptr}
    (h : getTableElementNonNull host ref t index = .ok object) :
    ∃ i, objectToBiasedTableElementValue host object = t.slots i := by
  simp only [getTableElementNonNull] at h
  split at h
  · cases h
  · split at h
    · cases h
    · rename_i biasedValue hload
      split at h
      · cases h
      · cases h
        exact ⟨_, by
          rw [objectToBiasedTableElementValue_biasedTableElementValueToObject]
          exact (Table.load_eq_some host hload).2.symm⟩

/-! ## One step -/

theorem WordsIn.beginSet {s : Shared} {t : ThreadRef} {index object : Uptr} {rest : List Access}
    (h : s.WordsIn host V) (hobject : V (objectToBiasedTableElementValue host object))
    (hrest : ∀ a ∈ rest, a.WordsIn host V) :
    (s.beginSet host t index object rest).WordsIn host V := by
  unfold Shared.beginSet
  split
  · exact h.setThread trivial
  · dsimp only
    split
    · exact h.setThread trivial
    · exact h.setThread ⟨hobject, hrest⟩

/-- A compare-exchange stores its own word. -/
theorem WordsIn.exchange {s : Shared} {t : ThreadRef}
    {index saturatedIndex biasedValue oldBiasedValue : Uptr} {rest : List Access} {spurious : Bool}
    (h : s.WordsIn host V)
    (hthread :
      (Thread.exchange index saturatedIndex biasedValue oldBiasedValue rest).WordsIn host V) :
    (s.exchange host t index saturatedIndex biasedValue oldBiasedValue rest spurious).WordsIn
      host V := by
  obtain ⟨hvalue, hrest⟩ := hthread
  unfold Shared.exchange
  split
  · exact h.setThread trivial
  · split
    · exact h.setThread trivial
    · split
      · exact (h.setThread (show (Thread.run rest).WordsIn host V from hrest)).setSlot hvalue
      · exact h.setThread ⟨hvalue, hrest⟩

/-- A get goes on with what it read: the copy's set writes back the word of a slot. -/
theorem WordsIn.get {s : Shared} {t : ThreadRef} {index : Uptr} {next : Uptr → List Access}
    (h : s.WordsIn host V)
    (hnext : ∀ object, V (objectToBiasedTableElementValue host object) →
      ∀ a ∈ next object, a.WordsIn host V) :
    (s.get host t index next).WordsIn host V := by
  unfold Shared.get
  split
  · rename_i object hget
    obtain ⟨i, hi⟩ := getTableElementNonNull_slot hget
    exact h.setThread (hnext object (hi ▸ h.slots i))
  · exact h.setThread trivial

/-- The growth that takes `resizingMutex` will store the word of its initial element. -/
theorem WordsIn.beginGrow {s s' : Shared} {t : ThreadRef}
    {numElementsToGrow initializeToElement : Uptr} {rest : List Access} {admitted : Bool}
    (h : s.WordsIn host V) (hinit : V (objectToBiasedTableElementValue host initializeToElement))
    (hrest : ∀ a ∈ rest, a.WordsIn host V)
    (hgrow : s.beginGrow host t numElementsToGrow initializeToElement rest admitted = some s') :
    s'.WordsIn host V := by
  have hrun : (s.setThread t (.run rest)).WordsIn host V := h.setThread hrest
  have hslots := (beginGrow_table hgrow).1
  unfold Shared.beginGrow at hgrow
  split at hgrow
  · cases hgrow; exact hrun
  split at hgrow
  · cases hgrow
  dsimp only at hgrow
  split at hgrow
  · cases hgrow; exact hrun
  cases hgrow
  exact ⟨fun i => by rw [hslots]; exact h.slots i, by rintro r ⟨⟩; exact hinit,
    (h.setThread (show (Thread.resizing rest).WordsIn host V from hrest)).threads⟩

/-- The growth stores its own word, and its last step only publishes the count. -/
theorem WordsIn.resizeStep {s s' : Shared} {t : ThreadRef} {rest : List Access}
    (h : s.WordsIn host V) (hrest : ∀ a ∈ rest, a.WordsIn host V)
    (hstep : s.resizeStep host t rest = some s') : s'.WordsIn host V := by
  unfold Shared.resizeStep at hstep
  split at hstep
  · cases hstep
  rename_i r hresize
  have hr := h.resize r hresize
  split at hstep
  · cases hstep
  split at hstep
  · obtain ⟨table, hstore, rfl⟩ := Option.map_eq_some'.mp hstep
    obtain ⟨-, rfl⟩ := Table.store_eq_some host hstore
    exact ⟨(h.setSlot hr).slots, by rintro r' ⟨⟩; exact hr, h.threads⟩
  · cases hstep
    exact ⟨h.slots, by rintro r' ⟨⟩,
      (h.setThread (show (Thread.run rest).WordsIn host V from hrest)).threads⟩

/-- Every step keeps `WordsIn V`. -/
theorem WordsIn.step {s s' : Shared} {t : ThreadRef} {spurious admitted : Bool}
    (h : s.WordsIn host V) (hstep : s.step host t spurious admitted = some s') :
    s'.WordsIn host V := by
  have hthread := h.threads t
  unfold Shared.step at hstep
  cases hth : s.threads t with
  | run accesses =>
    rw [hth] at hstep hthread
    cases accesses with
    | nil => cases hstep
    | cons a rest =>
      have hrest : ∀ a ∈ rest, a.WordsIn host V := fun a ha =>
        hthread a (List.mem_cons_of_mem _ ha)
      have ha : a.WordsIn host V := hthread a (List.mem_cons_self _ _)
      cases a with
      | set index object => cases hstep; exact h.beginSet ha hrest
      | get index => cases hstep; exact h.get fun _ _ => hrest
      | copy sourceIndex destIndex =>
        cases hstep
        refine h.get fun object hobject a ha => ?_
        rcases List.mem_cons.mp ha with rfl | ha
        · exact hobject
        · exact hrest a ha
      | grow numElementsToGrow initializeToElement => exact h.beginGrow ha hrest hstep
  | exchange index saturatedIndex biasedValue oldBiasedValue rest =>
    rw [hth] at hstep hthread
    cases hstep
    exact h.exchange hthread
  | resizing rest =>
    rw [hth] at hstep hthread
    exact h.resizeStep hthread hstep
  | threw => rw [hth] at hstep; cases hstep

theorem WordsIn.reflTransGen {s s' : Shared} (h : s.WordsIn host V)
    (hrun : Relation.ReflTransGen (Next host) s s') : s'.WordsIn host V := by
  induction hrun with
  | refl => exact h
  | tail _ hnext ih =>
    obtain ⟨_, _, _, hstep⟩ := hnext
    exact ih.step hstep

/-! ## The words of the start -/

variable (host) in
/-- The words of a table shared by threads before any of them runs: those of its slots, and the
biased forms of the objects its threads are to set or to grow the table with. -/
def initialWords (s₀ : Shared) (v : Uptr) : Prop :=
  (∃ j, s₀.table.slots j = v) ∨ ∃ t accesses, s₀.threads t = .run accesses ∧
    ((∃ index object, Access.set index object ∈ accesses ∧
        objectToBiasedTableElementValue host object = v) ∨
      ∃ numElementsToGrow initializeToElement,
        Access.grow numElementsToGrow initializeToElement ∈ accesses ∧
        objectToBiasedTableElementValue host initializeToElement = v)

theorem Initial.wordsIn {s₀ : Shared} (h : s₀.Initial host) :
    s₀.WordsIn host (s₀.initialWords host) where
  slots i := .inl ⟨i, rfl⟩
  resize r hr := by rw [h.resize] at hr; cases hr
  threads t := by
    obtain ⟨accesses, hth, -⟩ := h.threads t
    rw [hth]
    intro a ha
    cases a with
    | set index object => exact .inr ⟨t, accesses, hth, .inl ⟨index, object, ha, rfl⟩⟩
    | get => trivial
    | copy => trivial
    | grow numElementsToGrow initializeToElement =>
      exact .inr ⟨t, accesses, hth, .inr ⟨numElementsToGrow, initializeToElement, ha, rfl⟩⟩

end Shared

variable {host}

/-- No interleaving makes an object up: in every state the threads reach from a table they share,
`getTableElementNonNull` returns only an object some slot held at the start, or one a thread was
given to set or to grow the table with. -/
theorem interleaving_get_returns_supplied {s₀ s : Shared} (hinitial : s₀.Initial host)
    (hrun : Relation.ReflTransGen (Shared.Next host) s₀ s) (index object : Uptr)
    (hget : getTableElementNonNull host s.ref s.table index = .ok object) :
    (∃ j, object = biasedTableElementValueToObject host (s₀.table.slots j)) ∨
      ∃ t accesses, s₀.threads t = .run accesses ∧
        ((∃ index', Access.set index' object ∈ accesses) ∨
          ∃ numElementsToGrow, Access.grow numElementsToGrow object ∈ accesses) := by
  obtain ⟨i, hi⟩ := Shared.getTableElementNonNull_slot hget
  have hinjective : ∀ object', objectToBiasedTableElementValue host object' =
      objectToBiasedTableElementValue host object → object' = object := fun object' h => by
    rw [← biasedTableElementValueToObject_objectToBiasedTableElementValue host object', h,
      biasedTableElementValueToObject_objectToBiasedTableElementValue]
  rcases (hinitial.wordsIn.reflTransGen hrun).slots i with
    ⟨j, hj⟩ | ⟨t, accesses, hth, hset | hgrow⟩
  · refine .inl ⟨j, ?_⟩
    rw [hj, ← hi, biasedTableElementValueToObject_objectToBiasedTableElementValue]
  · obtain ⟨index', object', hmem, hobject⟩ := hset
    exact .inr ⟨t, accesses, hth,
      .inl ⟨index', hinjective object' (hobject.trans hi.symm) ▸ hmem⟩⟩
  · obtain ⟨numElementsToGrow, object', hmem, hobject⟩ := hgrow
    exact .inr ⟨t, accesses, hth,
      .inr ⟨numElementsToGrow, hinjective object' (hobject.trans hi.symm) ▸ hmem⟩⟩

theorem interleaving_get_returns_supplied_sampleShared :
    getTableElementNonNull sampleHost sampleShared.ref sampleShared.table 0 =
        .ok sampleHost.uninitializedElement ∧
      ((∃ j, sampleHost.uninitializedElement =
          biasedTableElementValueToObject sampleHost (sampleShared.table.slots j)) ∨
        ∃ t accesses, sampleShared.threads t = .run accesses ∧
          ((∃ index', Access.set index' sampleHost.uninitializedElement ∈ accesses) ∨
            ∃ numElementsToGrow, Access.grow numElementsToGrow sampleHost.uninitializedElement ∈
              accesses)) :=
  have hget : getTableElementNonNull sampleHost sampleShared.ref sampleShared.table 0 =
      .ok sampleHost.uninitializedElement := rfl
  ⟨hget, interleaving_get_returns_supplied sampleShared_initial .refl 0 _ hget⟩

/-! ## What a get reads -/

/-- A get reads the frontier, not the count: in every reachable state it returns the object of
each slot the threads or the running growth have stored, and throws from the first slot the
growth has not reached. -/
theorem interleaving_get_sees_frontier {s : Shared} (hreach : s.Reachable host) (index : Uptr) :
    getTableElementNonNull host s.ref s.table index =
      if index.toNat < s.frontier then
        .ok (biasedTableElementValueToObject host (s.table.slots index.toNat))
      else .error (.outOfBoundsTableAccess s.ref index) := by
  have hinv := hreach.invariant
  have hlimit : s.limit.toNat ≤ 2 ^ 32 := hinv.limit_le_maxTableElems.trans host.maxTableElems_le
  have hfrontier := hinv.frontier_le_limit
  unfold getTableElementNonNull
  rw [hinv.numReservedElements_eq]
  by_cases hreserved : index ≥ tableMaxElements
  · have hge : 2 ^ 32 ≤ index.toNat := hreserved
    rw [if_pos hreserved, if_neg (by omega)]
  · have hlt := BitVec.not_le.mp hreserved
    rw [if_neg hreserved]
    dsimp only
    rw [branchlessMin_sub_one hlt]
    by_cases hbelow : index.toNat < s.frontier
    · have hcommitted := hinv.committed_of_lt _
        (elementPage_lt host hlimit (hbelow.trans_le hfrontier))
      rw [if_pos hbelow]
      simpa [Table.load, hcommitted, biasedTableElementValueToObject_eq_outOfBoundsElement]
        using hinv.slots_ne_zero _ hbelow
    · have hzero := hinv.slots_eq_zero _ (Nat.le_of_not_lt hbelow)
        (by rw [hinv.numReservedElements_eq]; exact hlt)
      rw [if_neg hbelow]
      cases hcommitted : s.table.committed (elementPage host index.toNat) <;>
        simp [Table.load, hcommitted, hzero]

theorem interleaving_get_sees_frontier_sampleShared :
    getTableElementNonNull sampleHost sampleShared.ref sampleShared.table 1 =
      if (1 : Uptr).toNat < sampleShared.frontier then
        .ok (biasedTableElementValueToObject sampleHost (sampleShared.table.slots (1 : Uptr).toNat))
      else .error (.outOfBoundsTableAccess sampleShared.ref 1) :=
  interleaving_get_sees_frontier ⟨sampleShared, sampleShared_initial, .refl⟩ 1

end Wavm.Runtime
