import MultiPortConvertor.Tool.BufFactory

/-! # When an allocation of `create_buf_factory` fails

`create_buf_factory` with its allocations: `ok` says which of them succeed, and the state has the
pointers stored in `buf_array`, the blocks allocated, and those passed to `free`. The clean-up runs
over `j`, but frees `buf_array[i]`, the elements of the round that has failed. So it gives back what
was allocated in round 0 alone (`cleanedUp_iff`). -/

namespace MultiPortConvertor.Tool.FailedCreation

open MultiPortConvertor.Lib.Rings MultiPortConvertor.Lib.Outcomes
open MultiPortConvertor.Tool.IntrusiveList MultiPortConvertor.Tool.BufFactory

/-- The blocks that `create_buf_factory` asks for. -/
inductive Block where
  | factory
  | array
  | memory (i : ℕ)
  | node (i : ℕ)
  deriving DecidableEq

/-- The blocks of the first `i` rounds. -/
def blocksOf (i : ℕ) : List Block :=
  .factory :: .array :: (List.range i).flatMap fun j => [.memory j, .node j]

theorem blocksOf_succ (i : ℕ) : blocksOf (i + 1) = blocksOf i ++ [.memory i, .node i] := by
  simp [blocksOf, List.range_succ]

/-- What is asked for before a block, in order. -/
def before : Block → List Block
  | .factory => []
  | .array => [.factory]
  | .memory i => blocksOf i
  | .node i => blocksOf i ++ [.memory i]

/-- The list heads, the two pointers of each element of `buf_array`, the blocks allocated so far,
and the blocks passed to `free`, in order. -/
structure Creation (α : Type) where
  heap : Heap α Owner
  memory : ℕ → Option Block
  node : ℕ → Option Block
  allocated : List Block
  freed : List Block

/-- The creation goes on, has reached an `ERROR`, or has followed a `NULL` pointer. -/
inductive Creating (α : Type) where
  | next (s : Creation α)
  | error (s : Creation α)
  | fault

variable {α : Type}

namespace Creating

def andThen : Creating α → (Creation α → Creating α) → Creating α
  | next s, g => g s
  | error s, _ => error s
  | fault, _ => fault

def ofOption : Option (Creation α) → Creating α
  | some s => next s
  | none => fault

end Creating

namespace Creation

/-- `malloc`, and `calloc`; `none` is `NULL`. -/
def malloc (ok : Block → Bool) (b : Block) (s : Creation α) : Option Block × Creation α :=
  if ok b then (some b, { s with allocated := s.allocated ++ [b] }) else (none, s)

/-- `free`, which does nothing on `NULL`. A block that is freed again is in the record again. -/
def free (p : Option Block) (s : Creation α) : Creation α :=
  { s with freed := s.freed ++ p.toList }

/-- `free(buf_array[i].memory)`, `n` times: the loop is over `j`, its body reads `i`. -/
def freeMemory (i : ℕ) : ℕ → Creation α → Creation α
  | 0, s => s
  | j + 1, s => freeMemory i j (s.free (s.memory i))

/-- `free(buf_array[i].node)`, `n` times. -/
def freeNode (i : ℕ) : ℕ → Creation α → Creation α
  | 0, s => s
  | j + 1, s => freeNode i j (s.free (s.node i))

def setMemory (i : ℕ) (p : Option Block) (s : Creation α) : Creation α :=
  { s with memory := Function.update s.memory i p }

def setNode (i : ℕ) (p : Option Block) (s : Creation α) : Creation α :=
  { s with node := Function.update s.node i p }

/-- `free(buf_factory->buf_array)` and `free(buf_factory)`. -/
def freeFactory (s : Creation α) : Creation α :=
  (s.free (some .array)).free (some .factory)

variable {s : Creation α} {i : ℕ} (p : Option Block)

@[simp] theorem free_allocated : (s.free p).allocated = s.allocated := rfl
@[simp] theorem free_freed : (s.free p).freed = s.freed ++ p.toList := rfl

/-- The loop frees the one block, if there is one, `n` times. -/
theorem freeMemory_eq : ∀ (n : ℕ) (s : Creation α), s.freeMemory i n =
    { s with freed := s.freed ++ (List.replicate n (s.memory i).toList).flatten }
  | 0, s => by simp [freeMemory]
  | n + 1, s => by
    rw [freeMemory, freeMemory_eq n]
    simp [free, List.replicate_succ]

theorem freeNode_eq : ∀ (n : ℕ) (s : Creation α), s.freeNode i n =
    { s with freed := s.freed ++ (List.replicate n (s.node i).toList).flatten }
  | 0, s => by simp [freeNode]
  | n + 1, s => by
    rw [freeNode, freeNode_eq n]
    simp [free, List.replicate_succ]

/-- **Clean-up**: what was allocated is freed once, and nothing else is freed. -/
def CleanedUp (s : Creation α) : Prop :=
  (∀ b ∈ s.allocated, s.freed.count b = 1) ∧ ∀ b ∈ s.freed, b ∈ s.allocated

instance (s : Creation α) : Decidable s.CleanedUp := by
  unfold CleanedUp; infer_instance

/-- Round 0 has no round before it, and otherwise nothing of round 0 is freed. -/
theorem cleanedUp_iff_memory (ha : s.allocated = blocksOf i) (hf : s.freed = [.array, .factory]) :
    s.CleanedUp ↔ i = 0 := by
  rw [CleanedUp, ha, hf]
  constructor
  · rintro ⟨hall, -⟩
    by_contra hne
    have hmem : Block.memory 0 ∈ blocksOf i := by
      simpa [blocksOf] using Nat.pos_of_ne_zero hne
    have hone := hall _ hmem
    simp at hone
  · rintro rfl
    simp [blocksOf]

theorem cleanedUp_iff_node (ha : s.allocated = blocksOf i ++ [.memory i])
    (hf : s.freed = List.replicate (i + 1) (.memory i) ++ [.array, .factory]) :
    s.CleanedUp ↔ i = 0 := by
  rw [CleanedUp, ha, hf]
  constructor
  · rintro ⟨hall, -⟩
    have hone := hall (.memory i) (by simp)
    simpa [List.count_append] using hone
  · rintro rfl
    simp [blocksOf]

end Creation

variable [DecidableEq α] (ok : Block → Bool) (f : BufferFactory α)

/-- A round of the loop. -/
def createRound (i : ℕ) (s : Creation α) : Creating α :=
  let (p, s) := s.malloc ok (.memory i)
  let s := s.setMemory i p
  if p = none then .error (s.freeMemory i i).freeFactory
  else
    let (p, s) := s.malloc ok (.node i)
    let s := s.setNode i p
    if p = none then .error ((s.freeNode i i).freeMemory i (i + 1)).freeFactory
    else .ofOption do
      let H ← listAddTail (s.heap.setOwner (f.node i) (some i)) (f.node i) f.list
      return { s with heap := H }

def createRounds : ℕ → Creation α → Creating α
  | 0, s => .next s
  | i + 1, s => (createRounds i s).andThen (createRound ok f i)

/-- `create_buf_factory`, whichever allocations succeed. -/
def createBufFactory (num : ℕ) (H : Heap α Owner) : Creating α :=
  let (p, s) := Creation.malloc ok .factory ⟨H, fun _ => none, fun _ => none, [], []⟩
  if p = none then .error s
  else
    let s := { s with heap := initListHead s.heap f.list none }
    let (p, s) := s.malloc ok .array
    if p = none then .error (s.free (some .factory))
    else createRounds ok f num s

/-! ### Rounds -/

section

variable {ok f} {i num : ℕ} {b : Block} {s s' : Creation α}

/-- After `i` rounds without a failure. -/
structure Steady (f : BufferFactory α) (i : ℕ) (s : Creation α) : Prop where
  pool : Pool f i s.heap (List.range i)
  allocated : s.allocated = blocksOf i
  freed : s.freed = []

/-- **A round whose memory is not there** frees the array and the factory: `buf_array[i].memory` is
`NULL`. -/
theorem createRound_memory (hs : Steady f i s) (hb : ok (.memory i) = false) :
    ∃ s', createRound ok f i s = .error s' ∧ s'.allocated = blocksOf i ∧
      s'.freed = [.array, .factory] := by
  refine ⟨((s.setMemory i none).freeMemory i i).freeFactory, ?_, ?_, ?_⟩
  · simp [createRound, Creation.malloc, hb]
  · simp [Creation.freeFactory, Creation.freeMemory_eq, Creation.setMemory, hs.allocated]
  · simp [Creation.freeFactory, Creation.freeMemory_eq, Creation.setMemory, hs.freed]

/-- **A round whose node is not there** frees its memory `i + 1` times. -/
theorem createRound_node (hs : Steady f i s) (hm : ok (.memory i) = true)
    (hb : ok (.node i) = false) :
    ∃ s', createRound ok f i s = .error s' ∧ s'.allocated = blocksOf i ++ [.memory i] ∧
      s'.freed = List.replicate (i + 1) (.memory i) ++ [.array, .factory] := by
  let t : Creation α := { s with
    memory := Function.update s.memory i (some (.memory i))
    node := Function.update s.node i none
    allocated := s.allocated ++ [.memory i] }
  refine ⟨((t.freeNode i i).freeMemory i (i + 1)).freeFactory, ?_, ?_, ?_⟩
  · simp [createRound, Creation.malloc, hm, hb, t, Creation.setMemory, Creation.setNode]
  · simp [Creation.freeFactory, Creation.freeMemory_eq, Creation.freeNode_eq, t, hs.allocated]
  · simp [Creation.freeFactory, Creation.freeMemory_eq, Creation.freeNode_eq, t, hs.freed]

/-- A round without a failure. -/
theorem Steady.createRound (hs : Steady f i s) (hm : ok (.memory i) = true)
    (hn : ok (.node i) = true) :
    ∃ s', createRound ok f i s = .next s' ∧ Steady f (i + 1) s' ∧
      listAddTail (s.heap.setOwner (f.node i) (some i)) (f.node i) f.list = some s'.heap := by
  obtain ⟨H', he, hp, -⟩ := hs.pool.addNode
  refine ⟨⟨H', Function.update s.memory i (some (.memory i)),
    Function.update s.node i (some (.node i)), s.allocated ++ [.memory i] ++ [.node i], s.freed⟩,
    ?_, ⟨hp, ?_, hs.freed⟩, he⟩
  · simp [FailedCreation.createRound, Creation.malloc, hm, hn, Creation.setMemory,
      Creation.setNode, Creating.ofOption, he]
  · rw [blocksOf_succ, ← hs.allocated, List.append_assoc, List.singleton_append]

/-- The first `i` rounds, when what they ask for is there. -/
theorem Steady.createRounds (hs : Steady f 0 s) : ∀ i, (∀ b ∈ blocksOf i, ok b = true) →
    ∃ s', createRounds ok f i s = .next s' ∧ Steady f i s' ∧
      createLoop f i s.heap = some s'.heap
  | 0, _ => ⟨s, rfl, hs, rfl⟩
  | i + 1, hok => by
    rw [blocksOf_succ] at hok
    obtain ⟨t, ht, hst, hl⟩ :=
      hs.createRounds i fun b hb => hok b (List.mem_append_left _ hb)
    obtain ⟨s', he, hs', ha⟩ := hst.createRound (hok _ (by simp)) (hok _ (by simp))
    refine ⟨s', ?_, hs', ?_⟩
    · rw [FailedCreation.createRounds, ht]
      exact he
    · simp only [createLoop, hl]
      exact ha

/-- No round follows one that has failed. -/
theorem createRounds_error {t : Creation α} (ht : createRounds ok f i s = .next t)
    (he : createRound ok f i t = .error s') :
    ∀ num, i < num → createRounds ok f num s = .error s'
  | n + 1, hn => by
    rw [createRounds]
    rcases (Nat.lt_succ_iff_lt_or_eq.mp hn).symm with rfl | hlt
    · rw [ht]
      exact he
    · rw [createRounds_error ht he n hlt]
      rfl

/-- The first round begins, when the factory and the array are there. -/
theorem createBufFactory_eq (hf : ok .factory = true) (ha : ok .array = true) (num : ℕ)
    (H : Heap α Owner) : ∃ s, createBufFactory ok f num H = createRounds ok f num s ∧
      Steady f 0 s ∧ s.heap = initListHead H f.list none := by
  refine ⟨⟨initListHead H f.list none, fun _ => none, fun _ => none, [.factory, .array], []⟩,
    ?_, ⟨pool_zero f H, rfl, rfl⟩, rfl⟩
  simp [createBufFactory, Creation.malloc, hf, ha]

/-- **Without a failure** the heap is the one of `BufFactory.createBufFactory`, and nothing is
freed. -/
theorem createBufFactory_of_ok (num : ℕ) (H : Heap α Owner) (hok : ∀ b, ok b = true) :
    ∃ s, createBufFactory ok f num H = .next s ∧
      BufFactory.createBufFactory f num H = .next s.heap ∧ s.freed = [] := by
  obtain ⟨t, he, ht, hh⟩ := createBufFactory_eq (f := f) (hok .factory) (hok .array) num H
  obtain ⟨s, hs, hst, hl⟩ := ht.createRounds num fun b _ => hok b
  rw [hh] at hl
  exact ⟨s, he.trans hs, by rw [BufFactory.createBufFactory, hl]; rfl, hst.freed⟩

/-- The creation, when an allocation of round `i` is the first that fails. -/
theorem createBufFactory_failed {P : Creation α → Prop} (H : Heap α Owner) (hi : i < num)
    (hok : ∀ b ∈ blocksOf i, ok b = true)
    (hr : ∀ t, Steady f i t → ∃ s, createRound ok f i t = .error s ∧ P s) :
    ∃ s, createBufFactory ok f num H = .error s ∧ P s := by
  obtain ⟨r, he, hs, -⟩ :=
    createBufFactory_eq (f := f) (hok .factory (by simp [blocksOf]))
      (hok .array (by simp [blocksOf])) num H
  obtain ⟨t, ht, hst, -⟩ := hs.createRounds i hok
  obtain ⟨s, hs', hp⟩ := hr t hst
  exact ⟨s, he.trans (createRounds_error ht hs' num hi), hp⟩

end

/-- **The clean-up of `create_buf_factory`** is one exactly in round 0: whichever of the two
allocations of round `i` fails first. -/
theorem cleanedUp_iff {α : Type} [DecidableEq α] (f : BufferFactory α) {num i : ℕ}
    (H : Heap α Owner) (hi : i < num) {b : Block} (hb : b = .memory i ∨ b = .node i)
    {ok : Block → Bool} (hok : ∀ c ∈ before b, ok c = true) (hfail : ok b = false) :
    ∃ s, createBufFactory ok f num H = .error s ∧ s.allocated = before b ∧
      (s.CleanedUp ↔ i = 0) := by
  rcases hb with rfl | rfl
  · refine createBufFactory_failed H hi hok fun t ht => ?_
    obtain ⟨s, he, ha, hf⟩ := createRound_memory ht hfail
    exact ⟨s, he, ha, Creation.cleanedUp_iff_memory ha hf⟩
  · refine createBufFactory_failed H hi (fun c hc => hok c (List.mem_append_left _ hc)) fun t ht =>
      ?_
    obtain ⟨s, he, ha, hf⟩ := createRound_node ht (hok _ (by simp [before])) hfail
    exact ⟨s, he, ha, Creation.cleanedUp_iff_node ha hf⟩

/-- The allocations, when the node of round 1 is the only block that is not there. -/
def okButNode (b : Block) : Bool := b ≠ .node 1

/-- The node of round 1 is not there: its memory is freed twice, and the two blocks of round 0
never. -/
theorem not_cleanedUp_node : (∀ c ∈ before (.node 1), okButNode c = true) ∧
    okButNode (.node 1) = false ∧
    ∃ s, createBufFactory okButNode factoryNew 2 heapClear = .error s ∧
      s.allocated = [.factory, .array, .memory 0, .node 0, .memory 1] ∧
      s.freed = [.memory 1, .memory 1, .array, .factory] ∧ ¬ s.CleanedUp := by
  refine ⟨by decide, by decide, _, rfl, rfl, rfl, ?_⟩
  decide

/-- The theorem applied to the node of round 0, and to the memory of round 2. -/
theorem cleanedUp_iff_rounds :
    (∃ s, createBufFactory (fun b => b ≠ .node 0) factoryNew 2 heapClear = .error s ∧
      s.allocated = before (.node 0) ∧ (s.CleanedUp ↔ 0 = 0)) ∧
    ∃ s, createBufFactory (fun b => b ≠ .memory 2) factoryNew 3 heapClear = .error s ∧
      s.allocated = before (.memory 2) ∧ (s.CleanedUp ↔ 2 = 0) :=
  ⟨cleanedUp_iff factoryNew heapClear (by decide) (.inr rfl) (by decide) (by decide),
    cleanedUp_iff factoryNew heapClear (by decide) (.inl rfl) (by decide) (by decide)⟩

end MultiPortConvertor.Tool.FailedCreation
