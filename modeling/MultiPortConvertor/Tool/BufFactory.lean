import MultiPortConvertor.Lib.Outcomes
import MultiPortConvertor.Tool.IntrusiveList
import Mathlib.Data.List.Range
import Mathlib.Data.List.Perm.Subperm

/-! # The buffer pools of `tool/buf_factory.c`

A factory owns `num` buffers, numbered by their place in `buf_array`; buffer `i` has a list node of
its own, whose `owner` is the buffer, and the free buffers are the nodes on the factory's ring. A
`struct Buffer *` is the number of the buffer. `buf_factory_produce` takes the first node of the
ring and ends the process if there is none; `buf_factory_recycle` appends a node. `Pool` is the
abstract view: the list of the free buffers, oldest first. -/

namespace MultiPortConvertor.Tool.BufFactory

open MultiPortConvertor.Lib.Rings MultiPortConvertor.Lib.Outcomes
open MultiPortConvertor.Tool.IntrusiveList

/-- The owner of a node: the number of a buffer, or `none` for the head of a list, which owns
itself. -/
abbrev Owner := Option ℕ

/-- Where the list heads of a `struct buffer_factory` lie: its own `list` and the `node` of each
buffer, all different. -/
structure BufferFactory (α : Type) where
  list : α
  node : ℕ → α
  node_injective : Function.Injective node
  node_ne_list : ∀ i, node i ≠ list

variable {α : Type}

/-- Of the `num` buffers those of `free` are free, oldest first. -/
structure Pool (f : BufferFactory α) (num : ℕ) (H : Heap α Owner) (free : List ℕ) : Prop where
  ring : Ring H.links f.list (free.map f.node)
  owner : ∀ i < num, (H (f.node i)).owner = some i
  lt : ∀ i ∈ free, i < num

section

variable {f : BufferFactory α} {num : ℕ} {H : Heap α Owner} {free : List ℕ} {i : ℕ}

theorem Pool.nodup (hp : Pool f num H free) : free.Nodup :=
  (List.nodup_cons.mp hp.ring.nodup).2.of_map

theorem node_notMem (hi : i ∉ free) : f.node i ∉ f.list :: free.map f.node := by
  simp only [List.mem_cons, List.mem_map, not_or, not_exists, not_and]
  exact ⟨f.node_ne_list i, fun j hj he => hi (f.node_injective he ▸ hj)⟩

/-- Heaps that agree on the factory's nodes have the same free buffers. -/
theorem Pool.congr {H' : Heap α Owner} (hp : Pool f num H free) (h0 : H' f.list = H f.list)
    (h : ∀ i, H' (f.node i) = H (f.node i)) : Pool f num H' free := by
  have hall : ∀ a ∈ f.list :: free.map f.node, H' a = H a := by
    intro a ha
    rcases List.mem_cons.mp ha with rfl | ha
    · exact h0
    · obtain ⟨j, -, rfl⟩ := List.mem_map.mp ha; exact h j
  exact ⟨hp.ring.congr (fun a ha => by simp [hall a ha]) (fun a ha => by simp [hall a ha]),
    fun j hj => by rw [h j]; exact hp.owner j hj, hp.lt⟩

end

variable [DecidableEq α] (f : BufferFactory α)

/-- The loop of `create_buf_factory` over the buffers, once their memory is there. -/
def createLoop : ℕ → Heap α Owner → Option (Heap α Owner)
  | 0, H => some H
  | i + 1, H => do
    let H ← createLoop i H
    listAddTail (H.setOwner (f.node i) (some i)) (f.node i) f.list

/-- `create_buf_factory`, when every allocation succeeds. -/
def createBufFactory (num : ℕ) (H : Heap α Owner) : Outcome (Heap α Owner) :=
  .ofOption (createLoop f num (initListHead H f.list none))

def bufFactoryProduce (H : Heap α Owner) : Outcome (ℕ × Heap α Owner) :=
  if listEmpty H f.list then .exit
  else do
    let nodeOfBuf ← .ofOption (H f.list).next
    let buf ← .ofOption (H nodeOfBuf).owner
    let H ← .ofOption (listDel H nodeOfBuf)
    return (buf, H)

def bufFactoryRecycle (buf : ℕ) (H : Heap α Owner) : Outcome (Heap α Owner) :=
  .ofOption (listAddTail H (f.node buf) f.list)

/-- The buffers on the factory's ring, oldest first. -/
def freeBufs (num : ℕ) (H : Heap α Owner) : List ℕ :=
  (walk H.links.next f.list (num + 1) (H f.list).next).filterMap fun a => (H a).owner

variable {f} {num : ℕ} {H : Heap α Owner} {free : List ℕ} {i : ℕ}

theorem Pool.freeBufs_eq (hp : Pool f num H free) : freeBufs f num H = free := by
  have hsub : free ⊆ List.range num := fun b hb => List.mem_range.mpr (hp.lt b hb)
  have hlen : free.length ≤ num := by
    have := (List.subperm_of_subset hp.nodup hsub).length_le
    rwa [List.length_range] at this
  have hw : walk H.links.next f.list (num + 1) (H f.list).next = free.map f.node :=
    walk_eq hp.ring _ (by simpa using Nat.lt_succ_of_le hlen)
  have hown : ∀ b ∈ free, (H (f.node b)).owner = some b := fun b hb => hp.owner b (hp.lt b hb)
  unfold freeBufs
  rw [hw, List.filterMap_map]
  exact (List.filterMap_congr hown).trans List.filterMap_some

/-- **`buf_factory_produce`** hands out the buffer that has been free longest. -/
theorem bufFactoryProduce_spec (hp : Pool f num H (i :: free)) :
    ∃ H', bufFactoryProduce f H = .next (i, H') ∧ Pool f num H' free ∧
      ∀ a, a ≠ f.list → (∀ j, a ≠ f.node j) → H' a = H a := by
  have hne : listEmpty H f.list = false := by
    rw [Bool.eq_false_iff, ne_eq, listEmpty_iff hp.ring]; simp
  have hx : (H f.list).next = some (f.node i) := hp.ring.next_head
  have hi : (H (f.node i)).owner = some i := hp.owner i (hp.lt i (by simp))
  obtain ⟨H', hd, hr, -, ho, hf⟩ := listDel_spec (l := []) (n := f.node i) hp.ring
  refine ⟨H', by simp [bufFactoryProduce, hne, hx, hi, hd],
    ⟨hr, fun j hj => by rw [ho]; exact hp.owner j hj, fun j hj => hp.lt j (by simp [hj])⟩,
    fun a h0 hn => hf a ?_⟩
  simp only [List.nil_append, List.mem_cons, List.mem_map, not_or]
  exact ⟨h0, hn i, fun ⟨j, _, hj⟩ => hn j hj.symm⟩

/-- With no free buffer `buf_factory_produce` ends the process. -/
theorem bufFactoryProduce_exit (hp : Pool f num H []) : bufFactoryProduce f H = .exit := by
  rw [bufFactoryProduce, if_pos ((listEmpty_iff hp.ring).mpr rfl)]

/-- **`buf_factory_recycle`** appends a buffer that is not free. -/
theorem bufFactoryRecycle_spec (hp : Pool f num H free) (hi : i ∉ free) (hn : i < num) :
    ∃ H', bufFactoryRecycle f i H = .next H' ∧ Pool f num H' (free ++ [i]) ∧
      ∀ a, a ≠ f.list → (∀ j, a ≠ f.node j) → H' a = H a := by
  obtain ⟨H', ha, hr, ho, hf⟩ := listAddTail_spec hp.ring (node_notMem hi)
  refine ⟨H', by simp [bufFactoryRecycle, ha],
    ⟨by simpa using hr, fun j hj => by rw [ho]; exact hp.owner j hj, fun j hj => ?_⟩,
    fun a h0 hn => hf a ?_⟩
  · rcases List.mem_append.mp hj with hj | hj
    · exact hp.lt j hj
    · rw [List.mem_singleton.mp hj]; exact hn
  · simp only [List.mem_cons, List.mem_append, List.mem_map, not_or]
    exact ⟨h0, fun ⟨j, _, hj⟩ => hn j hj.symm, hn i, by simp⟩

/-- The list of a new factory. -/
theorem pool_zero (f : BufferFactory α) (H : Heap α Owner) :
    Pool f 0 (initListHead H f.list none) [] :=
  ⟨ring_nil (by simp [initListHead]) (by simp [initListHead]), by simp, by simp⟩

/-- A round of the loop. -/
theorem Pool.addNode {n : ℕ} (hp : Pool f n H (List.range n)) : ∃ H',
    listAddTail (H.setOwner (f.node n) (some n)) (f.node n) f.list = some H' ∧
      Pool f (n + 1) H' (List.range (n + 1)) ∧
      ∀ a, a ≠ f.list → (∀ j, a ≠ f.node j) → H' a = H a := by
  have hr : Ring (H.setOwner (f.node n) (some n)).links f.list ((List.range n).map f.node) :=
    hp.ring.congr (fun a _ => by simp) (fun a _ => by simp)
  obtain ⟨H', ha, hr', ho, hf⟩ := listAddTail_spec hr (node_notMem (i := n) (by simp))
  refine ⟨H', ha, ⟨by simpa [List.range_succ] using hr', fun j hj => ?_,
    fun j hj => List.mem_range.mp hj⟩, fun a h0 hn => ?_⟩
  · rw [ho, setOwner_owner]
    split_ifs with he
    · rw [f.node_injective he]
    · have hjn : j ≠ n := fun hjn => he (by rw [hjn])
      exact hp.owner j (by omega)
  · rw [hf a (by
      simp only [List.mem_cons, List.mem_append, List.mem_map, not_or]
      exact ⟨h0, fun ⟨j, _, hj⟩ => hn j hj.symm, hn n, by simp⟩)]
    exact Function.update_of_ne (hn n) _ _

theorem createLoop_spec (hp : Pool f 0 H []) : ∀ n, ∃ H', createLoop f n H = some H' ∧
    Pool f n H' (List.range n) ∧ ∀ a, a ≠ f.list → (∀ j, a ≠ f.node j) → H' a = H a
  | 0 => ⟨H, rfl, hp, fun _ _ _ => rfl⟩
  | n + 1 => by
    obtain ⟨H₁, h₁, hp₁, hf₁⟩ := createLoop_spec hp n
    obtain ⟨H', ha, hp', hf⟩ := hp₁.addNode
    refine ⟨H', by simp [createLoop, h₁, ha], hp', fun a h0 hn => ?_⟩
    rw [hf a h0 hn, hf₁ a h0 hn]

/-- **`create_buf_factory`** makes every buffer free, in order. -/
theorem createBufFactory_spec (H : Heap α Owner) (num : ℕ) : ∃ H',
    createBufFactory f num H = .next H' ∧ Pool f num H' (List.range num) ∧
      ∀ a, a ≠ f.list → (∀ j, a ≠ f.node j) → H' a = H a := by
  obtain ⟨H', h, hp', hf⟩ := createLoop_spec (pool_zero f H) num
  refine ⟨H', by simp [createBufFactory, h], hp', fun a h0 hn => ?_⟩
  rw [hf a h0 hn]
  simp [initListHead, Heap.setOwner, setPrev_of_ne, setNext_of_ne, Function.update_of_ne, h0]

/-- A factory with its ring at address 0. -/
def factoryNew : BufferFactory ℕ := ⟨0, Nat.succ, Nat.succ_injective, Nat.succ_ne_zero⟩

/-- A heap of list heads that were not yet written. -/
def heapClear : Heap ℕ Owner := fun _ => ⟨none, none, none⟩

end MultiPortConvertor.Tool.BufFactory
