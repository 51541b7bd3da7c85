import MultiPortConvertor.Lib.Runs
import MultiPortConvertor.Tool.IntrusiveList

/-! # The operations of `tool/list.c` as operations on a sequence

On a ring `list_add` puts a node before the sequence of the others, `list_add_tail` behind it, and
`list_del` takes one out; the owners and the nodes outside the ring stay as they are (`Refines`). So
after any sequence of calls the links lead through the same nodes in both directions and come back
to the head (`Sees`, `listOps_refine`). -/

namespace MultiPortConvertor.Tool.ListOps

open MultiPortConvertor.Lib.Rings MultiPortConvertor.Lib.Runs MultiPortConvertor.Tool.IntrusiveList

variable {α ω : Type}

/-- A call, for a list with a fixed head. -/
inductive Op (α : Type) where
  | listAdd (new : α)
  | listAddTail (new : α)
  | listDel (entry : α)

/-- The node of a call. -/
def Op.node : Op α → α
  | .listAdd n => n
  | .listAddTail n => n
  | .listDel n => n

/-- The calls in question: a node that is not in the ring is added, one that is in it taken out. -/
def Op.Legal (head : α) (xs : List α) : Op α → Prop
  | .listAdd n => n ∉ head :: xs
  | .listAddTail n => n ∉ head :: xs
  | .listDel n => n ∈ xs

variable [DecidableEq α]

instance (head : α) (xs : List α) : DecidablePred (Op.Legal head xs)
  | .listAdd n => inferInstanceAs (Decidable (n ∉ head :: xs))
  | .listAddTail n => inferInstanceAs (Decidable (n ∉ head :: xs))
  | .listDel n => inferInstanceAs (Decidable (n ∈ xs))

/-- What a call does to the sequence. -/
def Op.apply (xs : List α) : Op α → List α
  | .listAdd n => n :: xs
  | .listAddTail n => xs ++ [n]
  | .listDel n => xs.erase n

/-- A call in question, for runs. -/
def seqStep (head : α) (xs : List α) (op : Op α) : Option (List α) :=
  if op.Legal head xs then some (op.apply xs) else none

/-- A call on the heap. -/
def heapStep (head : α) (H : Heap α ω) : Op α → Option (Heap α ω)
  | .listAdd n => listAdd H n head
  | .listAddTail n => listAddTail H n head
  | .listDel n => listDel H n

/-- **What a call does to a ring** with the nodes `xs`. -/
structure Refines (head : α) (xs : List α) (op : Op α) (H H' : Heap α ω) : Prop where
  ring : Ring H'.links head (op.apply xs)
  cleared : ∀ n, op = .listDel n → (H' n).next = none ∧ (H' n).prev = none
  owner : ∀ a, (H' a).owner = (H a).owner
  frame : ∀ a, a ∉ op.node :: head :: xs → H' a = H a

/-- **What the links say**: both traversals find the nodes `xs` and end. -/
structure Sees (H : Heap α ω) (head : α) (xs : List α) : Prop where
  ring : Ring H.links head xs
  forward : ∀ fuel, xs.length < fuel → walk (fun a => (H a).next) head fuel (H head).next = xs
  backward : ∀ fuel, xs.length < fuel →
    walk (fun a => (H a).prev) head fuel (H head).prev = xs.reverse
  empty : listEmpty H head = true ↔ xs = []

section

variable {H H' : Heap α ω} {head : α} {xs ys : List α} {op : Op α}

theorem sees_of_ring (hr : Ring H.links head xs) : Sees H head xs where
  ring := hr
  forward := walk_eq hr
  backward := fun fuel hf => walk_eq hr.reverse fuel (by rwa [List.length_reverse])
  empty := listEmpty_iff hr

theorem mem_apply {a : α} (ha : a ∈ op.apply xs) : a ∈ op.node :: xs := by
  cases op with
  | listAdd n => exact ha
  | listAddTail n => simpa [Op.apply, Op.node, or_comm] using ha
  | listDel n => exact List.mem_cons_of_mem _ (List.mem_of_mem_erase ha)

/-- **One call.** -/
theorem heapStep_refines (hr : Ring H.links head xs) (hl : op.Legal head xs) :
    ∃ H', heapStep head H op = some H' ∧ Refines head xs op H H' := by
  cases op with
  | listAdd n =>
    obtain ⟨H', he, hr', ho, hf⟩ := listAdd_spec hr hl
    refine ⟨H', he, hr', fun m hm => (by cases hm), ho, fun a ha => hf a fun h => ha ?_⟩
    simp only [Op.node, List.mem_cons] at h ⊢
    tauto
  | listAddTail n =>
    obtain ⟨H', he, hr', ho, hf⟩ := listAddTail_spec hr hl
    refine ⟨H', he, hr', fun m hm => (by cases hm), ho, fun a ha => hf a fun h => ha ?_⟩
    simp only [Op.node, List.mem_cons, List.mem_append, List.not_mem_nil, or_false] at h ⊢
    tauto
  | listDel n =>
    obtain ⟨l, r, rfl⟩ := List.append_of_mem hl
    have hnl : n ∉ l := fun hm =>
      (List.nodup_append.mp (List.nodup_cons.mp hr.nodup).2).2.2 n hm n List.mem_cons_self rfl
    obtain ⟨H', he, hr', hc, ho, hf⟩ := listDel_spec hr
    refine ⟨H', he, ?_, fun m hm => ?_, ho, fun a ha => hf a fun h => ha (List.mem_cons_of_mem _ h)⟩
    · rw [Op.apply, List.erase_append_right _ hnl, List.erase_cons_head]
      exact hr'
    · cases hm
      exact hc

/-- **A run of calls**, by induction on the calls. -/
theorem exec_refines : ∀ {ops : List (Op α)} {H : Heap α ω} {xs : List α}, Ring H.links head xs →
    exec (seqStep head) xs ops = some ys → ∃ H', exec (heapStep head) H ops = some H' ∧
      Ring H'.links head ys ∧ (∀ a, (H' a).owner = (H a).owner) ∧
        ∀ a, a ∉ head :: (xs ++ ops.map Op.node) → H' a = H a
  | [], H, xs, hr, he => by
    obtain rfl := Option.some.inj he
    exact ⟨H, rfl, hr, fun _ => rfl, fun _ _ => rfl⟩
  | op :: ops, H, xs, hr, he => by
    obtain ⟨zs, hz, he⟩ := Option.bind_eq_some_iff.mp he
    unfold seqStep at hz
    split_ifs at hz with hl
    cases hz
    obtain ⟨H₁, h₁, hr₁⟩ := heapStep_refines hr hl
    obtain ⟨H', h', hr', ho', hf'⟩ := exec_refines hr₁.ring he
    refine ⟨H', ?_, hr', fun a => (ho' a).trans (hr₁.owner a), fun a ha => ?_⟩
    · rw [exec, h₁]
      exact h'
    · simp only [List.map_cons, List.mem_cons, List.mem_append, not_or] at ha
      obtain ⟨hhead, hxs, hnode, hops⟩ := ha
      have hns : a ∉ op.apply xs := fun h => by
        rcases List.mem_cons.mp (mem_apply h) with h | h
        · exact hnode h
        · exact hxs h
      rw [hf' a (by simp [hhead, hns, hops]), hr₁.frame a (by simp [hhead, hxs, hnode])]

end

/-- **The list operations are operations on a sequence.** On every ring the links say which nodes
are in it; every call adds its node before or behind them or takes it out and clears its links, and
changes no owner and no node outside the ring; and so the links say which nodes are in the ring
after every run of calls. -/
theorem listOps_refine {H : Heap α ω} {head : α} {xs : List α} (hr : Ring H.links head xs) :
    Sees H head xs ∧
    (∀ op : Op α, op.Legal head xs →
      ∃ H', heapStep head H op = some H' ∧ Refines head xs op H H') ∧
    ∀ (ops : List (Op α)) (ys : List α), exec (seqStep head) xs ops = some ys →
      ∃ H', exec (heapStep head) H ops = some H' ∧ Sees H' head ys ∧
        (∀ a, (H' a).owner = (H a).owner) ∧
          ∀ a, a ∉ head :: (xs ++ ops.map Op.node) → H' a = H a := by
  refine ⟨sees_of_ring hr, fun op hl => heapStep_refines hr hl, fun ops ys he => ?_⟩
  obtain ⟨H', h', hr', ho, hf⟩ := exec_refines hr he
  exact ⟨H', h', sees_of_ring hr', ho, hf⟩

/-- `init_list_head` makes the ring of the head alone. -/
theorem ring_initListHead (H : Heap α ω) (head : α) (self : ω) :
    Ring (initListHead H head self).links head [] :=
  ring_nil (by simp [initListHead]) (by simp [initListHead])

/-- A list at address 0 after `init_list_head`. -/
def heapNew : Heap ℕ Unit := initListHead (fun _ => ⟨none, none, ()⟩) 0 ()

/-- The theorem applied to two nodes added at the tail and one before them, which is taken out
again. -/
theorem listOps_refine_new : ∃ H', exec (heapStep 0) heapNew
      [.listAddTail 1, .listAddTail 2, .listAdd 3, .listDel 3] = some H' ∧ Sees H' 0 [1, 2] := by
  obtain ⟨H', he, hs, -⟩ := (listOps_refine (ring_initListHead _ 0 ())).2.2
    [.listAddTail 1, .listAddTail 2, .listAdd 3, .listDel 3] [1, 2] (by decide)
  exact ⟨H', he, hs⟩

end MultiPortConvertor.Tool.ListOps
