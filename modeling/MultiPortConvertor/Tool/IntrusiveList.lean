import MultiPortConvertor.Lib.Rings

/-! # The intrusive list of `tool/list.c`

A heap gives every address of a `struct list_head` its three fields; a pointer is `none` when it is
`NULL`, and reading or writing through `NULL` makes an operation fail. The operations are those of
the source, statement by statement. On a ring they are the insertion and the removal of `Lib.Rings`
(`listAddTail_spec`, `listAdd_spec`, `listDel_spec`): owners and the nodes outside the ring stay as
they are. -/

namespace MultiPortConvertor.Tool.IntrusiveList

open MultiPortConvertor.Lib.Rings

variable {α ω : Type}

/-- `struct list_head`. -/
structure ListHead (α ω : Type) where
  next : Option α
  prev : Option α
  owner : ω

/-- The `struct list_head` at each address. -/
abbrev Heap (α ω : Type) := α → ListHead α ω

/-- The links of a heap. -/
def Heap.links (H : Heap α ω) : Links α where
  next := fun a => (H a).next
  prev := fun a => (H a).prev

@[simp] theorem Heap.links_next (H : Heap α ω) (a : α) : H.links.next a = (H a).next := rfl
@[simp] theorem Heap.links_prev (H : Heap α ω) (a : α) : H.links.prev a = (H a).prev := rfl

variable [DecidableEq α]

def Heap.setNext (H : Heap α ω) (a : α) (v : Option α) : Heap α ω :=
  Function.update H a { H a with next := v }

def Heap.setPrev (H : Heap α ω) (a : α) (v : Option α) : Heap α ω :=
  Function.update H a { H a with prev := v }

def Heap.setOwner (H : Heap α ω) (a : α) (v : ω) : Heap α ω :=
  Function.update H a { H a with owner := v }

/-- `init_list_head`; `self` is the list's own address as an owner. -/
def initListHead (H : Heap α ω) (list : α) (self : ω) : Heap α ω :=
  ((H.setNext list (some list)).setPrev list (some list)).setOwner list self

/-- `_list_add`. -/
def rawListAdd (H : Heap α ω) (new : α) (prev next : Option α) : Option (Heap α ω) := do
  let nx ← next
  let H := H.setPrev nx (some new)
  let H := H.setNext new (some nx)
  let H := H.setPrev new prev
  let pv ← prev
  return H.setNext pv (some new)

def listAdd (H : Heap α ω) (new head : α) : Option (Heap α ω) :=
  rawListAdd H new (some head) (H head).next

def listAddTail (H : Heap α ω) (new head : α) : Option (Heap α ω) :=
  rawListAdd H new (H head).prev (some head)

/-- `_list_del`. -/
def rawListDel (H : Heap α ω) (prev next : Option α) : Option (Heap α ω) := do
  let nx ← next
  let H := H.setPrev nx prev
  let pv ← prev
  return H.setNext pv (some nx)

def listDel (H : Heap α ω) (entry : α) : Option (Heap α ω) := do
  let H ← rawListDel H (H entry).prev (H entry).next
  return (H.setNext entry none).setPrev entry none

def listEmpty (H : Heap α ω) (head : α) : Bool := (H head).next = some head

/-! ### The fields after a write -/

section fields

variable (H : Heap α ω) (a b : α) (v : Option α) (o : ω)

@[simp] theorem setNext_next :
    (H.setNext a v b).next = if b = a then v else (H b).next := by
  simp only [Heap.setNext, Function.update_apply]; split_ifs <;> simp_all

@[simp] theorem setNext_prev : (H.setNext a v b).prev = (H b).prev := by
  simp only [Heap.setNext, Function.update_apply]; split_ifs <;> simp_all

@[simp] theorem setNext_owner : (H.setNext a v b).owner = (H b).owner := by
  simp only [Heap.setNext, Function.update_apply]; split_ifs <;> simp_all

@[simp] theorem setPrev_next : (H.setPrev a v b).next = (H b).next := by
  simp only [Heap.setPrev, Function.update_apply]; split_ifs <;> simp_all

@[simp] theorem setPrev_prev :
    (H.setPrev a v b).prev = if b = a then v else (H b).prev := by
  simp only [Heap.setPrev, Function.update_apply]; split_ifs <;> simp_all

@[simp] theorem setPrev_owner : (H.setPrev a v b).owner = (H b).owner := by
  simp only [Heap.setPrev, Function.update_apply]; split_ifs <;> simp_all

@[simp] theorem setOwner_next : (H.setOwner a o b).next = (H b).next := by
  simp only [Heap.setOwner, Function.update_apply]; split_ifs <;> simp_all

@[simp] theorem setOwner_prev : (H.setOwner a o b).prev = (H b).prev := by
  simp only [Heap.setOwner, Function.update_apply]; split_ifs <;> simp_all

@[simp] theorem setOwner_owner :
    (H.setOwner a o b).owner = if b = a then o else (H b).owner := by
  simp only [Heap.setOwner, Function.update_apply]; split_ifs <;> simp_all

theorem setNext_of_ne (h : b ≠ a) : H.setNext a v b = H b := Function.update_of_ne h _ _

theorem setPrev_of_ne (h : b ≠ a) : H.setPrev a v b = H b := Function.update_of_ne h _ _

end fields

/-! ### The operations on a ring -/

section ring

variable {H : Heap α ω} {head n : α} {xs l r : List α}

/-- `_list_add` between the two neighbours of a place. -/
theorem rawListAdd_spec (hr : Ring H.links head (l ++ r)) (hn : n ∉ head :: (l ++ r)) :
    ∃ H', rawListAdd H n (some (lastOf head l)) (some (headOf head r)) = some H' ∧
      Ring H'.links head (l ++ n :: r) ∧ (∀ a, (H' a).owner = (H a).owner) ∧
      ∀ a, a ∉ head :: (l ++ n :: r) → H' a = H a := by
  have hu : lastOf head l ∈ head :: (l ++ r) := by
    rw [← List.cons_append]; exact List.mem_append_left _ (lastOf_mem head l)
  have hv : headOf head r ∈ head :: (l ++ r) := by
    have := headOf_mem head r
    simp only [List.mem_append, List.mem_cons] at this ⊢
    tauto
  have hun : lastOf head l ≠ n := fun he => hn (he ▸ hu)
  have hvn : headOf head r ≠ n := fun he => hn (he ▸ hv)
  refine ⟨_, rfl, (hr.insert hn).congr (fun a _ => ?_) (fun a _ => ?_), by simp, fun a ha => ?_⟩
  · simp only [Heap.links_next, setNext_next, setPrev_next, Links.join, Function.update_apply]
    by_cases h1 : a = lastOf head l <;> by_cases h2 : a = n <;> simp_all
  · simp only [Heap.links_prev, setNext_prev, setPrev_prev, Links.join, Function.update_apply]
    by_cases h1 : a = headOf head r <;> by_cases h2 : a = n <;> simp_all
  · have hsub : ∀ b ∈ head :: (l ++ r), b ∈ head :: (l ++ n :: r) := by
      intro b hb; simp only [List.mem_cons, List.mem_append] at hb ⊢; tauto
    have h1 : a ≠ lastOf head l := fun he => ha (he ▸ hsub _ hu)
    have h2 : a ≠ headOf head r := fun he => ha (he ▸ hsub _ hv)
    have h3 : a ≠ n := fun he => ha (by simp [he])
    simp [setNext_of_ne, setPrev_of_ne, h1, h2, h3]

/-- **`list_add_tail`** appends to the ring. -/
theorem listAddTail_spec (hr : Ring H.links head xs) (hn : n ∉ head :: xs) :
    ∃ H', listAddTail H n head = some H' ∧ Ring H'.links head (xs ++ [n]) ∧
      (∀ a, (H' a).owner = (H a).owner) ∧ ∀ a, a ∉ head :: (xs ++ [n]) → H' a = H a := by
  have hp : (H head).prev = some (lastOf head xs) := hr.prev_head
  have hr' : Ring H.links head (xs ++ []) := by simpa using hr
  obtain ⟨H', he, hH⟩ := rawListAdd_spec hr' (by simpa using hn)
  exact ⟨H', by rw [listAddTail, hp]; exact he, hH⟩

/-- **`list_add`** puts the node first. -/
theorem listAdd_spec (hr : Ring H.links head xs) (hn : n ∉ head :: xs) :
    ∃ H', listAdd H n head = some H' ∧ Ring H'.links head (n :: xs) ∧
      (∀ a, (H' a).owner = (H a).owner) ∧ ∀ a, a ∉ head :: n :: xs → H' a = H a := by
  have hx : (H head).next = some (headOf head xs) := hr.next_head
  obtain ⟨H', he, hH⟩ := rawListAdd_spec (l := []) (r := xs) hr hn
  exact ⟨H', by rw [listAdd, hx]; exact he, hH⟩

/-- **`list_del`** takes the node out of the ring and clears its links. -/
theorem listDel_spec (hr : Ring H.links head (l ++ n :: r)) :
    ∃ H', listDel H n = some H' ∧ Ring H'.links head (l ++ r) ∧
      ((H' n).next = none ∧ (H' n).prev = none) ∧ (∀ a, (H' a).owner = (H a).owner) ∧
      ∀ a, a ∉ head :: (l ++ n :: r) → H' a = H a := by
  have hx : (H n).next = some (headOf head r) := hr.next_mid
  have hp : (H n).prev = some (lastOf head l) := hr.prev_mid
  have hnl : n ∉ head :: (l ++ r) := by
    have hnd := (perm_insert head n l r).nodup_iff.mp hr.nodup
    exact (List.nodup_cons.mp hnd).1
  refine ⟨_, by rw [listDel, hx, hp]; rfl, hr.remove.congr (fun a ha => ?_) (fun a ha => ?_),
    by simp, by simp, fun a ha => ?_⟩
  · have han : a ≠ n := fun he => hnl (he ▸ ha)
    simp [Links.join, Function.update_apply, han]
  · have han : a ≠ n := fun he => hnl (he ▸ ha)
    simp [Links.join, Function.update_apply, han]
  · have hu := lastOf_mem head l
    have hv := headOf_mem head r
    have h1 : a ≠ lastOf head l := by
      rintro rfl; simp only [List.mem_cons, List.mem_append] at hu ha; tauto
    have h2 : a ≠ headOf head r := by
      rintro rfl; simp only [List.mem_cons, List.mem_append, List.not_mem_nil, or_false] at hv ha
      tauto
    have h3 : a ≠ n := by rintro rfl; simp at ha
    simp [setNext_of_ne, setPrev_of_ne, h1, h2, h3]

/-- **`list_empty`** holds of the ring without nodes alone. -/
theorem listEmpty_iff (hr : Ring H.links head xs) : listEmpty H head = true ↔ xs = [] := by
  rw [← hr.next_head_eq_iff]; simp [listEmpty]

end ring

end MultiPortConvertor.Tool.IntrusiveList
