import Mathlib.Data.List.Chain
import Mathlib.Data.List.Nodup
import Mathlib.Data.Nat.Notation

/-! # Rings of doubly linked nodes

A `Links α` is a pair of partial link functions on the nodes `α`. `Ring L h xs` says that following
`next` from the head `h` passes through `xs`, in this order, and comes back to `h`, that `prev` goes
the same way backwards, and that no node is met twice. A node is put between two neighbours, or
taken out from between them, by joining pairs of nodes (`Links.join`); `Ring.insert` and
`Ring.remove` say what this does to the ring, `Ring.congr` that the links of the other nodes do not
matter. `walk` is the traversal from the head; on a ring it finds exactly its nodes (`walk_eq`). -/

namespace MultiPortConvertor.Lib.Rings

variable {α : Type*}

/-- The forward and the backward link of each node. -/
structure Links (α : Type*) where
  next : α → Option α
  prev : α → Option α

/-- `b` is the next node of `a` and `a` the previous one of `b`. -/
def Links.Adj (L : Links α) (a b : α) : Prop := L.next a = some b ∧ L.prev b = some a

/-- A closed chain of distinct nodes through the head `h`. -/
structure Ring (L : Links α) (h : α) (xs : List α) : Prop where
  nodup : (h :: xs).Nodup
  chain : (h :: (xs ++ [h])).IsChain L.Adj

/-! ### The two sides of a place in a ring -/

/-- The node before the place after `l` in a ring with head `h`. -/
def lastOf (h : α) (l : List α) : α := l.getLast?.getD h

/-- The node after the place before `r` in a ring with head `h`. -/
def headOf (h : α) (r : List α) : α := r.head?.getD h

@[simp] theorem lastOf_nil (h : α) : lastOf h [] = h := rfl
@[simp] theorem headOf_nil (h : α) : headOf h [] = h := rfl
@[simp] theorem headOf_cons (h x : α) (r : List α) : headOf h (x :: r) = x := rfl
@[simp] theorem lastOf_concat (h x : α) (l : List α) : lastOf h (l ++ [x]) = x := by simp [lastOf]

theorem lastOf_mem (h : α) (l : List α) : lastOf h l ∈ h :: l := by
  rcases l.eq_nil_or_concat' with rfl | ⟨l', x, rfl⟩ <;> simp

theorem headOf_mem (h : α) (r : List α) : headOf h r ∈ r ++ [h] := by
  cases r <;> simp

theorem lastOf_notMem_dropLast {h : α} {l : List α} (hnd : (h :: l).Nodup) :
    lastOf h l ∉ (h :: l).dropLast := by
  rcases l.eq_nil_or_concat' with rfl | ⟨l', x, rfl⟩
  · simp
  · rw [lastOf_concat, ← List.cons_append, List.dropLast_concat]
    rw [← List.cons_append, List.nodup_append] at hnd
    exact fun hx => hnd.2.2 x hx x (by simp) rfl

theorem headOf_notMem_tail {h : α} {r : List α} (hnd : (r ++ [h]).Nodup) :
    headOf h r ∉ (r ++ [h]).tail := by
  cases r with
  | nil => simp
  | cons x r => exact (List.nodup_cons.mp hnd).1

theorem perm_insert (h n : α) (l r : List α) : (h :: (l ++ n :: r)).Perm (n :: h :: (l ++ r)) :=
  (List.Perm.cons h List.perm_middle).trans (List.Perm.swap n h _)

/-- The sides of a place share no node but the head. -/
theorem nodup_sides {h : α} {l r : List α} (hnd : (h :: (l ++ r)).Nodup) :
    (h :: l).Nodup ∧ (r ++ [h]).Nodup ∧ lastOf h l ∉ r ∧ headOf h r ∉ l := by
  have h1 : (h :: l).Nodup ∧ r.Nodup ∧ ∀ a ∈ h :: l, ∀ b ∈ r, a ≠ b := by
    rw [← List.nodup_append, List.cons_append]; exact hnd
  obtain ⟨hl, hr, hd⟩ := h1
  refine ⟨hl, ?_, fun hm => hd _ (lastOf_mem h l) _ hm rfl, fun hm => ?_⟩
  · rw [List.nodup_append]
    exact ⟨hr, by simp, fun a ha b hb => by
      rw [List.mem_singleton.mp hb]; exact (hd h (by simp) a ha).symm⟩
  · rcases List.mem_append.mp (headOf_mem h r) with hr' | hr'
    · exact hd _ (List.mem_cons_of_mem _ hm) _ hr' rfl
    · rw [List.mem_singleton.mp hr'] at hm
      exact (List.nodup_cons.mp hl).1 hm

/-- A chain through the head splits at every place into the two sides and the link between them. -/
theorem isChain_cut {R : α → α → Prop} (h : α) (l r : List α) :
    (h :: (l ++ (r ++ [h]))).IsChain R ↔
      (h :: l).IsChain R ∧ R (lastOf h l) (headOf h r) ∧ (r ++ [h]).IsChain R := by
  rw [← List.cons_append, List.isChain_append]
  have hl : (h :: l).getLast? = some (lastOf h l) := by simp [lastOf, List.getLast?_cons]
  have hr : (r ++ [h]).head? = some (headOf h r) := by cases r <;> simp
  simp only [hl, hr, Option.mem_some_iff, forall_eq']
  exact ⟨fun ⟨a, b, c⟩ => ⟨a, c, b⟩, fun ⟨a, b, c⟩ => ⟨a, c, b⟩⟩

/-- A chain only looks at `next` of all but its last node and at `prev` of all but its first. -/
theorem isChain_congr {L L' : Links α} : ∀ {l : List α}, l.IsChain L.Adj →
    (∀ a ∈ l.dropLast, L'.next a = L.next a) → (∀ a ∈ l.tail, L'.prev a = L.prev a) →
      l.IsChain L'.Adj
  | [], _, _, _ => .nil
  | [a], _, _, _ => .singleton a
  | a :: b :: l, h, hn, hp => by
    rw [List.isChain_cons_cons] at h ⊢
    refine ⟨⟨(hn a (by simp)).trans h.1.1, (hp b (by simp)).trans h.1.2⟩, ?_⟩
    refine isChain_congr h.2 (fun x hx => hn x ?_) (fun x hx => hp x ?_)
    · rw [List.dropLast_cons_cons]; exact List.mem_cons_of_mem _ hx
    · exact List.mem_cons_of_mem _ hx

namespace Ring

variable {L L' : Links α} {h : α} {xs l r : List α}

/-- Only the links of the ring's own nodes matter. -/
theorem congr (hr : Ring L h xs) (hn : ∀ a ∈ h :: xs, L'.next a = L.next a)
    (hp : ∀ a ∈ h :: xs, L'.prev a = L.prev a) : Ring L' h xs := by
  refine ⟨hr.nodup, isChain_congr hr.chain (fun a ha => hn a ?_) (fun a ha => hp a ?_)⟩
  · rwa [← List.cons_append, List.dropLast_concat] at ha
  · simpa [or_comm] using ha

theorem cut (hr : Ring L h (l ++ r)) : (h :: l).IsChain L.Adj ∧
    L.Adj (lastOf h l) (headOf h r) ∧ (r ++ [h]).IsChain L.Adj := by
  rw [← isChain_cut, ← List.append_assoc]; exact hr.chain

/-- The links at a place of the ring. -/
theorem adj (hr : Ring L h (l ++ r)) : L.Adj (lastOf h l) (headOf h r) := hr.cut.2.1

theorem next_head (hr : Ring L h xs) : L.next h = some (headOf h xs) :=
  (adj (l := []) (r := xs) hr).1

theorem prev_head (hr : Ring L h xs) : L.prev h = some (lastOf h xs) :=
  (adj (l := xs) (r := []) (by simpa using hr)).2

/-- The links of a node of the ring. -/
theorem next_mid {n : α} (hr : Ring L h (l ++ n :: r)) : L.next n = some (headOf h r) := by
  have hr' : Ring L h ((l ++ [n]) ++ r) := by simpa using hr
  simpa using hr'.adj.1

theorem prev_mid {n : α} (hr : Ring L h (l ++ n :: r)) : L.prev n = some (lastOf h l) :=
  (adj (l := l) (r := n :: r) hr).2

theorem head_notMem (hr : Ring L h xs) : h ∉ xs := (List.nodup_cons.mp hr.nodup).1

/-- **The links of a ring lead to its nodes.** -/
theorem mem_of_next (hr : Ring L h xs) {a b : α} (ha : a ∈ h :: xs) (hb : L.next a = some b) :
    b ∈ h :: xs := by
  rcases List.mem_cons.mp ha with rfl | ha
  · obtain rfl := Option.some.inj (hr.next_head.symm.trans hb)
    simpa [or_comm] using headOf_mem a xs
  · obtain ⟨l, r, rfl⟩ := List.append_of_mem ha
    obtain rfl := Option.some.inj (hr.next_mid.symm.trans hb)
    rcases List.mem_append.mp (headOf_mem h r) with hm | hm
    · simp [hm]
    · simp [List.mem_singleton.mp hm]

theorem mem_of_prev (hr : Ring L h xs) {a b : α} (ha : a ∈ h :: xs) (hb : L.prev a = some b) :
    b ∈ h :: xs := by
  rcases List.mem_cons.mp ha with rfl | ha
  · obtain rfl := Option.some.inj (hr.prev_head.symm.trans hb)
    exact lastOf_mem a xs
  · obtain ⟨l, r, rfl⟩ := List.append_of_mem ha
    obtain rfl := Option.some.inj (hr.prev_mid.symm.trans hb)
    rcases List.mem_cons.mp (lastOf_mem h l) with hm | hm
    · simp [hm]
    · simp [hm]

/-- `next` comes back to the head exactly when the ring has no other node. -/
theorem next_head_eq_iff (hr : Ring L h xs) : L.next h = some h ↔ xs = [] := by
  rw [hr.next_head, Option.some.injEq]
  cases xs with
  | nil => simp
  | cons x xs =>
    simp only [headOf_cons, reduceCtorEq, iff_false]
    rintro rfl
    exact hr.head_notMem (by simp)

end Ring

/-- The ring of the head alone. -/
theorem ring_nil {L : Links α} {h : α} (hn : L.next h = some h) (hp : L.prev h = some h) :
    Ring L h [] := ⟨by simp, by simp [Links.Adj, hn, hp]⟩

/-! ### The other way round -/

/-- The links with their directions exchanged. -/
def Links.swap (L : Links α) : Links α := ⟨L.prev, L.next⟩

/-- **A ring read backwards** is the ring of its nodes in reverse order. -/
theorem Ring.reverse {L : Links α} {h : α} {xs : List α} (hr : Ring L h xs) :
    Ring L.swap h xs.reverse := by
  refine ⟨((List.reverse_perm xs).cons h).nodup_iff.mpr hr.nodup, ?_⟩
  have hrev : h :: (xs.reverse ++ [h]) = (h :: (xs ++ [h])).reverse := by simp
  rw [hrev, List.isChain_reverse]
  exact hr.chain.imp fun _ _ hab => ⟨hab.2, hab.1⟩

/-! ### Joining nodes -/

section join

variable [DecidableEq α]

/-- Make `v` the next node of `u` and `u` the previous one of `v`. -/
def Links.join (L : Links α) (u v : α) : Links α where
  next := Function.update L.next u (some v)
  prev := Function.update L.prev v (some u)

variable {L : Links α} {h : α} {l r : List α}

/-- **Insertion.** Joining a new node to both neighbours of a place puts it there. -/
theorem Ring.insert {n : α} (hr : Ring L h (l ++ r)) (hn : n ∉ h :: (l ++ r)) :
    Ring ((L.join (lastOf h l) n).join n (headOf h r)) h (l ++ n :: r) := by
  obtain ⟨hl, -, hrr⟩ := hr.cut
  obtain ⟨hndl, hndr, hlr, hhl⟩ := nodup_sides hr.nodup
  have hnl : n ∉ h :: l := fun h' => hn (by
    rw [← List.cons_append]; exact List.mem_append_left _ h')
  have hnr : n ∉ r ++ [h] := fun h' => hn (by
    rcases List.mem_append.mp h' with h' | h'
    · simp [h']
    · rw [List.mem_singleton.mp h']; simp)
  have hnu : lastOf h l ≠ n := fun he => hnl (he ▸ lastOf_mem h l)
  have hnv : headOf h r ≠ n := fun he => hnr (he ▸ headOf_mem h r)
  refine ⟨?_, ?_⟩
  · exact (perm_insert h n l r).nodup_iff.mpr (List.nodup_cons.mpr ⟨hn, hr.nodup⟩)
  · rw [List.append_assoc, isChain_cut, List.cons_append, List.isChain_cons (x := n)]
    refine ⟨isChain_congr hl (fun a ha => ?_) (fun a ha => ?_),
      by simp [Links.Adj, Links.join, hnu, hnv.symm], fun y hy => ?_,
      isChain_congr hrr (fun a ha => ?_) (fun a ha => ?_)⟩
    · have h1 : a ≠ n := fun he => hnl (he ▸ List.dropLast_subset _ ha)
      have h2 : a ≠ lastOf h l := fun he => lastOf_notMem_dropLast hndl (he ▸ ha)
      simp [Links.join, h1, h2]
    · have hal : a ∈ l := by simpa using ha
      have h1 : a ≠ n := fun he => hnl (he ▸ List.mem_cons_of_mem _ hal)
      have h2 : a ≠ headOf h r := fun he => hhl (he ▸ hal)
      simp [Links.join, h1, h2]
    · have hy' : headOf h r = y := by cases r <;> simpa using hy
      subst hy'
      simp [Links.Adj, Links.join]
    · have har : a ∈ r := by simpa using ha
      have h1 : a ≠ n := fun he => hnr (he ▸ List.mem_append_left _ har)
      have h2 : a ≠ lastOf h l := fun he => hlr (he ▸ har)
      simp [Links.join, h1, h2]
    · have h1 : a ≠ n := fun he => hnr (he ▸ List.mem_of_mem_tail ha)
      have h2 : a ≠ headOf h r := fun he => headOf_notMem_tail hndr (he ▸ ha)
      simp [Links.join, h1, h2]

/-- **Removal.** Joining the two neighbours of a node takes it out. -/
theorem Ring.remove {n : α} (hr : Ring L h (l ++ n :: r)) :
    Ring (L.join (lastOf h l) (headOf h r)) h (l ++ r) := by
  obtain ⟨hl, -, hrr⟩ := hr.cut
  have hnd : (h :: (l ++ r)).Nodup :=
    hr.nodup.sublist ((List.Sublist.append_left (List.sublist_cons_self n r) l).cons_cons h)
  obtain ⟨hndl, hndr, hlr, hhl⟩ := nodup_sides hnd
  refine ⟨hnd, ?_⟩
  rw [List.append_assoc, isChain_cut]
  refine ⟨isChain_congr hl (fun a ha => ?_) (fun a ha => ?_), by simp [Links.Adj, Links.join],
    isChain_congr (List.IsChain.tail hrr) (fun a ha => ?_) (fun a ha => ?_)⟩
  · have h2 : a ≠ lastOf h l := fun he => lastOf_notMem_dropLast hndl (he ▸ ha)
    simp [Links.join, h2]
  · have h2 : a ≠ headOf h r := fun he => hhl (he ▸ by simpa using ha)
    simp [Links.join, h2]
  · have h2 : a ≠ lastOf h l := fun he => hlr (he ▸ by simpa using ha)
    simp [Links.join, h2]
  · have h2 : a ≠ headOf h r := fun he => headOf_notMem_tail hndr (he ▸ ha)
    simp [Links.join, h2]

/-! ### Traversal -/

/-- The nodes met from `p` on before the head, `next` followed at most `fuel` times. -/
def walk (next : α → Option α) (h : α) : ℕ → Option α → List α
  | 0, _ => []
  | _ + 1, none => []
  | fuel + 1, some p => if p = h then [] else p :: walk next h fuel (next p)

theorem walk_chain : ∀ {fuel : ℕ} {xs : List α} {p : α}, h ∉ xs →
    (p :: (xs ++ [h])).IsChain L.Adj → xs.length < fuel →
      walk L.next h fuel (L.next p) = xs
  | 0, _, _, _, _, hf => absurd hf (Nat.not_lt_zero _)
  | fuel + 1, [], p, _, hc, _ => by
    have : L.next p = some h := (List.isChain_pair.mp hc).1
    rw [this]; simp [walk]
  | fuel + 1, x :: xs, p, hx, hc, hf => by
    rw [List.cons_append, List.isChain_cons_cons] at hc
    have hne : x ≠ h := fun he => hx (by simp [he])
    rw [hc.1.1, walk, if_neg hne,
      walk_chain (fun hm => hx (List.mem_cons_of_mem _ hm)) hc.2 (by simpa using hf)]

/-- **The traversal of a ring finds its nodes**, with fuel for one node more than it has. -/
theorem walk_eq {xs : List α} (hr : Ring L h xs) (fuel : ℕ) (hf : xs.length < fuel) :
    walk L.next h fuel (L.next h) = xs :=
  walk_chain hr.head_notMem hr.chain hf

end join

end MultiPortConvertor.Lib.Rings
