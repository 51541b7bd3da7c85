import Mathlib.Data.List.Nodup
import Mathlib.Data.Nat.Notation
import Mathlib.Logic.Function.Basic
import MultiPortConvertor.Lib.Outcomes

/-! # A heap of blocks

`malloc` gives the addresses of a supply, one after the other; `none` is `NULL`, an allocation that
fails. The supply counts the allocations made. What reads, writes or frees a block that is not
there, or was freed, is a fault. `erased` is the heap without the blocks of a list. -/

namespace MultiPortConvertor.Lib.Heaps

open MultiPortConvertor.Lib.Outcomes

universe u

/-- What `malloc` will give, and how often it has been called. -/
structure Supply where
  give : ℕ → Option ℕ
  made : ℕ

instance : CoeFun Supply fun _ => ℕ → Option ℕ := ⟨Supply.give⟩

/-- The supply after `k` allocations. -/
def Supply.later (S : Supply) (k : ℕ) : Supply := ⟨fun i => S (i + k), S.made + k⟩

theorem Supply.later_later (S : Supply) (j k : ℕ) : (S.later j).later k = S.later (k + j) := by
  unfold Supply.later
  simp only [Nat.add_assoc, Nat.add_comm j k]

/-- The blocks in use, and what `malloc` will give. -/
structure Heap (β : Type) where
  blocks : ℕ → Option β
  supply : Supply

/-- Code that works on a heap. -/
abbrev Mem (β : Type) (γ : Type) := StateT (Heap β) Outcome γ

variable {β γ δ : Type} {s t : Heap β} {a : ℕ} {b : β}

/-- The address holds the block. -/
def Heap.put (s : Heap β) (a : ℕ) (b : β) : Heap β :=
  { s with blocks := Function.update s.blocks a (some b) }

/-- The blocks at the addresses are gone. -/
def Heap.erased (s : Heap β) (as : List ℕ) : Heap β :=
  { s with blocks := fun x => if x ∈ as then none else s.blocks x }

/-- The heap after `k` allocations, but for their blocks. -/
def Heap.later (s : Heap β) (k : ℕ) : Heap β := { s with supply := s.supply.later k }

/-- An address in use is not given again: such a supply is none. -/
def malloc (b : β) : Mem β (Option ℕ) := fun s =>
  match s.supply 0 with
  | none => .next (none, s.later 1)
  | some a => if (s.blocks a).isNone then .next (some a, (s.later 1).put a b) else .blocked

def load (p : Option ℕ) : Mem β β := fun s =>
    Outcome.ofOption ((p.bind s.blocks).map fun b => (b, s))

def store (p : Option ℕ) (b : β) : Mem β Unit := fun s =>
  match p with
  | some a => if (s.blocks a).isSome then .next ((), s.put a b) else .fault
  | none => .fault

def free (p : Option ℕ) : Mem β Unit := fun s =>
  match p with
  | some a => if (s.blocks a).isSome then .next ((), s.erased [a]) else .fault
  | none => .next ((), s)

/-- The code is run if the condition holds. -/
def guarded (c : Bool) (x : Mem β Unit) : Mem β Unit := if c then x else pure ()

theorem bind_next {x : Mem β γ} {f : γ → Mem β δ} {c : γ} (h : x s = .next (c, t)) :
    (x >>= f) s = f c t := by
  show (x s >>= fun p => f p.1 p.2) = f c t
  rw [h]
  rfl

/-- Code that returns a pointer; `failure` returns `NULL`. -/
abbrev Ptr (β : Type) (γ : Type) := OptionT (Mem β) γ

/-- `malloc`, where `NULL` is returned if it fails. -/
def alloc (b : β) : Ptr β ℕ := OptionT.mk (malloc b)

theorem run_bind_some {x : Ptr β γ} {f : γ → Ptr β δ} {c : γ} (h : x.run s = .next (some c, t)) :
    (x >>= f).run s = (f c).run t := by
  rw [OptionT.run_bind]
  exact bind_next h

theorem run_bind_none {x : Ptr β γ} {f : γ → Ptr β δ} (h : x.run s = .next (none, t)) :
    (x >>= f).run s = .next (none, t) := by
  rw [OptionT.run_bind]
  exact bind_next h

theorem run_orElse_some {x y : Ptr β γ} {c : γ} (h : x.run s = .next (some c, t)) :
    (x <|> y).run s = .next (some c, t) := by
  rw [OptionT.run_orElse]
  exact bind_next h

theorem run_orElse_none {x y : Ptr β γ} (h : x.run s = .next (none, t)) :
    (x <|> y).run s = y.run t := by
  rw [OptionT.run_orElse]
  exact bind_next h

theorem run_lift_bind {x : Mem β γ} {f : γ → Ptr β δ} {c : γ} (h : x s = .next (c, t)) :
    ((liftM x : Ptr β γ) >>= f).run s = (f c).run t := by
  have hx : (x >>= fun c => pure (some c) : Mem β (Option γ)) s = .next (some c, t) := bind_next h
  exact run_bind_some hx

theorem pure_apply (c : γ) : (pure c : Mem β γ) s = .next (c, s) := rfl

theorem malloc_none (hs : s.supply 0 = none) : malloc b s = .next (none, s.later 1) := by
  simp only [malloc, hs]

theorem malloc_some (hs : s.supply 0 = some a) (ha : s.blocks a = none) :
    malloc b s = .next (some a, (s.later 1).put a b) := by
  simp only [malloc, hs, ha, Option.isNone_none, if_true]

theorem load_some (h : s.blocks a = some b) : load (some a) s = .next (b, s) := by
  simp [load, h]

theorem store_some {c : β} (h : s.blocks a = some c) : store (some a) b s =
    .next ((), s.put a b) := by
  simp [store, h]

theorem free_some (h : s.blocks a = some b) : free (some a) s = .next ((), s.erased [a]) := by
  simp [free, h]

@[simp] theorem put_self : (s.put a b).blocks a = some b := Function.update_self ..

theorem put_of_ne {x : ℕ} (h : x ≠ a) : (s.put a b).blocks x = s.blocks x :=
  Function.update_of_ne h ..

theorem put_put (c : β) : (s.put a b).put a c = s.put a c := by
  simp [Heap.put, Function.update_idem]

theorem erased_of_notMem {as : List ℕ} {x : ℕ} (h : x ∉ as) : (s.erased as).blocks x = s.blocks x :=
  if_neg h

@[simp] theorem erased_nil : s.erased [] = s := by
  simp [Heap.erased]

theorem erased_erased (as as' : List ℕ) : (s.erased as).erased as' = s.erased (as' ++ as) := by
  unfold Heap.erased
  congr 1
  funext x
  by_cases h : x ∈ as' <;> simp [h]

@[simp] theorem later_zero : s.later 0 = s := rfl

theorem erased_congr {as as' : List ℕ} (h : ∀ x, x ∈ as ↔ x ∈ as') :
    s.erased as = s.erased as' := by
  simp only [Heap.erased, h]

/-! ### What is still to be given -/

/-- `malloc` will give free addresses, each once. -/
structure Ready (s : Heap β) : Prop where
  once : ∀ {i j a : ℕ}, s.supply i = some a → s.supply j = some a → i = j
  unused : ∀ {i a : ℕ}, s.supply i = some a → s.blocks a = none

/-- A heap with the blocks `bs`, from the address 0 on, whose `k`-th allocation fails. -/
def Heap.failing (bs : List β) (k : ℕ) : Heap β :=
  ⟨fun x => bs[x]?, ⟨fun i => if i = k then none else some (i + bs.length), 0⟩⟩

theorem ready_failing (bs : List β) (k : ℕ) : Ready (Heap.failing bs k) where
  once := by
    intro i j a hi hj
    simp only [Heap.failing, Option.ite_none_left_eq_some, Option.some.injEq] at hi hj
    omega
  unused := by
    intro i a hi
    simp only [Heap.failing, Option.ite_none_left_eq_some, Option.some.injEq] at hi
    exact List.getElem?_eq_none (by omega)

/-- No allocation fails. -/
def Plenty (s : Heap β) : Prop := ∀ i, (s.supply i).isSome

/-- The other heap comes later. -/
def Since (s t : Heap β) : Prop := ∃ k, t.supply = (s.later k).supply

theorem Since.refl (s : Heap β) : Since s s := ⟨0, rfl⟩

theorem Since.of_eq (h : t.supply = s.supply) : Since s t := ⟨0, h⟩

theorem Since.trans {u : Heap β} (h : Since s t) (h' : Since t u) : Since s u := by
  obtain ⟨j, hj⟩ := h
  obtain ⟨k, hk⟩ := h'
  refine ⟨k + j, hk.trans ?_⟩
  show t.supply.later k = s.supply.later (k + j)
  rw [hj]
  exact Supply.later_later s.supply j k

theorem Since.plenty (h : Since s t) (hs : Plenty s) : Plenty t := by
  obtain ⟨k, hk⟩ := h
  intro i
  rw [hk]
  exact hs (i + k)

/-- One of the allocations made from one heap to the other has failed. -/
def Failed (s t : Heap β) : Prop := ∃ i, s.supply.made + i < t.supply.made ∧ s.supply i = none

theorem Failed.not_plenty (h : Failed s t) : ¬ Plenty s := by
  obtain ⟨i, -, hi⟩ := h
  exact fun hs => by simpa [hi] using hs i

theorem Failed.since {u : Heap β} (h : Failed s t) (h' : Since t u) : Failed s u := by
  obtain ⟨i, hlt, hi⟩ := h
  obtain ⟨k, hk⟩ := h'
  refine ⟨i, ?_, hi⟩
  rw [hk]
  exact Nat.lt_of_lt_of_le hlt (Nat.le_add_right _ k)

theorem Since.failed {u : Heap β} (h : Since s t) (h' : Failed t u) : Failed s u := by
  obtain ⟨k, hk⟩ := h
  obtain ⟨i, hlt, hi⟩ := h'
  rw [hk] at hlt hi
  refine ⟨i + k, ?_, hi⟩
  have hmade : (s.later k).supply.made = s.supply.made + k := rfl
  omega

/-- The addresses are among the next `k`. -/
structure Drawn (s : Heap β) (k : ℕ) (as : List ℕ) : Prop where
  nodup : as.Nodup
  mem : ∀ x ∈ as, ∃ i < k, s.supply i = some x

theorem drawn_nil (k : ℕ) : Drawn s k [] := ⟨List.nodup_nil, by simp⟩

theorem drawn_one (hs : s.supply 0 = some a) : Drawn s 1 [a] :=
  ⟨List.nodup_singleton a, fun _ hx => ⟨0, Nat.one_pos, List.mem_singleton.mp hx ▸ hs⟩⟩

theorem Drawn.unused {k : ℕ} {as : List ℕ} (h : Drawn s k as) (hr : Ready s) {x : ℕ} (hx : x ∈ as) :
    s.blocks x = none := by
  obtain ⟨i, -, hi⟩ := h.mem x hx
  exact hr.unused hi

/-- What is given later is not among them. -/
theorem Drawn.later {k : ℕ} {as : List ℕ} (h : Drawn s k as) (hr : Ready s) {i x : ℕ}
    (hx : (s.later k).supply i = some x) : x ∉ as := by
  intro hm
  obtain ⟨j, hj, hs⟩ := h.mem x hm
  have hij := hr.once hs hx
  omega

/-- The blocks of the addresses that will be given stay free. -/
theorem Ready.later {k : ℕ} (hr : Ready s) (ht : t.supply = (s.later k).supply)
    (hb : ∀ {i a : ℕ}, t.supply i = some a → t.blocks a = s.blocks a) : Ready t where
  once := by
    intro i j a hi hj
    rw [ht] at hi hj
    exact Nat.add_right_cancel (hr.once hi hj)
  unused := by
    intro i a hi
    have hi' := hi
    rw [ht] at hi'
    exact (hb hi).trans (hr.unused hi')

/-- **An allocation** fails, or gives a free address. -/
theorem malloc_cases (hr : Ready s) (b : β) :
    (malloc b s = .next (none, s.later 1) ∧ Failed s (s.later 1)) ∨
      ∃ a, s.supply 0 = some a ∧ s.blocks a = none ∧
        malloc b s = .next (some a, (s.later 1).put a b) := by
  rcases hs : s.supply 0 with _ | a
  · exact .inl ⟨malloc_none hs, 0, Nat.lt_succ_self _, hs⟩
  · exact .inr ⟨a, rfl, hr.unused hs, malloc_some hs (hr.unused hs)⟩

theorem alloc_cases (hr : Ready s) (b : β) :
    ((alloc b).run s = .next (none, s.later 1) ∧ Failed s (s.later 1)) ∨
      ∃ a, s.supply 0 = some a ∧ s.blocks a = none ∧
        (alloc b).run s = .next (some a, (s.later 1).put a b) :=
  malloc_cases hr b

/-! ### Blocks that are added -/

/-- Besides the blocks of `s` there are the blocks `bs`. -/
structure Adds (s t : Heap β) (bs : List (ℕ × β)) : Prop where
  nodup : (bs.map Prod.fst).Nodup
  unused : ∀ b ∈ bs, s.blocks b.1 = none
  held : ∀ b ∈ bs, t.blocks b.1 = some b.2
  rest : ∀ x, x ∉ bs.map Prod.fst → t.blocks x = s.blocks x
  ready : Ready t
  since : Since s t

section Adds

variable {bs cs : List (ℕ × β)} {c : β}

theorem fst_mem {d : ℕ × β} (hd : d ∈ bs) : d.1 ∈ bs.map Prod.fst := List.mem_map_of_mem hd

theorem adds_nil (hs : Ready s) : Adds s s [] :=
  ⟨by simp, by simp, by simp, fun _ _ => rfl, hs, Since.refl s⟩

theorem Adds.blocks_eq (h : Adds s t []) : t.blocks = s.blocks := funext fun x => h.rest x (by simp)

/-- A block in use, as one that was added. -/
theorem adds_erased (hs : Ready s) (ha : s.blocks a = some b) : Adds (s.erased [a]) s [(a, b)] where
  nodup := List.nodup_singleton a
  unused := by
    intro c hc
    rw [List.mem_singleton.mp hc]
    exact if_pos List.mem_cons_self
  held := by
    intro c hc
    rw [List.mem_singleton.mp hc]
    exact ha
  rest := fun x hx => (erased_of_notMem hx).symm
  ready := hs
  since := Since.of_eq rfl

/-- What is in use is no block that was added. -/
theorem Adds.of_ne_none (h : Adds s t bs) {x : ℕ} (hx : s.blocks x ≠ none) :
    t.blocks x = s.blocks x := by
  refine h.rest x fun hm => hx ?_
  obtain ⟨b, hb, rfl⟩ := List.mem_map.mp hm
  exact h.unused b hb

theorem Adds.perm (h : Adds s t bs) (hp : bs.Perm cs) : Adds s t cs where
  nodup := (hp.map Prod.fst).nodup_iff.mp h.nodup
  unused b hb := h.unused b (hp.mem_iff.mpr hb)
  held b hb := h.held b (hp.mem_iff.mpr hb)
  rest x hx := h.rest x fun hm => hx ((hp.map Prod.fst).mem_iff.mp hm)
  ready := h.ready
  since := h.since

theorem Adds.failed (h : Adds s t bs) : Adds s (t.later 1) bs :=
  ⟨h.nodup, h.unused, h.held, h.rest, h.ready.later rfl fun _ => rfl, h.since.trans ⟨1, rfl⟩⟩

/-- A block is allocated. -/
theorem Adds.alloc (h : Adds s t bs) (ha : t.supply 0 = some a) (b : β) :
    Adds s ((t.later 1).put a b) ((a, b) :: bs) := by
  have hnone := h.ready.unused ha
  have hnot : a ∉ bs.map Prod.fst := by
    intro hm
    obtain ⟨c, hc, rfl⟩ := List.mem_map.mp hm
    exact absurd (h.held c hc) (by simp [hnone])
  refine ⟨List.nodup_cons.mpr ⟨hnot, h.nodup⟩, ?_, ?_, fun x hx => ?_, ?_, h.since.trans ⟨1, rfl⟩⟩
  · rintro c (_ | ⟨_, hc⟩)
    · exact (h.rest a hnot).symm.trans hnone
    · exact h.unused c hc
  · rintro c (_ | ⟨_, hc⟩)
    · exact put_self
    · have hca : c.1 ≠ a := fun h0 => hnot (h0 ▸ fst_mem hc)
      exact (put_of_ne hca).trans (h.held c hc)
  · rw [List.map_cons, List.mem_cons, not_or] at hx
    exact (put_of_ne hx.1).trans (h.rest x hx.2)
  · refine h.ready.later (k := 1) rfl fun {i x} hi => put_of_ne ?_
    rintro rfl
    exact absurd (h.ready.once hi ha) (by omega)

/-- One of them is written. -/
theorem Adds.store (h : Adds s t ((a, b) :: bs)) (c : β) :
    store (some a) c t = .next ((), t.put a c) ∧ Adds s (t.put a c) ((a, c) :: bs) := by
  have hnot := (List.nodup_cons.mp h.nodup).1
  have hheld : t.blocks a = some b := h.held (a, b) List.mem_cons_self
  refine ⟨store_some hheld, h.nodup, ?_, ?_, fun x hx => ?_, ?_, h.since⟩
  · rintro d (_ | ⟨_, hd⟩)
    · exact h.unused (a, b) List.mem_cons_self
    · exact h.unused d (List.mem_cons_of_mem _ hd)
  · rintro d (_ | ⟨_, hd⟩)
    · exact put_self
    · have hmem := fst_mem hd
      have hda : d.1 ≠ a := fun h0 => hnot (h0 ▸ hmem)
      exact (put_of_ne hda).trans (h.held d (List.mem_cons_of_mem _ hd))
  · rw [List.map_cons, List.mem_cons, not_or] at hx
    exact (put_of_ne hx.1).trans (h.rest x (by simpa using hx))
  · refine h.ready.later (k := 0) rfl fun {i x} hi => put_of_ne ?_
    rintro rfl
    exact absurd (h.ready.unused hi) (by simp [hheld])

/-- One of them is freed. -/
theorem Adds.free (h : Adds s t ((a, b) :: bs)) :
    free (some a) t = .next ((), t.erased [a]) ∧ Adds s (t.erased [a]) bs := by
  have hnd := List.nodup_cons.mp h.nodup
  have hout : ∀ {x}, x ≠ a → (t.erased [a]).blocks x = t.blocks x := fun hx =>
    erased_of_notMem fun hm => hx (List.mem_singleton.mp hm)
  refine ⟨free_some (h.held (a, b) List.mem_cons_self), hnd.2, fun d hd =>
    h.unused d (List.mem_cons_of_mem _ hd),
    fun d hd => ?_, fun x hx => ?_, ?_, h.since⟩
  · have hmem := fst_mem hd
    have hda : d.1 ≠ a := fun h0 => hnd.1 (h0 ▸ hmem)
    exact (hout hda).trans (h.held d (List.mem_cons_of_mem _ hd))
  · by_cases hxa : x = a
    · rw [hxa, h.unused (a, b) List.mem_cons_self]
      exact if_pos List.mem_cons_self
    · exact (hout hxa).trans (h.rest x (by simpa [hxa] using hx))
  · refine h.ready.later (k := 0) rfl fun {i x} hi => hout ?_
    rintro rfl
    exact absurd (h.ready.unused hi) (by simp [h.held (x, b) List.mem_cons_self])

/-- More blocks are added. -/
theorem Adds.trans {u : Heap β} (h : Adds s t bs) (h' : Adds t u cs) : Adds s u (cs ++ bs) := by
  have hne : ∀ b ∈ bs, t.blocks b.1 ≠ none := fun b hb => by simp [h.held b hb]
  have hdisj : ∀ c ∈ cs, c.1 ∉ bs.map Prod.fst := by
    intro c hc hm
    obtain ⟨b, hb, heq⟩ := List.mem_map.mp hm
    exact hne b hb (heq ▸ h'.unused c hc)
  refine ⟨?_, ?_, ?_, fun x hx => ?_, h'.ready, h.since.trans h'.since⟩
  · rw [List.map_append, List.nodup_append]
    refine ⟨h'.nodup, h.nodup, fun x hx y hy hxy => ?_⟩
    obtain ⟨c, hc, rfl⟩ := List.mem_map.mp hx
    exact hdisj c hc (hxy ▸ hy)
  · intro d hd
    rcases List.mem_append.mp hd with hd | hd
    · rw [← h.rest d.1 (hdisj d hd), h'.unused d hd]
    · exact h.unused d hd
  · intro d hd
    rcases List.mem_append.mp hd with hd | hd
    · exact h'.held d hd
    · rw [h'.of_ne_none (hne d hd), h.held d hd]
  · rw [List.map_append, List.mem_append, not_or] at hx
    rw [h'.rest x hx.1, h.rest x hx.2]

end Adds

/-! ### Code that leaves no block behind -/

section Leaves

variable {s₀ : Heap β} {x : Mem β γ} {f : γ → Mem β δ} {c : γ} {d : δ}

/-- The code gives the result, and the memory holds what it held at `s₀`. -/
def Leaves (s₀ : Heap β) (x : Mem β γ) (s : Heap β) (c : γ) : Prop :=
  ∃ t, x s = .next (c, t) ∧ Adds s₀ t []

theorem leaves_pure (h : Adds s₀ s []) (c : γ) : Leaves s₀ (pure c) s c := ⟨s, rfl, h⟩

theorem leaves_bind (hx : x s = .next (c, t)) (h : Leaves s₀ (f c) t d) :
    Leaves s₀ (x >>= f) s d := by
  obtain ⟨u, hrun, hu⟩ := h
  exact ⟨u, (bind_next hx).trans hrun, hu⟩

end Leaves

end MultiPortConvertor.Lib.Heaps
