import MultiPortConvertor.Tool.BufFactory

/-! # Pointers that stay among their nodes

A set of nodes is closed if their links lead to nodes of the set. The operations keep it closed on
any lists, not only on rings: it also holds after a node has been put into a list twice. `Nodes`
says it of the nodes of a factory, whose owners are its buffers. -/

namespace MultiPortConvertor.Tool.ClosedLists

open MultiPortConvertor.Lib.Rings MultiPortConvertor.Lib.Outcomes
open MultiPortConvertor.Tool.IntrusiveList MultiPortConvertor.Tool.BufFactory

variable {α ω : Type}

/-- **The links of the nodes of `K` lead to nodes of `K`.** -/
structure Closed (K : α → Prop) (H : Heap α ω) : Prop where
  next : ∀ a b, K a → (H a).next = some b → K b
  prev : ∀ a b, K a → (H a).prev = some b → K b

/-- What an operation leaves as it is: the owners, and the nodes outside `K`. -/
structure Keeps (K : α → Prop) (H H' : Heap α ω) : Prop where
  owner : ∀ a, (H' a).owner = (H a).owner
  frame : ∀ a, ¬ K a → H' a = H a

section

variable {K : α → Prop} {H H' : Heap α ω} {new head entry : α}

theorem Closed.congr (h : Closed K H) (hf : ∀ a, K a → H' a = H a) : Closed K H' :=
  ⟨fun a b ha hb => h.next a b ha (hf a ha ▸ hb), fun a b ha hb => h.prev a b ha (hf a ha ▸ hb)⟩

variable [DecidableEq α]

/-- **`list_add_tail`** adds its node to the set. -/
theorem Closed.listAddTail (h : Closed K H) (hhead : K head)
    (he : listAddTail H new head = some H') : Closed (fun a => K a ∨ a = new) H' ∧
    Keeps (fun a => K a ∨ a = new) H H' := by
  unfold IntrusiveList.listAddTail rawListAdd at he
  cases hp : (H head).prev with
  | none => simp [hp] at he
  | some pv =>
    have hpv : K pv := h.prev head pv hhead hp
    simp only [hp, Option.bind_eq_bind, Option.bind_some, Option.pure_def, Option.some.injEq] at he
    subst he
    refine ⟨⟨fun a b ha hb => ?_, fun a b ha hb => ?_⟩, by simp, fun a ha => ?_⟩
    · simp only [setNext_next, setPrev_next] at hb
      split_ifs at hb with h1 h2
      · exact .inr (Option.some.inj hb).symm
      · exact .inl (Option.some.inj hb ▸ hhead)
      · exact .inl (h.next a b (ha.resolve_right h2) hb)
    · simp only [setNext_prev, setPrev_prev] at hb
      split_ifs at hb with h1 h2
      · exact .inl (Option.some.inj hb ▸ hpv)
      · exact .inr (Option.some.inj hb).symm
      · exact .inl (h.prev a b (ha.resolve_right h1) hb)
    · have h1 : a ≠ pv := fun he => ha (.inl (he ▸ hpv))
      have h2 : a ≠ new := fun he => ha (.inr he)
      have h3 : a ≠ head := fun he => ha (.inl (he ▸ hhead))
      simp [setNext_of_ne, setPrev_of_ne, h1, h2, h3]

/-- **`list_del`** keeps the set. -/
theorem Closed.listDel (h : Closed K H) (hentry : K entry) (he : listDel H entry = some H') :
    Closed K H' ∧ Keeps K H H' := by
  unfold IntrusiveList.listDel rawListDel at he
  cases hn : (H entry).next with
  | none => simp [hn] at he
  | some nx =>
    cases hp : (H entry).prev with
    | none => simp [hn, hp] at he
    | some pv =>
      have hnx : K nx := h.next entry nx hentry hn
      have hpv : K pv := h.prev entry pv hentry hp
      simp only [hn, hp, Option.bind_eq_bind, Option.bind_some, Option.pure_def,
        Option.some.injEq] at he
      subst he
      refine ⟨⟨fun a b ha hb => ?_, fun a b ha hb => ?_⟩, by simp, fun a ha => ?_⟩
      · simp only [setNext_next, setPrev_next] at hb
        split_ifs at hb with h1 h2
        · exact Option.some.inj hb ▸ hnx
        · exact h.next a b ha hb
      · simp only [setNext_prev, setPrev_prev] at hb
        split_ifs at hb with h1 h2
        · exact Option.some.inj hb ▸ hpv
        · exact h.prev a b ha hb
      · have h1 : a ≠ entry := fun he => ha (he ▸ hentry)
        have h2 : a ≠ pv := fun he => ha (he ▸ hpv)
        have h3 : a ≠ nx := fun he => ha (he ▸ hnx)
        simp [setNext_of_ne, setPrev_of_ne, h1, h2, h3]

end

/-! ### The nodes of a factory -/

/-- A list head of a factory with `num` buffers. -/
def HasNode (f : BufferFactory α) (num : ℕ) (a : α) : Prop := a = f.list ∨ ∃ i < num, a = f.node i

/-- **The nodes of a factory**: closed, and owned by its buffers. -/
structure Nodes (f : BufferFactory α) (num : ℕ) (H : Heap α Owner) : Prop where
  closed : Closed (HasNode f num) H
  owner : ∀ i < num, (H (f.node i)).owner = some i

section

variable {f : BufferFactory α} {num i : ℕ} {H H' : Heap α Owner}

/-- With all buffers free the nodes are a ring. -/
theorem nodes_of_pool (hp : Pool f num H (List.range num)) : Nodes f num H := by
  have hmem : ∀ a, HasNode f num a ↔ a ∈ f.list :: (List.range num).map f.node := by
    intro a
    simp [HasNode, eq_comm]
  refine ⟨⟨fun a b ha hb => ?_, fun a b ha hb => ?_⟩, hp.owner⟩
  · rw [hmem] at ha ⊢
    exact hp.ring.mem_of_next ha hb
  · rw [hmem] at ha ⊢
    exact hp.ring.mem_of_prev ha hb

theorem Nodes.congr (h : Nodes f num H) (hf : ∀ a, HasNode f num a → H' a = H a) : Nodes f num H' :=
  ⟨h.closed.congr hf, fun i hi => by rw [hf _ (.inr ⟨i, hi, rfl⟩)]; exact h.owner i hi⟩

variable [DecidableEq α]

/-- **`buf_factory_produce`** hands out a buffer of the factory. -/
theorem Nodes.produce (h : Nodes f num H) (he : bufFactoryProduce f H = .next (i, H')) :
    i < num ∧ Nodes f num H' ∧ Keeps (HasNode f num) H H' := by
  unfold bufFactoryProduce at he
  split_ifs at he with hempty
  obtain ⟨n, hn, he⟩ := Outcome.bind_eq_next.mp he
  obtain ⟨buf, hb, he⟩ := Outcome.bind_eq_next.mp he
  obtain ⟨H₁, hd, he⟩ := Outcome.bind_eq_next.mp he
  cases he
  rw [Outcome.ofOption_eq_next] at hn hb hd
  have hlist : HasNode f num f.list := .inl rfl
  obtain he | ⟨j, hj, rfl⟩ := h.closed.next f.list n hlist hn
  · simp [listEmpty, hn, he] at hempty
  · obtain rfl : j = i := Option.some.inj ((h.owner j hj).symm.trans hb)
    obtain ⟨hc, hk⟩ := h.closed.listDel (.inr ⟨j, hj, rfl⟩) hd
    exact ⟨hj, ⟨hc, fun m hm => by rw [hk.owner]; exact h.owner m hm⟩, hk⟩

/-- **`buf_factory_recycle`** puts a buffer of the factory back. -/
theorem Nodes.recycle (h : Nodes f num H) (hi : i < num) (he : bufFactoryRecycle f i H = .next H') :
    Nodes f num H' ∧ Keeps (HasNode f num) H H' := by
  have hnode : ∀ a, HasNode f num a ∨ a = f.node i ↔ HasNode f num a := fun a =>
    or_iff_left_of_imp fun ha => .inr ⟨i, hi, ha⟩
  obtain ⟨hc, hk⟩ := h.closed.listAddTail (.inl rfl) (Outcome.ofOption_eq_next.mp he)
  simp only [hnode] at hc hk
  exact ⟨⟨hc, fun m hm => by rw [hk.owner]; exact h.owner m hm⟩, hk⟩

end

end MultiPortConvertor.Tool.ClosedLists
