import MultiPortConvertor.Lib.Runs
import MultiPortConvertor.Tool.BufFactory

/-! # Runs of a buffer factory

Calls of `buf_factory_produce` and `buf_factory_recycle` after `create_buf_factory`, in any order.
The record of a run has the buffers handed out, and the time since which each of the others is free.
As long as a call gives back a buffer that is handed out, or takes one while there is one, the ring
has the others, in the order in which they have become free (`conserves_fifo`). -/

namespace MultiPortConvertor.Tool.PoolRuns

open MultiPortConvertor.Lib.Rings MultiPortConvertor.Lib.Outcomes MultiPortConvertor.Lib.Runs
open MultiPortConvertor.Tool.IntrusiveList MultiPortConvertor.Tool.BufFactory

variable {α : Type}

/-- The calls. -/
inductive Action where
  | produce
  | recycle (b : ℕ)
  deriving DecidableEq

/-- The heap, the buffers handed out, and the time since which a buffer is free. -/
structure Watched (α : Type) where
  heap : Heap α Owner
  out : List ℕ
  clock : ℕ
  since : ℕ → ℕ

/-- After `create_buf_factory`, which makes the buffers free one after the other. -/
def start (H : Heap α Owner) (num : ℕ) : Watched α := ⟨H, [], num, id⟩

/-- The calls in question: a buffer is taken while one is free, and one given back that is handed
out. -/
def Legal (num : ℕ) (w : Watched α) : Action → Prop
  | .produce => ∃ b < num, b ∉ w.out
  | .recycle b => b ∈ w.out

instance (num : ℕ) (w : Watched α) : DecidablePred (Legal num w)
  | .produce => inferInstanceAs (Decidable (∃ b < num, b ∉ w.out))
  | .recycle b => inferInstanceAs (Decidable (b ∈ w.out))

/-- **Conservation**: the ring has the buffers that are not handed out, each once, and every node
has its buffer as owner. -/
def Conserves (f : BufferFactory α) (num : ℕ) (w : Watched α) : Prop :=
  (∃ free : List ℕ, Ring w.heap.links f.list (free.map f.node) ∧ free.Nodup ∧
      ∀ b, b ∈ free ↔ b < num ∧ b ∉ w.out) ∧
    (∀ b < num, (w.heap (f.node b)).owner = some b) ∧ w.out.Nodup ∧ ∀ b ∈ w.out, b < num

variable (f : BufferFactory α)

/-- **The invariant**, with the free buffers in their order. -/
structure Kept (num : ℕ) (w : Watched α) (free : List ℕ) : Prop where
  pool : Pool f num w.heap free
  perm : (free ++ w.out).Perm (List.range num)
  sorted : free.Pairwise fun b c => w.since b < w.since c
  lt : ∀ b ∈ free, w.since b < w.clock

section

variable {f} {num b : ℕ} {w : Watched α} {free : List ℕ}

theorem Kept.nodup (h : Kept f num w free) : (free ++ w.out).Nodup :=
  h.perm.nodup_iff.mpr List.nodup_range

theorem Kept.notMem_free (h : Kept f num w free) (hb : b ∈ w.out) : b ∉ free := fun hf =>
  (List.nodup_append.mp h.nodup).2.2 b hf b hb rfl

theorem Kept.lt_of_out (h : Kept f num w free) (hb : b ∈ w.out) : b < num :=
  List.mem_range.mp (h.perm.mem_iff.mp (List.mem_append_right _ hb))

/-- **The free buffers** are those that are not handed out. -/
theorem Kept.mem_free (h : Kept f num w free) : b ∈ free ↔ b < num ∧ b ∉ w.out := by
  constructor
  · exact fun hf => ⟨h.pool.lt b hf, fun ho => h.notMem_free ho hf⟩
  · rintro ⟨hlt, ho⟩
    exact (List.mem_append.mp (h.perm.mem_iff.mpr (List.mem_range.mpr hlt))).resolve_right ho

theorem Kept.conserves (h : Kept f num w free) : Conserves f num w :=
  ⟨⟨free, h.pool.ring, h.pool.nodup, fun _ => h.mem_free⟩, h.pool.owner,
    (List.nodup_append.mp h.nodup).2.1, fun _ hb => h.lt_of_out hb⟩

/-- The oldest of the free buffers. -/
theorem Kept.exists_cons (h : Kept f num w free) (hl : Legal num w .produce) :
    ∃ b rest, free = b :: rest := by
  obtain ⟨b, hlt, ho⟩ := hl
  exact List.exists_cons_of_ne_nil (List.ne_nil_of_mem (h.mem_free.mpr ⟨hlt, ho⟩))

theorem Kept.produce {rest : List ℕ} {H : Heap α Owner} (h : Kept f num w (b :: rest))
    (hp : Pool f num H rest) : Kept f num { w with heap := H, out := b :: w.out } rest where
  pool := hp
  perm := List.perm_middle.trans h.perm
  sorted := (List.pairwise_cons.mp h.sorted).2
  lt := fun c hc => h.lt c (List.mem_cons_of_mem _ hc)

theorem Kept.recycle {H : Heap α Owner} (h : Kept f num w free) (hb : b ∈ w.out)
    (hp : Pool f num H (free ++ [b])) :
    Kept f num { heap := H, out := w.out.erase b, clock := w.clock + 1,
                 since := Function.update w.since b w.clock } (free ++ [b]) := by
  have hne : ∀ c ∈ free, c ≠ b := fun c hc he => h.notMem_free hb (he ▸ hc)
  have hold : ∀ c ∈ free, Function.update w.since b w.clock c = w.since c :=
    fun c hc => Function.update_of_ne (hne c hc) _ _
  refine ⟨hp, ?_, ?_, fun c hc => ?_⟩
  · have hout : ([b] ++ w.out.erase b).Perm w.out := (List.perm_cons_erase hb).symm
    rw [List.append_assoc]
    exact (hout.append_left free).trans h.perm
  · refine List.pairwise_append.mpr ⟨?_, List.pairwise_singleton _ _, fun c hc d hd => ?_⟩
    · refine h.sorted.imp_of_mem fun {c d} hc hd hlt => ?_
      dsimp only
      rwa [hold c hc, hold d hd]
    · dsimp only
      rw [List.mem_singleton.mp hd, hold c hc, Function.update_self]
      exact h.lt c hc
  · dsimp only
    rcases List.mem_append.mp hc with hc | hc
    · rw [hold c hc]
      exact Nat.lt_succ_of_lt (h.lt c hc)
    · rw [List.mem_singleton.mp hc, Function.update_self]
      exact Nat.lt_succ_self _

end

variable [DecidableEq α]

/-- One call with its record, for runs. -/
def watch (w : Watched α) : Action → Option (Watched α)
  | .produce => (bufFactoryProduce f w.heap).toOption.map fun (b, H) =>
      { w with heap := H, out := b :: w.out }
  | .recycle b => (bufFactoryRecycle f b w.heap).toOption.map fun H =>
      { heap := H, out := w.out.erase b, clock := w.clock + 1,
        since := Function.update w.since b w.clock }

/-- **First in, first out**: a call ends, and hands out the buffer that is free longest, which is
not handed out. -/
def Fifo (num : ℕ) (w : Watched α) : Action → Prop
  | .produce => ∃ b H, bufFactoryProduce f w.heap = .next (b, H) ∧ b < num ∧ b ∉ w.out ∧
      ∀ c < num, c ∉ w.out → c ≠ b → w.since b < w.since c
  | .recycle b => ∃ H, bufFactoryRecycle f b w.heap = .next H

section

variable {f} {num : ℕ} {w w' : Watched α} {a : Action} {free : List ℕ}

/-- **The invariant is kept** by the calls in question. -/
theorem Kept.watch (h : Kept f num w free) (hl : Legal num w a) (hn : watch f w a = some w') :
    ∃ free', Kept f num w' free' := by
  cases a with
  | produce =>
    obtain ⟨b, rest, rfl⟩ := h.exists_cons hl
    obtain ⟨H, he, hp, -⟩ := bufFactoryProduce_spec h.pool
    simp only [PoolRuns.watch, he, Outcome.toOption, Option.map_some, Option.some.injEq] at hn
    subst hn
    exact ⟨rest, h.produce hp⟩
  | recycle b =>
    obtain ⟨H, he, hp, -⟩ := bufFactoryRecycle_spec h.pool (h.notMem_free hl) (h.lt_of_out hl)
    simp only [PoolRuns.watch, he, Outcome.toOption, Option.map_some, Option.some.injEq] at hn
    subst hn
    exact ⟨free ++ [b], h.recycle hl hp⟩

theorem Kept.fifo (h : Kept f num w free) (hl : Legal num w a) : Fifo f num w a := by
  cases a with
  | produce =>
    obtain ⟨b, rest, rfl⟩ := h.exists_cons hl
    obtain ⟨H, he, -⟩ := bufFactoryProduce_spec h.pool
    have hb := h.mem_free.mp List.mem_cons_self
    refine ⟨b, H, he, hb.1, hb.2, fun c hlt ho hne => ?_⟩
    have hc : c ∈ rest := (List.mem_cons.mp (h.mem_free.mpr ⟨hlt, ho⟩)).resolve_left hne
    exact (List.pairwise_cons.mp h.sorted).1 c hc
  | recycle b =>
    obtain ⟨H, he, -⟩ := bufFactoryRecycle_spec h.pool (h.notMem_free hl) (h.lt_of_out hl)
    exact ⟨H, he⟩

theorem kept_start {H₀ H : Heap α Owner} (he : createBufFactory f num H₀ = .next H) :
    Kept f num (start H num) (List.range num) := by
  obtain ⟨H', he', hp, -⟩ := createBufFactory_spec (f := f) H₀ num
  obtain rfl := Outcome.next.inj (he.symm.trans he')
  refine ⟨hp, by simp [start], ?_, fun b hb => List.mem_range.mp hb⟩
  exact List.pairwise_lt_range

end

/-- **A factory is a pool that conserves its buffers, first in, first out**: in every run of calls
in question after `create_buf_factory` the ring has the buffers that are not handed out in every
state, and every call hands out the one that is free longest. -/
theorem conserves_fifo {f : BufferFactory α} {num : ℕ} {H₀ H : Heap α Owner}
    (he : createBufFactory f num H₀ = .next H) {as : List Action}
    (hl : Steps (watch f) (Legal num) (start H num) as) :
    States (watch f) (Conserves f num) (start H num) as ∧
      Steps (watch f) (Fifo f num) (start H num) as := by
  have hstart : ∃ free, Kept f num (start H num) free := ⟨_, kept_start he⟩
  have hstep : ∀ w a w', (∃ free, Kept f num w free) → Legal num w a → watch f w a = some w' →
      ∃ free, Kept f num w' free := fun w a w' ⟨_, h⟩ hl hn => h.watch hl hn
  refine ⟨(states_of_guarded hstep hstart hl).mono fun w ⟨_, h⟩ => h.conserves, ?_⟩
  exact steps_of_guarded hstep (fun w a ⟨_, h⟩ hl => h.fifo hl) hstart hl

/-- The heap of a factory with two buffers. -/
def heapNew : Heap ℕ Owner :=
  ((createBufFactory factoryNew 2 heapClear).toOption).get (by decide +kernel)

/-- Both buffers are taken, and given back in the other order. -/
def takenTwice : List Action := [.produce, .produce, .recycle 1, .recycle 0, .produce]

/-- The theorem applied to this run. -/
theorem conserves_fifo_takenTwice :
    States (watch factoryNew) (Conserves factoryNew 2) (start heapNew 2) takenTwice ∧
      Steps (watch factoryNew) (Fifo factoryNew 2) (start heapNew 2) takenTwice :=
  conserves_fifo (Outcome.toOption_eq_some.mp (Option.some_get _).symm) (by decide +kernel)

end MultiPortConvertor.Tool.PoolRuns
