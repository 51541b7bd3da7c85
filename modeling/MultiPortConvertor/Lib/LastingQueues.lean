import Mathlib.Data.List.Basic
import Mathlib.Data.Nat.Notation

/-! # Queues that outlast the processes

A message queue with a name stays when the process that has it open ends, with its messages. The
record of such a queue has the number of the process that posted each message, oldest first, and
whether a process has found messages in the queue when it opened it. As long as none has, the
messages are the process's own; once one has, the oldest message is not, until somebody takes it
(`Running.head_iff`). -/

namespace MultiPortConvertor.Lib.LastingQueues

/-- The record of a queue. -/
structure Record where
  tags : List ℕ
  found : Bool
  deriving DecidableEq

namespace Record

/-- A process opens the queue. -/
def opened (r : Record) : Record := { r with found := r.found || !r.tags.isEmpty }

/-- The process `now` posts `n` messages. -/
def posted (now n : ℕ) (r : Record) : Record := { r with tags := r.tags ++ List.replicate n now }

/-- The oldest message is taken. -/
def taken (r : Record) : Record := { r with tags := r.tags.tail }

/-- A step of the process `now`: it may take the oldest message, and posts `n`. -/
def stepped (now : ℕ) (took : Bool) (n : ℕ) (r : Record) : Record :=
  (if took then r.taken else r).posted now n

/-- A queue that the process `now` has open. -/
structure Running (now : ℕ) (r : Record) : Prop where
  le : ∀ t ∈ r.tags, t ≤ now
  own : r.found = false → ∀ t ∈ r.tags, t = now
  old : r.found = true → ∃ t rest, r.tags = t :: rest ∧ t < now

/-- A queue that the process `now` has not opened yet. -/
structure Waiting (now : ℕ) (r : Record) : Prop where
  lt : ∀ t ∈ r.tags, t < now
  left : r.found = true → r.tags ≠ []

variable {now n : ℕ} {r : Record}

theorem waiting_start (now : ℕ) : Waiting now ⟨[], false⟩ := ⟨by simp, by simp⟩

/-- **The process opens the queue**, and finds messages exactly if there are any. -/
theorem Waiting.opened (h : Waiting now r) : Running now r.opened := by
  refine ⟨fun t ht => Nat.le_of_lt (h.lt t ht), fun hf t ht => ?_, fun hf => ?_⟩
  · have hnil : r.tags = [] := by
      simp only [Record.opened, Bool.or_eq_false_iff] at hf
      simpa using hf.2
    change t ∈ r.tags at ht
    simp [hnil] at ht
  · have hne : r.tags ≠ [] := by
      simp only [Record.opened, Bool.or_eq_true] at hf
      rcases hf with hf | hf
      · exact h.left hf
      · simpa using hf
    obtain ⟨t, rest, he⟩ := List.exists_cons_of_ne_nil hne
    exact ⟨t, rest, he, h.lt t (by simp [he])⟩

theorem opened_eq_false (h : r.opened.found = false) : r.tags = [] := by
  simp only [Record.opened, Bool.or_eq_false_iff] at h
  simpa using h.2

theorem Running.posted (h : Running now r) (n : ℕ) : Running now (r.posted now n) := by
  have hmem : ∀ t ∈ (r.posted now n).tags, t ∈ r.tags ∨ t = now := by
    intro t ht
    rcases List.mem_append.mp ht with ht | ht
    · exact .inl ht
    · exact .inr (List.eq_of_mem_replicate ht)
  refine ⟨fun t ht => ?_, fun hf t ht => ?_, fun hf => ?_⟩
  · exact (hmem t ht).elim (h.le t) fun he => Nat.le_of_eq he
  · exact (hmem t ht).elim (h.own hf t) id
  · obtain ⟨t, rest, he, hlt⟩ := h.old hf
    exact ⟨t, rest ++ List.replicate n now, by simp [Record.posted, he], hlt⟩

/-- A message is taken from a queue in which none was found. -/
theorem Running.taken (h : Running now r) (hf : r.found = false) : Running now r.taken :=
  ⟨fun t ht => h.le t (List.mem_of_mem_tail ht), fun _ t ht => h.own hf t (List.mem_of_mem_tail ht),
    fun hf' => by rw [show r.taken.found = r.found from rfl, hf] at hf'; cases hf'⟩

/-- **A step** that takes no message from a queue in which some were found. -/
theorem Running.stepped {took : Bool} (h : Running now r) (hf : took → r.found = false) (n : ℕ) :
    Running now (r.stepped now took n) := by
  cases took with
  | false => exact h.posted n
  | true => exact (h.taken (hf rfl)).posted n

@[simp] theorem stepped_found (took : Bool) : (r.stepped now took n).found = r.found := by
  cases took <;> rfl

theorem length_stepped (took : Bool) :
    (r.stepped now took n).tags.length = (if took then r.tags.length - 1 else r.tags.length) +
      n := by
  cases took <;> simp [Record.stepped, Record.posted, Record.taken]

/-- **The process ends.** -/
theorem Running.ended (h : Running now r) : Waiting (now + 1) r := by
  refine ⟨fun t ht => Nat.lt_succ_of_le (h.le t ht), fun hf => ?_⟩
  obtain ⟨t, rest, he, -⟩ := h.old hf
  simp [he]

theorem Waiting.ended (h : Waiting now r) : Waiting (now + 1) r :=
  ⟨fun t ht => Nat.lt_succ_of_lt (h.lt t ht), h.left⟩

/-- **The oldest message is the process's own** exactly if no messages were found. -/
theorem Running.head_iff (h : Running now r) (hne : r.tags ≠ []) :
    r.found = false ↔ r.tags.head? = some now := by
  constructor
  · intro hf
    obtain ⟨t, rest, he⟩ := List.exists_cons_of_ne_nil hne
    rw [he, List.head?_cons, h.own hf t (by simp [he])]
  · intro hhead
    by_contra hf
    obtain ⟨t, rest, he, hlt⟩ := h.old (by simpa using hf)
    rw [he, List.head?_cons] at hhead
    exact Nat.ne_of_lt hlt (Option.some.inj hhead)

end Record

end MultiPortConvertor.Lib.LastingQueues
