import MultiPortConvertor.Uart.Exhaustion
import MultiPortConvertor.Uart.Retransmission

/-! # The poll fields of an entry just linked

Nothing clears `delay`, `times` and `free_flag` when an entry is linked: the tasks clear them when
they give a buffer back. The free ring is a queue, so the first sixteen buffers taken are the
buffers in their order, with the poll fields that `malloc` has left in their memory, and every later
one has been given back (`Used`). -/

namespace MultiPortConvertor.Uart.FreshEntries

open MultiPortConvertor.Lib.Bytes MultiPortConvertor.Lib.Outcomes MultiPortConvertor.Lib.Runs
open MultiPortConvertor.Tool.IntrusiveList MultiPortConvertor.Tool.BufFactory
open MultiPortConvertor.Uart.Format
open MultiPortConvertor.Uart.Dispose MultiPortConvertor.Uart.Parse MultiPortConvertor.Uart.Transmit
open MultiPortConvertor.Uart.TransmitQueues MultiPortConvertor.Uart.Ownership
open MultiPortConvertor.Uart.Refinement MultiPortConvertor.Uart.Release
open MultiPortConvertor.Uart.Exhaustion MultiPortConvertor.Uart.Schedule
open MultiPortConvertor.Uart.Retransmission

/-- An entry that the step links has its fields zero. -/
def LinksFresh (s : Tx) (a : Action) : Prop :=
  ∀ s' es b, s.step a = .next (s', es) → .produce b ∈ es → b ∈ s'.sendList ∧ Blank (s'.mem b).poll

/-- No entry is unlinked and no buffer of one given back before it is posted. -/
def PostedFirst (w : Watched) : Prop :=
  ∀ e, w.Logged e → e.linked = false ∨ e.recycles ≠ [] → e.posts ≠ []

/-- **The first `n` buffers have been used**: the others are at the head of the free ring with their
poll fields as they were at the start, and the free buffers behind them have been given back. -/
structure Used (mem : ℕ → UartSendFormat) (n : ℕ) (k : Books) : Prop where
  le : n ≤ uartSendBufNum
  free : ∃ back, k.free = List.range' n (uartSendBufNum - n) ++ back ∧
    ∀ b ∈ back, (k.mem b).poll = .cleared
  poll : ∀ b, n ≤ b → b < uartSendBufNum → (k.mem b).poll = (mem b).poll

section

variable {mem : ℕ → UartSendFormat} {n b : ℕ} {k k' : Books} {t : Option Message} {es : List Event}
variable {q q' : Queues} {s s' : Tx} {a : Action}

theorem range_succ (h : n < uartSendBufNum) : List.range' n (uartSendBufNum - n) =
    n :: List.range' (n + 1) (uartSendBufNum - (n + 1)) := by
  rw [show uartSendBufNum - n = uartSendBufNum - (n + 1) + 1 by omega, List.range'_succ]

/-- The next buffer: a new one, with its poll fields as at the start, or one that has been given
back. -/
theorem Used.next (h : Used mem n k) {free : List ℕ} (hf : k.free = b :: free) :
    (n < uartSendBufNum ∧ b = n ∧ (k.mem b).poll = (mem n).poll) ∨
      (n = uartSendBufNum ∧ (k.mem b).poll = .cleared) := by
  obtain ⟨back, hfree, hback⟩ := h.free
  rw [hf] at hfree
  rcases h.le.lt_or_eq with hlt | rfl
  · rw [range_succ hlt, List.cons_append] at hfree
    obtain rfl := (List.cons.inj hfree).1
    exact .inl ⟨hlt, rfl, h.poll b le_rfl hlt⟩
  · rw [Nat.sub_self, List.range'_zero, List.nil_append] at hfree
    exact .inr ⟨rfl, hback b (by simp [← hfree])⟩

/-- A buffer is taken. -/
theorem Used.taken (h : Used mem n k) (hb : Booked k) (hc : Change t k es k')
    (hf : k.free = b :: k'.free) : Used mem (min (n + 1) uartSendBufNum) k' := by
  obtain ⟨back, hfree, hback⟩ := h.free
  have hpoll : ∀ x ∈ k'.free, (k'.mem x).poll = (k.mem x).poll := by
    intro x hx
    rw [hb.poll_of_free hc hx, if_pos (by simp [hf, hx])]
  rw [hf] at hfree
  rcases h.le.lt_or_eq with hlt | rfl
  · rw [range_succ hlt, List.cons_append] at hfree
    have hfree' := (List.cons.inj hfree).2
    rw [min_eq_left hlt]
    refine ⟨hlt, ⟨back, hfree', fun x hx => ?_⟩, fun x hn hx => ?_⟩
    · rw [hpoll x (by simp [hfree', hx])]
      exact hback x hx
    · have hm : x ∈ k'.free := by
        rw [hfree']
        exact List.mem_append_left _ (List.mem_range'_1.mpr (by omega))
      rw [hpoll x hm]
      exact h.poll x (Nat.le_of_succ_le hn) hx
  · rw [Nat.sub_self, List.range'_zero, List.nil_append] at hfree
    rw [min_eq_right (Nat.le_succ _)]
    refine ⟨le_rfl, ⟨k'.free, by simp, fun x hx => ?_⟩, fun x hn hx => absurd hx hn.not_gt⟩
    rw [hpoll x hx]
    exact hback x (by simp [← hfree, hx])

/-- No buffer is taken. -/
theorem Used.untaken (h : Used mem n k) (hb : Booked k) (hb' : Booked k') (hc : Change t k es k')
    {more : List ℕ} (hf : k'.free = k.free ++ more) : Used mem n k' := by
  obtain ⟨back, hfree, hback⟩ := h.free
  have hpoll : ∀ x ∈ k.free, (k'.mem x).poll = (k.mem x).poll := by
    intro x hx
    rw [hb.poll_of_free hc (by simp [hf, hx]), if_pos hx]
  refine ⟨h.le, ⟨back ++ more, by rw [hf, hfree, List.append_assoc], fun x hx => ?_⟩,
    fun x hn hx => ?_⟩
  · rcases List.mem_append.mp hx with hx | hx
    · rw [hpoll x (by simp [hfree, hx])]
      exact hback x hx
    · have hnd : k'.free.Nodup := (List.nodup_append.mp hb'.nodup).1
      have hnew : x ∉ k.free := by
        rw [hf] at hnd
        exact fun hm => (List.nodup_append.mp hnd).2.2 x hm x hx rfl
      rw [hb.poll_of_free hc (by simp [hf, hx]), if_neg hnew]
  · have hm : x ∈ k.free := by
      rw [hfree]
      exact List.mem_append_left _ (List.mem_range'_1.mpr (by omega))
    rw [hpoll x hm]
    exact h.poll x hn hx

/-! ### The steps -/

/-- A step that takes a buffer takes the head of the free ring and links it, with its poll fields
but for the type as they were. -/
theorem takes_next (h : q.step a = .next (q', es)) (ht : Takes a) :
    ∃ b type, es = [.produce b] ∧ q.free = b :: q'.free ∧ b ∈ q'.list ∧
      (q'.mem b).poll = { (q.mem b).poll with type := type } := by
  have enqueue : ∀ {fill type r}, q.enqueue fill type = .next (r, es) → q'.free = r.free →
      q'.list = r.list → q'.mem = r.mem → ∃ b type, es = [.produce b] ∧ q.free = b :: q'.free ∧
        b ∈ q'.list ∧ (q'.mem b).poll = { (q.mem b).poll with type := type } := by
    intro fill type r h hfree hlist hmem
    obtain ⟨b, free, hf, rfl, rfl⟩ := Queues.enqueue_next h
    refine ⟨b, type, rfl, by rw [hfree, hf], by rw [hlist]; simp [Queues.list], ?_⟩
    rw [hmem]
    simp
  cases a with
  | dispose info =>
    obtain ⟨⟨r, es'⟩, hr, hn⟩ := Outcome.bind_eq_next.mp h
    cases hn
    exact enqueue hr rfl rfl rfl
  | recv p =>
    cases p with
    | respond r => exact enqueue h rfl rfl rfl
    | dropped | acknowledge => cases ht
  | pollLock | pollEntry | pollUnlock | take | write | test => cases ht

theorem not_takes_next (h : q.step a = .next (q', es)) (ht : ¬ Takes a) : .produce b ∉ es := by
  cases a with
  | dispose info => exact absurd trivial ht
  | recv p =>
    cases p with
    | respond r => exact absurd trivial ht
    | dropped =>
      cases h
      simp
    | acknowledge sn reply =>
      obtain ⟨rfl, -⟩ := Queues.acknowledge_next h
      simp
  | pollLock | pollUnlock =>
    simp only [Queues.step] at h
    split_ifs at h
    cases h
    simp
  | pollEntry =>
    simp only [Queues.step] at h
    split_ifs at h
    split at h
    · cases h
    · obtain ⟨-, -, rfl, -⟩ | ⟨-, -, rfl, -⟩ | ⟨-, -, rfl, -⟩ | ⟨-, rfl, -⟩ :=
        Queues.treat_next h <;> simp
  | take =>
    simp only [Queues.step] at h
    split at h <;> cases h
    simp
  | write nsend =>
    simp only [Queues.step, Queues.sendWrite] at h
    split at h
    · split_ifs at h <;> cases h <;> simp
    · cases h
  | test =>
    simp only [Queues.step] at h
    split at h
    · split_ifs at h <;> cases h <;> simp
    · cases h

/-- A state in order in which the first `n` buffers have been used. -/
def Stocked (mem : ℕ → UartSendFormat) (n : ℕ) (s : Tx) : Prop :=
  ∃ q, Rep s q ∧ Booked q.books ∧ q.Rewound ∧ Used mem n q.books

/-- **A step that takes a buffer** links a fresh entry exactly if the buffer is not a new one with
another field than zero. -/
theorem Stocked.takes (h : Stocked mem n s) (hg : ¬ ReleasesLinked s a) (hn : next s a = some s')
    (ht : Takes a) : (LinksFresh s a ↔ (n < uartSendBufNum → Blank (mem n).poll)) ∧
      Stocked mem (min (n + 1) uartSendBufNum) s' := by
  obtain ⟨q, hr, ho, hw, hu⟩ := h
  obtain ⟨⟨s', es⟩, hs, rfl⟩ := Option.map_eq_some_iff.mp hn
  obtain ⟨q', hq, hr', ho', hw', hc⟩ := step_booked hr ho hw hg (Outcome.toOption_eq_some.mp hs)
  obtain ⟨b, type, rfl, hf, hb, hpoll⟩ := takes_next hq ht
  refine ⟨?_, q', hr', ho', hw', hu.taken ho hc hf⟩
  have hlinks : LinksFresh s a ↔ Blank (q.mem b).poll := by
    have hblank : Blank (s'.mem b).poll ↔ Blank (q.mem b).poll := by
      rw [hr'.mem, hpoll]
      exact Iff.rfl
    rw [← hblank]
    constructor
    · exact fun hl => (hl s' _ b (Outcome.toOption_eq_some.mp hs) (by simp)).2
    · intro hz s'' es c he hc
      rw [Outcome.toOption_eq_some.mp hs] at he
      cases he
      cases List.mem_singleton.mp hc
      refine ⟨?_, hz⟩
      rw [sendList_eq hr' (length_list_le ho')]
      exact hb
  rw [hlinks]
  obtain ⟨hlt, -, he⟩ | ⟨rfl, he⟩ := hu.next hf
  · rw [show (q.mem b).poll = (mem n).poll from he]
    exact ⟨fun hz _ => hz, fun hz => hz hlt⟩
  · rw [show (q.mem b).poll = .cleared from he]
    exact iff_of_true ⟨rfl, rfl, rfl⟩ fun h => absurd h (lt_irrefl _)

/-- A step that takes no buffer. -/
theorem Stocked.not_takes (h : Stocked mem n s) (hg : ¬ ReleasesLinked s a)
    (hn : next s a = some s') (ht : ¬ Takes a) : LinksFresh s a ∧ Stocked mem n s' := by
  obtain ⟨q, hr, ho, hw, hu⟩ := h
  obtain ⟨⟨s', es⟩, hs, rfl⟩ := Option.map_eq_some_iff.mp hn
  obtain ⟨q', hq, hr', ho', hw', hc⟩ := step_booked hr ho hw hg (Outcome.toOption_eq_some.mp hs)
  constructor
  · intro s'' es' b he hb
    rw [Outcome.toOption_eq_some.mp hs] at he
    cases he
    exact absurd hb (not_takes_next hq ht)
  · obtain ⟨b, rfl, -⟩ | ⟨back, hf⟩ := free_change hc
    · exact absurd (List.mem_singleton_self _) (not_takes_next hq ht)
    · exact ⟨q', hr', ho', hw', hu.untaken ho ho' hc hf⟩

/-! ### Runs -/

/-- **The entries of a run are fresh** exactly if the buffers it uses for the first time are. -/
theorem steps_linksFresh : ∀ {as : List Action} {s t : Tx} {n : ℕ}, Stocked mem n s →
    exec next s as = some t → Steps next (fun s a => ¬ ReleasesLinked s a) s as →
      (Steps next LinksFresh s as ↔
        ∀ b, n ≤ b → b < min (n + as.countP (Takes ·)) uartSendBufNum → Blank (mem b).poll)
  | [], s, t, n, _, _, _ => by
    refine iff_of_true trivial fun b hn hb => ?_
    rw [List.countP_nil] at hb
    omega
  | a :: as, s, t, n, h, he, hg => by
    obtain ⟨s', hs', he⟩ := Option.bind_eq_some_iff.mp he
    have hsteps : Steps next LinksFresh s (a :: as) ↔
        LinksFresh s a ∧ Steps next LinksFresh s' as := by
      refine and_congr Iff.rfl ?_
      simp [hs']
    rw [hsteps]
    by_cases ht : Takes a
    · obtain ⟨hlinks, h'⟩ := h.takes hg.1 hs' ht
      rw [hlinks, steps_linksFresh h' he (hg.2 s' hs'), List.countP_cons_of_pos (by simpa using ht)]
      constructor
      · rintro ⟨hfirst, hrest⟩ b hn hb
        rcases hn.eq_or_lt with rfl | hn
        · exact hfirst (by omega)
        · exact hrest b (by omega) (by omega)
      · intro hall
        exact ⟨fun hlt => hall n le_rfl (by omega), fun b hn hb => hall b (by omega) (by omega)⟩
    · obtain ⟨hlinks, h'⟩ := h.not_takes hg.1 hs' ht
      rw [steps_linksFresh h' he (hg.2 s' hs'), List.countP_cons_of_neg (by simpa using ht)]
      exact and_iff_right hlinks

theorem stocked_start {H : Heap Addr Owner} (h : uartContextInit H mem = .next s) :
    Stocked mem 0 s := by
  refine ⟨start mem, rep_start h, init_booked mem, fun _ => rfl, Nat.zero_le _,
    ⟨[], ?_, by simp⟩, ?_⟩
  · simp [start, Queues.books, List.range_eq_range']
  · exact fun b _ _ => rfl

theorem postedFirst {w : Watched} (h : Tracked w) : PostedFirst w := by
  obtain ⟨q, -, -, -, ht⟩ := h
  rintro e (he | ⟨b, he⟩) hdropped
  · exact (ht.past e he).posts_ne_nil
  · by_cases hb : b ∈ q.list
    · have hlive := ht.live b hb e he
      rcases hdropped with hl | hr
      · rw [hlive.linked] at hl
        cases hl
      · exact absurd hlive.recycles hr
    · exact (ht.gone b hb e he).1.posts_ne_nil

end

/-- **When every entry is fresh.** Whatever memory `malloc` has left, in a run in which the send
task never finds the flag of an entry that is still linked, every entry has its fields zero when it
is linked, and is posted before it is dropped, exactly if the fields were zero at the start in those
of the sixteen buffers that the run has occasion to use: the first as many as it takes buffers. -/
theorem linksFresh_iff {H : Heap Addr Owner} {mem : ℕ → UartSendFormat} {s t : Tx}
    (h : uartContextInit H mem = .next s) {as : List Action} (he : exec next s as = some t)
    (hg : Steps next (fun s a => ¬ ReleasesLinked s a) s as) :
    (Steps next LinksFresh s as ∧ States watch PostedFirst (watched s) as) ↔
      ∀ b < min (as.countP (Takes ·)) uartSendBufNum, Blank (mem b).poll := by
  have hpart : ∀ w a, next w.tx a = (watch w a).map Watched.tx := by
    intro w a
    simp [next, watch, Watched.after, Function.comp_def]
  have hwatch : Steps watch (fun w a => ¬ ReleasesLinked w.tx a) (watched s) as :=
    (steps_part (P := fun s a => ¬ ReleasesLinked s a) Watched.tx hpart).mpr hg
  have hsleep : s.pollTsk = .sleep := by
    obtain ⟨H', -, hs⟩ := Outcome.bind_eq_next.mp h
    cases hs
    rfl
  have hposted : States watch PostedFirst (watched s) as :=
    (states_of_guarded (fun w a w' h hg hn => tracked_watch h hg hn)
      (tracked_watched (orderly_init h) hsleep) hwatch).mono fun w hw => postedFirst hw
  rw [and_iff_left hposted, steps_linksFresh (stocked_start h) he hg]
  simp

/-- A notification and its first pass. -/
def firstNtf : List Action := [.dispose (hidInsertNtf 1), .pollLock, .pollEntry]

/-- The state then. -/
def txFirst : Tx := (exec next txInit firstNtf).get (by decide +kernel)

/-- The theorem applied to these steps. -/
theorem linksFresh_firstNtf :
    (Steps next LinksFresh txInit firstNtf ∧ States watch PostedFirst (watched txInit) firstNtf) ↔
      ∀ b < min (firstNtf.countP (Takes ·)) uartSendBufNum, Blank (memInit b).poll :=
  linksFresh_iff uartContextInit_txInit (show exec next txInit firstNtf = some txFirst from
    (Option.some_get _).symm) (by decide +kernel)

/-- Memory in which `malloc` has left ones. -/
def memDirty : ℕ → UartSendFormat := fun _ => ⟨0, ⟨1, 1, 1, 1⟩, filled 0⟩

/-- The state at the start with this memory. -/
def txDirty : Tx := ((uartContextInit heapInit memDirty).toOption).get (by decide +kernel)

theorem uartContextInit_txDirty : uartContextInit heapInit memDirty = .next txDirty :=
  Outcome.toOption_eq_some.mp (Option.some_get _).symm

/-- The state after the first pass of the notification. -/
def txDropped : Tx := (exec next txDirty firstNtf).get (by decide +kernel)

/-- The notification is linked with its fields not zero, and its first pass gives its buffer back
without having posted a message. -/
theorem firstNtf_dropped : ¬ Steps next LinksFresh txDirty firstNtf ∧
    (exec next txDirty firstNtf).map (fun s => (s.mailbox, s.sendList, s.freeRing.getLast?)) =
      some ([], [], some 0) := by
  constructor
  · have hexec : exec next txDirty firstNtf = some txDropped := (Option.some_get _).symm
    rw [steps_linksFresh (stocked_start uartContextInit_txDirty) hexec (by decide +kernel)]
    exact fun h => absurd (h 0 le_rfl (by decide)) (by decide)
  · decide +kernel

end MultiPortConvertor.Uart.FreshEntries
