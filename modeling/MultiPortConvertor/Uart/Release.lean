import MultiPortConvertor.Lib.Runs
import MultiPortConvertor.Uart.Refinement

/-! # Who gives a buffer back

Both tasks give buffers back: `uart_poll_tsk` an entry it has unlinked, `uart_send_tsk` the buffer
of a message whose `free_flag` it finds set. The flag of a notification is set by its
acknowledgement, while the entry is linked. A state is sound when it implements queues whose buffers
are owned as they should be; soundness is kept by every step except the test of a flag whose entry
is still linked, and that step puts a linked buffer into the free ring (`releases_iff`). -/

namespace MultiPortConvertor.Uart.Release

open MultiPortConvertor.Lib.Bytes MultiPortConvertor.Lib.Outcomes MultiPortConvertor.Lib.Rings
open MultiPortConvertor.Lib.Runs MultiPortConvertor.Tool.IntrusiveList
open MultiPortConvertor.Tool.BufFactory MultiPortConvertor.Uart.Format
open MultiPortConvertor.Uart.Dispose MultiPortConvertor.Uart.Parse MultiPortConvertor.Uart.Transmit
open MultiPortConvertor.Uart.TransmitQueues MultiPortConvertor.Uart.Ownership
open MultiPortConvertor.Uart.Refinement MultiPortConvertor.Uart.Grammar
open MultiPortConvertor.App.System

/-! ### What the lists of a state are -/

section

variable {s : Tx} {q : Queues}

theorem freeRing_eq (hr : Rep s q) : s.freeRing = q.free := hr.lists.pool.freeBufs_eq

theorem sendList_eq (hr : Rep s q) (hlen : q.list.length ≤ uartSendBufNum) :
    s.sendList = q.list := by
  have hw : walk s.heap.links.next .queue (uartSendBufNum + 1) (s.heap .queue).next =
      q.list.map .entry :=
    walk_eq hr.lists.ring _ (by simpa using Nat.lt_succ_of_le hlen)
  unfold Tx.sendList
  rw [hw, List.filterMap_map]
  exact (List.filterMap_congr hr.lists.owner).trans List.filterMap_some

end

/-! ### Soundness -/

/-- The queues at the start. -/
def start (mem : ℕ → UartSendFormat) : Queues where
  free := List.range uartSendBufNum
  seen := []
  rest := []
  locked := false
  mem := mem
  uartSendSn := 0
  mailbox := []
  sendTsk := .pend

/-- **A sound state.** -/
def Sound (s : Tx) : Prop := ∃ q, Rep s q ∧ Owned q.books ∧ q.Rewound

/-- A state whose lists are in order, whatever the poll fields of its free buffers. -/
def Orderly (s : Tx) : Prop := ∃ q, Rep s q ∧ Booked q.books ∧ q.Rewound

/-- The poll fields of the buffers are cleared. -/
def Cleared (mem : ℕ → UartSendFormat) : Prop := ∀ b < uartSendBufNum, (mem b).poll = .cleared

theorem uartContextInit_rep (H : Heap Addr Owner) (mem : ℕ → UartSendFormat) :
    ∃ s, uartContextInit H mem = .next s ∧ Rep s (start mem) := by
  obtain ⟨H', hc, hp, hf⟩ :=
    createBufFactory_spec (f := gUartSendBuf) (initListHead H .queue none) uartSendBufNum
  have hq : H' .queue = initListHead H .queue none .queue := hf _ (by simp [gUartSendBuf])
    (by simp [gUartSendBuf])
  refine ⟨_, by rw [uartContextInit, hc]; rfl, ⟨hp, ?_, by simp [start, Queues.list]⟩, rfl, rfl,
    rfl, rfl, rfl⟩
  refine ring_nil ?_ ?_
  · simp [hq, initListHead]
  · simp [hq, initListHead]

/-- The start is empty queues. -/
theorem rep_start {H : Heap Addr Owner} {mem : ℕ → UartSendFormat} {s : Tx}
    (h : uartContextInit H mem = .next s) : Rep s (start mem) := by
  obtain ⟨s', hs, hr⟩ := uartContextInit_rep H mem
  rw [h] at hs
  obtain rfl := Outcome.next.inj hs
  exact hr

theorem init_booked (mem : ℕ → UartSendFormat) : Booked (start mem).books where
  nodup := by simpa [start, Queues.books, Queues.list] using List.nodup_range
  lt := by simp [start, Queues.books, Queues.list]
  buf := fun b hb hn => absurd (List.mem_range.mpr hb) hn
  msg := by simp [start, Queues.books, Queues.messages]
  quiet := by simp [start, Queues.books, Queues.messages]

theorem init_owned {mem : ℕ → UartSendFormat} (hm : Cleared mem) : Owned (start mem).books where
  nodup := (init_booked mem).nodup
  lt := (init_booked mem).lt
  buf := (init_booked mem).buf
  clear := fun b hb => hm b (List.mem_range.mp hb)
  msg := (init_booked mem).msg

theorem sound_init {H : Heap Addr Owner} {mem : ℕ → UartSendFormat} {s : Tx} (hm : Cleared mem)
    (h : uartContextInit H mem = .next s) : Sound s :=
  ⟨start mem, rep_start h, init_owned hm, fun _ => rfl⟩

theorem orderly_init {H : Heap Addr Owner} {mem : ℕ → UartSendFormat} {s : Tx}
    (h : uartContextInit H mem = .next s) : Orderly s :=
  ⟨start mem, rep_start h, init_booked mem, fun _ => rfl⟩

/-- No buffer is free and linked at the same time. -/
def Apart (s : Tx) : Prop := ∀ b ∈ s.freeRing, b ∉ s.sendList

/-- A buffer that the step gives back is not free already. -/
def RecyclesOnce (s : Tx) (a : Action) : Prop :=
  ∀ s' es b, s.step a = .next (s', es) → .recycle b ∈ es → b ∉ s.freeRing

/-- The step that goes wrong: `uart_send_tsk` finds the flag of an entry that is still linked. -/
def ReleasesLinked (s : Tx) (a : Action) : Prop :=
  ∃ msg, a = .test ∧ s.sendTsk = .test msg ∧ (s.mem msg.p).poll.freeFlag ≠ 0 ∧ msg.p ∈ s.sendList

instance (s : Tx) (a : Action) : Decidable (ReleasesLinked s a) :=
  match a, h : s.sendTsk with
  | .test, .test msg =>
    decidable_of_iff ((s.mem msg.p).poll.freeFlag ≠ 0 ∧ msg.p ∈ s.sendList)
      (by simp [ReleasesLinked, h])
  | .test, .pend | .test, .write _ _ => isFalse (by simp [ReleasesLinked, h])
  | .dispose _, _ | .recv _, _ | .pollLock, _ | .pollEntry, _ | .pollUnlock, _ | .take, _
  | .write _, _ => isFalse (by simp [ReleasesLinked])

section

variable {s s' : Tx} {q : Queues} {a : Action} {es : List Event}

/-- A step of an orderly state, with the queues before and after it. -/
theorem step_queues (hr : Rep s q) (ho : Booked q.books) (hw : q.Rewound)
    (h : s.step a = .next (s', es)) : ∃ q', q.step a = .next (q', es) ∧ Rep s' q' ∧
      Change (q.tested a) q.books es q'.books ∧ q'.Rewound := by
  have hm := step_matches hr ho hw a
  rw [h] at hm
  obtain ⟨q', hq, hr'⟩ := hm.of_next
  obtain ⟨hc, hw'⟩ := Queues.step_change hw hq
  exact ⟨q', hq, hr', hc, hw'⟩

theorem premature_iff (hr : Rep s q) (ho : Booked q.books) :
    Premature (q.tested a) q.books ↔ ReleasesLinked s a := by
  have hl : s.sendList = q.list := sendList_eq hr (length_list_le ho)
  unfold Premature ReleasesLinked Queues.tested
  rw [hl, hr.sendTsk, hr.mem]
  constructor
  · rintro ⟨msg, ht, hf, hm⟩
    split at ht
    · split at ht
      · rename_i hs
        cases ht
        exact ⟨msg, rfl, hs, hf, hm⟩
      · cases ht
    · cases ht
  · rintro ⟨msg, rfl, hs, hf, hm⟩
    exact ⟨msg, by rw [hs], hf, hm⟩

/-- The account after a step that does not go wrong. -/
theorem step_booked (hr : Rep s q) (ho : Booked q.books) (hw : q.Rewound)
    (hg : ¬ ReleasesLinked s a) (h : s.step a = .next (s', es)) : ∃ q', q.step a = .next (q', es) ∧
      Rep s' q' ∧ Booked q'.books ∧ q'.Rewound ∧ Change (q.tested a) q.books es q'.books := by
  obtain ⟨q', hq, hr', hc, hw'⟩ := step_queues hr ho hw h
  have hp : ¬ Premature (q.tested a) q.books := fun hp => hg ((premature_iff hr ho).mp hp)
  exact ⟨q', hq, hr', ho.change hc hp, hw', hc⟩

/-- What a step leads to that does not go wrong. -/
theorem next_sound (hr : Rep s q) (ho : Owned q.books) (hw : q.Rewound)
    (hg : ¬ ReleasesLinked s a) (h : next s a = some s') : ∃ q' es, q.step a = .next (q', es) ∧
      Rep s' q' ∧ Owned q'.books ∧ q'.Rewound ∧ Change (q.tested a) q.books es q'.books := by
  obtain ⟨⟨t, es⟩, ht, rfl⟩ := Option.map_eq_some_iff.mp h
  obtain ⟨q', hq, hr', hc, hw'⟩ := step_queues hr ho.booked hw (Outcome.toOption_eq_some.mp ht)
  have hp : ¬ Premature (q.tested a) q.books := fun hp => hg ((premature_iff hr ho.booked).mp hp)
  exact ⟨q', es, hq, hr', ho.change hc hp, hw', hc⟩

/-- **Soundness is kept** by every other step. -/
theorem sound_next (hs : Sound s) (hg : ¬ ReleasesLinked s a) (h : next s a = some s') :
    Sound s' := by
  obtain ⟨q, hr, ho, hw⟩ := hs
  obtain ⟨q', -, -, hr', ho', hw', -⟩ := next_sound hr ho hw hg h
  exact ⟨q', hr', ho', hw'⟩

/-- **A run of the pointers is a run of the queues**, as long as no step goes wrong. -/
theorem exec_queues (hr : Rep s q) (ho : Owned q.books) (hw : q.Rewound) {as : List Action}
    (hg : Steps next (fun s a => ¬ ReleasesLinked s a) s as) (h : exec next s as = some s') :
    ∃ q', exec Queues.next q as = some q' ∧ Rep s' q' ∧ Owned q'.books ∧ q'.Rewound := by
  refine exec_of_simulation (R := fun q s => Rep s q ∧ Owned q.books ∧ q.Rewound)
    (fun q a s s' hs hg hn => ?_) ⟨hr, ho, hw⟩ hg h
  obtain ⟨hr, ho, hw⟩ := hs
  obtain ⟨q', es, hq, hr', ho', hw', -⟩ := next_sound hr ho hw hg hn
  refine ⟨q', ?_, hr', ho', hw'⟩
  rw [Queues.next, hq]
  rfl

theorem Sound.apart (hs : Sound s) : Apart s := by
  obtain ⟨q, hr, ho, -⟩ := hs
  unfold Apart
  rw [freeRing_eq hr, sendList_eq hr (length_list_le ho.booked)]
  intro b hb hl
  exact ho.disjoint (k := q.books) hl hb

theorem Sound.recyclesOnce (hs : Sound s) (a : Action) : RecyclesOnce s a := by
  intro s' es b h hb
  obtain ⟨q, hr, ho, hw⟩ := hs
  obtain ⟨q', -, -, hc, -⟩ := step_queues hr ho.booked hw h
  rw [freeRing_eq hr]
  exact ho.booked.notMem_free_of_recycle hc hb

/-- A sound state follows no `NULL`. -/
theorem Sound.step_ne_fault (hs : Sound s) (a : Action) : s.step a ≠ .fault := by
  obtain ⟨q, hr, ho, hw⟩ := hs
  have hm := step_matches hr ho.booked hw a
  intro h
  rw [h] at hm
  exact Queues.step_ne_fault q a hm.of_fault

/-- The step that goes wrong puts a linked buffer into the free ring. -/
theorem releasesLinked_next (hs : Sound s) (hb : ReleasesLinked s a) :
    ∃ s', next s a = some s' ∧ ¬ Apart s' := by
  obtain ⟨q, hr, ho, hw⟩ := hs
  have hprem := (premature_iff hr ho.booked).mpr hb
  obtain ⟨msg, rfl, ht, hf, hm⟩ := hb
  have hl : q.list.length ≤ uartSendBufNum := length_list_le ho.booked
  rw [sendList_eq hr hl] at hm
  rw [hr.sendTsk] at ht
  rw [hr.mem] at hf
  have hbuf : (q.mem msg.p).buf = msg.p := ho.buf_of_list (k := q.books) hm
  have hmt := step_matches hr ho.booked hw .test
  have hq : q.step .test = .next (({ q with sendTsk := .pend } : Queues).release msg.p,
      [.recycle (q.mem msg.p).buf]) := by
    simp [Queues.step, ht, hf]
  rw [hq] at hmt
  obtain ⟨s', hs', hr'⟩ := hmt
  refine ⟨s', by rw [next, hs']; rfl, fun hd => hd msg.p ?_ ?_⟩
  · rw [freeRing_eq hr']
    simp [Queues.release, hbuf]
  · rw [sendList_eq hr' hl]
    exact hm

end

/-- **When no buffer is free and linked at once.** In a run from the start, with the poll fields
cleared, no buffer is ever free and linked at the same time and none is given back that is free
already, exactly when `uart_send_tsk` never finds the flag of an entry that is still linked. -/
theorem releases_iff {H : Heap Addr Owner} {mem : ℕ → UartSendFormat} (hm : Cleared mem) {s : Tx}
    (h : uartContextInit H mem = .next s) (as : List Action) :
    (States next Apart s as ∧ Steps next RecyclesOnce s as) ↔
      Steps next (fun s a => ¬ ReleasesLinked s a) s as := by
  refine (steps_iff (I := Sound) (fun s a t hs hg ht => sound_next hs hg ht)
    (fun s a hs _ => hs.recyclesOnce a) (fun s hs => hs.apart) (fun s a hs hg _ => ?_)
    (sound_init hm h)).symm
  exact releasesLinked_next hs (not_not.mp hg)

/-! ### An acknowledgement between the post and the test -/

/-- A heap and memory as `malloc` may leave them. -/
def heapInit : Heap Addr Owner := fun _ => ⟨none, none, none⟩

def memInit : ℕ → UartSendFormat := fun _ => ⟨0, .cleared, filled 0⟩

/-- The state at the start. -/
def txInit : Tx := ((uartContextInit heapInit memInit).toOption).get (by decide +kernel)

theorem uartContextInit_txInit : uartContextInit heapInit memInit = .next txInit :=
  Outcome.toOption_eq_some.mp (Option.some_get _).symm

/-- The answer of the host to `hid_insert_ntf`. -/
def hidInsertAck (sn : UInt8) : UartCmdFormat :=
  overlay [0xC0, 0, 4, 0, sn, 0xA1, 0x20, 0xC1 + sn] (filled 0)

/-- A notification is posted, and acknowledged before the send task has looked at its flag. -/
def ackedEarly : List Action :=
  [.dispose (hidInsertNtf 1), .pollLock, .pollEntry, .pollUnlock, .take, .write 9,
    .recv (uartProtocolParse id (hidInsertAck 0) envInit), .test]

theorem ackedEarly_shared : (exec next txInit ackedEarly).map (fun s => (s.freeRing, s.sendList)) =
    some ([1, 2, 3, 4, 5, 6, 7, 8, 9, 10, 11, 12, 13, 14, 15, 0], [0]) := by
  decide +kernel

/-- The theorem applied to this run. -/
theorem ackedEarly_releases :
    (States next Apart txInit ackedEarly ∧ Steps next RecyclesOnce txInit ackedEarly) ↔
      Steps next (fun s a => ¬ ReleasesLinked s a) txInit ackedEarly :=
  releases_iff (fun _ _ => rfl) uartContextInit_txInit ackedEarly

end MultiPortConvertor.Uart.Release
