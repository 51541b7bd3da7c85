import MultiPortConvertor.Usb.HidAttribution

/-! # When `g_hid_buf` runs out

A buffer is always free, with the reader, in the queue or with `hid_data_tsk`. The reader takes one
before it reads, so with the queue full the buffers are all in use and it never comes to wait: the
next `buf_factory_produce` ends the process (`produce_iff`). -/

namespace MultiPortConvertor.Usb.HidPool

open MultiPortConvertor.Lib.Outcomes MultiPortConvertor.Lib.Runs
open MultiPortConvertor.Tool.IntrusiveList MultiPortConvertor.Tool.BufFactory
open MultiPortConvertor.Usb.HidData MultiPortConvertor.Usb.HidTasks
open MultiPortConvertor.Usb.HidAttribution

/-- The buffers on the ring of `g_hid_buf`. -/
def freeRing (s : Hid) : List ℕ := freeBufs gHidBuf hidBufNum s.heap

/-- **Every buffer is in one place**: in the ring, with the reader, in the queue, or with the data
task. -/
def OnePlace (s : Hid) : Prop :=
  (freeRing s ++ (s.readTsk.hand ++ (s.mailbox ++ s.dataTsk.hand))).Perm (List.range hidBufNum)

/-- **The condition**: where the reader takes a buffer, fewer than sixteen are in the queue and with
the data task. -/
def Room (s : Hid) (a : Action) : Prop :=
  a = .produce → s.readTsk = .produce → s.mailbox.length + s.dataTsk.hand.length < hidBufNum

instance (s : Hid) (a : Action) : Decidable (Room s a) :=
  match a with
  | .produce => decidable_of_iff (s.readTsk = .produce →
      s.mailbox.length + s.dataTsk.hand.length < hidBufNum) (by simp [Room])
  | .openHid _ | .test | .read _ | .readFail | .post | .take | .silence _ | .handle | .recycle =>
    isTrue (fun h => by cases h)

section

variable {wild : KeyBuf → KeyBuf} {s s' : Hid} {a : Action} {free : List ℕ} {b : ℕ}

theorem onePlace_of_owned (h : Owned s free) : OnePlace s := by
  have hfree : freeRing s = free := h.pool.freeBufs_eq
  unfold OnePlace
  rw [hfree]
  exact h.perm

theorem owned_next (h : Owned s free) (hn : next wild s a = some s') : ∃ free', Owned s' free' := by
  obtain ⟨⟨t, es⟩, ht, rfl⟩ := Option.map_eq_some_iff.mp hn
  obtain ⟨free', hc⟩ := step_change h (Outcome.toOption_eq_some.mp ht)
  exact ⟨free', h.change hc⟩

/-- The free buffers and those in use are sixteen. -/
theorem length_free (h : Owned s free) :
    free.length + (s.readTsk.hand.length + (s.mailbox.length + s.dataTsk.hand.length)) =
    hidBufNum := by
  have hlen := h.perm.length_eq
  simpa [Hid.held] using hlen

theorem giveBack_ne_exit (h : Owned s free) (hb : b ∈ s.held) : giveBack b s ≠ .exit := by
  obtain ⟨H, hH, -⟩ := bufFactoryRecycle_spec h.pool (h.notMem_free hb) (h.lt hb)
  simp [giveBack, hH]

/-- The reader ends the process exactly if no buffer is free. -/
theorem produce_exit_iff (h : Owned s free) : HidTasks.produce s = .exit ↔ free = [] := by
  have hp := h.pool
  cases free with
  | nil => exact iff_of_true (by simp [HidTasks.produce, bufFactoryProduce_exit hp]) rfl
  | cons b free =>
    obtain ⟨H, hH, -⟩ := bufFactoryProduce_spec hp
    exact iff_of_false (by simp [HidTasks.produce, hH]) (List.cons_ne_nil b free)

/-- **A step ends the process** only where the reader takes a buffer and none is free. -/
theorem exit_iff (h : Owned s free) :
    s.step wild a = .exit ↔ a = .produce ∧ s.readTsk = .produce ∧ free = [] := by
  cases a with
  | openHid product | read k | silence timer | handle =>
    simp only [Hid.step]
    split <;> simp
  | test | post =>
    simp only [Hid.step]
    split
    · split_ifs <;> simp
    · simp
  | take =>
    simp only [Hid.step]
    split <;> simp
  | produce =>
    simp only [Hid.step]
    split
    · rw [produce_exit_iff h]
      simp [*]
    · rename_i hr
      exact iff_of_false (by simp) fun hp => hr hp.2.1
  | readFail =>
    simp only [Hid.step]
    split
    · rename_i b hr
      have hne := giveBack_ne_exit h (b := b) (by simp [Hid.held, hr, ReadTsk.hand])
      simp [Outcome.bind_eq_exit, hne]
    · simp
  | recycle =>
    simp only [Hid.step]
    split
    · rename_i b hd
      have hb : b ∈ s.held := by simp [Hid.held, hd, DataTsk.hand]
      have hne := giveBack_ne_exit h hb
      simp [h.buf b hb, Outcome.bind_eq_exit, hne]
    · simp

/-- None is free exactly if sixteen are in the queue and with the data task. -/
theorem free_eq_nil_iff (h : Owned s free) (hr : s.readTsk = .produce) :
    free = [] ↔ ¬ s.mailbox.length + s.dataTsk.hand.length < hidBufNum := by
  have hlen := length_free h
  have hhand : s.readTsk.hand.length = 0 := by rw [hr]; rfl
  rw [← List.length_eq_zero_iff]
  omega

theorem ne_exit_iff (h : Owned s free) : s.step wild a ≠ .exit ↔ Room s a := by
  rw [ne_eq, exit_iff h]
  constructor
  · intro hn ha hr
    by_contra hfull
    exact hn ⟨ha, hr, (free_eq_nil_iff h hr).mpr hfull⟩
  · rintro hroom ⟨ha, hr, hnil⟩
    exact (free_eq_nil_iff h hr).mp hnil (hroom ha hr)

/-- The reader never waits for the queue: while it has a buffer to post, there is room. -/
theorem room_of_posting (h : Owned s free) (hr : s.readTsk = .posting b) :
    s.mailbox.length < hidMbxNum := by
  have hlen := length_free h
  have hhand : s.readTsk.hand.length = 1 := by rw [hr]; rfl
  have hnum : hidBufNum = hidMbxNum := rfl
  omega

end

/-- No step of a run ends the process exactly if the data task keeps up. -/
theorem steps_ne_exit_iff {wild : KeyBuf → KeyBuf} {s : Hid} (h : ∃ free, Owned s free)
    (as : List Action) : Steps (next wild) (fun s a => s.step wild a ≠ .exit) s as ↔
    Steps (next wild) Room s as := by
  refine steps_congr (I := fun s => ∃ free, Owned s free) ?_ ?_ h (steps_true s as)
  · rintro s a t ⟨free, ho⟩ - ht
    exact owned_next ho ht
  · rintro s a ⟨free, ho⟩
    exact ne_exit_iff ho

/-- **When the pool holds out.** In every run every buffer is always in one place, and no step ends
the process exactly if the data task keeps up: the reader never takes a buffer with sixteen in the
queue and in the hands of the data task. -/
theorem produce_iff (wild : KeyBuf → KeyBuf) {H : Heap Addr Owner} {mem : ℕ → HidFormat} {s : Hid}
    (h : hidContextInit H mem = .next s) (as : List Action) :
    States (next wild) OnePlace s as ∧
      (Steps (next wild) (fun s a => s.step wild a ≠ .exit) s as ↔
        Steps (next wild) Room s as) := by
  have hstart : ∃ free, Owned s free := ⟨_, owned_start h⟩
  refine ⟨(states_of_inv (I := fun s => ∃ free, Owned s free) ?_ hstart).mono ?_,
    steps_ne_exit_iff hstart as⟩
  · rintro s a t ⟨free, ho⟩ ht
    exact owned_next ho ht
  · rintro s ⟨free, ho⟩
    exact onePlace_of_owned ho

/-- A letter that the reader reads and posts. -/
def posted : List Action := [.produce, .read ![0, 0, 4, 0, 0, 0, 0, 0], .post]

/-- A scanner is opened, and sixteen letters come before the data task runs. -/
def sixteen : List Action := [.openHid 0x7638, .test] ++ (List.replicate 16 posted).flatten

theorem produce_iff_sixteen : States (next id) OnePlace hidInit sixteen ∧
    (Steps (next id) (fun s a => s.step id a ≠ .exit) hidInit sixteen ↔
      Steps (next id) Room hidInit sixteen) :=
  produce_iff id hidContextInit_hidInit sixteen

/-- The next buffer ends the process. -/
theorem sixteen_exit : (exec (next id) hidInit sixteen).map (fun s =>
      (s.mailbox.length, s.dataTsk, (s.step id .produce).isExit)) = some (16, .pend, true) ∧
    ¬ Steps (next id) (fun s a => s.step id a ≠ .exit) hidInit (sixteen ++ [.produce]) := by
  refine ⟨by decide +kernel, ?_⟩
  rw [steps_ne_exit_iff ⟨_, owned_start hidContextInit_hidInit⟩]
  decide +kernel

end MultiPortConvertor.Usb.HidPool
