import MultiPortConvertor.Lib.Runs
import MultiPortConvertor.Tool.BufFactory
import MultiPortConvertor.Usb.HidData

/-! # The tasks of `usb/usb_communicat.c`

`hid_reopen_read_tsk` opens a device, reads its reports into buffers of `g_hid_buf` and posts them
to `/mq_hid`; `hid_data_tsk` takes them, handles them and gives the buffers back. A step is a piece
of one of the tasks. A report is what `key_word` holds after a read that has returned more than 0.
-/

namespace MultiPortConvertor.Usb.HidTasks

open MultiPortConvertor.Lib.Bytes MultiPortConvertor.Lib.Outcomes MultiPortConvertor.Lib.Rings
open MultiPortConvertor.Tool.IntrusiveList MultiPortConvertor.Tool.BufFactory
open MultiPortConvertor.Uart.Dispose MultiPortConvertor.Usb.HidUsageId
open MultiPortConvertor.Usb.HidData

/-- The addresses of the list heads of `g_hid_buf`. -/
inductive Addr where
  | pool
  | node (b : ℕ)
  deriving DecidableEq

/-- `g_hid_buf`. -/
def gHidBuf : BufferFactory Addr where
  list := .pool
  node := .node
  node_injective := fun _ _ h => Addr.node.inj h
  node_ne_list := fun _ h => by cases h

/-- The number of buffers. -/
def hidBufNum : ℕ := 16

/-- The number of messages that `/mq_hid` holds. -/
def hidMbxNum : ℕ := 16

/-- `hid_format_t`, the memory of a buffer; a pointer to it is the number of the buffer. -/
structure HidFormat where
  buf : ℕ
  keyWord : KeyWord

/-- Where `hid_reopen_read_tsk` stands: before `open_hid`, before the test of `hid_dev_type`, before
`buf_factory_produce`, before `hid_read` or before `mailbox_post`. -/
inductive ReadTsk where
  | opening
  | typed
  | produce
  | reading (b : ℕ)
  | posting (b : ℕ)
  deriving DecidableEq

/-- Where `hid_data_tsk` stands: before `mailbox_timedpend`, before the report is handled, or before
its buffer is given back. -/
inductive DataTsk where
  | pend
  | handling (b : ℕ)
  | recycling (b : ℕ)
  deriving DecidableEq

/-- The state of the two tasks; `mailbox` has the pointers of the messages. -/
structure Hid where
  heap : Heap Addr Owner
  mem : ℕ → HidFormat
  mailbox : List ℕ
  hidDevType : UInt8
  readTsk : ReadTsk
  dataTsk : DataTsk
  keys : KeyBuf

/-- What a step hands to the UART, and what `hid_data_tsk` does, for the record. -/
inductive Event where
  | insertNtf (info : UartSendInfo)
  | pulloutNtf (info : UartSendInfo)
  | data (e : Effect)

/-- The steps. `openHid` is `open_hid` with success, `set_hid`, after which the variable has the
value `product`, and `find_hid_type`. -/
inductive Action where
  | openHid (product : Int16)
  | test
  | produce
  | read (k : KeyWord)
  | readFail
  | post
  | take
  | silence (timer : UInt32)
  | handle
  | recycle

/-- `buf_factory_produce`, and the pointer to the buffer written into it. -/
def produce (s : Hid) : Outcome (Hid × List Event) := do
  let (b, H) ← bufFactoryProduce gHidBuf s.heap
  return ({ s with
    heap := H
    mem := Function.update s.mem b { s.mem b with buf := b }
    readTsk := .reading b }, [])

/-- `buf_factory_recycle`. -/
def giveBack (b : ℕ) (s : Hid) : Outcome Hid := do
  let H ← bufFactoryRecycle gHidBuf b s.heap
  return { s with heap := H }

/-- The turn of the loop of `hid_data_tsk` that a step makes. -/
def Hid.turnOf (s : Hid) : Action → Option Turn
  | .handle =>
    match s.dataTsk with
    | .handling b => some ⟨s.hidDevType, .report (s.mem b).keyWord⟩
    | _ => none
  | .silence timer =>
    match s.dataTsk with
    | .pend => some ⟨s.hidDevType, .silence timer⟩
    | _ => none
  | _ => none

variable (wild : KeyBuf → KeyBuf)

/-- One step. A step that its task cannot take now is `blocked`. -/
def Hid.step (s : Hid) : Action → Outcome (Hid × List Event)
  | .openHid product =>
    match s.readTsk with
    | .opening => .next ({ s with hidDevType := findHidType product, readTsk := .typed }, [])
    | _ => .blocked
  | .test =>
    match s.readTsk with
    | .typed =>
      if s.hidDevType = 0 then .next ({ s with readTsk := .opening }, [])
      else .next ({ s with readTsk := .produce }, [.insertNtf (hidInsertNtf s.hidDevType)])
    | _ => .blocked
  | .produce =>
    match s.readTsk with
    | .produce => HidTasks.produce s
    | _ => .blocked
  | .read k =>
    match s.readTsk with
    | .reading b => .next ({ s with
        mem := Function.update s.mem b { s.mem b with keyWord := k }
        readTsk := .posting b }, [])
    | _ => .blocked
  | .readFail =>
    match s.readTsk with
    | .reading b => do
      let s ← giveBack b s
      return ({ s with readTsk := .opening }, [.pulloutNtf (hidPulloutNtf s.hidDevType)])
    | _ => .blocked
  | .post =>
    match s.readTsk with
    | .posting b =>
      if s.mailbox.length < hidMbxNum then
        .next ({ s with mailbox := s.mailbox ++ [b], readTsk := .produce }, [])
      else .blocked
    | _ => .blocked
  | .take =>
    match s.dataTsk, s.mailbox with
    | .pend, b :: rest => .next ({ s with mailbox := rest, dataTsk := .handling b }, [])
    | _, _ => .blocked
  | .silence timer =>
    match s.dataTsk with
    | .pend =>
      let (keys, out) := turn wild s.keys ⟨s.hidDevType, .silence timer⟩
      .next ({ s with keys := keys }, out.map .data)
    | _ => .blocked
  | .handle =>
    match s.dataTsk with
    | .handling b =>
      let (keys, out) := turn wild s.keys ⟨s.hidDevType, .report (s.mem b).keyWord⟩
      .next ({ s with keys := keys, dataTsk := .recycling b }, out.map .data)
    | _ => .blocked
  | .recycle =>
    match s.dataTsk with
    | .recycling b => do
      let s ← giveBack (s.mem b).buf s
      return ({ s with dataTsk := .pend }, [])
    | _ => .blocked

/-- The next state, for runs. -/
def next (s : Hid) (a : Action) : Option Hid := (s.step wild a).toOption.map Prod.fst

/-- `hid_context_init`, on memory with any contents. -/
def hidContextInit (H : Heap Addr Owner) (mem : ℕ → HidFormat) : Outcome Hid := do
  let H ← createBufFactory gHidBuf hidBufNum H
  return { heap := H, mem := mem, mailbox := [], hidDevType := 0, readTsk := .opening,
           dataTsk := .pend, keys := .start }

/-! ### Who has the buffers -/

/-- The buffer in the hands of the reader. -/
def ReadTsk.hand : ReadTsk → List ℕ
  | .reading b => [b]
  | .posting b => [b]
  | _ => []

/-- The buffer in the hands of the data task. -/
def DataTsk.hand : DataTsk → List ℕ
  | .pend => []
  | .handling b => [b]
  | .recycling b => [b]

/-- The buffers in use: those of the reader, of the messages and of the data task. -/
def Hid.held (s : Hid) : List ℕ := s.readTsk.hand ++ (s.mailbox ++ s.dataTsk.hand)

/-- **The account**: every buffer is free or in use, in one place, and one in use names itself. -/
structure Owned (s : Hid) (free : List ℕ) : Prop where
  pool : Pool gHidBuf hidBufNum s.heap free
  perm : (free ++ s.held).Perm (List.range hidBufNum)
  buf : ∀ b ∈ s.held, (s.mem b).buf = b

section

variable {wild : KeyBuf → KeyBuf} {s s' : Hid} {a : Action} {es : List Event}
    {free : List ℕ} {b : ℕ}

theorem Owned.nodup (h : Owned s free) : (free ++ s.held).Nodup :=
  h.perm.nodup_iff.mpr List.nodup_range

theorem Owned.notMem_free (h : Owned s free) (hb : b ∈ s.held) : b ∉ free := fun hf =>
  (List.nodup_append.mp h.nodup).2.2 b hf b hb rfl

theorem Owned.lt (h : Owned s free) (hb : b ∈ s.held) : b < hidBufNum :=
  List.mem_range.mp (h.perm.mem_iff.mp (List.mem_append_right _ hb))

/-- A write to `buf` leaves every `key_word` as it is. -/
theorem keyWord_update_buf (mem : ℕ → HidFormat) (b n x : ℕ) :
    (Function.update mem b { mem b with buf := n } x).keyWord = (mem x).keyWord := by
  by_cases hxb : x = b
  · subst hxb
    rw [Function.update_self]
  · rw [Function.update_of_ne hxb]

/-- A report read leaves every `buf` as it is. -/
theorem buf_update_keyWord (mem : ℕ → HidFormat) (b : ℕ) (k : KeyWord) (x : ℕ) :
    (Function.update mem b { mem b with keyWord := k } x).buf = (mem x).buf := by
  by_cases hxb : x = b
  · subst hxb
    rw [Function.update_self]
  · rw [Function.update_of_ne hxb]

/-- A buffer goes from one to another, or its contents change. -/
theorem Owned.move (h : Owned s free) (heap : s'.heap = s.heap) (hheld : s'.held.Perm s.held)
    (hbuf : ∀ b, (s'.mem b).buf = (s.mem b).buf) : Owned s' free where
  pool := by rw [heap]; exact h.pool
  perm := (hheld.append_left free).trans h.perm
  buf := fun b hb => (hbuf b).trans (h.buf b (hheld.mem_iff.mp hb))

/-- A buffer in use is given back. -/
theorem giveBack_next (h : Owned s free) (hb : b ∈ s.held) (he : giveBack b s = .next s') :
    ∃ H, s' = { s with heap := H } ∧ Pool gHidBuf hidBufNum H (free ++ [b]) := by
  obtain ⟨H, hH, hp, -⟩ := bufFactoryRecycle_spec h.pool (h.notMem_free hb) (h.lt hb)
  simp only [giveBack, hH, Outcome.next_bind, Outcome.pure_eq, Outcome.next.injEq] at he
  exact ⟨H, he.symm, hp⟩

/-- **A buffer handed out** was not in use. -/
theorem produce_next (h : Owned s free) (he : HidTasks.produce s = .next (s', es)) :
    ∃ b rest H, free = b :: rest ∧ b ∉ s.held ∧ Pool gHidBuf hidBufNum H rest ∧ es = [] ∧
      s' = { s with heap := H, mem := Function.update s.mem b { s.mem b with buf := b },
                    readTsk := .reading b } := by
  rcases free with _ | ⟨b, rest⟩
  · simp [HidTasks.produce, bufFactoryProduce_exit h.pool] at he
  · obtain ⟨H, hH, hp, -⟩ := bufFactoryProduce_spec h.pool
    simp only [HidTasks.produce, hH, Outcome.next_bind, Outcome.pure_eq, Outcome.next.injEq,
      Prod.mk.injEq] at he
    refine ⟨b, rest, H, rfl, fun hb => h.notMem_free hb (by simp), hp, he.2.symm, he.1.symm⟩

end

/-- **What a step can do**, with the free buffers before and after it. -/
inductive Change (wild : KeyBuf → KeyBuf) (s : Hid) :
    List ℕ → Action → Hid → List ℕ → List Event → Prop where
  | openHid (free : List ℕ) (product : Int16) (hr : s.readTsk = .opening) :
      Change wild s free (.openHid product)
        { s with hidDevType := findHidType product, readTsk := .typed } free []
  | close (free : List ℕ) (hr : s.readTsk = .typed) (h0 : s.hidDevType = 0) :
      Change wild s free .test { s with readTsk := .opening } free []
  | announce (free : List ℕ) (hr : s.readTsk = .typed) (h0 : s.hidDevType ≠ 0) :
      Change wild s free .test { s with readTsk := .produce } free
        [.insertNtf (hidInsertNtf s.hidDevType)]
  | produce (b : ℕ) (free : List ℕ) (H : Heap Addr Owner) (hr : s.readTsk = .produce)
      (hb : b ∉ s.held) (hp : Pool gHidBuf hidBufNum H free) :
      Change wild s (b :: free) .produce
        { s with heap := H, mem := Function.update s.mem b { s.mem b with buf := b },
                 readTsk := .reading b } free []
  | read (free : List ℕ) (b : ℕ) (k : KeyWord) (hr : s.readTsk = .reading b) :
      Change wild s free (.read k)
        { s with mem := Function.update s.mem b { s.mem b with keyWord := k },
                 readTsk := .posting b } free []
  | readFail (free : List ℕ) (b : ℕ) (H : Heap Addr Owner) (hr : s.readTsk = .reading b)
      (hp : Pool gHidBuf hidBufNum H (free ++ [b])) :
      Change wild s free .readFail { s with heap := H, readTsk := .opening } (free ++ [b])
        [.pulloutNtf (hidPulloutNtf s.hidDevType)]
  | post (free : List ℕ) (b : ℕ) (hr : s.readTsk = .posting b)
      (hroom : s.mailbox.length < hidMbxNum) :
      Change wild s free .post { s with mailbox := s.mailbox ++ [b], readTsk := .produce } free []
  | take (free : List ℕ) (b : ℕ) (rest : List ℕ) (hd : s.dataTsk = .pend)
      (hm : s.mailbox = b :: rest) :
      Change wild s free .take { s with mailbox := rest, dataTsk := .handling b } free []
  | silence (free : List ℕ) (timer : UInt32) (hd : s.dataTsk = .pend) :
      Change wild s free (.silence timer)
        { s with keys := (turn wild s.keys ⟨s.hidDevType, .silence timer⟩).1 } free
        ((turn wild s.keys ⟨s.hidDevType, .silence timer⟩).2.map .data)
  | handle (free : List ℕ) (b : ℕ) (hd : s.dataTsk = .handling b) :
      Change wild s free .handle
        { s with keys := (turn wild s.keys ⟨s.hidDevType, .report (s.mem b).keyWord⟩).1,
                 dataTsk := .recycling b } free
        ((turn wild s.keys ⟨s.hidDevType, .report (s.mem b).keyWord⟩).2.map .data)
  | recycle (free : List ℕ) (b : ℕ) (H : Heap Addr Owner) (hd : s.dataTsk = .recycling b)
      (hp : Pool gHidBuf hidBufNum H (free ++ [b])) :
      Change wild s free .recycle { s with heap := H, dataTsk := .pend } (free ++ [b]) []

section

variable {wild : KeyBuf → KeyBuf} {s s' : Hid} {a : Action} {es : List Event} {free free' : List ℕ}

/-- **A step that is taken** does one of these. -/
theorem step_change (h : Owned s free) (hs : s.step wild a = .next (s', es)) :
    ∃ free', Change wild s free a s' free' es := by
  cases a with
  | openHid product =>
    simp only [Hid.step] at hs
    split at hs
    · cases hs
      exact ⟨free, .openHid free product ‹_›⟩
    · cases hs
  | test =>
    simp only [Hid.step] at hs
    split at hs
    · split_ifs at hs with h0
      · cases hs
        exact ⟨free, .close free ‹_› h0⟩
      · cases hs
        exact ⟨free, .announce free ‹_› h0⟩
    · cases hs
  | produce =>
    simp only [Hid.step] at hs
    split at hs
    · obtain ⟨b, rest, H, rfl, hb, hp, rfl, rfl⟩ := produce_next h hs
      exact ⟨rest, .produce b rest H ‹_› hb hp⟩
    · cases hs
  | read k =>
    simp only [Hid.step] at hs
    split at hs
    · cases hs
      exact ⟨free, .read free _ k ‹_›⟩
    · cases hs
  | readFail =>
    simp only [Hid.step] at hs
    split at hs
    · rename_i b hr
      obtain ⟨t, ht, hn⟩ := Outcome.bind_eq_next.mp hs
      obtain ⟨H, rfl, hp⟩ := giveBack_next h (by simp [Hid.held, hr, ReadTsk.hand]) ht
      cases hn
      exact ⟨_, .readFail free b H hr hp⟩
    · cases hs
  | post =>
    simp only [Hid.step] at hs
    split at hs
    · split_ifs at hs with hroom
      cases hs
      exact ⟨free, .post free _ ‹_› hroom⟩
    · cases hs
  | take =>
    simp only [Hid.step] at hs
    split at hs
    · cases hs
      exact ⟨free, .take free _ _ ‹_› ‹_›⟩
    · cases hs
  | silence timer =>
    simp only [Hid.step] at hs
    split at hs
    · cases hs
      exact ⟨free, .silence free timer ‹_›⟩
    · cases hs
  | handle =>
    simp only [Hid.step] at hs
    split at hs
    · cases hs
      exact ⟨free, .handle free _ ‹_›⟩
    · cases hs
  | recycle =>
    simp only [Hid.step] at hs
    split at hs
    · rename_i b hd
      have hb : b ∈ s.held := by simp [Hid.held, hd, DataTsk.hand]
      obtain ⟨t, ht, hn⟩ := Outcome.bind_eq_next.mp hs
      rw [h.buf b hb] at ht
      obtain ⟨H, rfl, hp⟩ := giveBack_next h hb ht
      cases hn
      exact ⟨_, .recycle free b H hd hp⟩
    · cases hs

/-- **The account is kept** by every step. -/
theorem Owned.change (h : Owned s free) (hc : Change wild s free a s' free' es) :
    Owned s' free' := by
  cases hc with
  | openHid _ product hr => exact h.move rfl (by simp [Hid.held, hr, ReadTsk.hand]) fun _ => rfl
  | close _ hr h0 => exact h.move rfl (by simp [Hid.held, hr, ReadTsk.hand]) fun _ => rfl
  | announce _ hr h0 => exact h.move rfl (by simp [Hid.held, hr, ReadTsk.hand]) fun _ => rfl
  | produce b _ H hr hb hp =>
    have hheld : s.held = s.mailbox ++ s.dataTsk.hand := by simp [Hid.held, hr, ReadTsk.hand]
    refine ⟨hp, ?_, fun x hx => ?_⟩
    · have hperm := h.perm
      rw [hheld] at hperm
      exact List.perm_middle.trans hperm
    · by_cases hxb : x = b
      · subst hxb
        simp
      · have hxs : x ∈ s.mailbox ++ s.dataTsk.hand := (List.mem_cons.mp hx).resolve_left hxb
        simpa [hxb] using h.buf x (by rw [hheld]; exact hxs)
  | read _ b k hr =>
    exact h.move rfl (by simp [Hid.held, hr, ReadTsk.hand]) fun x => buf_update_keyWord s.mem b k x
  | readFail _ b H hr hp =>
    have hperm := h.perm
    simp only [Hid.held, hr, ReadTsk.hand, List.singleton_append] at hperm
    refine ⟨hp, ?_, fun x hx => h.buf x ?_⟩
    · simpa [Hid.held, ReadTsk.hand] using hperm
    · exact List.mem_append_right _ hx
  | post _ b hr hroom =>
    refine h.move rfl ?_ fun _ => rfl
    simp only [Hid.held, hr, ReadTsk.hand, List.nil_append, List.append_assoc,
      List.singleton_append]
    exact List.perm_middle
  | take _ b rest hd hm =>
    refine h.move rfl ?_ fun _ => rfl
    simp only [Hid.held, hd, hm, DataTsk.hand, List.append_nil]
    exact (List.perm_append_singleton b rest).append_left _
  | silence => exact h.move rfl (List.Perm.refl _) fun _ => rfl
  | handle _ b hd => exact h.move rfl (by simp [Hid.held, hd, DataTsk.hand]) fun _ => rfl
  | recycle _ b H hd hp =>
    have hperm := h.perm
    simp only [Hid.held, hd, DataTsk.hand] at hperm
    refine ⟨hp, ?_, fun x hx => h.buf x ?_⟩
    · refine List.Perm.trans ?_ hperm
      simp only [Hid.held, DataTsk.hand, List.append_nil, List.append_assoc]
      exact List.Perm.append_left free (List.perm_append_comm.trans (by simp))
    · rcases List.mem_append.mp hx with hx | hx
      · exact List.mem_append_left _ hx
      · have hxm : x ∈ s.mailbox := (List.mem_append.mp hx).resolve_right List.not_mem_nil
        exact List.mem_append_right _ (List.mem_append_left _ hxm)

theorem owned_start {H : Heap Addr Owner} {mem : ℕ → HidFormat}
    (h : hidContextInit H mem = .next s) : Owned s (List.range hidBufNum) := by
  obtain ⟨H', hH, hp, -⟩ := createBufFactory_spec (f := gHidBuf) H hidBufNum
  simp only [hidContextInit, hH, Outcome.next_bind, Outcome.pure_eq, Outcome.next.injEq] at h
  subst h
  refine ⟨hp, ?_, fun b hb => ?_⟩
  · simp [Hid.held, ReadTsk.hand, DataTsk.hand]
  · simp [Hid.held, ReadTsk.hand, DataTsk.hand] at hb

end

end MultiPortConvertor.Usb.HidTasks
