import MultiPortConvertor.Uart.TransmitQueues

/-! # Who owns the buffers

`Booked` is the invariant of the account: no buffer is both free and linked, a buffer in use names
itself, messages are for buffers of the pool, and none is for a free buffer with its `free_flag`
set. It says nothing about the poll fields of buffers that were never used. `Owned` says of all free
buffers that their poll fields are cleared. Every change keeps both (`Booked.change`,
`Owned.change`) but one: the recycling of a buffer that is still linked, by the send task that finds
its `free_flag` set. -/

namespace MultiPortConvertor.Uart.Ownership

open MultiPortConvertor.Uart.Format MultiPortConvertor.Uart.Transmit
open MultiPortConvertor.Uart.TransmitQueues

structure Booked (k : Books) : Prop where
  nodup : (k.free ++ k.list).Nodup
  lt : ∀ b ∈ k.free ++ k.list, b < uartSendBufNum
  buf : ∀ b < uartSendBufNum, b ∉ k.free → (k.mem b).buf = b
  msg : ∀ m ∈ k.messages, m.p < uartSendBufNum
  quiet : ∀ m ∈ k.messages, m.p ∈ k.free → (k.mem m.p).poll.freeFlag = 0

structure Owned (k : Books) : Prop where
  nodup : (k.free ++ k.list).Nodup
  lt : ∀ b ∈ k.free ++ k.list, b < uartSendBufNum
  buf : ∀ b < uartSendBufNum, b ∉ k.free → (k.mem b).buf = b
  clear : ∀ b ∈ k.free, (k.mem b).poll = .cleared
  msg : ∀ m ∈ k.messages, m.p < uartSendBufNum

/-- The step that goes wrong: the message tested is for an entry with `free_flag` set. -/
def Premature (t : Option Message) (k : Books) : Prop :=
  ∃ msg, t = some msg ∧ (k.mem msg.p).poll.freeFlag ≠ 0 ∧ msg.p ∈ k.list

section

variable {free list l r : List ℕ} {mem : ℕ → UartSendFormat} {messages : List Message}
variable {k k' : Books} {b : ℕ} {t : Option Message} {es : List Event}

namespace Booked

theorem disjoint (h : Booked k) (hb : b ∈ k.list) : b ∉ k.free := fun hf =>
  (List.nodup_append.mp h.nodup).2.2 b hf b hb rfl

theorem lt_of_list (h : Booked k) (hb : b ∈ k.list) : b < uartSendBufNum :=
  h.lt b (List.mem_append_right _ hb)

theorem buf_of_list (h : Booked k) (hb : b ∈ k.list) : (k.mem b).buf = b :=
  h.buf b (h.lt_of_list hb) (h.disjoint hb)

/-- The buffer of a message is not free when it is flagged. -/
theorem notMem_of_flag (h : Booked k) {m : Message} (hm : m ∈ k.messages)
    (hf : (k.mem m.p).poll.freeFlag ≠ 0) : m.p ∉ k.free := fun hb => hf (h.quiet m hm hb)

theorem poll_change (h : Booked k) (hb : b ∉ k.free) (poll : UartPoll) :
    Booked { k with mem := setPoll k.mem b poll } := by
  refine ⟨h.nodup, h.lt, fun x hx hf => ?_, h.msg, fun m hm hf => ?_⟩
  · rw [setPoll_buf]
    exact h.buf x hx hf
  · have hne : m.p ≠ b := fun he => hb (he ▸ hf)
    rw [setPoll_poll_of_ne k.mem b poll hne]
    exact h.quiet m hm hf

theorem unlink (h : Booked ⟨free, l ++ b :: r, mem, messages⟩) :
    Booked ⟨free, l ++ r, mem, messages⟩ := by
  have hsub : (free ++ (l ++ r)).Sublist (free ++ (l ++ b :: r)) :=
    List.Sublist.append_left (List.Sublist.append_left (List.sublist_cons_self b r) l) free
  exact ⟨h.nodup.sublist hsub, fun x hx => h.lt x (hsub.subset hx), h.buf, h.msg, h.quiet⟩

/-- The message of a linked buffer is posted. -/
theorem post (h : Booked k) (hb : b ∈ k.list) :
    Booked { k with messages := k.messages ++ [messageOf k.mem b] } := by
  refine ⟨h.nodup, h.lt, h.buf, fun m hm => ?_, fun m hm hf => ?_⟩
  · rcases List.mem_append.mp hm with hm | hm
    · exact h.msg m hm
    · rw [List.mem_singleton.mp hm]
      exact h.lt_of_list hb
  · rcases List.mem_append.mp hm with hm | hm
    · exact h.quiet m hm hf
    · rw [List.mem_singleton.mp hm] at hf
      exact absurd hf (h.disjoint hb)

/-- A buffer that nobody owns is given back. -/
theorem give (h : Booked ⟨free, list, mem, messages⟩) (hb : b < uartSendBufNum) (hf : b ∉ free)
    (hl : b ∉ list) : Booked ⟨free ++ [b], list, setPoll mem b .cleared, messages⟩ := by
  have hc := h.poll_change hf .cleared
  have hperm : ((free ++ [b]) ++ list).Perm (b :: (free ++ list)) := by
    rw [List.append_assoc]
    exact List.perm_middle
  refine ⟨?_, fun x hx => ?_, fun x hx hn => hc.buf x hx fun hm => ?_, h.msg, fun m hm hx => ?_⟩
  · rw [hperm.nodup_iff, List.nodup_cons]
    refine ⟨fun hm => ?_, h.nodup⟩
    rcases List.mem_append.mp hm with hm | hm
    · exact hf hm
    · exact hl hm
  · rcases List.mem_cons.mp (hperm.mem_iff.mp hx) with rfl | hx
    · exact hb
    · exact h.lt x hx
  · exact hn (List.mem_append_left _ hm)
  · rcases List.mem_append.mp hx with hx | hx
    · exact hc.quiet m hm hx
    · rw [List.mem_singleton.mp hx, setPoll_poll_self]
      rfl

/-- A message is done with. -/
theorem done {msg : Message} (h : Booked ⟨free, list, mem, msg :: messages⟩) :
    Booked ⟨free, list, mem, messages⟩ :=
  ⟨h.nodup, h.lt, h.buf, fun m hm => h.msg m (List.mem_cons_of_mem _ hm),
    fun m hm => h.quiet m (List.mem_cons_of_mem _ hm)⟩

/-- **The account is kept** by every step that does not recycle a linked buffer. -/
theorem change (h : Booked k) (hc : Change t k es k') (hg : ¬ Premature t k) : Booked k' := by
  cases hc with
  | idle => exact h
  | wrote => exact h
  | enqueue b type fill free list mem messages =>
    have hperm : (free ++ (list ++ [b])).Perm (b :: free ++ list) := by
      rw [← List.append_assoc]
      exact List.perm_append_singleton b (free ++ list)
    have hbf : b ∉ free := fun hb => (List.nodup_cons.mp h.nodup).1 (List.mem_append_left _ hb)
    refine ⟨hperm.nodup_iff.mpr h.nodup, fun x hx => h.lt x (hperm.mem_iff.mp hx),
      fun x hx hf => ?_, h.msg, fun m hm hf => ?_⟩
    · by_cases he : x = b
      · subst he
        simp
      · have := h.buf x hx fun hm => (List.mem_cons.mp hm).elim he hf
        simpa [he] using this
    · have hne : m.p ≠ b := fun he => hbf (he ▸ hf)
      have := h.quiet m hm (List.mem_cons_of_mem _ hf)
      simpa [hne] using this
  | mark b _ hb => exact h.poll_change (h.disjoint hb) _
  | sendLast b l r free mem messages poll hv =>
    have hb : b ∈ l ++ b :: r := by simp
    have hp := (h.post hb).poll_change (h.disjoint hb) poll
    exact hp.unlink
  | send b _ poll hb hv => exact (h.post hb).poll_change (h.disjoint hb) poll
  | keep b _ poll hb hv => exact h.poll_change (h.disjoint hb) poll
  | drop b l r free mem messages hv =>
    have hb : b ∈ l ++ b :: r := by simp
    have hnb : b ∉ l ++ r := by
      have hnd := (List.nodup_append.mp h.nodup).2.1
      exact (List.nodup_cons.mp (List.nodup_middle.mp hnd)).1
    rw [h.buf_of_list hb]
    exact h.unlink.give (h.lt_of_list hb) (h.disjoint hb) hnb
  | recycle msg free list mem messages hf =>
    have hm : msg ∈ msg :: messages := by simp
    have hlt : msg.p < uartSendBufNum := h.msg msg hm
    have hnf : msg.p ∉ free := h.notMem_of_flag hm hf
    have hnl : msg.p ∉ list := fun hl => hg ⟨msg, rfl, hf, hl⟩
    rw [h.buf msg.p hlt hnf]
    exact h.done.give hlt hnf hnl
  | done msg free list mem messages hf => exact h.done

/-- **A buffer given back is not free already.** -/
theorem notMem_free_of_recycle (h : Booked k) (hc : Change t k es k') (he : .recycle b ∈ es) :
    b ∉ k.free := by
  cases hc with
  | drop c l r free mem messages hv =>
    have hb : c ∈ l ++ c :: r := by simp
    cases List.mem_singleton.mp he
    rw [h.buf_of_list hb]
    exact h.disjoint hb
  | recycle msg free list mem messages hf =>
    cases List.mem_singleton.mp he
    have hm : msg ∈ msg :: messages := by simp
    have hnf : msg.p ∉ free := h.notMem_of_flag hm hf
    rw [h.buf msg.p (h.msg msg hm) hnf]
    exact hnf
  | idle => simp at he
  | wrote => simp at he
  | enqueue => simp at he
  | mark => simp at he
  | sendLast => simp at he
  | send => simp at he
  | keep => simp at he
  | done => simp at he

end Booked

namespace Owned

theorem booked (h : Owned k) : Booked k :=
  ⟨h.nodup, h.lt, h.buf, h.msg, fun m _ hf => by rw [h.clear m.p hf]; rfl⟩

theorem disjoint (h : Owned k) (hb : b ∈ k.list) : b ∉ k.free := h.booked.disjoint hb

theorem lt_of_list (h : Owned k) (hb : b ∈ k.list) : b < uartSendBufNum := h.booked.lt_of_list hb

theorem buf_of_list (h : Owned k) (hb : b ∈ k.list) : (k.mem b).buf = b := h.booked.buf_of_list hb

end Owned

/-- **The poll fields of a free buffer** stand as they did if it was free already; of one that is
given back they are cleared. -/
theorem Booked.poll_of_free (h : Booked k) (hc : Change t k es k') (hb : b ∈ k'.free) :
    (k'.mem b).poll = if b ∈ k.free then (k.mem b).poll else .cleared := by
  have keep : ∀ {x : ℕ}, x ∈ k.list → ∀ poll, b ∈ k.free →
      (setPoll k.mem x poll b).poll = if b ∈ k.free then (k.mem b).poll else .cleared := by
    intro x hx poll hb
    have hne : b ≠ x := fun he => h.disjoint hx (he ▸ hb)
    rw [if_pos hb, setPoll_poll_of_ne k.mem x poll hne]
  have give : ∀ {x : ℕ}, x < uartSendBufNum → x ∉ k.free → b ∈ k.free ++ [(k.mem x).buf] →
      (setPoll k.mem x .cleared b).poll = if b ∈ k.free then (k.mem b).poll else .cleared := by
    intro x hlt hx hb
    rw [h.buf x hlt hx] at hb
    rw [setPoll_poll]
    by_cases he : b = x
    · rw [if_pos he, if_neg (he ▸ hx)]
    · rw [if_neg he, if_pos ((List.mem_append.mp hb).resolve_right fun hm =>
        he (List.mem_singleton.mp hm))]
  cases hc with
  | idle | wrote | done => rw [if_pos hb]
  | enqueue c type fill free list mem messages =>
    have hcf : c ∉ free := fun hm => (List.nodup_cons.mp h.nodup).1 (List.mem_append_left _ hm)
    have hne : b ≠ c := fun he => hcf (he ▸ hb)
    rw [if_pos (List.mem_cons_of_mem _ hb)]
    simp [hne]
  | mark c _ hc => exact keep hc _ hb
  | sendLast c l r free mem messages poll hv => exact keep (by simp) poll hb
  | send c _ poll hc hv => exact keep hc poll hb
  | keep c _ poll hc hv => exact keep hc poll hb
  | drop c l r free mem messages hv =>
    have hc : c ∈ l ++ c :: r := by simp
    exact give (h.lt_of_list hc) (h.disjoint hc) hb
  | recycle msg free list mem messages hf =>
    have hm : msg ∈ msg :: messages := by simp
    exact give (h.msg msg hm) (h.notMem_of_flag hm hf) hb

/-- **The free ring is a queue**: a buffer is taken at its head and given back at its end. -/
theorem free_change (hc : Change t k es k') :
    (∃ b, es = [.produce b] ∧ k.free = b :: k'.free) ∨ ∃ back, k'.free = k.free ++ back := by
  cases hc with
  | enqueue b type fill free list mem messages => exact .inl ⟨b, rfl, rfl⟩
  | drop b l r free mem messages hv => exact .inr ⟨_, rfl⟩
  | recycle msg free list mem messages hf => exact .inr ⟨_, rfl⟩
  | idle | wrote | mark | sendLast | send | keep | done => exact .inr ⟨[], (List.append_nil _).symm⟩

/-- **Ownership is kept** by every step that does not recycle a linked buffer. -/
theorem Owned.change (h : Owned k) (hc : Change t k es k') (hg : ¬ Premature t k) : Owned k' := by
  have hb := h.booked.change hc hg
  refine ⟨hb.nodup, hb.lt, hb.buf, fun b hf => ?_, hb.msg⟩
  rw [h.booked.poll_of_free hc hf]
  split_ifs with hm
  · exact h.clear b hm
  · rfl

end

end MultiPortConvertor.Uart.Ownership
