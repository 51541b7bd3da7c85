import MultiPortConvertor.Uart.Release

/-! # When an entry is posted

The record of a run keeps every entry enqueued with `delay`, `times` and `free_flag` zero: how many
passes of the poll task have visited it, after how many it was acknowledged, and in which passes it
was posted and its buffer given back. The two counters of a notification are functions of its
passes, so what `uart_poll_tsk` does with it is decided by the number of the pass and the
acknowledgement alone (`OnTime`, `schedule`). -/

namespace MultiPortConvertor.Uart.Schedule

open MultiPortConvertor.Lib.Outcomes MultiPortConvertor.Lib.Runs MultiPortConvertor.Uart.Format
open MultiPortConvertor.Uart.Dispose MultiPortConvertor.Uart.Parse MultiPortConvertor.Uart.Transmit
open MultiPortConvertor.Uart.TransmitQueues MultiPortConvertor.Uart.Ownership
open MultiPortConvertor.Uart.Refinement MultiPortConvertor.Uart.Release

/-! ### The record of a run -/

/-- An entry: its type, its number in the order of the enqueues, the passes that have visited it,
the passes it had seen when it was first found acknowledged, the passes in which it was posted and
in which its buffer was given back, and whether it is on the list. -/
structure Entry where
  type : ℕ
  seq : ℕ
  passes : ℕ
  acked : Option ℕ
  posts : List ℕ
  recycles : List ℕ
  linked : Bool
  deriving DecidableEq

/-- What a step means for an entry. -/
def Entry.note (visited posted recycled acked linked : Bool) (e : Entry) : Entry :=
  let passes := if visited then e.passes + 1 else e.passes
  { e with
    passes := passes
    acked := e.acked.or (if acked then some passes else none)
    posts := if posted then e.posts ++ [passes] else e.posts
    recycles := if recycled then e.recycles ++ [passes] else e.recycles
    linked := linked }

/-- The fields that count are zero. -/
def Blank (poll : UartPoll) : Prop := poll.delay = 0 ∧ poll.times = 0 ∧ poll.freeFlag = 0

instance (poll : UartPoll) : Decidable (Blank poll) := inferInstanceAs (Decidable (_ ∧ _ ∧ _))

/-- The record of an entry just linked, if its fields are zero. -/
def enter (seq : ℕ) (poll : UartPoll) : Option Entry :=
  if Blank poll then some ⟨poll.type, seq, 0, none, [], [], true⟩ else none

/-- The buffer taken. -/
def produced (es : List Event) : Option ℕ := es.findSome? fun
  | .produce b => some b
  | _ => none

/-- A message for the buffer is posted. -/
def postsTo (b : ℕ) : Event → Bool
  | .post msg _ => msg.p = b
  | _ => false

/-- The buffer is given back. -/
def gives (b : ℕ) : Event → Bool
  | .recycle c => c = b
  | _ => false

/-- The entry that the poll task treats in the step. -/
def visits (s : Tx) : Action → Option ℕ
  | .pollEntry =>
    match s.pollTsk with
    | .pass (some p) => (s.heap p).owner
    | _ => none
  | _ => none

/-- A pass: the list when the lock was taken, the entries visited so far, and those of them that
were still linked after their visit. -/
structure Pass where
  atLock : List ℕ
  visited : List ℕ
  left : List ℕ
  deriving DecidableEq

/-- A state with its record: the last entry of each buffer, the entries before it, the number of the
enqueues, and the pass. -/
structure Watched where
  tx : Tx
  now : ℕ → Option Entry
  past : List Entry
  count : ℕ
  pass : Pass

def watched (s : Tx) : Watched := ⟨s, fun _ => none, [], 0, ⟨[], [], []⟩⟩

/-- The pass after a step. -/
def Watched.turn (w : Watched) (s : Tx) : Action → Pass
  | .pollLock => ⟨s.sendList, [], []⟩
  | .pollEntry => { w.pass with
    visited := w.pass.visited ++ (visits w.tx .pollEntry).toList
    left := w.pass.left ++ (visits w.tx .pollEntry).toList.filter (· ∈ s.sendList) }
  | _ => w.pass

/-- The record of a buffer after a step that does not take it. -/
def Watched.noted (w : Watched) (a : Action) (s : Tx) (es : List Event) (b : ℕ) : Option Entry :=
  (w.now b).map <| .note (visits w.tx a = some b) (es.any (postsTo b)) (es.any (gives b))
    (b ∈ s.sendList ∧ (s.mem b).poll.freeFlag ≠ 0) (b ∈ s.sendList)

/-- The record after a step. -/
def Watched.after (w : Watched) (a : Action) (s : Tx) (es : List Event) : Watched where
  tx := s
  now := fun b => if produced es = some b then enter w.count (s.mem b).poll else w.noted a s es b
  past := w.past ++ ((produced es).bind w.now).toList
  count := w.count + (produced es).toList.length
  pass := w.turn s a

/-- The next state with its record. -/
def watch (w : Watched) (a : Action) : Option Watched :=
  (w.tx.step a).toOption.map fun x => w.after a x.1 x.2

/-- An entry of the record. -/
def Watched.Logged (w : Watched) (e : Entry) : Prop := e ∈ w.past ∨ ∃ b, w.now b = some e

/-! ### The schedule -/

/-- The pass in which the entry is unlinked: the first for a response; for a notification the first
after its first at which it is acknowledged, or the 301st. -/
def Entry.last (e : Entry) : ℕ :=
  if e.type = 0 then 1
  else match e.acked with
    | none => 301
    | some k => min (max (k + 1) 2) 301

/-- The passes in which the entry is to be posted by now. -/
def Entry.due (e : Entry) : List ℕ :=
  if e.type = 0 then [1].filter fun p => p ≤ e.passes
  else if e.type = 1 then [1, 101, 201].filter fun p => p ≤ e.passes ∧ p < e.last
  else []

/-- **The entry is on schedule.** -/
structure OnTime (e : Entry) : Prop where
  posts : e.posts = e.due
  linked : e.type ≤ 1 → e.passes ≤ e.last ∧ (e.linked = true ↔ e.passes < e.last)
  recycled : e.type = 1 → e.recycles = if e.passes = e.last then [e.last] else []
  kept : 1 < e.type → e.linked = true

/-- **First posts are in the order of the enqueues.** -/
def InOrder (w : Watched) : Prop := ∀ e e', w.Logged e → w.Logged e' → e.seq < e'.seq →
  e'.posts ≠ [] → e.type ≤ 1 → e.posts ≠ []

/-- **A pass goes on** along the list as it was when the lock was taken, to its end, where it gives
the lock back; it only waits for room in the message queue. -/
def Going (w : Watched) : Prop := w.tx.locked = true →
  w.pass.visited <+: w.pass.atLock ∧ w.pass.atLock.Nodup ∧
    (w.pass.visited = w.pass.atLock → (next w.tx .pollUnlock).isSome) ∧
    (w.pass.visited ≠ w.pass.atLock → w.tx.mailbox.length < uartMbxNum →
      (next w.tx .pollEntry).isSome)

/-- **A visit and the end of a pass.** A visit is of one entry. When the lock is given back, every
entry has been visited, and the list is what the visits have left of it. -/
def Passes (w : Watched) (a : Action) : Prop :=
  (a = .pollEntry → ∀ w', watch w a = some w' → ∃ b, w'.pass.visited = w.pass.visited ++ [b]) ∧
  (a = .pollUnlock → (watch w a).isSome → w.pass.visited = w.pass.atLock ∧
    w.tx.sendList = w.pass.left ∧ w.pass.left.Sublist w.pass.atLock)

/-! ### An entry and its poll fields -/

/-- **An entry on the list**: its poll fields are functions of the passes and the acknowledgement.
-/
structure Live (e : Entry) (poll : UartPoll) : Prop where
  type : poll.type = e.type
  linked : e.linked = true
  posts : e.posts = e.due
  recycles : e.recycles = []
  response : e.type = 0 → e.passes = 0
  early : e.type = 1 → e.passes < e.last
  times : e.type = 1 → poll.times = (e.passes + 99) / 100
  delay : e.type = 1 → poll.delay = 5 * ((e.passes - 1) % 100)
  flag : poll.freeFlag = 0 ↔ e.acked = none
  acked : ∀ k, e.acked = some k → k ≤ e.passes

/-- **An entry off the list.** -/
structure Gone (e : Entry) : Prop where
  type : e.type ≤ 1
  linked : e.linked = false
  passes : e.passes = e.last
  posts : e.posts = e.due
  recycles : e.type = 1 → e.recycles = [e.last]

section

variable {e : Entry} {poll poll' : UartPoll} {n seq : ℕ}

theorem last_response (h : e.type = 0) : e.last = 1 := if_pos h

theorem last_ge (h : e.type = 1) : 2 ≤ e.last ∧ e.last ≤ 301 := by
  unfold Entry.last
  rw [if_neg (by omega)]
  split <;> omega

theorem last_unacked (h : e.type = 1) (hn : e.acked = none) : e.last = 301 := by
  unfold Entry.last
  rw [if_neg (by omega), hn]

theorem last_acked (h : e.type = 1) {k : ℕ} (hk : e.acked = some k) :
    e.last = min (max (k + 1) 2) 301 := by
  unfold Entry.last
  rw [if_neg (by omega), hk]

theorem due_response (h : e.type = 0) : e.due = [1].filter fun p => p ≤ e.passes := if_pos h

theorem due_ntf (h : e.type = 1) :
    e.due = [1, 101, 201].filter fun p => p ≤ e.passes ∧ p < e.last := by
  unfold Entry.due
  rw [if_neg (by omega), if_pos h]

theorem due_other (h : 1 < e.type) : e.due = [] := by
  unfold Entry.due
  rw [if_neg (by omega), if_neg (by omega)]

/-- An entry that has been visited was posted. -/
theorem due_ne_nil (ht : e.type ≤ 1) (hp : e.passes ≠ 0) : e.due ≠ [] := by
  have hle : 1 ≤ e.passes := Nat.pos_of_ne_zero hp
  rcases Nat.le_one_iff_eq_zero_or_eq_one.mp ht with h | h
  · rw [due_response h, List.filter_cons_of_pos (by simpa using hle)]
    simp
  · have hl : 1 < e.last := (last_ge h).1
    rw [due_ntf h, List.filter_cons_of_pos (by simp [hle, hl])]
    simp

theorem due_eq_nil (hp : e.passes = 0) : e.due = [] := by
  unfold Entry.due
  rw [hp]
  split_ifs <;> simp

/-- The next pass adds itself to the passes that are due, if it is one of the three. -/
theorem filter_succ (n last : ℕ) :
    ([1, 101, 201].filter fun p => p ≤ n + 1 ∧ p < last) =
      ([1, 101, 201].filter fun p => p ≤ n ∧ p < last) ++
        if n + 1 ∈ [1, 101, 201] ∧ n + 1 < last then [n + 1] else [] := by
  by_cases hm : n + 1 ∈ [1, 101, 201]
  · have h : n = 0 ∨ n = 100 ∨ n = 200 := by simpa using hm
    have h1 : 101 < last → 1 < last := by omega
    have h101 : 201 < last → 101 < last := by omega
    obtain rfl | rfl | rfl := h
    · by_cases hl : 1 < last <;> simp [hl]
    · by_cases hl : 101 < last
      · simp [hl, h1 hl]
      · simp [List.filter_cons, hl]
    · by_cases hl : 201 < last
      · simp [hl, h101 hl, h1 (h101 hl)]
      · simp [List.filter_cons, hl]
  · rw [if_neg fun h => hm h.1, List.append_nil]
    refine List.filter_congr fun p hp => ?_
    have hne : p ≠ n + 1 := fun he => hm (he ▸ hp)
    rw [decide_eq_decide]
    omega

/-- The entry after a visit. -/
def Entry.visit (posted recycled linked : Bool) (e : Entry) : Entry :=
  { e with
    passes := e.passes + 1
    posts := if posted then e.posts ++ [e.passes + 1] else e.posts
    recycles := if recycled then e.recycles ++ [e.passes + 1] else e.recycles
    linked := linked }

theorem last_visit (posted recycled linked : Bool) :
    (e.visit posted recycled linked).last = e.last := rfl

/-- What is due after a visit of a notification. -/
theorem due_visit (h : e.type = 1) (posted recycled linked : Bool) :
    (e.visit posted recycled linked).due = e.due ++
      if e.passes + 1 ∈ [1, 101, 201] ∧ e.passes + 1 < e.last then [e.passes + 1] else [] := by
  rw [due_ntf h, due_ntf (e := e.visit posted recycled linked) h]
  exact filter_succ e.passes e.last

theorem Live.or_acked (h : Live e poll) (n : ℕ) :
    e.acked.or (if poll.freeFlag ≠ 0 then some n else none) = e.acked := by
  by_cases hf : poll.freeFlag = 0
  · rw [if_neg (by simpa using hf), Option.or_none]
  · obtain ⟨k, hk⟩ := Option.ne_none_iff_exists'.mp fun hn => hf (h.flag.mpr hn)
    rw [hk, Option.some_or]

/-- An entry that is not visited stands as it does. -/
theorem Live.note_eq (h : Live e poll) :
    e.note false false false (poll.freeFlag ≠ 0) true = e := by
  have ha := h.or_acked e.passes
  have hl := h.linked
  cases e
  simp_all [Entry.note]

/-- A visit finds no new acknowledgement. -/
theorem Live.note_visit (h : Live e poll) (hf : poll'.freeFlag = poll.freeFlag)
    (posted recycled : Bool) :
    e.note true posted recycled (poll'.freeFlag ≠ 0) true = e.visit posted recycled true := by
  have ha := h.or_acked (e.passes + 1)
  rw [← hf] at ha
  cases e
  simp_all [Entry.note, Entry.visit]

theorem note_unlink (posted recycled : Bool) :
    e.note true posted recycled false false = e.visit posted recycled false := by
  simp [Entry.note, Entry.visit]

/-- What is due does not depend on the end, as long as it is not reached. -/
theorem due_congr {e e' : Entry} (ht : e'.type = e.type) (hp : e'.passes = e.passes)
    (hl : e.type = 1 → e.passes < e.last ∧ e.passes < e'.last) : e'.due = e.due := by
  unfold Entry.due
  rw [ht, hp]
  split_ifs with h0 h1
  · rfl
  · obtain ⟨hlt, hlt'⟩ := hl h1
    refine List.filter_congr fun p _ => ?_
    rw [decide_eq_decide]
    omega
  · rfl

/-- **An acknowledgement.** -/
theorem Live.mark (h : Live e poll) :
    Live (e.note false false false true true) { poll with freeFlag := 1 } := by
  cases ha : e.acked with
  | some k =>
    have he : e.note false false false true true = e := by
      have hl := h.linked
      cases e
      simp_all [Entry.note]
    rw [he]
    exact ⟨h.type, h.linked, h.posts, h.recycles, h.response, h.early, h.times, h.delay,
      by simp [ha], h.acked⟩
  | none =>
    have hacked : (e.note false false false true true).acked = some e.passes := by
      simp [Entry.note, ha]
    have hearly : e.type = 1 → e.passes < (e.note false false false true true).last := by
      intro ht
      have hlt := h.early ht
      rw [last_unacked ht ha] at hlt
      rw [last_acked (e := e.note false false false true true) ht hacked]
      omega
    have hdue : (e.note false false false true true).due = e.due :=
      due_congr rfl rfl fun ht => ⟨h.early ht, hearly ht⟩
    refine ⟨h.type, rfl, h.posts.trans hdue.symm, h.recycles, h.response, hearly, h.times, h.delay,
      by simp [hacked], fun k hk => ?_⟩
    rw [hacked] at hk
    cases hk
    exact le_rfl

/-- The counters of a notification do not overflow. -/
theorem Live.counters (h : Live e poll) (ht : e.type = 1) :
    (poll.delay + 5) % 2 ^ 32 = 5 * ((e.passes - 1) % 100) + 5 ∧
      (poll.times + 1) % 2 ^ 32 = (e.passes + 99) / 100 + 1 := by
  have hle := (last_ge ht).2
  have hlt := h.early ht
  rw [h.delay ht, h.times ht]
  exact ⟨Nat.mod_eq_of_lt (by omega), Nat.mod_eq_of_lt (by omega)⟩

/-- The delay runs out every hundredth pass. -/
theorem delay_over_iff {p : ℕ} (hp : p ≠ 0) : 500 ≤ 5 * ((p - 1) % 100) + 5 ↔ p % 100 = 0 := by
  omega

/-- **A response** is posted in its first pass and unlinked. -/
theorem Live.sendLast (h : Live e poll) (hv : verdict poll = .sendLast poll') :
    Gone (e.note true true false false false) := by
  have ht : e.type = 0 := h.type ▸ (verdict_sendLast hv).1
  have hp := h.response ht
  rw [note_unlink]
  refine ⟨?_, rfl, ?_, ?_, fun h1 => ?_⟩
  · change e.type ≤ 1
    omega
  · rw [last_visit, last_response ht]
    change e.passes + 1 = 1
    omega
  · rw [due_response (e := e.visit true false false) ht]
    simp [Entry.visit, h.posts, due_eq_nil hp, hp]
  · change e.type = 1 at h1
    omega

/-- **A notification is posted** in passes 1, 101 and 201. -/
theorem Live.send (h : Live e poll) (hv : verdict poll = .send poll') :
    Live (e.note true true false (poll'.freeFlag ≠ 0) true) poll' := by
  obtain ⟨ht, hcase⟩ := verdict_send hv
  rw [h.type] at ht
  obtain ⟨hdelay, htimes⟩ := h.counters ht
  have hearly := h.early ht
  rw [htimes, hdelay, h.times ht] at hcase
  have hflag : poll'.freeFlag = poll.freeFlag := by
    obtain ⟨-, rfl⟩ | ⟨-, -, -, -, rfl⟩ := hcase <;> rfl
  have hpass : e.passes = 0 ∨ (e.passes = 100 ∨ e.passes = 200) ∧ e.acked = none := by
    obtain ⟨h0, -⟩ | ⟨h0, hf, hd, hn, -⟩ := hcase
    · omega
    · have := (delay_over_iff (p := e.passes) (by omega)).mp hd
      exact .inr ⟨by omega, h.flag.mp hf⟩
  have hpost : e.passes + 1 ∈ [1, 101, 201] ∧ e.passes + 1 < e.last := by
    obtain hp | ⟨hp, hn⟩ := hpass
    · have := (last_ge ht).1
      simp [hp]
      omega
    · rw [last_unacked ht hn]
      simp
      omega
  have hnext : poll'.type = e.type ∧ poll'.times = (e.passes + 1 + 99) / 100 ∧
      poll'.delay = 5 * ((e.passes + 1 - 1) % 100) := by
    obtain ⟨h0, rfl⟩ | ⟨h0, hf, hd, hn, rfl⟩ := hcase
    · have hp : e.passes = 0 := by omega
      refine ⟨h.type, ?_, ?_⟩
      · simp [hp]
      · simp [hp, h.delay ht]
    · refine ⟨h.type, ?_, ?_⟩
      · dsimp only
        omega
      · dsimp only
        omega
  rw [h.note_visit hflag]
  refine ⟨hnext.1, rfl, ?_, h.recycles, fun he => ?_, fun _ => hpost.2, fun _ => hnext.2.1,
    fun _ => hnext.2.2, hflag ▸ h.flag, fun k hk => Nat.le_succ_of_le (h.acked k hk)⟩
  · rw [due_visit ht, if_pos hpost, ← h.posts]
    rfl
  · change e.type = 0 at he
    omega

/-- **An entry is left alone** in all other passes. -/
theorem Live.keep (h : Live e poll) (hv : verdict poll = .keep poll') :
    Live (e.note true false false (poll'.freeFlag ≠ 0) true) poll' := by
  obtain ⟨ht, h0, hf, hd, rfl⟩ | ⟨ht, rfl⟩ := verdict_keep hv
  · rw [h.note_visit rfl]
    rw [h.type] at ht
    rw [h.times ht] at h0
    rw [(h.counters ht).1] at hd
    have hp : e.passes % 100 ≠ 0 := fun hp =>
      absurd ((delay_over_iff (p := e.passes) (by omega)).mpr hp) (not_le.mpr hd)
    have hearly := h.early ht
    have hlast := last_unacked ht (h.flag.mp hf)
    have hpost : ¬ (e.passes + 1 ∈ [1, 101, 201] ∧ e.passes + 1 < e.last) := by
      simp
      omega
    refine ⟨h.type, rfl, ?_, h.recycles, fun he => ?_, fun _ => ?_, fun _ => ?_,
      fun _ => ?_, h.flag,
      fun k hk => Nat.le_succ_of_le (h.acked k hk)⟩
    · rw [due_visit ht, if_neg hpost, List.append_nil, ← h.posts]
      rfl
    · change e.type = 0 at he
      omega
    · rw [last_visit]
      change e.passes + 1 < _
      omega
    · change poll.times = (e.passes + 1 + 99) / 100
      rw [h.times ht]
      omega
    · change (poll.delay + 5) % 2 ^ 32 = 5 * ((e.passes + 1 - 1) % 100)
      rw [(h.counters ht).1]
      omega
  · rw [h.note_visit rfl]
    rw [h.type] at ht
    have hne : ∀ k ≤ 1, (e.visit false false true).type ≠ k := fun k hk he => by
      change e.type = k at he
      omega
    refine ⟨h.type, rfl, ?_, h.recycles, fun he => absurd he (hne 0 (by omega)),
      fun he => absurd he (hne 1 le_rfl), fun he => absurd he (hne 1 le_rfl),
      fun he => absurd he (hne 1 le_rfl), h.flag, fun k hk => Nat.le_succ_of_le (h.acked k hk)⟩
    rw [due_other (e := e.visit false false true) ht, show (e.visit false false true).posts =
      e.posts from rfl,
      h.posts, due_other ht]

/-- **A notification is unlinked** and its buffer given back in the first pass after its first at
which it is acknowledged, or in the 301st. -/
theorem Live.drop (h : Live e poll) (hv : verdict poll = .drop) :
    Gone (e.note true false true false false) := by
  obtain ⟨ht, h0, hcase⟩ := verdict_drop hv
  rw [h.type] at ht
  obtain ⟨hdelay, htimes⟩ := h.counters ht
  have hearly := h.early ht
  rw [h.times ht] at h0
  have hlast : e.passes + 1 = e.last := by
    by_cases hf : poll.freeFlag = 0
    · obtain ⟨hd, hn⟩ := hcase.resolve_left fun hn => hn hf
      rw [hdelay, delay_over_iff (by omega)] at hd
      rw [htimes] at hn
      rw [last_unacked ht (h.flag.mp hf)] at hearly ⊢
      omega
    · obtain ⟨k, hk⟩ := Option.ne_none_iff_exists'.mp fun hn => hf (h.flag.mpr hn)
      have hle := h.acked k hk
      rw [last_acked ht hk] at hearly ⊢
      omega
  rw [note_unlink]
  refine ⟨?_, rfl, hlast, ?_, fun _ => ?_⟩
  · change e.type ≤ 1
    omega
  · rw [due_visit ht, if_neg (by omega), List.append_nil, ← h.posts]
    rfl
  · rw [last_visit, ← hlast]
    simp [Entry.visit, h.recycles]

theorem Gone.note_eq (h : Gone e) : e.note false false false false false = e := by
  have hl := h.linked
  cases e
  simp_all [Entry.note]

/-- An entry off the list stays so, unless it is taken again. -/
theorem Gone.note (h : Gone e) {recycled : Bool} (hr : e.type = 1 → recycled = false) :
    Gone (e.note false false recycled false false) := by
  have hacked : (e.note false false recycled false false).acked = e.acked := by simp [Entry.note]
  have hlast : (e.note false false recycled false false).last = e.last := by
    unfold Entry.last
    rw [hacked]
    rfl
  refine ⟨h.type, rfl, ?_, ?_, fun ht => ?_⟩
  · rw [hlast]
    exact h.passes
  · have hp : (e.note false false recycled false false).posts = e.posts := rfl
    rw [hp, h.posts]
    unfold Entry.due
    rw [hlast]
    rfl
  · rw [hlast, ← h.recycles ht]
    simp [Entry.note, hr ht]

/-- An entry just linked. -/
theorem enter_live (h : enter seq poll = some e) : Live e poll ∧ e.seq = seq ∧ e.passes = 0 := by
  unfold enter at h
  split_ifs at h with hb
  obtain ⟨hd, ht, hf⟩ := hb
  cases h
  refine ⟨⟨rfl, rfl, (due_eq_nil rfl).symm, rfl, fun _ => rfl, fun h1 => ?_, fun _ => by simp [ht],
    fun _ => by simp [hd], by simp [hf], by simp⟩, rfl, rfl⟩
  rw [last_unacked h1 rfl]
  simp

theorem Live.onTime (h : Live e poll) : OnTime e := by
  refine ⟨h.posts, fun ht => ?_, fun ht => ?_, fun _ => h.linked⟩
  · have hlt : e.passes < e.last := by
      rcases Nat.le_one_iff_eq_zero_or_eq_one.mp ht with h0 | h1
      · rw [last_response h0, h.response h0]
        exact Nat.one_pos
      · exact h.early h1
    exact ⟨hlt.le, by simp [h.linked, hlt]⟩
  · rw [if_neg (h.early ht).ne]
    exact h.recycles

theorem Gone.onTime (h : Gone e) : OnTime e := by
  refine ⟨h.posts, fun _ => ⟨h.passes.le, by simp [h.linked, h.passes]⟩, fun ht => ?_, fun ht => ?_⟩
  · rw [if_pos h.passes]
    exact h.recycles ht
  · have := h.type
    omega

theorem Gone.passes_ne_zero (h : Gone e) : e.passes ≠ 0 := by
  rw [h.passes]
  rcases Nat.le_one_iff_eq_zero_or_eq_one.mp h.type with h0 | h1
  · rw [last_response h0]
    exact one_ne_zero
  · have := last_ge h1
    omega

theorem Gone.posts_ne_nil (h : Gone e) : e.posts ≠ [] := by
  rw [h.posts]
  exact due_ne_nil h.type h.passes_ne_zero

end

end MultiPortConvertor.Uart.Schedule
