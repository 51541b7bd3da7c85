import MultiPortConvertor.Uart.Schedule

/-! # Runs on schedule

`Tracks` ties the record of a run to the queues: the entries on the list are `Live`, the others
`Gone`, the numbers increase along the list, and the pass has the visited entries behind it and the
rest before it. Every step keeps it that is not the test of a flag whose entry is still linked, so
in every such run all entries are on schedule (`schedule`). -/

namespace MultiPortConvertor.Uart.Retransmission

open MultiPortConvertor.Lib.Outcomes MultiPortConvertor.Lib.Runs MultiPortConvertor.Uart.Format
open MultiPortConvertor.Uart.Dispose MultiPortConvertor.Uart.Parse MultiPortConvertor.Uart.Transmit
open MultiPortConvertor.Uart.TransmitQueues MultiPortConvertor.Uart.Ownership
open MultiPortConvertor.Uart.Refinement MultiPortConvertor.Uart.Release
open MultiPortConvertor.Uart.Schedule

/-- The record of a pass and the two parts of the list. -/
structure InPass (p : Pass) (seen rest : List ℕ) : Prop where
  atLock : p.atLock = p.visited ++ rest
  left : p.left = seen
  sublist : p.left.Sublist p.visited
  nodup : p.atLock.Nodup

/-- **The record and the queues.** -/
structure Tracks (w : Watched) (q : Queues) : Prop where
  live : ∀ b ∈ q.list, ∀ e, w.now b = some e → Live e (q.mem b).poll
  gone : ∀ b, b ∉ q.list → ∀ e, w.now b = some e →
    Gone e ∧ (e.type = 1 → (q.mem b).poll.freeFlag = 0)
  past : ∀ e ∈ w.past, Gone e
  bound : ∀ e, w.Logged e → e.seq < w.count
  sorted : q.list.Pairwise fun b c => ∀ e e', w.now b = some e → w.now c = some e' → e.seq < e'.seq
  seen : ∀ b ∈ q.seen, ∀ e, w.now b = some e → e.passes ≠ 0
  first : ∀ b ∈ q.list, ∀ e, w.now b = some e → e.passes = 0 →
    ∀ e', w.Logged e' → e.seq < e'.seq → e'.passes = 0
  pass : q.locked = true → InPass w.pass q.seen q.rest

section

variable {w w' : Watched} {q q' : Queues} {a : Action} {es : List Event} {s' : Tx} {b x : ℕ}
variable {e e' : Entry}

theorem Tracks.onTime (ht : Tracks w q) (he : w.Logged e) : OnTime e := by
  rcases he with he | ⟨b, he⟩
  · exact (ht.past e he).onTime
  · by_cases hb : b ∈ q.list
    · exact (ht.live b hb e he).onTime
    · exact (ht.gone b hb e he).1.onTime

/-- A logged entry that no pass has visited is on the list. -/
theorem Tracks.linked_of_passes (ht : Tracks w q) (he : w.Logged e) (hp : e.passes = 0) :
    ∃ b ∈ q.list, w.now b = some e := by
  rcases he with he | ⟨b, he⟩
  · exact absurd hp (ht.past e he).passes_ne_zero
  · by_cases hb : b ∈ q.list
    · exact ⟨b, hb, he⟩
    · exact absurd hp (ht.gone b hb e he).1.passes_ne_zero

theorem Tracks.inOrder (ht : Tracks w q) : InOrder w := by
  intro e e' he he' hlt hposts htype
  rw [(ht.onTime he).posts]
  refine due_ne_nil htype fun hp => hposts ?_
  obtain ⟨b, hb, hnow⟩ := ht.linked_of_passes he hp
  rw [(ht.onTime he').posts]
  exact due_eq_nil (ht.first b hb e hnow hp e' he' hlt)

/-! ### The record after a step -/

theorem now_noted (hb : produced es ≠ some b) : (w.after a s' es).now b = w.noted a s' es b :=
  if_neg hb

/-- The record of a buffer that a step does not take comes from the record before. -/
theorem noted_eq_some (h : w.noted a s' es b = some e) : ∃ e₀, w.now b = some e₀ ∧
    e = e₀.note (visits w.tx a = some b) (es.any (postsTo b)) (es.any (gives b))
      (b ∈ s'.sendList ∧ (s'.mem b).poll.freeFlag ≠ 0) (b ∈ s'.sendList) := by
  obtain ⟨e₀, h₀, rfl⟩ := Option.map_eq_some_iff.mp h
  exact ⟨e₀, h₀, rfl⟩

@[simp] theorem note_seq (visited posted recycled acked linked : Bool) (e : Entry) :
    (e.note visited posted recycled acked linked).seq = e.seq := rfl

theorem note_passes (posted recycled acked linked : Bool) (e : Entry) :
    (e.note false posted recycled acked linked).passes = e.passes := rfl

/-- The record of a buffer that the poll task does not visit. -/
theorem noted_unvisited (hv : visits w.tx a ≠ some b) (h : w.noted a s' es b = some e) :
    ∃ e₀, w.now b = some e₀ ∧ e.seq = e₀.seq ∧ e.passes = e₀.passes := by
  obtain ⟨e₀, h₀, rfl⟩ := noted_eq_some h
  refine ⟨e₀, h₀, rfl, ?_⟩
  rw [decide_eq_false hv, note_passes]

/-- The record of the buffer that the poll task visits. -/
theorem noted_visited (hv : visits w.tx a = some b) (h : w.noted a s' es b = some e) :
    e.passes ≠ 0 := by
  obtain ⟨e₀, -, rfl⟩ := noted_eq_some h
  rw [decide_eq_true hv]
  exact Nat.succ_ne_zero e₀.passes

/-- The record of a linked buffer. -/
theorem noted_linked (hr : Rep s' q') (ho : Booked q'.books) (hb : b ∈ q'.list) :
    w.noted a s' es b = (w.now b).map (.note (visits w.tx a = some b) (es.any (postsTo b))
      (es.any (gives b)) ((q'.mem b).poll.freeFlag ≠ 0) true) := by
  unfold Watched.noted
  rw [sendList_eq hr (length_list_le ho), hr.mem]
  simp [hb]

/-- The record of a buffer that is not linked. -/
theorem noted_unlinked (hr : Rep s' q') (ho : Booked q'.books) (hb : b ∉ q'.list) :
    w.noted a s' es b = (w.now b).map (.note (visits w.tx a = some b) (es.any (postsTo b))
      (es.any (gives b)) false false) := by
  unfold Watched.noted
  rw [sendList_eq hr (length_list_le ho)]
  simp [hb]

/-- An entry of the record after a step that takes no buffer was one before it. -/
theorem logged_after (hp : produced es = none) (h : (w.after a s' es).Logged e) :
    ∃ e₀, w.Logged e₀ ∧ e.seq = e₀.seq ∧
      (e.passes = e₀.passes ∨ ∃ b, visits w.tx a = some b ∧ w.now b = some e₀) := by
  rcases h with h | ⟨b, h⟩
  · have h₀ : e ∈ w.past := by simpa [Watched.after, hp] using h
    exact ⟨e, .inl h₀, rfl, .inl rfl⟩
  · rw [now_noted (by simp [hp])] at h
    by_cases hv : visits w.tx a = some b
    · obtain ⟨e₀, h₀, rfl⟩ := noted_eq_some h
      exact ⟨e₀, .inr ⟨b, h₀⟩, rfl, .inr ⟨b, hv, h₀⟩⟩
    · obtain ⟨e₀, h₀, hs, hp⟩ := noted_unvisited hv h
      exact ⟨e₀, .inr ⟨b, h₀⟩, hs, .inl hp⟩

theorem past_after (hp : produced es = none) : (w.after a s' es).past = w.past := by
  simp [Watched.after, hp]

theorem count_after (hp : produced es = none) : (w.after a s' es).count = w.count := by
  simp [Watched.after, hp]

/-- **A step that takes no buffer** keeps the record, if every entry ends up as its place demands
and the entries before the one visited have been visited. -/
theorem Tracks.of_local (ht : Tracks w q) (hp : produced es = none) (hsub : q'.list.Sublist q.list)
    (hlive : ∀ b ∈ q'.list, ∀ e, w.noted a s' es b = some e → Live e (q'.mem b).poll)
    (hgone : ∀ b, b ∉ q'.list → ∀ e, w.noted a s' es b = some e →
      Gone e ∧ (e.type = 1 → (q'.mem b).poll.freeFlag = 0))
    (hseen : ∀ b ∈ q'.seen, b ∈ q.seen ∨ visits w.tx a = some b)
    (hbefore : ∀ b e, visits w.tx a = some b → w.now b = some e →
      ∀ c ∈ q.list, ∀ e₀, w.now c = some e₀ → e₀.seq < e.seq → e₀.passes ≠ 0)
    (hpass : q'.locked = true → InPass (w.turn s' a) q'.seen q'.rest) :
    Tracks (w.after a s' es) q' := by
  have hnow : ∀ b, (w.after a s' es).now b = w.noted a s' es b := fun b => now_noted (by simp [hp])
  have hseq : ∀ {b e}, (w.after a s' es).now b = some e → ∃ e₀, w.now b = some e₀ ∧
      e.seq = e₀.seq := by
    intro b e h
    rw [hnow] at h
    obtain ⟨e₀, h₀, rfl⟩ := noted_eq_some h
    exact ⟨e₀, h₀, rfl⟩
  refine ⟨fun b hb e h => hlive b hb e (hnow b ▸ h), fun b hb e h => hgone b hb e (hnow b ▸ h), ?_,
    fun e h => ?_, ?_, fun b hb e h => ?_, fun b hb e h hp0 e' h' hlt => ?_, hpass⟩
  · rw [past_after hp]
    exact ht.past
  · obtain ⟨e₀, h₀, hs, -⟩ := logged_after hp h
    rw [count_after hp, hs]
    exact ht.bound e₀ h₀
  · refine (ht.sorted.sublist hsub).imp fun {b c} hlt e e' h h' => ?_
    obtain ⟨e₀, h₀, hs⟩ := hseq h
    obtain ⟨e₀', h₀', hs'⟩ := hseq h'
    rw [hs, hs']
    exact hlt e₀ e₀' h₀ h₀'
  · rw [hnow] at h
    by_cases hv : visits w.tx a = some b
    · exact noted_visited hv h
    · obtain ⟨e₀, h₀, -, hpe⟩ := noted_unvisited hv h
      rw [hpe]
      exact ht.seen b ((hseen b hb).resolve_right hv) e₀ h₀
  · rw [hnow] at h
    by_cases hv : visits w.tx a = some b
    · exact absurd hp0 (noted_visited hv h)
    · obtain ⟨e₀, h₀, hs, hpe⟩ := noted_unvisited hv h
      rw [hpe] at hp0
      obtain ⟨e₀', h₀', hs', hpe' | ⟨c, hc, hnowc⟩⟩ := logged_after hp h'
      · rw [hpe']
        exact ht.first b (hsub.subset hb) e₀ h₀ hp0 e₀' h₀' (by rwa [← hs, ← hs'])
      · exact absurd hp0 (hbefore c e₀' hc hnowc b (hsub.subset hb) e₀ h₀ (by rwa [← hs, ← hs']))

/-- The step leaves the entry of the buffer alone. -/
structure Alone (w : Watched) (a : Action) (es : List Event) (b : ℕ) : Prop where
  unvisited : visits w.tx a ≠ some b
  unposted : es.any (postsTo b) = false
  kept : es.any (gives b) = false

theorem Alone.noted_live (h : Alone w a es b) (hr : Rep s' q') (ho : Booked q'.books)
    (hb : b ∈ q'.list) (hlive : ∀ e, w.now b = some e → Live e (q'.mem b).poll) :
    w.noted a s' es b = w.now b := by
  rw [noted_linked hr ho hb, decide_eq_false h.unvisited, h.unposted, h.kept]
  cases hnow : w.now b with
  | none => rfl
  | some e => rw [Option.map_some, (hlive e hnow).note_eq]

theorem Alone.noted_gone (h : Alone w a es b) (hr : Rep s' q') (ho : Booked q'.books)
    (hb : b ∉ q'.list) (hgone : ∀ e, w.now b = some e → Gone e) : w.noted a s' es b = w.now b := by
  rw [noted_unlinked hr ho hb, decide_eq_false h.unvisited, h.unposted, h.kept]
  cases hnow : w.now b with
  | none => rfl
  | some e => rw [Option.map_some, (hgone e hnow).note_eq]

/-- An entry left alone that stays linked. -/
theorem Tracks.live_alone (ht : Tracks w q) (ha : Alone w a es b) (hr : Rep s' q')
    (ho : Booked q'.books) (hb' : b ∈ q'.list) (hb : b ∈ q.list)
    (hmem : (q'.mem b).poll = (q.mem b).poll) (h : w.noted a s' es b = some e) :
    Live e (q'.mem b).poll := by
  rw [ha.noted_live hr ho hb' fun e he => hmem ▸ ht.live b hb e he] at h
  rw [hmem]
  exact ht.live b hb e h

/-- The last entry of a buffer left alone that is not linked. -/
theorem Tracks.gone_alone (ht : Tracks w q) (ha : Alone w a es b) (hr : Rep s' q')
    (ho : Booked q'.books) (hb' : b ∉ q'.list) (hb : b ∉ q.list)
    (hmem : (q'.mem b).poll = (q.mem b).poll) (h : w.noted a s' es b = some e) :
    Gone e ∧ (e.type = 1 → (q'.mem b).poll.freeFlag = 0) := by
  rw [ha.noted_gone hr ho hb' fun e he => (ht.gone b hb e he).1] at h
  rw [hmem]
  exact ht.gone b hb e h

/-! ### The steps -/

/-- Nothing happens to any entry. -/
theorem Tracks.quiet (ht : Tracks w q) (hr : Rep s' q') (ho : Booked q'.books)
    (hp : produced es = none) (halone : ∀ b, Alone w a es b) (hmem : q'.mem = q.mem)
    (hlist : q'.list = q.list) (hseen : ∀ b ∈ q'.seen, b ∈ q.seen)
    (hpass : q'.locked = true → InPass (w.turn s' a) q'.seen q'.rest) :
    Tracks (w.after a s' es) q' := by
  have hpoll : ∀ b, (q'.mem b).poll = (q.mem b).poll := fun b => by rw [hmem]
  refine ht.of_local hp (hlist ▸ List.Sublist.refl _) (fun b hb e h => ?_) (fun b hb e h => ?_)
    (fun b hb => .inl (hseen b hb)) (fun b e hv => absurd hv (halone b).unvisited) hpass
  · exact ht.live_alone (halone b) hr ho hb (hlist ▸ hb) (hpoll b) h
  · exact ht.gone_alone (halone b) hr ho hb (hlist ▸ hb) (hpoll b) h

/-- An entry is acknowledged. -/
theorem Tracks.mark (ht : Tracks w q) (hr : Rep s'
    (q.setPoll b { (q.mem b).poll with freeFlag := 1 }))
    (ho : Booked (q.setPoll b { (q.mem b).poll with freeFlag := 1 }).books) (hb : b ∈ q.list)
    (hv : visits w.tx a = none) (hpass : q.locked = true → InPass (w.turn s' a) q.seen q.rest) :
    Tracks (w.after a s' []) (q.setPoll b { (q.mem b).poll with freeFlag := 1 }) := by
  have halone : ∀ c, Alone w a [] c := fun c => ⟨by simp [hv], rfl, rfl⟩
  have hpoll : ∀ c ≠ b, ((q.setPoll b { (q.mem b).poll with freeFlag := 1 }).mem c).poll =
      (q.mem c).poll := fun c hc => by simp [Queues.setPoll, hc]
  refine ht.of_local rfl (List.Sublist.refl _) (fun c hc e h => ?_) (fun c hc e h => ?_)
    (fun c hc => .inl hc) (fun c e hv' => absurd hv' (halone c).unvisited)
    hpass
  · by_cases he : c = b
    · subst he
      rw [noted_linked hr ho hc, decide_eq_false (halone c).unvisited] at h
      obtain ⟨e₀, h₀, rfl⟩ := Option.map_eq_some_iff.mp h
      simpa [Queues.setPoll] using (ht.live c hb e₀ h₀).mark
    · exact ht.live_alone (halone c) hr ho hc hc (hpoll c he) h
  · have hne : c ≠ b := fun he => hc (he ▸ hb)
    exact ht.gone_alone (halone c) hr ho hc hc (hpoll c hne) h

/-- The send task gives a buffer back that is not linked: it is not the buffer of a notification. -/
theorem Tracks.recycle (ht : Tracks w q) (hr : Rep s' (q.release b))
    (ho : Booked (q.release b).books) (hbuf : (q.mem b).buf = b) (hb : b ∉ q.list)
    (hf : (q.mem b).poll.freeFlag ≠ 0) (hv : visits w.tx a = none)
    (hpass : q.locked = true → InPass (w.turn s' a) q.seen q.rest) :
    Tracks (w.after a s' [.recycle b]) (q.release b) := by
  have halone : ∀ c ≠ b, Alone w a [.recycle b] c :=
    fun c hc => ⟨by simp [hv], rfl, by simp [gives, hc.symm]⟩
  have hpoll : ∀ c ≠ b, ((q.release b).mem c).poll = (q.mem c).poll :=
    fun c hc => by simp [Queues.release, Queues.setPoll, hc]
  refine ht.of_local rfl (List.Sublist.refl _) (fun c hc e h => ?_) (fun c hc e h => ?_)
    (fun c hc => .inl hc) (fun c e hv' => by simp [hv] at hv')
    hpass
  · have hne : c ≠ b := fun he => hb (he ▸ hc)
    exact ht.live_alone (halone c hne) hr ho hc hc (hpoll c hne) h
  · by_cases he : c = b
    · subst he
      rw [noted_unlinked hr ho hc, hv] at h
      obtain ⟨e₀, h₀, rfl⟩ := Option.map_eq_some_iff.mp h
      obtain ⟨hg, hflag⟩ := ht.gone c hb e₀ h₀
      have hne : e₀.type ≠ 1 := fun h1 => hf (hflag h1)
      exact ⟨hg.note fun h1 => absurd h1 hne, fun h1 => absurd h1 hne⟩
    · exact ht.gone_alone (halone c he) hr ho hc hc (hpoll c he) h

/-- **An entry is linked.** -/
theorem Tracks.link (ht : Tracks w q) (ho₀ : Booked q.books) (hr : Rep s' q') (ho : Booked q'.books)
    {free : List ℕ} (hf : q.free = b :: free) (hv : visits w.tx a = none)
    (hlist : q'.list = q.list ++ [b]) (hseen : q'.seen = q.seen)
    (hmem : ∀ c ≠ b, (q'.mem c).poll = (q.mem c).poll) (hl : q'.locked = false) :
    Tracks (w.after a s' [.produce b]) q' := by
  have hb : b ∉ q.list := fun hm => ho₀.disjoint (k := q.books) hm (by simp [Queues.books, hf])
  have halone : ∀ c, Alone w a [.produce b] c := fun c => ⟨by simp [hv], rfl, rfl⟩
  have hself : (w.after a s' [.produce b]).now b = enter w.count (q'.mem b).poll := by
    simp [Watched.after, produced, hr.mem]
  have hnow : ∀ c ≠ b, (w.after a s' [.produce b]).now c = w.now c := by
    intro c hc
    rw [now_noted (by simpa [produced] using hc.symm)]
    by_cases hm : c ∈ q'.list
    · have hm₀ : c ∈ q.list := by simpa [hlist, hc] using hm
      exact (halone c).noted_live hr ho hm fun e h => (hmem c hc).symm ▸ ht.live c hm₀ e h
    · have hm₀ : c ∉ q.list := fun h => hm (by simp [hlist, h])
      exact (halone c).noted_gone hr ho hm fun e h => (ht.gone c hm₀ e h).1
  have hne : ∀ c ∈ q.list, c ≠ b := fun c hc he => hb (he ▸ hc)
  have hold : ∀ c ∈ q.list, ∀ {e}, (w.after a s' [.produce b]).now c = some e → w.now c = some e :=
    fun c hc e h => hnow c (hne c hc) ▸ h
  have hlogged : ∀ e, (w.after a s' [.produce b]).Logged e →
      w.Logged e ∨ e.seq = w.count ∧ e.passes = 0 := by
    rintro e (h | ⟨c, h⟩)
    · rcases List.mem_append.mp h with h | h
      · exact .inl (.inl h)
      · exact .inl (.inr ⟨b, by simpa [produced] using h⟩)
    · by_cases he : c = b
      · subst he
        exact .inr (enter_live (hself ▸ h)).2
      · exact .inl (.inr ⟨c, hnow c he ▸ h⟩)
  have hcount : (w.after a s' [.produce b]).count = w.count + 1 := rfl
  refine ⟨fun c hc e h => ?_, fun c hc e h => ?_, fun e h => ?_, fun e h => ?_, ?_,
    fun c hc e h => ?_,
    fun c hc e h hp e' h' hlt => ?_, fun hl' => ?_⟩
  · by_cases he : c = b
    · subst he
      exact (enter_live (hself ▸ h)).1
    · have hc₀ : c ∈ q.list := by simpa [hlist, he] using hc
      rw [hmem c he]
      exact ht.live c hc₀ e (hnow c he ▸ h)
  · have he : c ≠ b := fun he => hc (by simp [hlist, he])
    have hc₀ : c ∉ q.list := fun h => hc (by simp [hlist, h])
    rw [hmem c he]
    exact ht.gone c hc₀ e (hnow c he ▸ h)
  · rcases List.mem_append.mp h with h | h
    · exact ht.past e h
    · exact (ht.gone b hb e (by simpa [produced] using h)).1
  · rw [hcount]
    rcases hlogged e h with h | ⟨h, -⟩
    · exact Nat.lt_succ_of_lt (ht.bound e h)
    · rw [h]
      exact Nat.lt_succ_self _
  · rw [hlist, List.pairwise_append]
    refine ⟨ht.sorted.imp_of_mem fun {c d} hc hd hlt e e' h h' => ?_, by simp,
      fun c hc d hd e e' h h' => ?_⟩
    · exact hlt e e' (hold c hc h) (hold d hd h')
    · obtain rfl := List.mem_singleton.mp hd
      rw [hself] at h'
      rw [(enter_live h').2.1]
      exact ht.bound e (.inr ⟨c, hold c hc h⟩)
  · rw [hseen] at hc
    exact ht.seen c hc e (hold c (List.mem_append_left _ hc) h)
  · rcases hlogged e' h' with h₀ | ⟨-, h₀⟩
    · by_cases he : c = b
      · subst he
        rw [(enter_live (hself ▸ h)).2.1] at hlt
        exact absurd (ht.bound e' h₀) hlt.not_gt
      · have hc₀ : c ∈ q.list := by simpa [hlist, he] using hc
        exact ht.first c hc₀ e (hnow c he ▸ h) hp e' h₀ hlt
    · exact h₀
  · rw [hl] at hl'
    cases hl'

/-- The numbers increase along the list, so the entries with smaller numbers than the one at the
pointer have been seen. -/
theorem Tracks.before {rest : List ℕ} {d : ℕ} {e₀ : Entry} (ht : Tracks w q)
    (hq : q.rest = b :: rest) (hnow : w.now b = some e) (hd : d ∈ q.list) (h₀ : w.now d = some e₀)
    (hlt : e₀.seq < e.seq) : e₀.passes ≠ 0 := by
  have hsorted := ht.sorted
  rw [Queues.list, hq] at hsorted hd
  rcases List.mem_append.mp hd with hd | hd
  · exact ht.seen d hd e₀ h₀
  · rcases List.mem_cons.mp hd with rfl | hd
    · obtain rfl := Option.some.inj (hnow.symm.trans h₀)
      exact absurd hlt (lt_irrefl _)
    · have := (List.pairwise_cons.mp (List.pairwise_append.mp hsorted).2.1).1 d hd e e₀ hnow h₀
      omega

/-- The pass after the entry at the pointer. -/
theorem Tracks.inPass {rest : List ℕ} (ht : Tracks w q) (hr : Rep s' q') (ho : Booked q'.books)
    (hq : q.rest = b :: rest) (hl : q.locked = true) (hrest : q'.rest = rest)
    (hv : visits w.tx .pollEntry = some b) (hseen : q'.seen = q.seen ++ [b].filter (· ∈ q'.list)) :
    InPass (w.turn s' .pollEntry) q'.seen q'.rest := by
  have hpass := ht.pass hl
  have hat := hpass.atLock
  rw [hq] at hat
  have hturn : w.turn s' .pollEntry = ⟨w.pass.atLock, w.pass.visited ++ [b],
      w.pass.left ++ [b].filter (· ∈ q'.list)⟩ := by
    unfold Watched.turn
    rw [hv, sendList_eq hr (length_list_le ho)]
    rfl
  rw [hturn, hseen]
  refine ⟨by simp [hat, hrest], by rw [hpass.left], ?_, hpass.nodup⟩
  exact hpass.sublist.append List.filter_sublist

/-- **The poll task visits an entry**, which stays on the list or leaves it. -/
theorem Tracks.visit {rest : List ℕ} (ht : Tracks w q) (ho₀ : Booked q.books) (hr : Rep s' q')
    (ho : Booked q'.books) (hq : q.rest = b :: rest) (hl : q.locked = true) (hrest : q'.rest = rest)
    (hv : visits w.tx .pollEntry = some b) (hp : produced es = none)
    (hes : ∀ c ≠ b, es.any (postsTo c) = false ∧ es.any (gives c) = false)
    (hmem : ∀ c ≠ b, (q'.mem c).poll = (q.mem c).poll)
    (hcase : (q'.seen = q.seen ++ [b] ∧ ∀ e, Live e (q.mem b).poll →
        Live (e.note true (es.any (postsTo b)) (es.any (gives b))
          ((q'.mem b).poll.freeFlag ≠ 0) true) (q'.mem b).poll) ∨
      (q'.seen = q.seen ∧ ∀ e, Live e (q.mem b).poll →
        Gone (e.note true (es.any (postsTo b)) (es.any (gives b)) false false) ∧
          (e.type = 1 → (q'.mem b).poll.freeFlag = 0))) :
    Tracks (w.after .pollEntry s' es) q' := by
  have hlist : q.list = q.seen ++ b :: rest := by rw [Queues.list, hq]
  have hb : b ∈ q.list := by simp [hlist]
  have hnd : b ∉ q.seen ++ rest := by
    have hnd := (List.nodup_append.mp ho₀.nodup).2.1
    rw [show q.books.list = q.seen ++ b :: rest from hlist] at hnd
    exact (List.nodup_cons.mp (List.nodup_middle.mp hnd)).1
  have hlist' : q'.list = q'.seen ++ rest := by rw [Queues.list, hrest]
  have hmem_iff : ∀ c ≠ b, (c ∈ q'.list ↔ c ∈ q.list) := by
    intro c hc
    obtain ⟨hs, -⟩ | ⟨hs, -⟩ := hcase <;> simp [hlist, hlist', hs, hc]
  have hsub : q'.list.Sublist q.list := by
    rw [hlist, hlist']
    obtain ⟨hs, -⟩ | ⟨hs, -⟩ := hcase
    · simp [hs]
    · rw [hs]
      exact List.Sublist.append_left (List.sublist_cons_self b rest) q.seen
  have halone : ∀ c ≠ b, Alone w .pollEntry es c :=
    fun c hc => ⟨by simpa [hv] using hc.symm, (hes c hc).1, (hes c hc).2⟩
  refine ht.of_local hp hsub (fun c hc e h => ?_) (fun c hc e h => ?_) (fun c hc => ?_)
    (fun c e hc hnow d hd e₀ h₀ hlt => ?_) fun _ => ?_
  · by_cases he : c = b
    · subst he
      rw [noted_linked hr ho hc, hv, decide_eq_true rfl] at h
      obtain ⟨e₀, h₀, rfl⟩ := Option.map_eq_some_iff.mp h
      obtain ⟨-, hlive⟩ | ⟨hs, -⟩ := hcase
      · exact hlive e₀ (ht.live c hb e₀ h₀)
      · rw [hlist', hs] at hc
        exact absurd hc hnd
    · exact ht.live_alone (halone c he) hr ho hc ((hmem_iff c he).mp hc) (hmem c he) h
  · by_cases he : c = b
    · subst he
      rw [noted_unlinked hr ho hc, hv, decide_eq_true rfl] at h
      obtain ⟨e₀, h₀, rfl⟩ := Option.map_eq_some_iff.mp h
      obtain ⟨hs, -⟩ | ⟨-, hgone⟩ := hcase
      · exact absurd (by simp [hlist', hs]) hc
      · exact hgone e₀ (ht.live c hb e₀ h₀)
    · have hc₀ : c ∉ q.list := fun h => hc ((hmem_iff c he).mpr h)
      exact ht.gone_alone (halone c he) hr ho hc hc₀ (hmem c he) h
  · obtain ⟨hs, -⟩ | ⟨hs, -⟩ := hcase
    · rw [hs] at hc
      rcases List.mem_append.mp hc with hc | hc
      · exact .inl hc
      · rw [List.mem_singleton.mp hc]
        exact .inr hv
    · exact .inl (hs ▸ hc)
  · obtain rfl : b = c := Option.some.inj (hv.symm.trans hc)
    exact ht.before hq hnow hd h₀ hlt
  · refine ht.inPass hr ho hq hl hrest hv ?_
    obtain ⟨hs, -⟩ | ⟨hs, -⟩ := hcase
    · have hb' : b ∈ q'.list := by simp [hlist', hs]
      simp [hs, hb']
    · have hb' : b ∉ q'.list := by rwa [hlist', hs]
      simp [hs, hb']

/-- One entry of a pass. -/
theorem Tracks.treat {rest : List ℕ} (ht : Tracks w q) (ho : Booked q.books) (hr' : Rep s' q')
    (ho' : Booked q'.books) (hq : q.rest = b :: rest) (hl : q.locked = true)
    (hv : visits w.tx .pollEntry = some b) (h : q.treat b rest = .next (q', es)) :
    Tracks (w.after .pollEntry s' es) q' := by
  have hpost : ∀ bytes c, [Event.post (q.message b) bytes].any (postsTo c) = decide (b = c) :=
    fun bytes c => by simp [postsTo, Queues.message]
  have hgive : ∀ bytes c, [Event.post (q.message b) bytes].any (gives c) = false := fun _ _ => rfl
  have hpoll : ∀ poll c, c ≠ b → ((q.setPoll b poll).mem c).poll = (q.mem c).poll :=
    fun poll c hc => by simp [Queues.setPoll, hc]
  have hself : ∀ poll, ((q.setPoll b poll).mem b).poll = poll :=
    fun poll => by simp [Queues.setPoll]
  obtain ⟨poll, hd, rfl, rfl⟩ | ⟨poll, hd, rfl, rfl⟩ | ⟨poll, hd, rfl, rfl⟩ | ⟨hd, rfl, rfl⟩ :=
    Queues.treat_next h
  · refine ht.visit ho hr' ho' hq hl rfl hv rfl (fun c hc => ?_) (hpoll poll)
      (.inr ⟨rfl, fun e he => ?_⟩)
    · simp [hpost, hgive, hc.symm]
    · rw [hpost, hgive, decide_eq_true rfl]
      have h0 := (verdict_sendLast hd).1
      rw [he.type] at h0
      exact ⟨he.sendLast hd, fun h1 => by omega⟩
  · refine ht.visit ho hr' ho' hq hl rfl hv rfl (fun c hc => ?_) (hpoll poll)
      (.inl ⟨rfl, fun e he => ?_⟩)
    · simp [hpost, hgive, hc.symm]
    · rw [hpost, hgive, decide_eq_true rfl]
      dsimp only
      rw [hself]
      exact he.send hd
  · refine ht.visit ho hr' ho' hq hl rfl hv rfl (fun c hc => ⟨rfl, rfl⟩) (hpoll poll)
      (.inl ⟨rfl, fun e he => ?_⟩)
    dsimp only
    rw [hself]
    exact he.keep hd
  · have hb : b ∈ q.books.list := by simp [Queues.books, Queues.list, hq]
    have hbuf : (q.mem b).buf = b := ho.buf_of_list hb
    have hgives : ∀ c, [Event.recycle (q.mem b).buf].any (gives c) = decide (b = c) :=
      fun c => by simp [gives, hbuf]
    refine ht.visit ho hr' ho' hq hl rfl hv rfl (fun c hc => ⟨rfl, ?_⟩) (hpoll .cleared)
      (.inr ⟨rfl, fun e he => ⟨?_, fun _ => ?_⟩⟩)
    · simp [hgives, hc.symm]
    · rw [hgives, decide_eq_true rfl]
      exact he.drop hd
    · exact congrArg UartPoll.freeFlag (hself .cleared)

/-- The entry at the pointer of the poll task. -/
theorem visits_eq {rest : List ℕ} (hr : Rep w.tx q) (hq : q.rest = b :: rest)
    (hl : q.locked = true) : visits w.tx .pollEntry = some b := by
  have hp : w.tx.pollTsk = .pass (some (.entry b)) := by
    rw [hr.pollTsk, hl, if_pos rfl, hq]
    rfl
  have hlists := hr.lists
  rw [Queues.list, hq] at hlists
  unfold visits
  rw [hp]
  exact hlists.owner_entry

/-- A step of a task that leaves the buffers as they are. -/
theorem Tracks.idle (ht : Tracks w q) (hr' : Rep s' q') (ho' : Booked q'.books)
    (hes : es = [] ∨ ∃ bytes, es = [.wrote bytes]) (hv : visits w.tx a = none)
    (hmem : q'.mem = q.mem) (hlist : q'.list = q.list) (hseen : ∀ b ∈ q'.seen, b ∈ q.seen)
    (hpass : q'.locked = true → InPass (w.turn s' a) q'.seen q'.rest) :
    Tracks (w.after a s' es) q' := by
  refine ht.quiet hr' ho' ?_ (fun b => ⟨by simp [hv], ?_, ?_⟩) hmem hlist hseen hpass
  · obtain rfl | ⟨bytes, rfl⟩ := hes <;> rfl
  · obtain rfl | ⟨bytes, rfl⟩ := hes <;> rfl
  · obtain rfl | ⟨bytes, rfl⟩ := hes <;> rfl

/-- An entry is queued. -/
theorem Tracks.enqueue {fill : UartCmdFormat → UartCmdFormat} {type : ℕ} {r : Queues}
    (ht : Tracks w q) (ho : Booked q.books) (hr' : Rep s' q') (ho' : Booked q'.books)
    (hv : visits w.tx a = none) (h : q.enqueue fill type = .next (r, es)) (hlist : q'.list = r.list)
    (hseen : q'.seen = r.seen) (hmem : q'.mem = r.mem) (hlocked : q'.locked = r.locked) :
    Tracks (w.after a s' es) q' := by
  have hl := Queues.unlocked_of_enqueue h
  obtain ⟨b, free, hf, rfl, rfl⟩ := Queues.enqueue_next h
  refine ht.link ho hr' ho' hf hv ?_ hseen (fun c hc => ?_) (hlocked.trans hl)
  · rw [hlist]
    simp [Queues.list]
  · rw [hmem]
    simp [hc]

/-- The poll task begins a pass. -/
theorem Tracks.lock (ht : Tracks w q) (hw : q.Rewound) (ho : Booked q.books)
    (hq : q.step .pollLock = .next (q', es)) (hr' : Rep s' q') (ho' : Booked q'.books) :
    Tracks (w.after .pollLock s' es) q' := by
  simp only [Queues.step] at hq
  split_ifs at hq with hl
  cases hq
  have hseen : q.seen = [] := hw (by simpa using hl)
  have hsend := sendList_eq hr' (length_list_le ho')
  refine ht.idle hr' ho' (.inl rfl) rfl rfl rfl (fun _ => id) fun _ => ?_
  refine ⟨?_, hseen.symm, List.Sublist.refl _, ?_⟩
  · simp [Watched.turn, hsend, Queues.list, hseen]
  · simp only [Watched.turn, hsend]
    exact (List.nodup_append.mp ho.nodup).2.1

/-- The send task tests the flag of a message it has written. -/
theorem Tracks.test (ht : Tracks w q) (hr : Rep w.tx q) (ho : Booked q.books)
    (hg : ¬ ReleasesLinked w.tx .test) (hq : q.step .test = .next (q', es)) (hr' : Rep s' q')
    (ho' : Booked q'.books) : Tracks (w.after .test s' es) q' := by
  cases hs : q.sendTsk with
  | pend => simp [Queues.step, hs] at hq
  | write msg nhasSend => simp [Queues.step, hs] at hq
  | test msg =>
    have hm : msg ∈ q.books.messages := by simp [Queues.books, Queues.messages, hs]
    simp only [Queues.step, hs] at hq
    split_ifs at hq with hf
    · cases hq
      have hbuf : (q.mem msg.p).buf = msg.p :=
        ho.buf msg.p (ho.msg msg hm) (ho.notMem_of_flag hm hf)
      have hnl : msg.p ∉ q.list := fun hl =>
        hg ((premature_iff hr ho).mp ⟨msg, by simp [Queues.tested, hs], hf, hl⟩)
      have ht' : Tracks w { q with sendTsk := .pend } :=
        ⟨ht.live, ht.gone, ht.past, ht.bound, ht.sorted, ht.seen, ht.first, ht.pass⟩
      change Tracks (w.after .test s' [.recycle (q.mem msg.p).buf]) _
      rw [hbuf]
      exact ht'.recycle hr' ho' hbuf hnl hf rfl ht.pass
    · cases hq
      exact ht.idle hr' ho' (.inl rfl) rfl rfl rfl (fun _ => id) ht.pass

/-- **The record is kept** by every step that does not go wrong. -/
theorem Tracks.after (ht : Tracks w q) (hr : Rep w.tx q) (ho : Booked q.books) (hw : q.Rewound)
    (hg : ¬ ReleasesLinked w.tx a) (hq : q.step a = .next (q', es)) (hr' : Rep s' q')
    (ho' : Booked q'.books) : Tracks (w.after a s' es) q' := by
  cases a with
  | dispose info =>
    obtain ⟨⟨r, es'⟩, hen, hn⟩ := Outcome.bind_eq_next.mp hq
    cases hn
    exact ht.enqueue ho hr' ho' rfl hen rfl rfl rfl rfl
  | recv p =>
    cases p with
    | dropped =>
      cases hq
      exact ht.idle hr' ho' (.inl rfl) rfl rfl rfl (fun _ => id) ht.pass
    | respond r =>
      exact ht.enqueue ho hr' ho' rfl hq rfl rfl rfl rfl
    | acknowledge sn reply =>
      obtain ⟨rfl, rfl | ⟨b, hb, rfl⟩⟩ := Queues.acknowledge_next hq
      · exact ht.idle hr' ho' (.inl rfl) rfl rfl rfl (fun _ => id) ht.pass
      · exact ht.mark hr' ho' hb rfl ht.pass
  | pollLock => exact ht.lock hw ho hq hr' ho'
  | pollEntry =>
    simp only [Queues.step] at hq
    split_ifs at hq with hl
    split at hq
    · cases hq
    · rename_i b rest hrest
      exact ht.treat ho hr' ho' hrest hl (visits_eq hr hrest hl) hq
  | pollUnlock =>
    simp only [Queues.step] at hq
    split_ifs at hq with hl
    cases hq
    refine ht.idle hr' ho' (.inl rfl) rfl rfl ?_ (fun _ h => by cases h) fun h => by cases h
    simp [Queues.list, hl.2]
  | take =>
    simp only [Queues.step] at hq
    split at hq
    · cases hq
      exact ht.idle hr' ho' (.inl rfl) rfl rfl rfl (fun _ => id) ht.pass
    · cases hq
  | write nsend =>
    simp only [Queues.step, Queues.sendWrite] at hq
    split at hq
    · split_ifs at hq
      · cases hq
        exact ht.idle hr' ho' (.inl rfl) rfl rfl rfl (fun _ => id) ht.pass
      · cases hq
        exact ht.idle hr' ho' (.inr ⟨_, rfl⟩) rfl rfl rfl (fun _ => id) ht.pass
    · cases hq
  | test => exact ht.test hr ho hg hq hr' ho'

/-! ### Runs -/

/-- A state in order, with its record. -/
def Tracked (w : Watched) : Prop := ∃ q, Rep w.tx q ∧ Booked q.books ∧ q.Rewound ∧ Tracks w q

theorem tracked_watch (h : Tracked w) (hg : ¬ ReleasesLinked w.tx a) (hn : watch w a = some w') :
    Tracked w' := by
  obtain ⟨q, hr, ho, hw, ht⟩ := h
  obtain ⟨⟨s', es⟩, hs, rfl⟩ := Option.map_eq_some_iff.mp hn
  obtain ⟨q', hq, hr', ho', hw', -⟩ := step_booked hr ho hw hg (Outcome.toOption_eq_some.mp hs)
  exact ⟨q', hr', ho', hw', ht.after hr ho hw hg hq hr' ho'⟩

theorem tracked_watched {s : Tx} (hs : Orderly s) (hp : s.pollTsk = .sleep) :
    Tracked (watched s) := by
  obtain ⟨q, hr, ho, hw⟩ := hs
  have hl : q.locked = false := by
    have hlocked := hr.locked
    rw [Tx.locked, hp] at hlocked
    simpa using hlocked.symm
  refine ⟨q, hr, ho, hw, ?_, ?_, ?_, ?_, ?_, ?_, ?_, fun h => ?_⟩
  · exact fun b _ e h => by cases h
  · exact fun b _ e h => by cases h
  · exact fun e h => by cases h
  · rintro e (h | ⟨b, h⟩) <;> cases h
  · exact List.pairwise_of_forall fun _ _ e _ h => by cases h
  · exact fun b _ e h => by cases h
  · exact fun b _ e h => by cases h
  · rw [hl] at h
    cases h

/-- A step of the pointers is a step of the queues. -/
theorem queues_of_watch (hr : Rep w.tx q) (ho : Booked q.books) (hw : q.Rewound)
    (hn : watch w a = some w') : ∃ s' es q', w' = w.after a s' es ∧ q.step a = .next (q', es) := by
  obtain ⟨⟨s', es⟩, hs, rfl⟩ := Option.map_eq_some_iff.mp hn
  obtain ⟨q', hq, -⟩ := step_queues hr ho hw (Outcome.toOption_eq_some.mp hs)
  exact ⟨s', es, q', rfl, hq⟩

/-- A step of the queues is a step of the pointers. -/
theorem next_isSome (hr : Rep w.tx q) (ho : Booked q.books) (hw : q.Rewound)
    {x : Queues × List Event} (h : q.step a = .next x) : (next w.tx a).isSome := by
  have hm := step_matches hr ho hw a
  rw [h] at hm
  obtain ⟨s', hs, -⟩ := hm
  rw [next, hs]
  rfl

theorem Tracked.going (h : Tracked w) : Going w := by
  obtain ⟨q, hr, ho, hw, ht⟩ := h
  intro hl
  rw [hr.locked] at hl
  have hpass := ht.pass hl
  have hrest : w.pass.visited = w.pass.atLock ↔ q.rest = [] := by
    rw [hpass.atLock]
    simp
  refine ⟨⟨q.rest, hpass.atLock.symm⟩, hpass.nodup, fun hv => ?_, fun hv hroom => ?_⟩
  · exact next_isSome (x := (_, _)) hr ho hw (if_pos ⟨hl, hrest.mp hv⟩)
  · obtain ⟨b, rest, hq⟩ := List.exists_cons_of_ne_nil fun hn => hv (hrest.mpr hn)
    rw [hr.mailbox] at hroom
    obtain ⟨x, hx⟩ := Queues.treat_of_room hroom b rest
    exact next_isSome (x := x) hr ho hw (by simp [Queues.step, hl, hq, hx])

theorem Tracked.passes (h : Tracked w) (a : Action) : Passes w a := by
  obtain ⟨q, hr, ho, hw, ht⟩ := h
  constructor
  · rintro rfl w' hn
    obtain ⟨s', es, q', rfl, hq⟩ := queues_of_watch hr ho hw hn
    simp only [Queues.step] at hq
    split_ifs at hq with hl
    split at hq
    · cases hq
    · rename_i b rest hrest
      refine ⟨b, ?_⟩
      simp [Watched.after, Watched.turn, visits_eq hr hrest hl]
  · rintro rfl hn
    obtain ⟨w', hn⟩ := Option.isSome_iff_exists.mp hn
    obtain ⟨s', es, q', rfl, hq⟩ := queues_of_watch hr ho hw hn
    simp only [Queues.step] at hq
    split_ifs at hq with hl
    obtain ⟨hat, hleft, hsub, -⟩ := ht.pass hl.1
    rw [hl.2, List.append_nil] at hat
    refine ⟨hat.symm, ?_, hat ▸ hsub⟩
    rw [sendList_eq hr (length_list_le ho), Queues.list, hl.2, List.append_nil, hleft]

end

/-- **The schedule of the retransmissions.** Start from any state in order in which no pass is going
on, with any entries on the list, and let entries be enqueued, passes be made and flags be set in
any order, while the send task takes messages; it only must not give a buffer back that is still
linked. Then every pass goes on along the list to its end, visits every entry once and leaves the
list in order without the entries it unlinks; every entry enqueued with its fields zero is on
schedule; and first posts are in the order of the enqueues. -/
theorem schedule {s : Tx} (hs : Orderly s) (hp : s.pollTsk = .sleep) {as : List Action}
    (hg : Steps watch (fun w a => ¬ ReleasesLinked w.tx a) (watched s) as) :
    States watch (fun w => (∀ e, w.Logged e → OnTime e) ∧ InOrder w ∧ Going w) (watched s) as ∧
      Steps watch Passes (watched s) as := by
  have hstart := tracked_watched hs hp
  have hinv : ∀ w a w', Tracked w → ¬ ReleasesLinked w.tx a → watch w a = some w' → Tracked w' :=
    fun w a w' h hg hn => tracked_watch h hg hn
  refine ⟨(states_of_guarded hinv hstart hg).mono fun w h => ?_,
    steps_of_guarded hinv (fun w a h _ => h.passes a) hstart hg⟩
  have hgoing := h.going
  obtain ⟨q, -, -, -, ht⟩ := h
  exact ⟨fun e he => ht.onTime he, ht.inOrder, hgoing⟩

/-- Two notifications, the first acknowledged between two passes. -/
def twoNtfs : List Action :=
  [.dispose (hidInsertNtf 1), .dispose (hidInsertNtf 2), .pollLock, .pollEntry,
    .pollEntry, .pollUnlock,
    .take, .write 9, .test, .recv (uartProtocolParse id (hidInsertAck 0) envInit),
    .pollLock, .pollEntry, .pollEntry, .pollUnlock]

/-- The theorem applied to this run. -/
theorem schedule_twoNtfs :
    States watch (fun w => (∀ e, w.Logged e → OnTime e) ∧ InOrder w ∧ Going w)
      (watched txInit) twoNtfs ∧
      Steps watch Passes (watched txInit) twoNtfs :=
  schedule (orderly_init uartContextInit_txInit) (by decide +kernel) (by decide +kernel)

/-- What the record says of the two in the end. -/
example : (exec watch (watched txInit) twoNtfs).map (fun w => (w.now 0, w.now 1, w.pass)) =
    some (some ⟨1, 0, 2, some 1, [1], [2], false⟩, some ⟨1, 1, 2, none, [1], [], true⟩,
      ⟨[0, 1], [0, 1], [1]⟩) := by
  decide +kernel

end MultiPortConvertor.Uart.Retransmission
