import MultiPortConvertor.Lib.Histories
import MultiPortConvertor.Net.UploadResult

/-! # The server's connection

`get_time_Url` and `post_record_Url` both write `net_state[3].err`, but only the heartbeat keeps
`heart_err_time`. So the counter counts the heartbeats missed since the last good one, modulo three,
whatever has been uploaded in between (`run_tracks`), and a heartbeat may take the server offline
too early (`thirdMiss_iff`). -/

namespace MultiPortConvertor.Net.Online

open MultiPortConvertor.Lib.Histories MultiPortConvertor.Lib.Transfers MultiPortConvertor.Tool.CJson
open MultiPortConvertor.App.System
open MultiPortConvertor.Net.HttpProtocol MultiPortConvertor.Net.UploadResult

/-! ### Heartbeats -/

/-- `data.time` of a reply. -/
def timeOf (root : CJSON) : Option CJSON := (getObjectItem root "data").bind
      (getObjectItem · "time")

/-- `data.time_zone` of a reply. -/
def zoneOf (root : CJSON) : Option CJSON :=
  (getObjectItem root "data").bind (getObjectItem · "time_zone")

/-- What `get_time_parse` accepts: an `errno`, and if that is 0, the time and the zone. -/
def accepts (o : Outside) (chunk : List UInt8) : Bool :=
  (o.cjsonParse chunk).any fun root =>
    match getObjectItem root "errno" with
    | none => false
    | some (.number valueint _) =>
      valueint ≠ 0 || ((timeOf root).isSome && (zoneOf root).isSome)
    | some _ => true

/-- `get_time_parse` takes a piece that it accepts, and one that is empty. -/
def takesTime (o : Outside) (chunk : List UInt8) : Bool := accepts o chunk || chunk.isEmpty

/-- `get_time_parse` says it has taken the whole piece, or nothing. -/
theorem getTimeParse_taken (o : Outside) (h : Http) (chunk : List UInt8) :
    (getTimeParse o h chunk).2 = if accepts o chunk then chunk.length else 0 := by
  unfold getTimeParse accepts timeOf zoneOf
  obtain ⟨root, hroot⟩ : ∃ root, o.cjsonParse chunk = root := ⟨_, rfl⟩
  rcases root with _ | root
  · simp [hroot]
  obtain ⟨item, hitem⟩ : ∃ item, getObjectItem root "errno" = item := ⟨_, rfl⟩
  rcases item with _ | item
  · simp [hroot, hitem]
  cases item with
  | number valueint valuedouble =>
    by_cases hv : valueint = 0
    · obtain ⟨data, hdata⟩ : ∃ data, getObjectItem root "data" = data := ⟨_, rfl⟩
      rcases data with _ | data
      · simp [hroot, hitem, hv, hdata]
      obtain ⟨time, htime⟩ : ∃ time, getObjectItem data "time" = time := ⟨_, rfl⟩
      rcases time with _ | time
      · simp [hroot, hitem, hv, hdata, htime]
      obtain ⟨zone, hzone⟩ : ∃ zone, getObjectItem data "time_zone" = zone := ⟨_, rfl⟩
      rcases zone with _ | zone
      · simp [hroot, hitem, hv, hdata, htime, hzone]
      · cases zone <;> simp [hroot, hitem, hv, hdata, htime, hzone]
    · simp [hroot, hitem, hv]
  | _ => simp [hroot, hitem]

theorem getTimeParse_takes (o : Outside) (h : Http) (chunk : List UInt8) :
    (getTimeParse o h chunk).2 = chunk.length ↔ takesTime o chunk = true := by
  rw [getTimeParse_taken]
  unfold takesTime
  cases accepts o chunk with
  | true => simp
  | false => cases chunk <;> simp

/-! ### Events -/

/-- A heartbeat or an upload, each with what is outside at that time. -/
inductive Event where
  | heartbeat (o : Outside) (curl : Option Attempt)
  | upload (o : Outside) (curl : Option (Attempt × Attempt × Attempt))

/-- What an event does. -/
def step (h : Http) : Event → Http
  | .heartbeat o curl => (getTimeUrl o curl h).1
  | .upload o curl => (postRecordUrl o curl h).1

/-- From `sys_context_init` on, which makes the first heartbeat; `heart_err_time` is initially 0. -/
def run (o : Outside) (first : Option Attempt) (h : Http) (es : List Event) : Http :=
  es.foldl step (sysContextInit o first { h with heartErrTime := 0 })

/-- How an event ends; without a handle it is `nothing`. -/
inductive Outcome where
  | beat
  | miss
  | accepted
  | refused
  | nothing
  deriving DecidableEq

def Event.outcome : Event → Outcome
  | .heartbeat _ none => .nothing
  | .heartbeat o (some a) => if a.Succeeds (takesTime o) then .beat else .miss
  | .upload _ none => .nothing
  | .upload o (some curl) => if Uploaded o curl then .accepted else .refused

/-- The server has been reached. -/
def Outcome.contact (o : Outcome) : Bool := o = .beat ∨ o = .accepted

/-- `heart_err_time` and `net_state[3].err`. -/
def mark (h : Http) : UInt32 × UInt8 := (h.heartErrTime, h.err)

/-- What an outcome does to the two. -/
def Outcome.next (m : UInt32 × UInt8) : Outcome → UInt32 × UInt8
  | .beat => (0, 0)
  | .miss => if m.1 + 1 ≥ 3 then (0, 1) else (m.1 + 1, m.2)
  | .accepted => (m.1, 0)
  | .refused => (m.1, 1)
  | .nothing => m

@[simp] theorem mark_setErr (h : Http) (e : UInt8) : mark (h.setErr e) = (h.heartErrTime, e) := by
  simp [mark, Http.err, Http.setErr]

/-- `get_time_parse` touches neither the states of the connections nor the counter. -/
theorem getTimeParse_keeps (o : Outside) (h : Http) (chunk : List UInt8) :
    mark (getTimeParse o h chunk).1 = mark h := by
  unfold getTimeParse
  repeat' split
  all_goals rfl

/-- **What an event does to the flag and the counter** depends on its outcome alone. -/
theorem mark_step (h : Http) (e : Event) : mark (step h e) = e.outcome.next (mark h) := by
  rcases e with ⟨o, _ | a⟩ | ⟨o, _ | curl⟩
  · rfl
  · have hkeep : mark (a.perform (getTimeParse o) h).1 = mark h :=
      transfer_keeps (getTimeParse_keeps o) _ _ _
    have hcode := perform_eq_zero (getTimeParse_takes o) a h
    unfold step getTimeUrl Event.outcome Outcome.next
    dsimp only
    rw [← hkeep]
    by_cases hs : a.Succeeds (takesTime o)
    · simp [hcode.mpr hs, hs]
    · rw [if_pos (mt hcode.mp hs), if_neg hs]
      have hcount : (mark (a.perform (getTimeParse o) h).1).1 =
          (a.perform (getTimeParse o) h).1.heartErrTime := rfl
      rw [hcount]
      dsimp only
      split_ifs
      · rfl
      · rfl
  · rfl
  · show mark (postRecordUrl o (some curl) h).1 = _
    rw [(postRecordUrl_eq o curl h).2, mark_setErr]
    unfold Event.outcome
    dsimp only
    split_ifs
    · rfl
    · rfl

/-! ### The history -/

/-- The heartbeats missed since the last good one. -/
def missed (os : List Outcome) : ℕ := (since (fun o => o = .beat) os).count .miss

/-- The heartbeats missed since the server was last reached. -/
def missedSinceContact (os : List Outcome) : ℕ := (since Outcome.contact os).count .miss

theorem missed_concat (os : List Outcome) (o : Outcome) :
    missed (os ++ [o]) = if o = .beat then 0 else missed os + if o = .miss then 1 else 0 := by
  unfold missed
  rw [since_concat]
  cases o <;> simp

theorem missedSinceContact_concat (os : List Outcome) (o : Outcome) :
    missedSinceContact (os ++ [o]) =
      if o.contact then 0 else missedSinceContact os + if o = .miss then 1 else 0 := by
  unfold missedSinceContact
  rw [since_concat]
  cases o <;> simp [Outcome.contact]

theorem missedSinceContact_le (os : List Outcome) : missedSinceContact os ≤ missed os := by
  induction os using List.reverseRecOn with
  | nil => exact le_rfl
  | append_singleton os o ih =>
    rw [missed_concat, missedSinceContact_concat]
    cases o <;> simp [Outcome.contact, ih]

/-- The last upload after the server was last reached did not fail. -/
def Unrefused (os : List Outcome) : Prop :=
  (∃ o ∈ os, o.contact = true) ∧ Outcome.refused ∉ since Outcome.contact os

theorem unrefused_concat (os : List Outcome) (o : Outcome) :
    Unrefused (os ++ [o]) ↔ o.contact = true ∨ Unrefused os ∧ o ≠ .refused := by
  unfold Unrefused
  rw [since_concat]
  cases o <;> simp [Outcome.contact]

instance : DecidablePred Unrefused := fun _ => inferInstanceAs (Decidable (_ ∧ _))

/-- The counter and the flag after a history; the first heartbeat is that of `sys_context_init`,
which sets the flag afterwards. -/
structure Tracks (first : Outcome) (os : List Outcome) (m : UInt32 × UInt8) : Prop where
  count : m.1.toNat = missed (first :: os) % 3
  online : m.2 = 0 ↔ Unrefused os ∧
    missed (first :: os) / 3 =
      (missed (first :: os) - missedSinceContact (first :: os)) / 3

theorem Tracks.next {first : Outcome} {os : List Outcome} {m : UInt32 × UInt8}
    (h : Tracks first os m) (o : Outcome) : Tracks first (os ++ [o]) (o.next m) := by
  have hle := missedSinceContact_le (first :: os)
  have hmod := h.count
  have hm : (m.1 + 1).toNat = m.1.toNat + 1 := by
    rw [UInt32.toNat_add, UInt32.toNat_one]
    omega
  have hge : m.1 + 1 ≥ 3 ↔ 3 ≤ m.1.toNat + 1 := by
    rw [ge_iff_le, UInt32.le_iff_toNat_le, hm]
    rfl
  have hn := missed_concat (first :: os) o
  have hu := missedSinceContact_concat (first :: os) o
  have hr := unrefused_concat os o
  rw [List.cons_append] at hn hu
  cases o with
  | beat =>
    simp [Outcome.contact] at hn hu hr
    exact ⟨by rw [hn]; rfl, by simp [hn, hu, hr, Outcome.next]⟩
  | miss =>
    simp [Outcome.contact] at hn hu hr
    unfold Outcome.next
    dsimp only
    split_ifs with hc
    · rw [hge] at hc
      refine ⟨?_, ?_⟩
      · rw [hn]
        show 0 = _
        omega
      · rw [hn, hu]
        refine ⟨fun h0 => absurd h0 (by decide), fun ⟨_, hd⟩ => ?_⟩
        omega
    · rw [hge] at hc
      refine ⟨?_, ?_⟩
      · rw [hn, hm]
        omega
      · rw [hn, hu, hr]
        have hdiv : (missed (first :: os) + 1) / 3 = missed (first :: os) / 3 := by omega
        rw [hdiv, Nat.add_sub_add_right]
        exact h.online
  | accepted =>
    simp [Outcome.contact] at hn hu hr
    exact ⟨by rw [hn]; exact h.count, by simp [hn, hu, hr, Outcome.next]⟩
  | refused =>
    simp [Outcome.contact] at hn hu hr
    exact ⟨by rw [hn]; exact h.count, by simp [hr, Outcome.next]⟩
  | nothing =>
    simp [Outcome.contact] at hn hu hr
    exact ⟨by rw [hn]; exact h.count, by rw [hn, hu, hr]; exact h.online⟩

/-- The outcome of the first heartbeat. -/
def firstOutcome (o : Outside) (first : Option Attempt) : Outcome :=
  (Event.heartbeat o first).outcome

section

variable (o : Outside) (first : Option Attempt) (h : Http)

theorem run_concat (es : List Event) (e : Event) :
    run o first h (es ++ [e]) = step (run o first h es) e := by
  simp [run]

theorem tracks_start : Tracks (firstOutcome o first) [] (mark (run o first h [])) := by
  have hstep := mark_step { h with heartErrTime := 0 } (.heartbeat o first)
  have hcount : (mark (run o first h [])).1 =
      ((firstOutcome o first).next (0, h.err)).1 := (congrArg Prod.fst hstep :)
  have hflag : (mark (run o first h [])).2 = 1 := rfl
  refine ⟨?_, ?_⟩
  · rw [hcount]
    cases firstOutcome o first <;> rfl
  · rw [hflag]
    simp [Unrefused]

/-- **What the flag and the counter say of the history.** -/
theorem run_tracks (es : List Event) :
    Tracks (firstOutcome o first) (es.map Event.outcome) (mark (run o first h es)) := by
  induction es using List.reverseRecOn with
  | nil => exact tracks_start o first h
  | append_singleton es e ih =>
    rw [run_concat, mark_step, List.map_append]
    exact ih.next e.outcome

/-! ### The third missed heartbeat -/

/-- Every heartbeat that takes the server offline is at least the third one missed since the server
was last reached. -/
def ThirdMiss (es : List Event) : Prop :=
  ∀ before e, before ++ [e] <+: es → e.outcome = .miss →
    (run o first h before).err = 0 →
    (run o first h (before ++ [e])).err = 1 →
    3 ≤ missedSinceContact (firstOutcome o first :: (before ++ [e]).map Event.outcome)

/-- A history after which a missed heartbeat takes the server offline early: it has been reached
since the start, no upload has failed and at most one heartbeat has been missed since, and the
heartbeats missed since the last good one are two more than a multiple of three. -/
def Early (first : Outcome) (os : List Outcome) : Prop :=
  Unrefused os ∧ missedSinceContact (first :: os) < 2 ∧ missed (first :: os) % 3 = 2

theorem goes_offline_iff {first : Outcome} {os : List Outcome} {m : UInt32 × UInt8}
    (h : Tracks first os m) : (m.2 = 0 ∧ (Outcome.next m .miss).2 = 1 →
      3 ≤ missedSinceContact (first :: os) + 1) ↔ ¬ Early first os := by
  have hle := missedSinceContact_le (first :: os)
  have hmod := h.count
  have hge : m.1 + 1 ≥ 3 ↔ missed (first :: os) % 3 = 2 := by
    rw [ge_iff_le, UInt32.le_iff_toNat_le, UInt32.toNat_add, UInt32.toNat_one, hmod]
    show 3 ≤ _ ↔ _
    omega
  unfold Early Outcome.next
  dsimp only
  constructor
  · rintro himp ⟨hr, hu, hn⟩
    have h0 : m.2 = 0 := h.online.mpr ⟨hr, by omega⟩
    have h3 := himp ⟨h0, by rw [if_pos (hge.mpr hn)]⟩
    omega
  · rintro hearly ⟨h0, h1⟩
    obtain ⟨hr, -⟩ := h.online.mp h0
    have hn : missed (first :: os) % 3 = 2 := by
      by_contra hn
      rw [if_neg (mt hge.mp hn), h0] at h1
      exact absurd h1 (by decide)
    by_contra hlt
    exact hearly ⟨hr, by omega, hn⟩

/-- **When no heartbeat takes the server offline too early.** Exactly if none is missed after a
history of that kind: `heart_err_time` also counts the heartbeats missed before the last successful
upload. -/
theorem thirdMiss_iff (es : List Event) : ThirdMiss o first h es ↔
    ∀ before e, before ++ [e] <+: es → e.outcome = .miss →
      ¬ Early (firstOutcome o first) (before.map Event.outcome) := by
  refine forall_congr' fun before => forall_congr' fun e => forall_congr' fun _ =>
    forall_congr' fun he => ?_
  rw [← goes_offline_iff (run_tracks o first h before), List.map_append, List.map_singleton,
    ← List.cons_append, missedSinceContact_concat, he]
  have hstep := congrArg Prod.snd (mark_step (run o first h before) e)
  rw [he] at hstep
  rw [← run_concat] at hstep
  rw [← hstep]
  exact ⟨fun himp ⟨h0, h1⟩ => himp h0 h1, fun himp h0 h1 => himp ⟨h0, h1⟩⟩

end

/-- The server answers, two heartbeats are missed, an upload succeeds and one more heartbeat is
missed. -/
def uploadBetween : List Event :=
  [.heartbeat outsideSample (some ⟨[], 0⟩), .heartbeat outsideSample (some ⟨[], 7⟩),
    .heartbeat outsideSample (some ⟨[], 7⟩), .upload outsideSample (some emptyReply),
    .heartbeat outsideSample (some ⟨[], 7⟩)]

/-- The server is offline after the first heartbeat missed since the upload. -/
theorem uploadBetween_offline : ¬ ThirdMiss outsideSample none httpInit uploadBetween := by
  intro hthird
  have h3 := hthird (uploadBetween.take 4) (.heartbeat outsideSample (some ⟨[], 7⟩)) (by
    exact List.prefix_refl _) (by decide) (by decide +kernel) (by decide +kernel)
  exact absurd h3 (by decide +kernel)

end MultiPortConvertor.Net.Online
