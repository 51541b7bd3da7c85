import MultiPortConvertor.Uart.Interleaving
import Mathlib.Data.Fintype.Basic

/-! # When concurrent calls keep apart

The record of a run says for each buffer which `uart_send_info_t` it was last taken for, and numbers
the reads of `uart_send_sn`. If no call sets `Respdata` while another is between its own setting of
it and its checksum, then `Respdata` is the buffer of the one call that is there, and only this call
reads and counts `uart_send_sn`; so every linked buffer holds the frame of its call
(`frames_separate`). Nothing in the code keeps the calls apart. -/

namespace MultiPortConvertor.Uart.Separation

open MultiPortConvertor.Lib.Bytes MultiPortConvertor.Lib.Runs
open MultiPortConvertor.Uart.Format MultiPortConvertor.Uart.Dispose
open MultiPortConvertor.Uart.Transmit MultiPortConvertor.Uart.Interleaving

/-! ### The record of a run -/

/-- A state with its record: the `uart_send_info_t` of each buffer, the place of the read for it
among the reads of `uart_send_sn`, and the values read. -/
structure Recorded (τ : Type) where
  threads : Threads τ
  owner : ℕ → UartSendInfo
  number : ℕ → ℕ
  sns : List UInt8

section

variable {τ : Type} [DecidableEq τ]

def recorded (w : Threads τ) : Recorded τ :=
  ⟨w, fun _ => ⟨0, 0, 0, filled 0, 0⟩, fun _ => 0, []⟩

def Recorded.note (w : Recorded τ) : Note → Recorded τ
  | .took b info => { w with owner := Function.update w.owner b info }
  | .read b sn =>
    { w with number := Function.update w.number b w.sns.length, sns := w.sns ++ [sn] }

/-- The next state with its record. -/
def record (w : Recorded τ) (a : Act τ) : Option (Recorded τ) :=
  (w.threads.step a).map fun x => x.2.foldl Recorded.note { w with threads := x.1 }

/-- **The calls keep apart**: no call sets `Respdata` while another is between its own setting of it
and its checksum; and the data of a call fits the length field. -/
def Apart (w : Threads τ) : Act τ → Prop
  | .call _ info => info.len + 4 < 65536
  | .run t => ∀ c, w.calls t = some c → c.stmt = .setRespdata →
    ∀ u d, w.calls u = some d → d.stmt.inside = false
  | .release _ => True

instance [Fintype τ] (w : Threads τ) (a : Act τ) : Decidable (Apart w a) :=
  match a with
  | .call _ info => inferInstanceAs (Decidable (info.len + 4 < 65536))
  | .run t => inferInstanceAs (Decidable (∀ c ∈ w.calls t, c.stmt = .setRespdata →
      ∀ u, ∀ d ∈ w.calls u, d.stmt.inside = false))
  | .release _ => isTrue trivial

/-- **No mixed frames**: every linked buffer holds the frame of the `uart_send_info_t` it was taken
for, under the number of its own read; no two have the same number, and the reads count up modulo
256. -/
structure Unmixed (w : Recorded τ) : Prop where
  frame : ∀ b ∈ w.threads.list, IsFrame (w.owner b) (UInt8.ofNat (w.number b)) (w.threads.mem b).cmd
  lt : ∀ b ∈ w.threads.list, w.number b < w.sns.length
  inj : ∀ b ∈ w.threads.list, ∀ c ∈ w.threads.list, w.number b = w.number c → b = c
  sns : w.sns = (List.range w.sns.length).map UInt8.ofNat

/-! ### The invariant -/

/-- The statements that come before. -/
def before : Stmt → List Stmt
  | .produce | .setBuf | .setRespdata | .head => []
  | .lengthMsb => [.head]
  | .lengthLsb => [.head, .lengthMsb]
  | .staParam => [.head, .lengthMsb, .lengthLsb]
  | .sn => [.head, .lengthMsb, .lengthLsb, .staParam]
  | .countSn => [.head, .lengthMsb, .lengthLsb, .staParam, .sn]
  | .pdtType => [.head, .lengthMsb, .lengthLsb, .staParam, .sn]
  | .cmdId => [.head, .lengthMsb, .lengthLsb, .staParam, .sn, .pdtType]
  | .data => [.head, .lengthMsb, .lengthLsb, .staParam, .sn, .pdtType, .cmdId]
  | .check => [.head, .lengthMsb, .lengthLsb, .staParam, .sn, .pdtType, .cmdId, .data]
  | .pollType | .link =>
    [.head, .lengthMsb, .lengthLsb, .staParam, .sn, .pdtType, .cmdId, .data, .check]

/-- What a call has written before the statement `stmt`. -/
def progress (stmt : Stmt) (info : UartSendInfo) (sn : UInt8) (c : UartCmdFormat) : UartCmdFormat :=
  (before stmt).foldl (fun c s => s.write info sn c) c

section

variable {info : UartSendInfo} {sn sn' : UInt8} {c : UartCmdFormat} {stmt : Stmt}

theorem progress_succ (stmt : Stmt) (info : UartSendInfo) (sn : UInt8) (c : UartCmdFormat) :
    progress stmt.succ info sn c = stmt.write info sn (progress stmt info sn c) := by
  cases stmt <;> rfl

theorem progress_link (info : UartSendInfo) (sn : UInt8) (c : UartCmdFormat) :
    progress .link info sn c = disposeFrame info sn c := by
  simp only [progress, before, List.foldl, Stmt.write, Stmt.protocolLen, disposeFrame,
    disposeHeader, setresplen]

/-- Only one statement writes the sequence number. -/
theorem write_sn (h : stmt ≠ .sn) : stmt.write info sn c = stmt.write info sn' c := by
  cases stmt <;> first | rfl | exact absurd rfl h

end

/-- The buffers have one owner each: the pool, the list, or a call. -/
structure Owns (w : Threads τ) : Prop where
  nodup : (w.free ++ w.list).Nodup
  taken : ∀ t c, w.calls t = some c → (c.sendpdata = none ↔ c.stmt = .produce)
  held : ∀ t c b, w.calls t = some c → c.sendpdata = some b → b ∉ w.free ++ w.list
  apart : ∀ t u c d b, w.calls t = some c → w.calls u = some d → c.sendpdata = some b →
    d.sendpdata = some b → t = u

/-- One call at a time writes through `Respdata`, and it is its buffer. -/
structure Serial (w : Threads τ) : Prop where
  alone : ∀ t u c d, w.calls t = some c → w.calls u = some d → c.stmt.inside = true →
    d.stmt.inside = true → t = u
  respdata : ∀ t c, w.calls t = some c → c.stmt.inside = true → w.respdata = c.sendpdata

/-- Each call has written a part of its frame, and the linked frames are finished. -/
structure Frames (w : Recorded τ) : Prop where
  len : ∀ t c, w.threads.calls t = some c → c.info.len + 4 < 65536
  part : ∀ t c b, w.threads.calls t = some c → c.sendpdata = some b → w.owner b = c.info ∧
    ∃ c₀, (w.threads.mem b).cmd = progress c.stmt c.info (UInt8.ofNat (w.number b)) c₀
  whole : ∀ b ∈ w.threads.list, (w.owner b).len + 4 < 65536 ∧
    ∃ c₀, (w.threads.mem b).cmd = disposeFrame (w.owner b) (UInt8.ofNat (w.number b)) c₀

/-- The sequence number has been read. -/
def hasSn : Stmt → Bool
  | .countSn | .pdtType | .cmdId | .data | .check | .pollType | .link => true
  | _ => false

/-- The buffer has a number: it is linked, or its call has read the sequence number. -/
def IsNumbered (w : Threads τ) (b : ℕ) : Prop := b ∈ w.list ∨
  ∃ t c, w.calls t = some c ∧ c.sendpdata = some b ∧ hasSn c.stmt = true

/-- The numbers are those of the reads, and the counter holds the next one. -/
structure Counts (w : Recorded τ) : Prop where
  lt : ∀ b, IsNumbered w.threads b → w.number b < w.sns.length
  inj : ∀ b c, IsNumbered w.threads b → IsNumbered w.threads c → w.number b = w.number c → b = c
  counted : (∀ t c, w.threads.calls t = some c → c.stmt ≠ .countSn) →
    w.threads.uartSendSn = UInt8.ofNat w.sns.length
  counting : ∀ t c, w.threads.calls t = some c → c.stmt = .countSn →
    w.threads.uartSendSn + 1 = UInt8.ofNat w.sns.length
  sns : w.sns = (List.range w.sns.length).map UInt8.ofNat

/-! ### What a step does -/

/-- **A step of calls that keep apart**: a call begins, takes a buffer, runs a statement on its own
buffer, or links it, or an entry is given back. -/
inductive Did (w : Recorded τ) : Recorded τ → Prop
  | call (t : τ) (info : UartSendInfo) (hn : w.threads.calls t = none)
      (hlen : info.len + 4 < 65536) :
      Did w { w with threads := w.threads.setCall t (some ⟨info, none, .produce⟩) }
  | take (t : τ) (c : Call) (b : ℕ) (free : List ℕ) (hc : w.threads.calls t = some c)
      (hs : c.stmt = .produce) (hf : w.threads.free = b :: free) :
      Did w { w with
        threads := ({ w.threads with free := free } : Threads τ).setCall t
          (some { c with sendpdata := some b, stmt := .setBuf })
        owner := Function.update w.owner b c.info }
  | goOn (t : τ) (c : Call) (b : ℕ) (d : UartSendFormat) (hc : w.threads.calls t = some c)
      (hb : c.sendpdata = some b) (hl : c.stmt ≠ .link)
      (hd : d.cmd = c.stmt.write c.info w.threads.uartSendSn (w.threads.mem b).cmd)
      (ha : c.stmt = .setRespdata → ∀ u d, w.threads.calls u = some d → d.stmt.inside = false) :
      Did w { w with
        threads := { w.threads.goOn t c with
          respdata := if c.stmt = .setRespdata then some b else w.threads.respdata
          uartSendSn := if c.stmt = .countSn then w.threads.uartSendSn + 1 else w.threads.uartSendSn
          mem := Function.update w.threads.mem b d }
        number := if c.stmt = .sn then Function.update w.number b w.sns.length else w.number
        sns := if c.stmt = .sn then w.sns ++ [w.threads.uartSendSn] else w.sns }
  | link (t : τ) (c : Call) (b : ℕ) (hc : w.threads.calls t = some c)
      (hb : c.sendpdata = some b) (hs : c.stmt = .link) :
      Did w { w with
        threads := ({ w.threads with list := w.threads.list ++ [b] } : Threads τ).setCall t none }
  | release (b : ℕ) (poll : UartPoll) (hb : b ∈ w.threads.list) :
      Did w { w with
        threads := ({ w.threads with
          list := w.threads.list.erase b, free := w.threads.free ++ [b] } : Threads τ).setMem b
            { w.threads.mem b with poll := poll } }

section

variable {w w' : Recorded τ} {a : Act τ}

/-- A statement that writes through `Respdata` writes to the buffer of its call. -/
theorem writeRespdata_eq {x x' : Threads τ} {t : τ} {c : Call} (hs : Serial x)
    (hc : x.calls t = some c) (hi : c.stmt.inside = true) (h : x.writeRespdata t c = some x') :
    ∃ b, c.sendpdata = some b ∧ x' = (x.goOn t c).setMem b
      { x.mem b with cmd := c.stmt.write c.info x.uartSendSn (x.mem b).cmd } := by
  obtain ⟨b, hr, hx⟩ := Option.bind_eq_some_iff.mp h
  cases hx
  exact ⟨b, (hs.respdata t c hc hi) ▸ hr, rfl⟩

/-- A statement inside the call. -/
theorem did_write {t : τ} {c : Call} {x : Threads τ} (hs : Serial w.threads)
    (hc : w.threads.calls t = some c) (hi : c.stmt.inside = true) (hn : c.stmt ≠ .countSn)
    (h : w.threads.writeRespdata t c = some x) : ∃ b, c.sendpdata = some b ∧
      Did w { w with
        threads := x
        number := if c.stmt = .sn then Function.update w.number b w.sns.length else w.number
        sns := if c.stmt = .sn then w.sns ++ [w.threads.uartSendSn] else w.sns } := by
  obtain ⟨b, hb, rfl⟩ := writeRespdata_eq hs hc hi h
  have hl : c.stmt ≠ .link := by
    intro he
    rw [he] at hi
    cases hi
  have hr : c.stmt ≠ .setRespdata := by
    intro he
    rw [he] at hi
    cases hi
  have hd := Did.goOn t c b { w.threads.mem b with
    cmd := c.stmt.write c.info w.threads.uartSendSn (w.threads.mem b).cmd } hc hb hl rfl
    fun he => absurd he hr
  rw [if_neg hr, if_neg hn] at hd
  exact ⟨b, hb, hd⟩

/-- A statement that writes nothing to a frame. -/
theorem did_skip {t : τ} {b : ℕ} {c : Call} (hc : w.threads.calls t = some c)
    (hb : c.sendpdata = some b) (hl : c.stmt ≠ .link) (hs : c.stmt ≠ .sn) (d : UartSendFormat)
    (hd : d.cmd = c.stmt.write c.info w.threads.uartSendSn (w.threads.mem b).cmd)
    (ha : c.stmt = .setRespdata → ∀ u d, w.threads.calls u = some d → d.stmt.inside = false) :
    Did w { w with
      threads := { w.threads.goOn t c with
        respdata := if c.stmt = .setRespdata then some b else w.threads.respdata
        uartSendSn := if c.stmt = .countSn then w.threads.uartSendSn + 1 else w.threads.uartSendSn
        mem := Function.update w.threads.mem b d } } := by
  have h := Did.goOn t c b d hc hb hl hd ha
  rwa [if_neg hs, if_neg hs] at h

/-- **The step of a call.** -/
theorem did_run {t : τ} {c : Call} {x : Threads τ × List Note} (ho : Owns w.threads)
    (hs : Serial w.threads) (hg : Apart w.threads (.run t)) (hc : w.threads.calls t = some c)
    (h : w.threads.run t c = some x) : Did w (x.2.foldl
      Recorded.note { w with threads := x.1 }) := by
  cases hst : c.stmt with
  | produce =>
    simp only [Threads.run, hst] at h
    split at h
    · cases h
    · rename_i b free hf
      cases h
      exact .take t c b free hc hst hf
  | setBuf =>
    simp only [Threads.run, hst] at h
    obtain ⟨b, hb, hx⟩ := Option.bind_eq_some_iff.mp h
    cases hx
    have hd := did_skip (w := w) hc hb (by simp [hst]) (by simp [hst])
      { w.threads.mem b with buf := b } (by simp [hst, Stmt.write]) (by simp [hst])
    simpa [hst, Threads.setMem, Threads.goOn, Threads.setCall] using hd
  | setRespdata =>
    simp only [Threads.run, hst] at h
    obtain ⟨b, hb, hx⟩ := Option.bind_eq_some_iff.mp h
    cases hx
    have hd := did_skip (w := w) hc hb (by simp [hst]) (by simp [hst]) (w.threads.mem b)
      (by simp [hst, Stmt.write]) (hg c hc)
    simpa [hst, Threads.goOn, Threads.setCall] using hd
  | countSn =>
    simp only [Threads.run, hst] at h
    cases h
    obtain ⟨b, hb⟩ : ∃ b, c.sendpdata = some b := by
      refine Option.ne_none_iff_exists'.mp fun hn => ?_
      have := (ho.taken t c hc).mp hn
      rw [hst] at this
      cases this
    have hd := did_skip (w := w) hc hb (by simp [hst]) (by simp [hst]) (w.threads.mem b)
      (by simp [hst, Stmt.write]) (by simp [hst])
    simpa [hst, Threads.goOn, Threads.setCall] using hd
  | sn =>
    simp only [Threads.run, hst] at h
    obtain ⟨b, hb, hx⟩ := Option.bind_eq_some_iff.mp h
    obtain ⟨y, hy, hx⟩ := Option.bind_eq_some_iff.mp hx
    cases hx
    obtain ⟨b', hb', hd⟩ := did_write (w := w) hs hc (by rw [hst]; rfl) (by simp [hst]) hy
    rw [hb] at hb'
    cases hb'
    rwa [if_pos hst, if_pos hst] at hd
  | pollType =>
    simp only [Threads.run, hst] at h
    obtain ⟨b, hb, hx⟩ := Option.bind_eq_some_iff.mp h
    cases hx
    have hd := did_skip (w := w) hc hb (by simp [hst]) (by simp [hst])
      { w.threads.mem b with poll := { (w.threads.mem b).poll with type := c.info.pollType.toNat } }
      (by simp [hst, Stmt.write]) (by simp [hst])
    simpa [hst, Threads.setMem, Threads.goOn, Threads.setCall] using hd
  | link =>
    simp only [Threads.run, hst] at h
    obtain ⟨b, hb, hx⟩ := Option.bind_eq_some_iff.mp h
    cases hx
    exact .link t c b hc hb hst
  | head | lengthMsb | lengthLsb | staParam | pdtType | cmdId | data | check =>
    simp only [Threads.run, hst] at h
    obtain ⟨y, hy, hx⟩ := Option.bind_eq_some_iff.mp h
    cases hx
    obtain ⟨b, -, hd⟩ := did_write (w := w) hs hc (by rw [hst]; rfl) (by simp [hst]) hy
    rwa [if_neg (by simp [hst]), if_neg (by simp [hst])] at hd

theorem did_of_record (ho : Owns w.threads) (hs : Serial w.threads) (hg : Apart w.threads a)
    (h : record w a = some w') : Did w w' := by
  obtain ⟨x, hx, rfl⟩ := Option.map_eq_some_iff.mp h
  cases a with
  | call t info =>
    simp only [Threads.step] at hx
    split at hx
    · rename_i hn
      cases hx
      exact .call t info hn hg
    · cases hx
  | run t =>
    obtain ⟨c, hc, hr⟩ := Option.bind_eq_some_iff.mp hx
    exact did_run ho hs hg hc hr
  | release b =>
    simp only [Threads.step] at hx
    split_ifs at hx with hb
    cases hx
    exact .release b .cleared hb

end

/-! ### The invariant is kept -/

section

variable {w w' : Recorded τ} {a : Act τ}

/-- A call after one thread has gone on. -/
theorem calls_setCall {x : Threads τ} {t u : τ} {c : Option Call} {d : Call}
    (h : (x.setCall t c).calls u = some d) : (u = t ∧ c = some d) ∨
    (u ≠ t ∧ x.calls u = some d) := by
  have h' : Function.update x.calls t c u = some d := h
  rw [Function.update_apply] at h'
  split_ifs at h' with he
  · exact .inl ⟨he, h'⟩
  · exact .inr ⟨he, h'⟩

theorem inside_succ {stmt : Stmt} (hi : stmt.succ.inside = true) (hr : stmt ≠ .setRespdata) :
    stmt.inside = true := by
  cases stmt <;> simp_all [Stmt.succ, Stmt.inside]

theorem succ_ne_produce (stmt : Stmt) : stmt.succ ≠ .produce := by
  cases stmt <;> simp [Stmt.succ]

/-- What holds of the call of the thread that has gone on, and of every other call. -/
theorem forall_setCall {x : Threads τ} {t : τ} {c : Option Call} {P : τ → Call → Prop}
    (hc : ∀ d, c = some d → P t d) (hx : ∀ u d, u ≠ t → x.calls u = some d → P u d) :
    ∀ u d, (x.setCall t c).calls u = some d → P u d := by
  intro u d hu
  rcases calls_setCall hu with ⟨rfl, hd⟩ | ⟨hut, hu⟩
  · exact hc d hd
  · exact hx u d hut hu

/-- One thread has gone on: its call may have another buffer, which is neither free nor linked nor
in another call. -/
theorem Owns.setCall {x x' : Threads τ} {t : τ} {c : Option Call} (h : Owns x)
    (hx : x'.calls = (x.setCall t c).calls) (hnd : (x'.free ++ x'.list).Nodup)
    (hold : ∀ u d b, u ≠ t → x.calls u = some d → d.sendpdata = some b → b ∉ x'.free ++ x'.list)
    (hst : ∀ d, c = some d → (d.sendpdata = none ↔ d.stmt = .produce))
    (hnew : ∀ d b, c = some d → d.sendpdata = some b → b ∉ x'.free ++ x'.list)
    (hap : ∀ d b, c = some d → d.sendpdata = some b →
      ∀ u e, u ≠ t → x.calls u = some e → e.sendpdata ≠ some b) : Owns x' := by
  refine ⟨hnd, ?_, fun u d b hu => ?_, fun u v d e b hu hv => ?_⟩
  · rw [hx]
    exact forall_setCall hst fun u d _ hu => h.taken u d hu
  · rw [hx] at hu
    exact forall_setCall (P := fun _ d => d.sendpdata = some b → b ∉ x'.free ++ x'.list)
      (fun d hd => hnew d b hd) (fun u d hut hu => hold u d b hut hu) u d hu
  · rw [hx] at hu hv
    rcases calls_setCall hu with ⟨rfl, hd⟩ | ⟨hut, hu'⟩ <;>
      rcases calls_setCall hv with ⟨rfl, he⟩ | ⟨hvt, hv'⟩
    · exact fun _ _ => rfl
    · exact fun hdb heb => absurd heb (hap d b hd hdb v e hvt hv')
    · exact fun hdb heb => absurd hdb (hap e b he heb u d hut hu')
    · exact h.apart u v d e b hu' hv'

theorem Owns.did (h : Owns w.threads) (hd : Did w w') : Owns w'.threads := by
  cases hd with
  | call t info hn hlen =>
    refine h.setCall rfl h.nodup (fun u d b _ hu hb => h.held u d b hu hb) ?_ ?_ ?_
    · rintro d ⟨⟩
      simp
    · rintro d b ⟨⟩ ⟨⟩
    · rintro d b ⟨⟩ ⟨⟩
  | take t c b free hc hs hf =>
    have hbf : b ∈ w.threads.free ++ w.threads.list := by simp [hf]
    have hnd := h.nodup
    rw [hf] at hnd
    have hsub : ∀ x, x ∈ free ++ w.threads.list → x ∈ w.threads.free ++ w.threads.list := by
      intro x hx
      rw [hf]
      exact List.mem_cons_of_mem _ hx
    refine h.setCall rfl (List.nodup_cons.mp hnd).2
      (fun u d x _ hu hx hm => h.held u d x hu hx (hsub x hm)) ?_ ?_ ?_
    · rintro d ⟨⟩
      simp
    · rintro d x ⟨⟩ ⟨⟩
      exact (List.nodup_cons.mp hnd).1
    · rintro d x ⟨⟩ ⟨⟩ u e - hu he
      exact h.held u e b hu he hbf
  | goOn t c b d hc hb hl hd ha =>
    refine h.setCall rfl h.nodup (fun u e x _ hu hx => h.held u e x hu hx) ?_ ?_ ?_
    · rintro e ⟨⟩
      simp [hb, succ_ne_produce]
    · rintro e x ⟨⟩ hx
      exact h.held t c x hc hx
    · rintro e x ⟨⟩ hx u f hut hu hf
      exact hut (h.apart u t f c x hu hc hf hx)
  | link t c b hc hb hs =>
    have hperm : (w.threads.free ++ (w.threads.list ++ [b])).Perm
        (b :: (w.threads.free ++ w.threads.list)) := by
      rw [← List.append_assoc]
      exact List.perm_append_singleton b _
    have hnd : (b :: (w.threads.free ++ w.threads.list)).Nodup :=
      List.nodup_cons.mpr ⟨h.held t c b hc hb, h.nodup⟩
    refine h.setCall rfl (hperm.nodup_iff.mpr hnd) (fun u d x hut hu hx hm => ?_) ?_ ?_ ?_
    · rcases List.mem_cons.mp (hperm.mem_iff.mp hm) with rfl | hm
      · exact hut (h.apart u t d c x hu hc hx hb)
      · exact h.held u d x hu hx hm
    · rintro d ⟨⟩
    · rintro d x ⟨⟩
    · rintro d x ⟨⟩
  | release b poll hb =>
    have hperm : (w.threads.free ++ [b] ++ w.threads.list.erase b).Perm
        (w.threads.free ++ w.threads.list) := by
      rw [List.append_assoc]
      exact (List.perm_cons_erase hb).symm.append_left _
    exact ⟨hperm.nodup_iff.mpr h.nodup, h.taken,
      fun u d x hu hx hm => h.held u d x hu hx (hperm.mem_iff.mp hm), h.apart⟩

/-- A thread whose call is not inside afterwards. -/
theorem Serial.setCall {x x' : Threads τ} {t : τ} {c : Option Call} (h : Serial x)
    (hr : x'.respdata = x.respdata) (hx : x'.calls = (x.setCall t c).calls)
    (hc : ∀ d, c = some d → d.stmt.inside = false) : Serial x' := by
  have hold : ∀ u d, x'.calls u = some d → d.stmt.inside = true → x.calls u = some d := by
    intro u d hu hi
    rw [hx] at hu
    rcases calls_setCall hu with ⟨-, hd⟩ | ⟨-, hu⟩
    · rw [hc d hd] at hi
      cases hi
    · exact hu
  refine ⟨fun u v d e hu hv hi hj => ?_, fun u d hu hi => ?_⟩
  · exact h.alone u v d e (hold u d hu hi) (hold v e hv hj) hi hj
  · rw [hr]
    exact h.respdata u d (hold u d hu hi) hi

theorem Serial.did (h : Serial w.threads) (hd : Did w w') : Serial w'.threads := by
  cases hd with
  | call t info hn hlen =>
    refine h.setCall rfl rfl ?_
    rintro d ⟨⟩
    rfl
  | take t c b free hc hs hf =>
    refine h.setCall rfl rfl ?_
    rintro d ⟨⟩
    rfl
  | link t c b hc hb hs =>
    refine h.setCall rfl rfl ?_
    rintro d ⟨⟩
  | release b poll hb => exact ⟨h.alone, h.respdata⟩
  | goOn t c b d hc hb hl hd ha =>
    by_cases hst : c.stmt = .setRespdata
    · -- the call is the only one inside from now on
      have honly : ∀ u e, (w.threads.goOn t c).calls u = some e → e.stmt.inside = true →
          u = t ∧ e.sendpdata = some b := by
        intro u e hu hi
        rcases calls_setCall hu with ⟨hut, he⟩ | ⟨-, hu⟩
        · cases he
          exact ⟨hut, hb⟩
        · rw [ha hst u e hu] at hi
          cases hi
      refine ⟨fun u v e f hu hv hi hj => ?_, fun u e hu hi => ?_⟩
      · rw [(honly u e hu hi).1, (honly v f hv hj).1]
      · rw [(honly u e hu hi).2]
        exact if_pos hst
    · have hold : ∀ u e, (w.threads.goOn t c).calls u = some e → e.stmt.inside = true →
          ∃ f, w.threads.calls u = some f ∧ f.stmt.inside = true ∧ f.sendpdata = e.sendpdata := by
        intro u e hu hi
        rcases calls_setCall hu with ⟨rfl, he⟩ | ⟨-, hu⟩
        · cases he
          exact ⟨c, hc, inside_succ hi hst, rfl⟩
        · exact ⟨e, hu, hi, rfl⟩
      refine ⟨fun u v e f hu hv hi hj => ?_, fun u e hu hi => ?_⟩
      · obtain ⟨e', hu', hi', -⟩ := hold u e hu hi
        obtain ⟨f', hv', hj', -⟩ := hold v f hv hj
        exact h.alone u v e' f' hu' hv' hi' hj'
      · obtain ⟨e', hu', hi', hs'⟩ := hold u e hu hi
        rw [← hs', ← h.respdata u e' hu' hi']
        exact if_neg hst

/-- Before the sequence number is written the frame does not depend on it. -/
theorem progress_sn (info : UartSendInfo) (sn sn' : UInt8) (c : UartCmdFormat) :
    progress .sn info sn c = progress .sn info sn' c := rfl

/-- The frame in a buffer and its record are left alone. -/
structure Same (w w' : Recorded τ) (b : ℕ) : Prop where
  owner : w'.owner b = w.owner b
  number : w'.number b = w.number b
  cmd : (w'.threads.mem b).cmd = (w.threads.mem b).cmd

/-- One thread has gone on, and the buffers of the other calls are left alone. -/
theorem Frames.setCall {t : τ} {c : Option Call} (h : Frames w)
    (hx : w'.threads.calls = (w.threads.setCall t c).calls)
    (hlen : ∀ d, c = some d → d.info.len + 4 < 65536)
    (hnew : ∀ d b, c = some d → d.sendpdata = some b → w'.owner b = d.info ∧
      ∃ c₀, (w'.threads.mem b).cmd = progress d.stmt d.info (UInt8.ofNat (w'.number b)) c₀)
    (hold : ∀ u d b, u ≠ t → w.threads.calls u = some d → d.sendpdata = some b → Same w w' b)
    (hlist : ∀ b ∈ w'.threads.list, b ∈ w.threads.list ∧ Same w w' b ∨
      (w'.owner b).len + 4 < 65536 ∧
        ∃ c₀, (w'.threads.mem b).cmd = disposeFrame (w'.owner b) (UInt8.ofNat (w'.number b)) c₀) :
    Frames w' := by
  refine ⟨?_, fun u d b hu hb => ?_, fun b hb => ?_⟩
  · rw [hx]
    exact forall_setCall hlen fun u d _ hu => h.len u d hu
  · rw [hx] at hu
    rcases calls_setCall hu with ⟨-, hd⟩ | ⟨hut, hu⟩
    · exact hnew d b hd hb
    · have hsame := hold u d b hut hu hb
      rw [hsame.owner, hsame.number, hsame.cmd]
      exact h.part u d b hu hb
  · rcases hlist b hb with ⟨hb, hsame⟩ | hnew
    · rw [hsame.owner, hsame.number, hsame.cmd]
      exact h.whole b hb
    · exact hnew

theorem Frames.did (h : Frames w) (ho : Owns w.threads) (hd : Did w w')
    (hsn : ∀ t c, w.threads.calls t = some c → c.stmt = .sn →
      w.threads.uartSendSn = UInt8.ofNat w.sns.length) : Frames w' := by
  cases hd with
  | call t info hn hlen =>
    refine h.setCall rfl ?_ ?_ (fun _ _ _ _ _ _ => ⟨rfl, rfl, rfl⟩)
      fun x hx => .inl ⟨hx, rfl, rfl, rfl⟩
    · rintro d ⟨⟩
      exact hlen
    · rintro d x ⟨⟩ ⟨⟩
  | take t c b free hc hs hf =>
    have hbf : b ∈ w.threads.free := by simp [hf]
    refine h.setCall rfl ?_ ?_ (fun u d x _ hu hx => ?_) fun x hx => ?_
    · rintro d ⟨⟩
      exact h.len t c hc
    · rintro d x ⟨⟩ ⟨⟩
      exact ⟨Function.update_self _ _ _, (w.threads.mem b).cmd, rfl⟩
    · have hne : x ≠ b := fun he => ho.held u d x hu hx (List.mem_append_left _ (he ▸ hbf))
      exact ⟨Function.update_of_ne hne _ _, rfl, rfl⟩
    · have hne : x ≠ b := by
        rintro rfl
        exact (List.nodup_append.mp ho.nodup).2.2 x hbf x hx rfl
      exact .inl ⟨hx, Function.update_of_ne hne _ _, rfl, rfl⟩
  | goOn t c b d hc hb hl hd ha =>
    have hsame : ∀ x, x ≠ b → Same w { w with
        threads := { w.threads.goOn t c with
          respdata := if c.stmt = .setRespdata then some b else w.threads.respdata
          uartSendSn := if c.stmt = .countSn then w.threads.uartSendSn + 1 else w.threads.uartSendSn
          mem := Function.update w.threads.mem b d }
        number := if c.stmt = .sn then Function.update w.number b w.sns.length else w.number
        sns := if c.stmt = .sn then w.sns ++ [w.threads.uartSendSn] else w.sns } x := by
      intro x hx
      refine ⟨rfl, ?_, congrArg UartSendFormat.cmd (Function.update_of_ne hx _ _)⟩
      show (if c.stmt = .sn then Function.update w.number b w.sns.length else w.number) x =
        w.number x
      split_ifs
      · exact Function.update_of_ne hx _ _
      · rfl
    refine h.setCall rfl ?_ ?_ (fun u e x hut hu hx => hsame x fun he => ?_) fun x hx => ?_
    · rintro e ⟨⟩
      exact h.len t c hc
    · rintro e x ⟨⟩ hx
      rw [show x = b from Option.some.inj (hx.symm.trans hb)]
      obtain ⟨hown, c₀, hcmd⟩ := h.part t c b hc hb
      refine ⟨hown, c₀, ?_⟩
      show (Function.update w.threads.mem b d b).cmd = progress c.stmt.succ c.info
        (UInt8.ofNat ((if c.stmt = .sn then Function.update w.number b w.sns.length
          else w.number) b)) c₀
      rw [Function.update_self, hd, hcmd, progress_succ]
      by_cases hst : c.stmt = .sn
      · rw [if_pos hst, Function.update_self, hsn t c hc hst, hst]
        exact congrArg _ (progress_sn _ _ _ _)
      · rw [if_neg hst]
        exact write_sn hst
    · exact hut (ho.apart u t e c x hu hc hx (he ▸ hb))
    · have hne : x ≠ b := by
        rintro rfl
        exact ho.held t c x hc hb (List.mem_append_right _ hx)
      exact .inl ⟨hx, hsame x hne⟩
  | link t c b hc hb hs =>
    refine h.setCall rfl ?_ ?_ (fun _ _ _ _ _ _ => ⟨rfl, rfl, rfl⟩) fun x hx => ?_
    · rintro d ⟨⟩
    · rintro d x ⟨⟩
    · rcases List.mem_append.mp hx with hx | hx
      · exact .inl ⟨hx, rfl, rfl, rfl⟩
      · rw [List.mem_singleton.mp hx]
        obtain ⟨hown, c₀, hcmd⟩ := h.part t c b hc hb
        rw [hs, progress_link, ← hown] at hcmd
        exact .inr ⟨hown ▸ h.len t c hc, c₀, hcmd⟩
  | release b poll hb =>
    have hcmd : ∀ x, (Function.update w.threads.mem b { w.threads.mem b with poll := poll } x).cmd =
        (w.threads.mem x).cmd := by
      intro x
      rw [Function.update_apply]
      split_ifs with he
      · rw [he]
      · rfl
    refine ⟨h.len, fun u d x hu hx => ?_, fun x hx => ?_⟩
    · obtain ⟨hown, c₀, hold⟩ := h.part u d x hu hx
      exact ⟨hown, c₀, (hcmd x).trans hold⟩
    · obtain ⟨hlen, c₀, hold⟩ := h.whole x (List.mem_of_mem_erase hx)
      exact ⟨hlen, c₀, (hcmd x).trans hold⟩

theorem hasSn_succ {stmt : Stmt} (h : hasSn stmt.succ = true) (hs : stmt ≠ .sn) :
    hasSn stmt = true := by
  cases stmt <;> simp_all [Stmt.succ, hasSn]

theorem succ_eq_countSn {stmt : Stmt} (h : stmt.succ = .countSn) : stmt = .sn := by
  cases stmt <;> simp_all [Stmt.succ]

/-- Some call has read the sequence number and not counted it. -/
def Counting (w : Threads τ) : Prop := ∃ t c, w.calls t = some c ∧ c.stmt = .countSn

omit [DecidableEq τ] in
/-- A step that neither reads nor counts the sequence number. -/
theorem Counts.keep (h : Counts w) (hn : w'.number = w.number) (hs : w'.sns = w.sns)
    (hu : w'.threads.uartSendSn = w.threads.uartSendSn)
    (hi : ∀ b, IsNumbered w'.threads b → IsNumbered w.threads b)
    (hc : Counting w'.threads ↔ Counting w.threads) : Counts w' := by
  refine ⟨fun b hb => ?_, fun b c hb hc he => ?_, fun hno => ?_, fun t c ht hst => ?_, ?_⟩
  · rw [hn, hs]
    exact h.lt b (hi b hb)
  · rw [hn] at he
    exact h.inj b c (hi b hb) (hi c hc) he
  · rw [hu, hs]
    refine h.counted fun t c ht hst => ?_
    obtain ⟨u, d, hd, hdst⟩ := hc.mpr ⟨t, c, ht, hst⟩
    exact hno u d hd hdst
  · rw [hu, hs]
    obtain ⟨u, d, hd, hdst⟩ := hc.mp ⟨t, c, ht, hst⟩
    exact h.counting u d hd hdst
  · rw [hs]
    exact h.sns

/-- One thread goes on, and its call is not about to count, before and after. -/
theorem counting_setCall {x x' : Threads τ} {t : τ} {c : Option Call}
    (hx : x'.calls = (x.setCall t c).calls) (hc : ∀ d, c = some d → d.stmt ≠ .countSn)
    (ht : ∀ d, x.calls t = some d → d.stmt ≠ .countSn) : Counting x' ↔ Counting x := by
  constructor
  · rintro ⟨u, d, hu, hst⟩
    rw [hx] at hu
    rcases calls_setCall hu with ⟨-, hd⟩ | ⟨-, hu⟩
    · exact absurd hst (hc d hd)
    · exact ⟨u, d, hu, hst⟩
  · rintro ⟨u, d, hu, hst⟩
    have hne : u ≠ t := fun he => ht d (he ▸ hu) hst
    refine ⟨u, d, ?_, hst⟩
    rw [hx]
    exact (Function.update_of_ne hne _ _).trans hu

/-- The buffers with a number after one thread has gone on. -/
theorem isNumbered_setCall {x x' : Threads τ} {t : τ} {b : ℕ} {c : Option Call}
    (hx : x'.calls = (x.setCall t c).calls) (hl : x'.list ⊆ x.list)
    (hc : ∀ d, c = some d → d.sendpdata = some b → hasSn d.stmt = true → IsNumbered x b)
    (h : IsNumbered x' b) : IsNumbered x b := by
  rcases h with hm | ⟨u, d, hu, hd, hs⟩
  · exact .inl (hl hm)
  · rw [hx] at hu
    rcases calls_setCall hu with ⟨-, he⟩ | ⟨-, hu⟩
    · exact hc d he hd hs
    · exact .inr ⟨u, d, hu, hd, hs⟩

omit [DecidableEq τ] in
/-- The value of the counter at a read. -/
theorem Counts.at_sn (h : Counts w) (hs : Serial w.threads) {t : τ} {c : Call}
    (hc : w.threads.calls t = some c) (hst : c.stmt = .sn) :
    w.threads.uartSendSn = UInt8.ofNat w.sns.length := by
  refine h.counted fun u d hu hd => ?_
  -- a call that is about to count would be inside together with this one
  have hut := hs.alone u t d c hu hc (by rw [hd]; rfl) (by rw [hst]; rfl)
  subst hut
  rw [hc] at hu
  cases hu
  rw [hst] at hd
  cases hd

/-- A read takes the next number. -/
theorem Counts.read (h : Counts w) (hs : Serial w.threads) {t : τ} {b : ℕ} {c : Call}
    (hc : w.threads.calls t = some c) (hb : c.sendpdata = some b) (hst : c.stmt = .sn)
    {x : Threads τ} (hu : x.uartSendSn = w.threads.uartSendSn) (hl : x.list = w.threads.list)
    (hx : x.calls = (w.threads.goOn t c).calls) :
    Counts { w with
      threads := x
      number := Function.update w.number b w.sns.length
      sns := w.sns ++ [w.threads.uartSendSn] } := by
  have hnext := h.at_sn hs hc hst
  have hold : ∀ y, y ≠ b → IsNumbered x y → IsNumbered w.threads y := by
    intro y hy
    refine isNumbered_setCall hx (by rw [hl]; exact List.Subset.refl _) ?_
    rintro d ⟨⟩ hd -
    exact absurd (Option.some.inj (hd.symm.trans hb)) hy
  refine ⟨fun y hy => ?_, fun y z hy hz he => ?_, fun hno => ?_, fun u d hu' hd => ?_, ?_⟩
  · show Function.update w.number b w.sns.length y < (w.sns ++ [_]).length
    rw [List.length_append, List.length_singleton]
    by_cases hyb : y = b
    · rw [hyb, Function.update_self]
      omega
    · rw [Function.update_of_ne hyb]
      exact Nat.lt_succ_of_lt (h.lt y (hold y hyb hy))
  · have he : Function.update w.number b w.sns.length y =
        Function.update w.number b w.sns.length z := he
    by_cases hyb : y = b <;> by_cases hzb : z = b
    · rw [hyb, hzb]
    · rw [hyb, Function.update_self, Function.update_of_ne hzb] at he
      have := h.lt z (hold z hzb hz)
      omega
    · rw [hzb, Function.update_self, Function.update_of_ne hyb] at he
      have := h.lt y (hold y hyb hy)
      omega
    · rw [Function.update_of_ne hyb, Function.update_of_ne hzb] at he
      exact h.inj y z (hold y hyb hy) (hold z hzb hz) he
  · refine absurd ?_ (hno t { c with stmt := .countSn } ?_)
    · rfl
    · rw [hx]
      simp [Threads.goOn, Threads.setCall, hst, Stmt.succ]
  · show x.uartSendSn + 1 = UInt8.ofNat (w.sns ++ [_]).length
    rw [hu, hnext, List.length_append, UInt8.ofNat_add]
    rfl
  · show w.sns ++ [w.threads.uartSendSn] = (List.range (w.sns ++ [_]).length).map UInt8.ofNat
    rw [List.length_append, List.length_singleton, List.range_succ, List.map_append, ← h.sns, hnext]
    rfl

/-- The counter goes up to the next number. -/
theorem Counts.count (h : Counts w) (hs : Serial w.threads) {t : τ} {c : Call}
    (hc : w.threads.calls t = some c) (hst : c.stmt = .countSn) {x : Threads τ}
    (hu : x.uartSendSn = w.threads.uartSendSn + 1) (hl : x.list = w.threads.list)
    (hx : x.calls = (w.threads.goOn t c).calls) : Counts { w with threads := x } := by
  have hold : ∀ y, IsNumbered x y → IsNumbered w.threads y := by
    intro y
    refine isNumbered_setCall hx (by rw [hl]; exact List.Subset.refl _) ?_
    rintro d ⟨⟩ hd -
    exact .inr ⟨t, c, hc, hd, by rw [hst]; rfl⟩
  refine ⟨fun y hy => h.lt y (hold y hy), fun y z hy hz => h.inj y z (hold y hy) (hold z hz),
    fun _ => hu.trans (h.counting t c hc hst), fun u d hu' hd => ?_, h.sns⟩
  rw [hx] at hu'
  rcases calls_setCall hu' with ⟨-, he⟩ | ⟨hut, hu'⟩
  · cases he
    rw [hst] at hd
    cases hd
  · exact absurd (hs.alone u t d c hu' hc (by rw [hd]; rfl) (by rw [hst]; rfl)) hut

theorem Counts.did (h : Counts w) (hs : Serial w.threads) (hd : Did w w') : Counts w' := by
  cases hd with
  | call t info hn hlen =>
    refine h.keep rfl rfl rfl (fun b => isNumbered_setCall rfl (List.Subset.refl _) ?_)
      (counting_setCall rfl ?_ ?_)
    · rintro d ⟨⟩ ⟨⟩
    · rintro d ⟨⟩ ⟨⟩
    · intro d hd
      rw [hn] at hd
      cases hd
  | take t c b free hc hst hf =>
    refine h.keep rfl rfl rfl (fun b => isNumbered_setCall rfl (List.Subset.refl _) ?_)
      (counting_setCall rfl ?_ ?_)
    · rintro d ⟨⟩ - ⟨⟩
    · rintro d ⟨⟩ ⟨⟩
    · intro d hd
      rw [hc] at hd
      cases hd
      rw [hst]
      decide
  | goOn t c b d hc hb hl hd ha =>
    by_cases hsn : c.stmt = .sn
    · have hcs : c.stmt ≠ .countSn := by
        rw [hsn]
        decide
      rw [if_pos hsn, if_pos hsn]
      exact h.read hs hc hb hsn (if_neg hcs) rfl rfl
    · rw [if_neg hsn, if_neg hsn]
      by_cases hcs : c.stmt = .countSn
      · exact h.count hs hc hcs (if_pos hcs) rfl rfl
      · refine h.keep rfl rfl (if_neg hcs) (fun x => isNumbered_setCall rfl (List.Subset.refl _) ?_)
          (counting_setCall rfl ?_ ?_)
        · rintro e ⟨⟩ he hh
          exact .inr ⟨t, c, hc, he, hasSn_succ hh hsn⟩
        · rintro e ⟨⟩ he
          exact hsn (succ_eq_countSn he)
        · intro e he
          rw [hc] at he
          cases he
          exact hcs
  | link t c b hc hb hst =>
    refine h.keep rfl rfl rfl (fun x hx => ?_) (counting_setCall rfl ?_ ?_)
    · rcases hx with hx | ⟨u, d, hu, hd, hh⟩
      · rcases List.mem_append.mp hx with hx | hx
        · exact .inl hx
        · rw [List.mem_singleton.mp hx]
          exact .inr ⟨t, c, hc, hb, by rw [hst]; rfl⟩
      · rcases calls_setCall hu with ⟨-, he⟩ | ⟨-, hu⟩
        · cases he
        · exact .inr ⟨u, d, hu, hd, hh⟩
    · rintro d ⟨⟩
    · intro d hd
      rw [hc] at hd
      cases hd
      rw [hst]
      decide
  | release b poll hb =>
    refine h.keep rfl rfl rfl (fun x hx => ?_) Iff.rfl
    rcases hx with hx | hx
    · exact .inl (List.mem_of_mem_erase hx)
    · exact .inr hx

/-- **The invariant.** -/
structure Separate (w : Recorded τ) : Prop where
  owns : Owns w.threads
  serial : Serial w.threads
  frames : Frames w
  counts : Counts w

theorem Separate.record (h : Separate w) (hg : Apart w.threads a) (hn : record w a = some w') :
    Separate w' := by
  have hd := did_of_record h.owns h.serial hg hn
  exact ⟨h.owns.did hd, h.serial.did hd,
    h.frames.did h.owns hd fun t c hc hst => h.counts.at_sn h.serial hc hst,
    h.counts.did h.serial hd⟩

omit [DecidableEq τ] in
theorem Separate.unmixed (h : Separate w) : Unmixed w := by
  refine ⟨fun b hb => ?_, fun b hb => h.counts.lt b (.inl hb),
    fun b hb c hc => h.counts.inj b c (.inl hb) (.inl hc), h.counts.sns⟩
  obtain ⟨hlen, c₀, hcmd⟩ := h.frames.whole b hb
  rw [hcmd]
  exact disposeFrame_isFrame _ hlen _ c₀

end

/-- Before any call: buffers are free, none is linked, and `uart_send_sn` is 0. -/
structure Initial (w : Threads τ) : Prop where
  nodup : w.free.Nodup
  list : w.list = []
  uartSendSn : w.uartSendSn = 0
  calls : ∀ t, w.calls t = none

omit [DecidableEq τ] in
theorem Initial.separate {w : Threads τ} (h : Initial w) : Separate (recorded w) := by
  have hno : ∀ t c, (recorded w).threads.calls t ≠ some c := by
    intro t c hc
    have := (h.calls t).symm.trans hc
    cases this
  have hlist : (recorded w).threads.list = [] := h.list
  have hnum : ∀ b, ¬ IsNumbered (recorded w).threads b := by
    rintro b (hb | ⟨t, c, hc, -⟩)
    · rw [hlist] at hb
      cases hb
    · exact hno t c hc
  refine ⟨⟨?_, fun t c hc => absurd hc (hno t c), fun t c b hc => absurd hc (hno t c),
      fun t u c d b hc => absurd hc (hno t c)⟩,
    ⟨fun t u c d hc => absurd hc (hno t c), fun t c hc => absurd hc (hno t c)⟩,
    ⟨fun t c hc => absurd hc (hno t c), fun t c b hc => absurd hc (hno t c), fun b hb => ?_⟩,
    ⟨fun b hb => absurd hb (hnum b), fun b c hb => absurd hb (hnum b), fun _ => h.uartSendSn,
      fun t c hc => absurd hc (hno t c), rfl⟩⟩
  · rw [hlist, List.append_nil]
    exact h.nodup
  · rw [hlist] at hb
    cases hb

/-- **When concurrent notifications do not mix.** In every run from the start whose calls keep
apart, by any number of threads and in any interleaving of their statements, each linked buffer
holds the frame of its own call, and the calls carry consecutive sequence numbers modulo 256. -/
theorem frames_separate {w : Threads τ} (hw : Initial w) {as : List (Act τ)}
    (hg : Steps record (fun w a => Apart w.threads a) (recorded w) as) :
    States record Unmixed (recorded w) as :=
  (states_of_guarded (I := Separate) (fun _ _ _ h hg hn => h.record hg hn) hw.separate hg).mono
    fun _ h => h.unmixed

end

/-! ### Two calls that mix -/

/-- The start: sixteen free buffers. -/
def threadsInit : Threads (Fin 2) where
  free := List.range uartSendBufNum
  list := []
  respdata := none
  uartSendSn := 0
  mem := fun _ => ⟨0, .cleared, filled 0⟩
  calls := fun _ => none

theorem initial_threadsInit : Initial threadsInit :=
  ⟨List.nodup_range, rfl, rfl, fun _ => rfl⟩

/-- A device is pulled out while the call for an inserted one stands behind its setting of
`Respdata`. -/
def mixedCalls : List (Act (Fin 2)) :=
  [.call 0 (hidInsertNtf 1), .run 0, .run 0, .run 0, .call 1 (hidPulloutNtf 1)] ++
    List.replicate 15 (.run 1) ++ List.replicate 12 (.run 0)

/-- The insertion is written into the buffer of the other call, which is linked already, and its own
buffer is linked with no frame in it. -/
theorem mixedCalls_mixed : (exec Threads.next threadsInit mixedCalls).map
    (fun w => w.list.map fun b => slice (w.mem b).cmd 0 9) =
      some [[0xD0, 0, 5, 0, 1, 0xA1, 0x20, 1, 0xC3], [0, 0, 0, 0, 0, 0, 0, 0, 0]] := by
  decide +kernel

/-- The pull-out waits with `Respdata` until the insertion has its checksum. -/
def apartCalls : List (Act (Fin 2)) :=
  [.call 0 (hidInsertNtf 1), .run 0, .run 0, .call 1 (hidPulloutNtf 1), .run 1, .run 1] ++
    List.replicate 11 (.run 0) ++ List.replicate 13 (.run 1) ++ List.replicate 2 (.run 0)

/-- The theorem applied to these calls. -/
theorem apartCalls_unmixed : States record Unmixed (recorded threadsInit) apartCalls :=
  frames_separate initial_threadsInit (by decide +kernel)

end MultiPortConvertor.Uart.Separation
