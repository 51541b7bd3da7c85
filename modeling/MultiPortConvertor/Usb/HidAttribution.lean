import MultiPortConvertor.Usb.HidTasks
import MultiPortConvertor.Usb.HidText

/-! # Which device a text comes from

`hid_data_tsk` labels a text with `hid_dev_type` as it is when the text is handed on, and
`hid_reopen_read_tsk` overwrites it when it opens a device, whatever reports of the one before are
still on their way. The record of a run numbers the connections and keeps, for each buffer and each
character in `hid_key_buf`, under which one it was read. Every text comes from one connection and
bears the type announced for it as long as nothing is on its way when a device is opened
(`steps_attributed`). -/

namespace MultiPortConvertor.Usb.HidAttribution

open MultiPortConvertor.Lib.Bytes MultiPortConvertor.Lib.Outcomes MultiPortConvertor.Lib.Runs
open MultiPortConvertor.Tool.IntrusiveList MultiPortConvertor.Tool.BufFactory
open MultiPortConvertor.Uart.Dispose MultiPortConvertor.Usb.HidUsageId
open MultiPortConvertor.Usb.HidData
open MultiPortConvertor.Usb.HidText MultiPortConvertor.Usb.HidTasks

/-! ### The record of a run -/

/-- A state with its record: the number of the last connection, the types announced, the connections
under which the reports in the buffers were read, and the characters in `hid_key_buf` with theirs.
-/
structure Watched where
  hid : Hid
  conn : ℕ
  announced : ℕ → Option UInt8
  origin : ℕ → ℕ
  keys : List (UInt8 × ℕ)

def watched (s : Hid) : Watched := ⟨s, 0, fun _ => none, fun _ => 0, []⟩

/-- The types announced after the events, for the connection `conn`. -/
def announce (conn : ℕ) (announced : ℕ → Option UInt8) (es : List Event) : ℕ → Option UInt8 :=
  es.foldl (fun f e => match e with
    | .insertNtf info => Function.update f conn (some (info.data 0))
    | _ => f) announced

/-- The connection of the report in the hands of the data task. -/
def Watched.source (w : Watched) : ℕ :=
  match w.hid.dataTsk with
  | .handling b => w.origin b
  | _ => 0

/-- The characters in `hid_key_buf` after a turn. -/
def Watched.keysAfter (w : Watched) (e : Turn) : List (UInt8 × ℕ) :=
  if e.ends then [] else w.keys ++ e.char.toList.map fun c => (c, w.source)

/-- The record after a step. -/
def Watched.after (w : Watched) (a : Action) (s : Hid) (es : List Event) : Watched where
  hid := s
  conn := match a with
    | .openHid _ => w.conn + 1
    | _ => w.conn
  announced := announce w.conn w.announced es
  origin := match a, w.hid.readTsk with
    | .read _, .reading b => Function.update w.origin b w.conn
    | _, _ => w.origin
  keys := match w.hid.turnOf a with
    | some e => w.keysAfter e
    | none => w.keys

variable (wild : KeyBuf → KeyBuf)

/-- The next state with its record. -/
def watch (w : Watched) (a : Action) : Option Watched :=
  (w.hid.step wild a).toOption.map fun x => w.after a x.1 x.2

/-- **Attribution.** The characters of a text handed on were read under one connection, as was the
report that ends it, and its first byte is the type announced for that one. -/
def Attributed (w : Watched) (a : Action) : Prop :=
  ∀ s es, w.hid.step wild a = .next (s, es) → ∀ length info, .data (.dataNtf length info) ∈ es →
    ∃ conn, w.announced conn = some (info.data 0) ∧ ntfChars info = w.keys.map Prod.fst ∧
      (∀ x ∈ w.keys, x.2 = conn) ∧ (a = .handle → w.source = conn)

/-! ### The condition -/

/-- The buffer whose report the data task is about to handle. -/
def DataTsk.full : DataTsk → List ℕ
  | .handling b => [b]
  | _ => []

/-- The buffers on their way to the data task, or in its hands. -/
def Hid.waiting (s : Hid) : List ℕ := s.mailbox ++ DataTsk.full s.dataTsk

def Action.opens : Action → Bool
  | .openHid _ => true
  | _ => false

/-- **The condition**: when a device is opened, no character is in `hid_key_buf` and no report waits
that is translated to anything; and there is room for what is written to `hid_key_buf`. -/
structure Calm (s : Hid) (a : Action) : Prop where
  empty : Action.opens a = true → s.keys.hidKeyLength = 0
  quiet : Action.opens a = true → ∀ b ∈ Hid.waiting s, asciiOf (s.mem b).keyWord = none
  room : ∀ e ∈ s.turnOf a, e.char.isSome = true ∨ e.ends = true → s.keys.hidKeyLength < 128

instance (s : Hid) (a : Action) : Decidable (Calm s a) :=
  decidable_of_iff ((Action.opens a = true → s.keys.hidKeyLength = 0) ∧
      (Action.opens a = true → ∀ b ∈ Hid.waiting s, asciiOf (s.mem b).keyWord = none) ∧
      ∀ e ∈ s.turnOf a, e.char.isSome = true ∨ e.ends = true → s.keys.hidKeyLength < 128)
    ⟨fun h => ⟨h.1, h.2.1, h.2.2⟩, fun h => ⟨h.empty, h.quiet, h.room⟩⟩

/-! ### The invariant -/

/-- The type of the last connection has been announced and still stands. -/
def Watched.Live (w : Watched) : Prop := w.announced w.conn = some w.hid.hidDevType

/-- A device is open. -/
def ReadTsk.isOpen : ReadTsk → Prop
  | .opening => False
  | .typed => False
  | _ => True

/-- The buffer whose report the reader is about to post. -/
def ReadTsk.full : ReadTsk → List ℕ
  | .posting b => [b]
  | _ => []

/-- The buffers that hold a report that has not been handled. -/
def Hid.full (s : Hid) : List ℕ := ReadTsk.full s.readTsk ++ Hid.waiting s

/-- **Everything on its way comes from the last connection.** -/
structure Current (w : Watched) : Prop where
  text : slice w.hid.keys.hidKeyBuf 0 w.hid.keys.hidKeyLength = w.keys.map Prod.fst
  live : ReadTsk.isOpen w.hid.readTsk → w.Live
  full : ∀ b ∈ Hid.full w.hid, asciiOf (w.hid.mem b).keyWord ≠ none → w.origin b = w.conn ∧ w.Live
  keys : ∀ x ∈ w.keys, x.2 = w.conn ∧ w.Live

theorem announce_data (conn : ℕ) (announced : ℕ → Option UInt8) (out : List Effect) :
    announce conn announced (out.map .data) = announced := by
  induction out with
  | nil => rfl
  | cons f out ih => exact ih

section

variable {wild : KeyBuf → KeyBuf} {w w' : Watched} {s : Hid} {a : Action} {es : List Event}
variable {free free' : List ℕ} {e : Turn}

/-- The text in the buffer and its record stay together. -/
theorem Current.text_turn (h : Current w)
    (hroom : e.char.isSome = true ∨ e.ends = true → w.hid.keys.hidKeyLength < 128) :
    slice (turn wild w.hid.keys e).1.hidKeyBuf 0 (turn wild w.hid.keys e).1.hidKeyLength =
      (w.keysAfter e).map Prod.fst := by
  have hlen : w.hid.keys.hidKeyLength = (w.keys.map Prod.fst).length := by
    rw [← h.text, length_slice]
  rw [turn_text h.text fun hc => by rw [← hlen]; exact hroom (.inl hc)]
  unfold Watched.keysAfter
  split_ifs
  · rfl
  · rw [List.map_append, List.map_map]
    cases e.char <;> rfl

/-- A text handed on is that of the buffer, with the type as it is. -/
theorem ntf_of_turn (h : Current w) {length : ℕ} {info : UartSendInfo}
    (hroom : e.char.isSome = true ∨ e.ends = true → w.hid.keys.hidKeyLength < 128)
    (hm : .dataNtf length info ∈ (turn wild w.hid.keys e).2) :
    info.data 0 = e.hidDevType ∧ ntfChars info = w.keys.map Prod.fst ∧
      (w.keys = [] → ∃ k, e.input = .report k ∧ asciiOf k = some 13) := by
  have hlen : w.hid.keys.hidKeyLength = w.keys.length := by
    rw [← List.length_map (f := Prod.fst), ← h.text, length_slice]
  rcases turn_cases wild w.hid.keys e with ⟨c, hc, ht⟩ | ⟨hc, he, ht, h13⟩ | ⟨hc, ht, h0⟩
  · rw [ht] at hm
    simp at hm
  · rw [ht, flush, put_of_lt (hroom (.inr he))] at hm
    simp only [List.mem_cons, List.not_mem_nil, or_false, reduceCtorEq, false_or,
      Effect.dataNtf.injEq] at hm
    obtain ⟨-, rfl⟩ := hm
    refine ⟨?_, ?_, fun hnil => h13 (by rw [hlen, hnil]; rfl)⟩
    · exact devType_hidDataNtf _ _ _
    · rw [ntfChars_hidDataNtf, slice_store_of_ge 0 (Nat.zero_add _).le, h.text]
  · rw [ht] at hm
    cases hm

/-- A step that neither opens a device nor fills a buffer, and makes no turn, changes nothing of the
record. -/
theorem Current.still (h : Current w) (hkeys : s.keys = w.hid.keys)
    (hmem : ∀ b, (s.mem b).keyWord = (w.hid.mem b).keyWord)
    (htype : s.hidDevType = w.hid.hidDevType)
    (hopen : ReadTsk.isOpen s.readTsk → ReadTsk.isOpen w.hid.readTsk)
    (hfull : ∀ b ∈ Hid.full s, b ∈ Hid.full w.hid) :
    Current ⟨s, w.conn, w.announced, w.origin, w.keys⟩ where
  text := by rw [hkeys]; exact h.text
  live := fun ho => (h.live (hopen ho)).trans (by rw [htype])
  full := fun b hb hk => by
    obtain ⟨horigin, hlive⟩ := h.full b (hfull b hb) (by rw [← hmem]; exact hk)
    exact ⟨horigin, hlive.trans (by rw [htype])⟩
  keys := fun x hx => ⟨(h.keys x hx).1, (h.keys x hx).2.trans (by rw [htype])⟩

/-- A turn of the data task. -/
theorem Current.turned (h : Current w) {t : DataTsk}
    (hsource : e.char.isSome = true → w.source = w.conn ∧ w.Live)
    (hroom : e.char.isSome = true ∨ e.ends = true → w.hid.keys.hidKeyLength < 128)
    (hfull : ∀ b ∈ Hid.full { w.hid with dataTsk := t }, b ∈ Hid.full w.hid) :
    Current ⟨{ w.hid with keys := (turn wild w.hid.keys e).1, dataTsk := t }, w.conn, w.announced,
      w.origin, w.keysAfter e⟩ where
  text := h.text_turn hroom
  live := h.live
  full := fun b hb hk => h.full b (hfull b hb) hk
  keys := fun x hx => by
    unfold Watched.keysAfter at hx
    split_ifs at hx
    · cases hx
    · rcases List.mem_append.mp hx with hx | hx
      · exact h.keys x hx
      · obtain ⟨c, hc, rfl⟩ := List.mem_map.mp hx
        exact hsource (by rw [Option.mem_toList.mp hc]; rfl)

theorem after_silence {timer : UInt32} (hd : w.hid.dataTsk = .pend) :
    w.after (.silence timer) s ((turn wild w.hid.keys ⟨w.hid.hidDevType, .silence timer⟩).2.map
      .data) =
      ⟨s, w.conn, w.announced, w.origin, w.keysAfter ⟨w.hid.hidDevType, .silence timer⟩⟩ := by
  unfold Watched.after
  simp only [announce_data, Hid.turnOf, hd]

theorem after_handle {b : ℕ} (hd : w.hid.dataTsk = .handling b) :
    w.after .handle s
        ((turn wild w.hid.keys ⟨w.hid.hidDevType, .report (w.hid.mem b).keyWord⟩).2.map .data) =
      ⟨s, w.conn, w.announced, w.origin,
        w.keysAfter ⟨w.hid.hidDevType, .report (w.hid.mem b).keyWord⟩⟩ := by
  unfold Watched.after
  simp only [announce_data, Hid.turnOf, hd]

theorem after_read {b : ℕ} {k : KeyWord} (hr : w.hid.readTsk = .reading b) :
    w.after (.read k) s [] =
    ⟨s, w.conn, w.announced, Function.update w.origin b w.conn, w.keys⟩ := by
  unfold Watched.after
  rw [hr]
  rfl

/-- The report in the hands of the data task comes from the last connection, if it is translated. -/
theorem Current.source (h : Current w) {b : ℕ} (hd : w.hid.dataTsk = .handling b)
    (hk : asciiOf (w.hid.mem b).keyWord ≠ none) : w.source = w.conn ∧ w.Live := by
  have hfull : b ∈ Hid.full w.hid := by simp [Hid.full, Hid.waiting, DataTsk.full, hd]
  unfold Watched.source
  rw [hd]
  exact h.full b hfull hk

theorem asciiOf_ne_none {devType : UInt8} {k : KeyWord}
    (h : (Turn.mk devType (.report k)).char.isSome = true) : asciiOf k ≠ none := by
  intro hk
  simp [Turn.char, hk] at h

/-- Only the end of a text hands one on. -/
theorem ends_of_ntf {k : KeyBuf} {length : ℕ} {info : UartSendInfo}
    (hm : .dataNtf length info ∈ (turn wild k e).2) : e.ends = true := by
  rcases turn_cases wild k e with ⟨c, hc, ht⟩ | ⟨hc, he, ht, -⟩ | ⟨hc, ht, h0⟩
  · rw [ht] at hm
    simp at hm
  · exact he
  · rw [ht] at hm
    cases hm

theorem ends_ne_none {devType : UInt8} {k : KeyWord}
    (h : (Turn.mk devType (.report k)).ends = true) : asciiOf k ≠ none := by
  intro hk
  simp [Turn.ends, hk] at h

/-- **The invariant is kept** by every calm step. -/
theorem Current.change (h : Current w) (hg : Calm w.hid a)
    (hc : Change wild w.hid free a s free' es) : Current (w.after a s es) := by
  cases hc with
  | openHid _ product hr =>
    have hnil : w.keys = [] := by
      have hlen := congrArg List.length h.text
      rw [length_slice, List.length_map, hg.empty rfl] at hlen
      exact List.length_eq_zero_iff.mp hlen.symm
    refine ⟨h.text, False.elim, fun b hb hk => absurd (hg.quiet rfl b ?_) hk, fun x hx => ?_⟩
    · exact (List.mem_append.mp hb).resolve_left List.not_mem_nil
    · rw [show (w.after _ _ _).keys = w.keys from rfl, hnil] at hx
      cases hx
  | close _ hr h0 =>
    exact h.still rfl (fun _ => rfl) rfl False.elim fun b hb => List.mem_append_right _ hb
  | announce _ hr h0 =>
    have hlive : (w.after .test { w.hid with readTsk := .produce }
        [.insertNtf (hidInsertNtf w.hid.hidDevType)]).Live := Function.update_self _ _ _
    refine ⟨h.text, fun _ => hlive, fun b hb hk => ?_, fun x hx => ⟨(h.keys x hx).1, hlive⟩⟩
    exact ⟨(h.full b (List.mem_append_right _ hb) hk).1, hlive⟩
  | produce b _ H hr hb hp =>
    exact h.still rfl (fun x => keyWord_update_buf w.hid.mem b b x) rfl
      (fun _ => by rw [hr]; trivial) fun x hx => List.mem_append_right _ hx
  | read _ b k hr =>
    have hlive : w.Live := h.live (by rw [hr]; trivial)
    rw [after_read hr]
    refine ⟨h.text, fun _ => hlive, fun x hx hk => ⟨?_, hlive⟩, h.keys⟩
    by_cases hxb : x = b
    · subst hxb
      simp
    · have hxf : x ∈ Hid.full w.hid := by
        rcases List.mem_append.mp hx with hx | hx
        · exact absurd (List.mem_singleton.mp hx) hxb
        · exact List.mem_append_right _ hx
      simpa [hxb] using (h.full x hxf (by simpa [hxb] using hk)).1
  | readFail _ b H hr hp =>
    exact h.still rfl (fun _ => rfl) rfl False.elim fun x hx => List.mem_append_right _ hx
  | post _ b hr hroom =>
    refine h.still rfl (fun _ => rfl) rfl (fun _ => by rw [hr]; trivial) fun x hx => ?_
    simp only [Hid.full, Hid.waiting, ReadTsk.full, hr, List.nil_append, List.append_assoc,
      List.mem_append, List.mem_singleton] at hx ⊢
    rcases hx with hx | hx | hx
    · exact .inr (.inl hx)
    · exact .inl hx
    · exact .inr (.inr hx)
  | take _ b rest hd hm =>
    refine h.still rfl (fun _ => rfl) rfl id fun x hx => ?_
    simp only [Hid.full, Hid.waiting, DataTsk.full, hd, hm, List.mem_append, List.mem_cons,
      List.not_mem_nil, or_false] at hx ⊢
    rcases hx with hx | hx | hx
    · exact .inl hx
    · exact .inr (.inr hx)
    · exact .inr (.inl hx)
  | silence _ timer hd =>
    rw [after_silence hd]
    refine h.turned (t := w.hid.dataTsk) (fun hs => by cases hs) (hg.room _ ?_) fun x hx => hx
    simp [Hid.turnOf, hd]
  | handle _ b hd =>
    rw [after_handle hd]
    refine h.turned (fun hs => h.source hd (asciiOf_ne_none hs)) (hg.room _ ?_) fun x hx => ?_
    · simp [Hid.turnOf, hd]
    · simp only [Hid.full, Hid.waiting, DataTsk.full, hd, List.mem_append, List.not_mem_nil,
        or_false] at hx ⊢
      rcases hx with hx | hx
      · exact .inl hx
      · exact .inr (.inl hx)
  | recycle _ b H hd hp =>
    exact h.still rfl (fun _ => rfl) rfl id fun x hx => by
      simpa [Hid.full, Hid.waiting, DataTsk.full, hd] using hx

/-- **The texts are attributed** in a calm step. -/
theorem Current.attributed (h : Current w) (ho : Owned w.hid free) (hg : Calm w.hid a) :
    Attributed wild w a := by
  intro s es hs length info hm
  obtain ⟨free', hc⟩ := step_change ho hs
  cases hc with
  | silence _ timer hd =>
    obtain ⟨f, hf, he⟩ := List.mem_map.mp hm
    cases he
    obtain ⟨htype, hchars, hnil⟩ := ntf_of_turn h (hg.room _ (by simp [Hid.turnOf, hd])) hf
    obtain ⟨x, hx⟩ := List.exists_mem_of_ne_nil w.keys fun hk => by
      obtain ⟨k, hk, -⟩ := hnil hk
      cases hk
    refine ⟨w.conn, ?_, hchars, fun y hy => (h.keys y hy).1, fun ha => by cases ha⟩
    rw [htype]
    exact (h.keys x hx).2
  | handle _ b hd =>
    obtain ⟨f, hf, he⟩ := List.mem_map.mp hm
    cases he
    obtain ⟨htype, hchars, hnil⟩ := ntf_of_turn h (hg.room _ (by simp [Hid.turnOf, hd])) hf
    obtain ⟨hsource, hlive⟩ := h.source hd (ends_ne_none (ends_of_ntf hf))
    refine ⟨w.conn, ?_, hchars, fun y hy => (h.keys y hy).1, fun _ => hsource⟩
    rw [htype]
    exact hlive
  | openHid | close | produce | read | post | take | recycle => cases hm
  | announce | readFail => simp at hm

end

/-- **Every text comes from the device it is labelled with**, in a run whose steps are all calm. -/
theorem steps_attributed {wild : KeyBuf → KeyBuf} {H : Heap Addr Owner}
    {mem : ℕ → HidFormat} {s : Hid} (h : hidContextInit H mem = .next s) {as : List Action}
    (hg : Steps (watch wild) (fun w a => Calm w.hid a) (watched s) as) :
    Steps (watch wild) (Attributed wild) (watched s) as := by
  refine steps_of_guarded (I := fun w => (∃ free, Owned w.hid free) ∧ Current w) ?_ ?_ ?_ hg
  · rintro w a w' ⟨⟨free, ho⟩, hw⟩ hg hn
    obtain ⟨⟨t, es⟩, ht, rfl⟩ := Option.map_eq_some_iff.mp hn
    obtain ⟨free', hc⟩ := step_change ho (Outcome.toOption_eq_some.mp ht)
    exact ⟨⟨free', ho.change hc⟩, hw.change hg hc⟩
  · rintro w a ⟨⟨free, ho⟩, hw⟩ hg
    exact hw.attributed ho hg
  · obtain ⟨H', -, hn⟩ := Outcome.bind_eq_next.mp h
    cases hn
    refine ⟨⟨_, owned_start h⟩, rfl, False.elim, ?_, ?_⟩
    · rintro b ⟨⟩
    · rintro x ⟨⟩

/-- A text handed on after a silence bears the type announced for the connection of its characters.
-/
theorem Attributed.label {wild : KeyBuf → KeyBuf} {w : Watched} {timer : UInt32}
    (h : Attributed wild w (.silence timer)) (hd : w.hid.dataTsk = .pend) (ht : timer ≥ hidTimeOut)
    (hl : w.hid.keys.hidKeyLength ≠ 0) {x : UInt8 × ℕ} (hx : x ∈ w.keys) :
    w.announced x.2 = some w.hid.hidDevType := by
  have hturn : turn wild w.hid.keys ⟨w.hid.hidDevType, .silence timer⟩ =
      flush wild w.hid.hidDevType w.hid.keys := by
    unfold turn
    dsimp only
    rw [if_pos ht, if_pos hl]
  have hstep : ∃ s, w.hid.step wild (.silence timer) =
      .next (s, (flush wild w.hid.hidDevType w.hid.keys).2.map .data) := by
    simp only [Hid.step, hd, hturn]
    exact ⟨_, rfl⟩
  obtain ⟨s, hs⟩ := hstep
  have hmem : .dataNtf (w.hid.keys.put wild 0).hidKeyLength
    (hidDataNtf (w.hid.keys.put wild 0).hidKeyBuf
      (w.hid.keys.put wild 0).hidKeyLength w.hid.hidDevType) ∈
        (flush wild w.hid.hidDevType w.hid.keys).2 := by simp [flush]
  obtain ⟨conn, hann, -, hkeys, -⟩ := h s _ hs _ _ (List.mem_map_of_mem hmem)
  rw [hkeys x hx, hann, devType_hidDataNtf]

/-! ### Two devices -/

/-- A heap and memory as `malloc` may leave them. -/
def heapStart : Heap Addr Owner := fun _ => ⟨none, none, none⟩

def memStart : ℕ → HidFormat := fun _ => ⟨0, fun _ => 0⟩

/-- The state at the start. -/
def hidInit : Hid := ((hidContextInit heapStart memStart).toOption).get (by decide +kernel)

theorem hidContextInit_hidInit : hidContextInit heapStart memStart = .next hidInit :=
  Outcome.toOption_eq_some.mp (Option.some_get _).symm

/-- A letter is read from a scanner, and the scanner is replaced by a card reader before it is
handled. -/
def replaced : List Action :=
  [.openHid 0x7638, .test, .produce, .read ![0, 0, 4, 0, 0, 0, 0, 0], .post, .produce, .readFail,
    .openHid 0x1010, .test, .take, .handle, .recycle]

/-- After a silence the letter is handed on as one of the card reader. -/
theorem replaced_mislabelled : ∃ w, exec (watch id) (watched hidInit) replaced = some w ∧
    w.keys = [(97, 1)] ∧ w.announced 1 = some 1 ∧ ¬ Attributed id w (.silence 10) := by
  have hrun : (exec (watch id) (watched hidInit) replaced).map (fun w =>
      ((w.hid.dataTsk, w.hid.keys.hidKeyLength), (w.hid.hidDevType, w.announced 1), w.keys)) =
        some ((.pend, 1), (2, some 1), [(97, 1)]) := by decide +kernel
  obtain ⟨w, hw, hfacts⟩ := Option.map_eq_some_iff.mp hrun
  simp only [Prod.mk.injEq] at hfacts
  obtain ⟨⟨hd, hl⟩, ⟨htype, hann⟩, hkeys⟩ := hfacts
  refine ⟨w, hw, hkeys, hann, fun h => ?_⟩
  have hlabel := h.label hd (by decide) (by rw [hl]; decide) (x := (97, 1)) (by rw [hkeys]; simp)
  rw [hann, htype] at hlabel
  exact absurd hlabel (by decide)

/-- The letter is handed on before the scanner is replaced. -/
def replacedLater : List Action :=
  [.openHid 0x7638, .test, .produce, .read ![0, 0, 4, 0, 0, 0, 0, 0], .post, .take,
    .handle, .recycle,
    .silence 10, .produce, .readFail, .openHid 0x1010, .test]

/-- The theorem applied to this run. -/
theorem replacedLater_attributed :
    Steps (watch id) (Attributed id) (watched hidInit) replacedLater :=
  steps_attributed hidContextInit_hidInit (by decide +kernel)

end MultiPortConvertor.Usb.HidAttribution
