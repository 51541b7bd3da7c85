import MultiPortConvertor.Net.Replies
import MultiPortConvertor.Net.UploadMemory
import MultiPortConvertor.Tool.CJsonParseMemory

/-! # The memory of the transfers

The write callbacks parse each piece of a reply into items, read the items and delete them;
`get_time_parse` also renders the time, and frees the text. After any heartbeats and uploads the
variables are those of the model of `Net.HttpProtocol`, and the memory is what it was before
(`exchanges_memory`). An upload leaves nothing behind even if allocations fail (`upload_failing`).
-/

namespace MultiPortConvertor.Net.ReplyMemory

open MultiPortConvertor.Lib.CString MultiPortConvertor.Lib.Doubles MultiPortConvertor.Lib.Heaps
open MultiPortConvertor.Lib.Outcomes MultiPortConvertor.Lib.Parsers MultiPortConvertor.Lib.Scanf
open MultiPortConvertor.Lib.Transfers
open MultiPortConvertor.Tool.CJson MultiPortConvertor.Tool.CJsonHeap
open MultiPortConvertor.Tool.CJsonOwned
open MultiPortConvertor.Tool.CJsonValues MultiPortConvertor.Tool.CJsonParseMemory
open MultiPortConvertor.Tool.CJsonPrintMemory
open MultiPortConvertor.Uart.Dispose MultiPortConvertor.Uart.Handlers
open MultiPortConvertor.Net.HttpProtocol (Http Outside clockOf)
open MultiPortConvertor.Net.Replies MultiPortConvertor.Net.UploadMemory
open MultiPortConvertor.Net.UploadResult (errnoOf numericErrno replies resultNtf postRecordParse_eq)

section Program

variable (fpu : Arithmetic) (stack fuel : ℕ) (behind : List UInt8 → List UInt8)
    (tm : Lib.Calendar.Fields)

/-! ### The callbacks -/

/-- `cJSON_Delete(root);` in front of a `return`. -/
def leave {γ : Type} (root : ℕ) (c : γ) : Mem Block γ := do
  cjsonDelete fuel (some root)
  return c

/-- The end of `get_time_parse`, from `time_zone` on. -/
def zonePart (root data bytes : ℕ) (h : Http) : Mem Block (Http × ℕ) := do
  match ← cjsonGetObjectItem fuel (some data) (ascii "time_zone") with
  | none => leave fuel root (h, 0)
  | some timeZone => do
    let i ← loadItem (some timeZone)
    if i.type = 4 then do
      let valuestring ← loadText i.valuestring
      leave fuel root ({ h with systemInfo := { h.systemInfo with
        timezone := Int16.ofInt ((atoi valuestring).tdiv 50)
        timeValid := 1 } }, bytes)
    else leave fuel root (h, bytes)

/-- From `time` on; `sscanf` reads through `sub`. -/
def timePart (root data bytes : ℕ) (h : Http) : Mem Block (Http × ℕ) := do
  match ← cjsonGetObjectItem fuel (some data) (ascii "time") with
  | none => leave fuel root (h, 0)
  | some time => do
    let sub ← (cjsonPrint fpu true fuel time).run
    let text ← loadText sub
    free sub
    zonePart fuel root data bytes { h with tvSec := clockOf text tm }

/-- From `data` on. -/
def dataPart (root bytes : ℕ) (h : Http) : Mem Block (Http × ℕ) := do
  match ← cjsonGetObjectItem fuel (some root) (ascii "data") with
  | none => leave fuel root (h, 0)
  | some data => timePart fpu fuel tm root data bytes h

/-- `get_time_parse`. -/
def getTimeParse (h : Http) (piece : List UInt8) : Mem Block (Http × ℕ) := do
  match ← (cjsonParse fpu stack fuel (upToZero (piece ++ behind piece))).run with
  | none => return (h, 0)
  | some root => do
    match ← cjsonGetObjectItem fuel (some root.1) (ascii "errno") with
    | none => leave fuel root.1 (h, 0)
    | some errno => do
      let i ← loadItem (some errno)
      if i.type = 3 ∧ i.valueint = 0 then dataPart fpu fuel tm root.1 piece.length h
      else leave fuel root.1 (h, piece.length)

/-- `post_record_parse`. -/
def postRecordParse (ntfs : List UartSendInfo) (piece : List UInt8) :
    Mem Block (List UartSendInfo × ℕ) := do
  match ← (cjsonParse fpu stack fuel (upToZero (piece ++ behind piece))).run with
  | none => return (ntfs, 0)
  | some root => do
    match ← cjsonGetObjectItem fuel (some root.1) (ascii "errno") with
    | none => leave fuel root.1 (ntfs, 0)
    | some errno => do
      let i ← loadItem (some errno)
      let ntfs := if i.type = 3 then ntfs ++ [httpUpDataNtf i.valueint.toInt8.toUInt8] else ntfs
      leave fuel root.1 (ntfs, piece.length)

/-! ### The transfers -/

/-- `get_time_Url`. -/
def getTimeUrl (curl : Option Attempt) (h : Http) : Mem Block (Http × ℕ) :=
  match curl with
  | none => return (h, 0)
  | some a => do
    let r ← a.performM (getTimeParse fpu stack fuel behind tm) h
    if r.2 ≠ 0 then
      let h := { r.1 with heartErrTime := r.1.heartErrTime + 1 }
      if h.heartErrTime ≥ 3 then return (({ h with heartErrTime := 0 } : Http).setErr 1, 1)
        else return (h, 1)
    else return (({ r.1 with heartErrTime := 0 } : Http).setErr 0, 1)

/-- The up to three calls of `curl_easy_perform` of `post_record_Url`, with the text at `p`. -/
def attempts (p : Option ℕ) (a₁ a₂ a₃ : Attempt) (h : Http) :
    Mem Block (Http × List UartSendInfo × ℕ) := do
  let callback := postRecordParse fpu stack fuel behind
  let _ ← textAt p
  let r₁ ← a₁.performM callback []
  if r₁.2 ≠ 0 then
    let _ ← textAt p
    let r₂ ← a₂.performM callback r₁.1
    if r₂.2 ≠ 0 then
      let _ ← textAt p
      let r₃ ← a₃.performM callback r₂.1
      return (h.setErr 1, r₃)
    else return (h, r₂)
  else return (h, r₁)

/-- `post_record_Url`; besides the state and the notifications, the text that is posted. -/
def postRecordUrl (curl : Option (Attempt × Attempt × Attempt)) (h : Http) (p : Option ℕ) :
    Mem Block (Http × List UartSendInfo × Option (List UInt8)) :=
  match curl with
  | none => do
    free p
    return (h, [], none)
  | some (a₁, a₂, a₃) => do
    let posted ← textAt p
    let r ← attempts fpu stack fuel behind p a₁ a₂ a₃ h
    free p
    if r.2.2 = 0 then return (r.1.setErr 0, r.2.1, posted)
    else return (r.1, r.2.1 ++ [httpUpDataNtf 2], posted)

end Program

/-! ### What the callbacks read -/

variable {s s₀ t : Heap Block} {fuel stack : ℕ} {c T : Node} {v w : CJSON} {fpu : Arithmetic}
  {behind : List UInt8 → List UInt8} {tm : Lib.Calendar.Fields} {γ : Type}

/-- An item that the code has a pointer to, and its value. -/
structure Part (s : Heap Block) (fuel : ℕ) (c : Node) (v : CJSON) : Prop where
  rep : ∃ prev next, Rep s.blocks prev next c
  stands : Stands c v
  size_le : size c ≤ fuel

theorem Part.adds (h : Part s fuel c v) (ha : Adds s t []) : Part t fuel c v := by
  obtain ⟨prev, next, hr⟩ := h.rep
  exact ⟨⟨prev, next, hr.adds ha⟩, h.stands, h.size_le⟩

/-- **A child is found in memory exactly if the value has it.** -/
theorem Part.find (h : Part s fuel c v) (string : String) :
    (cjsonGetObjectItem fuel (some c.addr) (ascii string) s = .next (none, s) ∧
      getObjectItem v string = none) ∨
      ∃ d w, cjsonGetObjectItem fuel (some c.addr) (ascii string) s = .next (some d.addr, s) ∧
        getObjectItem v string = some w ∧ Part s fuel d w := by
  rcases c with ⟨a, f, cs⟩
  obtain ⟨prev, next, hr⟩ := h.rep
  have hsizes : sizeAll cs ≤ fuel := (Nat.le_succ _).trans h.size_le
  obtain ⟨hrun, hfinds⟩ := getObjectItem_spec hr h.stands
    ((length_le_sizeAll cs).trans hsizes) string
  generalize hw : getObjectItem v string = w at hfinds
  rcases hfound : cs.find? (isNamed (ascii string)) with _ | d
  · rw [hfound] at hrun hfinds
    cases hfinds
    exact .inl ⟨hrun, rfl⟩
  · rw [hfound] at hrun hfinds
    cases hfinds with
    | some hd =>
      have hmem := List.mem_of_find?_eq_some hfound
      exact .inr ⟨d, _, hrun, rfl, exists_rep_of_mem hr.2.2 hmem, hd,
        (size_le_sizeAll hmem).trans hsizes⟩

theorem Part.load_number (h : Part s fuel c v) : ∃ i, loadItem (some c.addr) s = .next (i, s) ∧
    (i.type ≠ 3 ∧ (∀ z q, v ≠ .number z q) ∨ i.type = 3 ∧ ∃ q, v = .number i.valueint q) := by
  rcases c with ⟨a, f, cs⟩
  obtain ⟨prev, next, hr⟩ := h.rep
  refine ⟨_, loadItem_some hr.1, ?_⟩
  have hstands := h.stands
  show f.type ≠ 3 ∧ _ ∨ f.type = 3 ∧ ∃ q, v = .number f.valueint q
  cases hstands with
  | number ht => exact .inr ⟨ht, _, rfl⟩
  | bool b ht => exact .inl ⟨by rw [ht]; cases b <;> decide, by simp⟩
  | null ht => exact .inl ⟨by rw [ht]; decide, by simp⟩
  | string ht => exact .inl ⟨by rw [ht]; decide, by simp⟩
  | array ht => exact .inl ⟨by rw [ht]; decide, by simp⟩
  | object ht => exact .inl ⟨by rw [ht]; decide, by simp⟩

theorem Part.load_string (h : Part s fuel c v) : ∃ i, loadItem (some c.addr) s = .next (i, s) ∧
    (i.type ≠ 4 ∧ (∀ str, v ≠ .string str) ∨
      i.type = 4 ∧ ∃ str, v = .string str ∧ loadText i.valuestring s = .next (str, s)) := by
  rcases c with ⟨a, f, cs⟩
  obtain ⟨prev, next, hr⟩ := h.rep
  refine ⟨_, loadItem_some hr.1, ?_⟩
  have hstands := h.stands
  show f.type ≠ 4 ∧ _ ∨ f.type = 4 ∧ ∃ str, v = .string str ∧
    loadText (f.valuestring.map Prod.fst) s = _
  cases hstands with
  | @string _ y _ str ht hs =>
    have htext : s.blocks y = some (.text str) := hr.2.1 (y, str) (by simp [Fields.texts, hs])
    refine .inr ⟨ht, str, rfl, ?_⟩
    rw [hs]
    exact loadText_some htext
  | bool b ht => exact .inl ⟨by rw [ht]; cases b <;> decide, by simp⟩
  | null ht => exact .inl ⟨by rw [ht]; decide, by simp⟩
  | number ht => exact .inl ⟨by rw [ht]; decide, by simp⟩
  | array ht => exact .inl ⟨by rw [ht]; decide, by simp⟩
  | object ht => exact .inl ⟨by rw [ht]; decide, by simp⟩

/-- Besides what was there before, the memory holds the items of a reply. -/
structure Holding (s₀ s : Heap Block) (fuel : ℕ) (T : Node) : Prop where
  owns : Owns s₀.blocks s [T]
  since : Since s₀ s
  size_le : size T ≤ fuel

theorem Holding.adds (h : Holding s₀ s fuel T) (ha : Adds s t []) : Holding s₀ t fuel T :=
  ⟨h.owns.adds ha, h.since.trans ha.since, h.size_le⟩

/-- **The items are deleted.** -/
theorem Holding.leave (h : Holding s₀ s fuel T) (r : γ) : Leaves s₀ (leave fuel T.addr r) s r := by
  obtain ⟨t, hdelete, ht, ho⟩ := h.owns.delete h.size_le
  exact ⟨t, bind_next hdelete, ho.adds_nil (h.since.trans (Since.of_eq ht))⟩

/-! ### `get_time_parse` -/

/-- What `get_time_parse` gives, from `time_zone` on. -/
def zoneOf (data : CJSON) (bytes : ℕ) (h : Http) : Http × ℕ :=
  match getObjectItem data "time_zone" with
  | none => (h, 0)
  | some (.string valuestring) =>
    ({ h with systemInfo := { h.systemInfo with
      timezone := Int16.ofInt ((atoi valuestring).tdiv 50)
      timeValid := 1 } }, bytes)
  | some _ => (h, bytes)

/-- From `time` on. -/
def timeOf (fpu : Arithmetic) (tm : Lib.Calendar.Fields) (data : CJSON) (bytes : ℕ) (h : Http) :
    Http × ℕ :=
  match getObjectItem data "time" with
  | none => (h, 0)
  | some time =>
    zoneOf data bytes { h with tvSec := clockOf (Tool.CJsonPrint.printValue fpu true 0 time) tm }

/-- From `data` on. -/
def dataOf (fpu : Arithmetic) (tm : Lib.Calendar.Fields) (root : CJSON) (bytes : ℕ) (h : Http) :
    Http × ℕ :=
  match getObjectItem root "data" with
  | none => (h, 0)
  | some data => timeOf fpu tm data bytes h

theorem zoneOf_other {bytes : ℕ} {h : Http} (hw : getObjectItem v "time_zone" = some w)
    (hne : ∀ str, w ≠ .string str) : zoneOf v bytes h = (h, bytes) := by
  unfold zoneOf
  rw [hw]
  rcases w with _ | _ | _ | str | _ | _
  iterate 3 rfl
  · exact absurd rfl (hne str)
  iterate 2 rfl

theorem zonePart_leaves {data : Node} {bytes : ℕ} (hT : Holding s₀ s fuel T)
    (hd : Part s fuel data v) (h : Http) : Leaves s₀ (zonePart fuel T.addr data.addr bytes h) s
    (zoneOf v bytes h) := by
  rcases hd.find "time_zone" with ⟨hfind, hv⟩ | ⟨d, w, hfind, hv, hz⟩
  · have hzone : zoneOf v bytes h = (h, 0) := by rw [zoneOf, hv]
    rw [hzone]
    exact leaves_bind hfind (hT.leave _)
  obtain ⟨i, hload, ⟨htype, hne⟩ | ⟨htype, str, rfl, htext⟩⟩ := hz.load_string
  · rw [zoneOf_other hv hne]
    refine leaves_bind hfind (leaves_bind hload ?_)
    rw [if_neg htype]
    exact hT.leave _
  · rw [zoneOf, hv]
    refine leaves_bind hfind (leaves_bind hload ?_)
    rw [if_pos htype]
    exact leaves_bind htext (hT.leave _)

theorem timePart_leaves {data : Node} {bytes : ℕ} (hp : Plenty s) (hT : Holding s₀ s fuel T)
    (hd : Part s fuel data v) (h : Http) :
    Leaves s₀ (timePart fpu fuel tm T.addr data.addr bytes h) s (timeOf fpu tm v bytes h) := by
  rcases hd.find "time" with ⟨hfind, hv⟩ | ⟨d, w, hfind, hv, htime⟩
  · have htime : timeOf fpu tm v bytes h = (h, 0) := by rw [timeOf, hv]
    rw [htime]
    exact leaves_bind hfind (hT.leave _)
  obtain ⟨prev, next, hr⟩ := htime.rep
  obtain ⟨p, t, hprint, hprinted⟩ := printValue_prints fpu true fuel d w htime.stands
    htime.size_le 0 s prev next hT.owns.ready hr
  have hrun : (cjsonPrint fpu true fuel d.addr).run s = .next (p, t) := hprint
  rw [timeOf, hv]
  refine leaves_bind hfind (leaves_bind hrun ?_)
  cases hprinted with
  | @block p ha =>
    obtain ⟨hfree, ha'⟩ := ha.free
    have hload := loadText_some (ha.held _ List.mem_cons_self)
    exact leaves_bind hload (leaves_bind hfree (zonePart_leaves (hT.adds ha') (hd.adds ha') _))
  | null hfailed _ => exact absurd hp hfailed.not_plenty

theorem dataPart_leaves {bytes : ℕ} (hp : Plenty s) (hT : Holding s₀ s fuel T)
    (hv : Part s fuel T v) (h : Http) : Leaves s₀ (dataPart fpu fuel tm T.addr bytes h) s
    (dataOf fpu tm v bytes h) := by
  rcases hv.find "data" with ⟨hfind, hnone⟩ | ⟨d, w, hfind, hsome, hd⟩
  · have hdata : dataOf fpu tm v bytes h = (h, 0) := by rw [dataOf, hnone]
    rw [hdata]
    exact leaves_bind hfind (hT.leave _)
  · rw [dataOf, hsome]
    exact leaves_bind hfind (timePart_leaves hp hT hd h)

/-- The parser stays in the text of a piece, and the loops end. -/
structure Fits (fpu : Arithmetic) (stack fuel : ℕ) (behind : List UInt8 → List UInt8)
    (piece : List UInt8) : Prop
  where
  sound : Sound (Tool.CJsonParse.cjsonParse fpu stack (upToZero (piece ++ behind piece)))
  length_lt : (upToZero (piece ++ behind piece)).length + 1 ≤ fuel

instance (piece : List UInt8) : Decidable (Fits fpu stack fuel behind piece) :=
  decidable_of_iff (Sound (Tool.CJsonParse.cjsonParse fpu stack
    (upToZero (piece ++ behind piece))) ∧
    (upToZero (piece ++ behind piece)).length + 1 ≤ fuel)
      ⟨fun h => ⟨h.1, h.2⟩, fun h => ⟨h.sound, h.length_lt⟩⟩

/-- **`cJSON_Parse` of a piece**, in memory and as a value. -/
theorem piece_cases {piece : List UInt8} (hs : Ready s) (hfit : Fits fpu stack fuel behind piece)
    (tm : Lib.Calendar.Fields) :
    (∃ t, (cjsonParse fpu stack fuel (upToZero (piece ++ behind piece))).run s = .next (none, t) ∧
        (Plenty s → (program fpu stack behind tm).cjsonParse piece = none) ∧ Adds s t []) ∨
      ∃ T v r t, (cjsonParse fpu stack fuel (upToZero (piece ++ behind piece))).run s =
          .next (some (T.addr, r), t) ∧ (program fpu stack behind tm).cjsonParse piece = some v ∧
        Holding s t fuel T ∧ Part t fuel T v := by
  have hsound : Sound (Tool.CJsonParse.cjsonParseWithOpts fpu stack false
      (upToZero (piece ++ behind piece))) :=
    hfit.sound
  obtain ⟨p, t, hrun, hsince, hread⟩ := parse_spec fpu false hs hsound hfit.length_lt
  cases hread with
  | null hx ho =>
    refine .inl ⟨t, hrun, fun hp => ?_, ho.adds_nil hsince⟩
    have hnot : ∀ v r, Tool.CJsonParse.cjsonParse fpu stack
        (upToZero (piece ++ behind piece)) ≠ .ok v r :=
      hx fun h => h.not_plenty hp
    unfold program
    dsimp only
    rcases hparse : Tool.CJsonParse.cjsonParse fpu stack (upToZero (piece ++ behind piece))
      with ⟨v, r⟩ | _ | _ | _
    · exact absurd hparse (hnot v r)
    iterate 3 rfl
  | @ok T v r hx hT ho hsize =>
    have hle : size T ≤ fuel := hsize.trans (Nat.le_of_succ_le hfit.length_lt)
    refine .inr ⟨T, v, r, t, hrun, ?_, ⟨ho, hsince, hle⟩, ⟨none, none, ho.rep T List.mem_cons_self⟩,
      hT, hle⟩
    have hparse : Tool.CJsonParse.cjsonParse fpu stack
      (upToZero (piece ++ behind piece)) = .ok v r := hx
    unfold program
    dsimp only
    rw [hparse]

theorem cjsonPrint_program (w : CJSON) :
      Tool.CJson.cjsonPrint (Tool.CJsonPrint.printValue fpu true 0) w =
    Tool.CJsonPrint.printValue fpu true 0 w := by
  rcases w with _ | _ | _ | _ | _ | _
  iterate 6 rfl

/-- The rest of the reply, if it has no errors. -/
theorem getTimeParse_zero {piece : List UInt8} {q : ℚ} {h : Http}
    (hparse : (program fpu stack behind tm).cjsonParse piece = some v)
    (herrno : getObjectItem v "errno" = some (.number 0 q)) :
    HttpProtocol.getTimeParse (program fpu stack behind tm) h piece =
    dataOf fpu tm v piece.length h := by
  unfold HttpProtocol.getTimeParse dataOf timeOf
  rw [hparse]
  dsimp only
  rw [herrno]
  dsimp only
  rw [if_pos rfl]
  rcases getObjectItem v "data" with _ | data
  · rfl
  dsimp only
  rcases getObjectItem data "time" with _ | time
  · rfl
  dsimp only [program]
  rw [cjsonPrint_program]
  rfl

theorem getTimeParse_other {piece : List UInt8} {h : Http}
    (hparse : (program fpu stack behind tm).cjsonParse piece = some v)
    (herrno : getObjectItem v "errno" = some w) (hw : ∀ q, w ≠ .number 0 q) :
    HttpProtocol.getTimeParse (program fpu stack behind tm) h piece = (h, piece.length) := by
  unfold HttpProtocol.getTimeParse
  rw [hparse]
  dsimp only
  rw [herrno]
  rcases w with _ | _ | ⟨z, q⟩ | _ | _ | _
  iterate 2 rfl
  · refine if_neg ?_
    rintro rfl
    exact hw q rfl
  iterate 3 rfl

/-- **`get_time_parse`** does in memory what it does with values, and leaves nothing behind. -/
theorem getTimeParse_leaves {piece : List UInt8} (hs : Ready s) (hp : Plenty s)
    (hfit : Fits fpu stack fuel behind piece) (h : Http) :
    Leaves s (getTimeParse fpu stack fuel behind tm h piece) s
      (HttpProtocol.getTimeParse (program fpu stack behind tm) h piece) := by
  rcases piece_cases hs hfit tm with ⟨t, hrun, hparse, ha⟩ | ⟨T, v, r, t, hrun, hparse, hT, hv⟩
  · have hnone : HttpProtocol.getTimeParse (program fpu stack behind tm) h piece = (h, 0) := by
      rw [HttpProtocol.getTimeParse, hparse hp]
    rw [hnone]
    exact leaves_bind hrun (leaves_pure ha _)
  have hpt : Plenty t := hT.since.plenty hp
  rcases hv.find "errno" with ⟨hfind, hnone⟩ | ⟨d, w, hfind, hsome, hd⟩
  · have herrno : HttpProtocol.getTimeParse (program fpu stack behind tm) h piece = (h, 0) := by
      unfold HttpProtocol.getTimeParse
      rw [hparse]
      dsimp only
      rw [hnone]
    rw [herrno]
    exact leaves_bind hrun (leaves_bind hfind (hT.leave _))
  obtain ⟨i, hload, hi⟩ := hd.load_number
  refine leaves_bind hrun (leaves_bind hfind (leaves_bind hload ?_))
  by_cases hzero : i.type = 3 ∧ i.valueint = 0
  · obtain ⟨q, rfl⟩ : ∃ q, w = .number i.valueint q := by
      rcases hi with ⟨htype, -⟩ | ⟨-, hq⟩
      · exact absurd hzero.1 htype
      · exact hq
    rw [hzero.2] at hsome
    rw [if_pos hzero, getTimeParse_zero hparse hsome]
    exact dataPart_leaves hpt hT hv h
  · have hw : ∀ q, w ≠ .number 0 q := by
      rintro q rfl
      rcases hi with ⟨-, hne⟩ | ⟨htype, q', hq⟩
      · exact hne 0 q rfl
      · exact hzero ⟨htype, (CJSON.number.inj hq).1.symm⟩
    rw [if_neg hzero, getTimeParse_other hparse hsome hw]
    exact hT.leave _

/-! ### `post_record_parse` -/

theorem postRecordParse_other {piece : List UInt8} {ntfs : List UartSendInfo}
    (hparse : (program fpu stack behind tm).cjsonParse piece = some v)
    (herrno : getObjectItem v "errno" = some w) (hw : ∀ z q, w ≠ .number z q) :
    HttpProtocol.postRecordParse (program fpu stack behind tm) ntfs piece =
    (ntfs, piece.length) := by
  unfold HttpProtocol.postRecordParse
  rw [hparse]
  dsimp only
  rw [herrno]
  rcases w with _ | _ | ⟨z, q⟩ | _ | _ | _
  iterate 2 rfl
  · exact absurd rfl (hw z q)
  iterate 3 rfl

/-- **`post_record_parse`** does, too; if an allocation fails, it may take nothing of the piece. -/
theorem postRecordParse_cases {piece : List UInt8} (hs : Ready s)
    (hfit : Fits fpu stack fuel behind piece) (tm : Lib.Calendar.Fields)
    (ntfs : List UartSendInfo) : Leaves s (postRecordParse fpu stack fuel behind ntfs piece) s
        (HttpProtocol.postRecordParse (program fpu stack behind tm) ntfs piece) ∨
      ¬ Plenty s ∧ Leaves s (postRecordParse fpu stack fuel behind ntfs piece) s (ntfs, 0) := by
  rcases piece_cases hs hfit tm with ⟨t, hrun, hparse, ha⟩ | ⟨T, v, r, t, hrun, hparse, hT, hv⟩
  · by_cases hp : Plenty s
    · have hnone : HttpProtocol.postRecordParse (program fpu stack behind tm) ntfs piece =
          (ntfs, 0) := by
        rw [HttpProtocol.postRecordParse, hparse hp]
      rw [hnone]
      exact .inl (leaves_bind hrun (leaves_pure ha _))
    · exact .inr ⟨hp, leaves_bind hrun (leaves_pure ha _)⟩
  left
  rcases hv.find "errno" with ⟨hfind, hnone⟩ | ⟨d, w, hfind, hsome, hd⟩
  · have herrno : HttpProtocol.postRecordParse (program fpu stack behind tm) ntfs piece =
        (ntfs, 0) := by
      unfold HttpProtocol.postRecordParse
      rw [hparse]
      dsimp only
      rw [hnone]
    rw [herrno]
    exact leaves_bind hrun (leaves_bind hfind (hT.leave _))
  obtain ⟨i, hload, ⟨htype, hne⟩ | ⟨htype, q, rfl⟩⟩ := hd.load_number
  · refine leaves_bind hrun (leaves_bind hfind (leaves_bind hload ?_))
    rw [postRecordParse_other hparse hsome hne]
    dsimp only
    rw [if_neg htype]
    exact hT.leave _
  · have hnumber : HttpProtocol.postRecordParse (program fpu stack behind tm) ntfs piece =
        (ntfs ++ [httpUpDataNtf i.valueint.toInt8.toUInt8], piece.length) := by
      unfold HttpProtocol.postRecordParse
      rw [hparse]
      dsimp only
      rw [hsome]
    refine leaves_bind hrun (leaves_bind hfind (leaves_bind hload ?_))
    rw [hnumber]
    dsimp only
    rw [if_pos htype]
    exact hT.leave _

/-! ### The transfers, in memory -/

section Transfers

variable {σ : Type} {callback : σ → List UInt8 → σ × ℕ}
    {callbackM : σ → List UInt8 → Mem Block (σ × ℕ)}

/-- **A transfer** does in memory what it does, if its callback does for the pieces. -/
theorem transferM_leaves : ∀ (chunks : List (List UInt8)) (result : ℕ) (x : σ) (t : Heap Block),
    (∀ x, ∀ chunk ∈ chunks, ∀ t, Adds s t [] → Leaves t (callbackM x chunk) t (callback x chunk)) →
    Adds s t [] → Leaves s (transferM callbackM x chunks result) t
      (transfer callback x chunks result)
  | [], result, x, t, _, ha => leaves_pure ha _
  | chunk :: chunks, result, x, t, h, ha => by
    obtain ⟨u, hrun, hu⟩ := h x chunk List.mem_cons_self t ha
    have ha' : Adds s u [] := ha.trans hu
    rw [transfer]
    refine leaves_bind hrun ?_
    dsimp only
    by_cases htaken : (callback x chunk).2 = chunk.length
    · rw [if_pos htaken, if_pos htaken]
      exact transferM_leaves chunks result _ u (fun x c hc => h x c (List.mem_cons_of_mem _ hc)) ha'
    · rw [if_neg htaken, if_neg htaken]
      exact leaves_pure ha' _

end Transfers

/-- All the pieces of a transfer fit. -/
def AllFit (fpu : Arithmetic) (stack fuel : ℕ) (behind : List UInt8 → List UInt8) (a : Attempt) :
    Prop :=
  ∀ piece ∈ a.chunks, Fits fpu stack fuel behind piece

theorem getTimeParse_performM {a : Attempt} (hp : Plenty s) (hfit : AllFit fpu stack fuel behind a)
    (tm : Lib.Calendar.Fields) (ha : Adds s t []) (h : Http) :
    Leaves s (a.performM (getTimeParse fpu stack fuel behind tm) h) t
      (a.perform (HttpProtocol.getTimeParse (program fpu stack behind tm)) h) :=
  transferM_leaves a.chunks a.result h t (fun h piece hpiece _ hu =>
    getTimeParse_leaves hu.ready (hu.since.plenty hp) (hfit piece hpiece) h) ha

theorem postRecordParse_performM {a : Attempt} (hp : Plenty s)
    (hfit : AllFit fpu stack fuel behind a) (tm : Lib.Calendar.Fields) (ha : Adds s t [])
    (ntfs : List UartSendInfo) :
    Leaves s (a.performM (postRecordParse fpu stack fuel behind) ntfs) t
      (a.perform (HttpProtocol.postRecordParse (program fpu stack behind tm)) ntfs) :=
  transferM_leaves a.chunks a.result ntfs t (fun ntfs piece hpiece _ hu =>
    (postRecordParse_cases hu.ready (hfit piece hpiece) tm ntfs).resolve_right fun h =>
      h.1 (hu.since.plenty hp)) ha

/-- **`get_time_Url`**, in memory. -/
theorem getTimeUrl_leaves (hs : Ready s) (hp : Plenty s) {curl : Option Attempt}
    (hfit : ∀ a ∈ curl, AllFit fpu stack fuel behind a) (tm : Lib.Calendar.Fields) (h : Http) :
    Leaves s (getTimeUrl fpu stack fuel behind tm curl h) s
      (HttpProtocol.getTimeUrl (program fpu stack behind tm) curl h) := by
  rcases curl with _ | a
  · exact leaves_pure (adds_nil hs) _
  obtain ⟨t, hrun, ha⟩ := getTimeParse_performM hp (hfit a rfl) tm (adds_nil hs) h
  unfold HttpProtocol.getTimeUrl
  refine leaves_bind hrun ?_
  dsimp only
  split_ifs
  · exact leaves_pure ha _
  · exact leaves_pure ha _
  · exact leaves_pure ha _

/-- The result of the attempts, as values. -/
def attemptsOf (o : Outside) (a₁ a₂ a₃ : Attempt) (h : Http) : Http × List UartSendInfo × ℕ :=
  let r₁ := a₁.perform (HttpProtocol.postRecordParse o) []
  if r₁.2 ≠ 0 then
    let r₂ := a₂.perform (HttpProtocol.postRecordParse o) r₁.1
    if r₂.2 ≠ 0 then (h.setErr 1, a₃.perform (HttpProtocol.postRecordParse o) r₂.1) else (h, r₂)
  else (h, r₁)

theorem attempts_leaves {p : Option ℕ} {posted : Option (List UInt8)} {a₁ a₂ a₃ : Attempt}
    (hs : Ready s) (hp : Plenty s) (htext : ∀ t, Adds s t [] → textAt p t = .next (posted, t))
    (h₁ : AllFit fpu stack fuel behind a₁) (h₂ : AllFit fpu stack fuel behind a₂)
    (h₃ : AllFit fpu stack fuel behind a₃) (tm : Lib.Calendar.Fields) (h : Http) :
    Leaves s (attempts fpu stack fuel behind p a₁ a₂ a₃ h) s
      (attemptsOf (program fpu stack behind tm) a₁ a₂ a₃ h) := by
  obtain ⟨t₁, hrun₁, ht₁⟩ := postRecordParse_performM hp h₁ tm (adds_nil hs) []
  unfold attempts attemptsOf
  refine leaves_bind (htext s (adds_nil hs)) (leaves_bind hrun₁ ?_)
  dsimp only
  by_cases hok₁ : (a₁.perform (HttpProtocol.postRecordParse (program fpu stack behind tm)) []).2 ≠ 0
  · rw [if_pos hok₁, if_pos hok₁]
    obtain ⟨t₂, hrun₂, ht₂⟩ := postRecordParse_performM hp h₂ tm ht₁
      (a₁.perform (HttpProtocol.postRecordParse (program fpu stack behind tm)) []).1
    refine leaves_bind (htext t₁ ht₁) (leaves_bind hrun₂ ?_)
    split_ifs
    · obtain ⟨t₃, hrun₃, ht₃⟩ := postRecordParse_performM hp h₃ tm ht₂ _
      exact leaves_bind (htext t₂ ht₂) (leaves_bind hrun₃ (leaves_pure ht₃ _))
    · exact leaves_pure ht₂ _
  · rw [if_neg hok₁, if_neg hok₁]
    exact leaves_pure ht₁ _

theorem postRecordUrl_some (o : Outside) (a₁ a₂ a₃ : Attempt) (h : Http) :
    HttpProtocol.postRecordUrl o (some (a₁, a₂, a₃)) h =
      if (attemptsOf o a₁ a₂ a₃ h).2.2 = 0 then
        ((attemptsOf o a₁ a₂ a₃ h).1.setErr 0, (attemptsOf o a₁ a₂ a₃ h).2.1)
      else ((attemptsOf o a₁ a₂ a₃ h).1, (attemptsOf o a₁ a₂ a₃ h).2.1 ++ [httpUpDataNtf 2]) := by
  rfl

/-- The transfers of an upload, if there are any. -/
def tries (curl : Option (Attempt × Attempt × Attempt)) : List Attempt :=
  curl.toList.flatMap fun a => [a.1, a.2.1, a.2.2]

/-- **`post_record_Url`**, in memory: the text is there until it is freed. -/
theorem postRecordUrl_leaves {text : List UInt8} {p : ℕ} (ht : Adds s t [(p, .text text)])
    (hp : Plenty s) {curl : Option (Attempt × Attempt × Attempt)}
    (hfit : ∀ a ∈ tries curl, AllFit fpu stack fuel behind a)
    (tm : Lib.Calendar.Fields) (h : Http) :
    Leaves s (postRecordUrl fpu stack fuel behind curl h (some p)) t
      ((HttpProtocol.postRecordUrl (program fpu stack behind tm) curl h).1,
        (HttpProtocol.postRecordUrl (program fpu stack behind tm) curl h).2,
          curl.map fun _ => text) := by
  rcases curl with _ | ⟨a₁, a₂, a₃⟩
  · obtain ⟨hfree, hs⟩ := ht.free
    exact leaves_bind hfree (leaves_pure hs _)
  have htext : ∀ u, Adds t u [] → textAt (some p) u = .next (some text, u) := fun u hu =>
    bind_next (loadText_some ((ht.trans hu).held _ List.mem_cons_self))
  obtain ⟨u, hrun, hu⟩ := attempts_leaves ht.ready (ht.since.plenty hp) htext
    (hfit a₁ (by simp [tries])) (hfit a₂ (by simp [tries])) (hfit a₃ (by simp [tries])) tm h
  obtain ⟨hfree, hs⟩ := (ht.trans hu).free
  rw [postRecordUrl_some]
  refine leaves_bind (htext t (adds_nil ht.ready)) (leaves_bind hrun (leaves_bind hfree ?_))
  split_ifs
  · exact leaves_pure hs _
  · exact leaves_pure hs _

/-! ### An upload in want of memory -/

section Failing

variable {a : Attempt} {ntfs ntfs' : List UartSendInfo}

theorem le_transfer (o : Outside) (result : ℕ) : ∀ (chunks : List (List UInt8))
    (ntfs : List UartSendInfo),
    ntfs.Sublist (transfer (HttpProtocol.postRecordParse o) ntfs chunks result).1
  | [], ntfs => List.Sublist.refl ntfs
  | chunk :: chunks, ntfs => by
    rw [transfer, postRecordParse_eq]
    dsimp only
    by_cases htaken : (if (errnoOf o chunk).isSome then chunk.length else 0) = chunk.length
    · rw [if_pos htaken]
      exact (List.sublist_append_left _ _).trans (le_transfer o result chunks _)
    · rw [if_neg htaken]
      exact List.sublist_append_left _ _

/-- **A transfer, whichever allocations fail**: a piece that cannot be parsed is as if the server
had not said it. -/
theorem transferM_failing (tm : Lib.Calendar.Fields) : ∀ (chunks : List (List UInt8)) (result : ℕ)
    (ntfs ntfs' : List UartSendInfo) (t : Heap Block), Adds s t [] → ntfs.Sublist ntfs' →
    (∀ chunk ∈ chunks, Fits fpu stack fuel behind chunk) →
    ∃ r, Leaves s (transferM (postRecordParse fpu stack fuel behind) ntfs chunks result) t r ∧
      r.1.Sublist
      (transfer (HttpProtocol.postRecordParse (program fpu stack behind tm)) ntfs' chunks result).1
  | [], result, ntfs, ntfs', t, ha, hle, _ => ⟨(ntfs, result), leaves_pure ha _, hle⟩
  | chunk :: chunks, result, ntfs, ntfs', t, ha, hle, hfit => by
    have hrest : ∀ c ∈ chunks, Fits fpu stack fuel behind c :=
      fun c hc => hfit c (List.mem_cons_of_mem _ hc)
    have hmore := le_transfer (program fpu stack behind tm) result (chunk :: chunks) ntfs'
    rcases postRecordParse_cases ha.ready (hfit chunk List.mem_cons_self) tm ntfs with
      ⟨u, hrun, hu⟩ | ⟨-, u, hrun, hu⟩
    · have ha' : Adds s u [] := ha.trans hu
      rw [postRecordParse_eq] at hrun
      rw [transfer, postRecordParse_eq]
      dsimp only
      by_cases htaken : (if (errnoOf (program fpu stack behind tm) chunk).isSome then
        chunk.length else 0) =
          chunk.length
      · obtain ⟨r, hr, hsub⟩ := transferM_failing tm chunks result _ _ u ha'
          (hle.append_right _) hrest
        refine ⟨r, leaves_bind hrun ?_, ?_⟩
        · rw [if_pos htaken]
          exact hr
        · rw [if_pos htaken]
          exact hsub
      · refine ⟨(ntfs ++ ((numericErrno (program fpu stack behind tm) chunk).map resultNtf).toList,
          writeError),
          leaves_bind hrun ?_, ?_⟩
        · rw [if_neg htaken]
          exact leaves_pure ha' _
        · rw [if_neg htaken]
          exact hle.append_right _
    · have ha' : Adds s u [] := ha.trans hu
      by_cases hempty : 0 = chunk.length
      · have htaken : (if (errnoOf (program fpu stack behind tm) chunk).isSome then
          chunk.length else 0) =
            chunk.length := by split_ifs <;> omega
        obtain ⟨r, hr, hsub⟩ := transferM_failing tm chunks result ntfs _ u ha'
          (hle.trans (List.sublist_append_left ntfs' _)) hrest
        refine ⟨r, leaves_bind hrun ?_, ?_⟩
        · rw [if_pos hempty]
          exact hr
        · rw [transfer, postRecordParse_eq]
          dsimp only
          rw [if_pos htaken]
          exact hsub
      · refine ⟨(ntfs, writeError), leaves_bind hrun ?_, hle.trans hmore⟩
        rw [if_neg hempty]
        exact leaves_pure ha' _

theorem performM_failing (hfit : AllFit fpu stack fuel behind a) (tm : Lib.Calendar.Fields)
    (ha : Adds s t []) (hle : ntfs.Sublist ntfs') :
    ∃ r, Leaves s (a.performM (postRecordParse fpu stack fuel behind) ntfs) t r ∧
      r.1.Sublist (ntfs' ++ (replies (program fpu stack behind tm) a).map resultNtf) := by
  obtain ⟨r, hr, hsub⟩ := transferM_failing tm a.chunks a.result ntfs ntfs' t ha hle hfit
  refine ⟨r, hr, ?_⟩
  rw [← UploadResult.perform_ntfs]
  exact hsub

end Failing

theorem attempts_failing {p : Option ℕ} {posted : Option (List UInt8)} {a₁ a₂ a₃ : Attempt}
    (hs : Ready s) (htext : ∀ t, Adds s t [] → textAt p t = .next (posted, t))
    (h₁ : AllFit fpu stack fuel behind a₁) (h₂ : AllFit fpu stack fuel behind a₂)
    (h₃ : AllFit fpu stack fuel behind a₃) (tm : Lib.Calendar.Fields) (h : Http) :
    ∃ r, Leaves s (attempts fpu stack fuel behind p a₁ a₂ a₃ h) s r ∧
      r.2.1.Sublist (([a₁, a₂, a₃].flatMap (replies (program fpu stack behind tm))).map
        resultNtf) := by
  have hall : ([a₁, a₂, a₃].flatMap (replies (program fpu stack behind tm))).map resultNtf =
      ([] ++ (replies (program fpu stack behind tm) a₁).map resultNtf ++
        (replies (program fpu stack behind tm) a₂).map resultNtf) ++
        (replies (program fpu stack behind tm) a₃).map resultNtf := by simp
  rw [hall]
  obtain ⟨r₁, ⟨t₁, hrun₁, ht₁⟩, hsub₁⟩ := performM_failing h₁ tm (adds_nil hs)
    (List.Sublist.refl [])
  obtain ⟨r₂, ⟨t₂, hrun₂, ht₂⟩, hsub₂⟩ := performM_failing h₂ tm ht₁ hsub₁
  obtain ⟨r₃, ⟨t₃, hrun₃, ht₃⟩, hsub₃⟩ := performM_failing h₃ tm ht₂ hsub₂
  unfold attempts
  by_cases hok₁ : r₁.2 ≠ 0
  · by_cases hok₂ : r₂.2 ≠ 0
    · refine ⟨(h.setErr 1, r₃), leaves_bind (htext s (adds_nil hs)) (leaves_bind hrun₁ ?_), hsub₃⟩
      rw [if_pos hok₁]
      refine leaves_bind (htext t₁ ht₁) (leaves_bind hrun₂ ?_)
      rw [if_pos hok₂]
      exact leaves_bind (htext t₂ ht₂) (leaves_bind hrun₃ (leaves_pure ht₃ _))
    · refine ⟨(h, r₂), leaves_bind (htext s (adds_nil hs)) (leaves_bind hrun₁ ?_),
        hsub₂.trans (List.sublist_append_left _ _)⟩
      rw [if_pos hok₁]
      refine leaves_bind (htext t₁ ht₁) (leaves_bind hrun₂ ?_)
      rw [if_neg hok₂]
      exact leaves_pure ht₂ _
  · refine ⟨(h, r₁), leaves_bind (htext s (adds_nil hs)) (leaves_bind hrun₁ ?_),
      (hsub₁.trans (List.sublist_append_left _ _)).trans (List.sublist_append_left _ _)⟩
    rw [if_neg hok₁]
    exact leaves_pure ht₁ _

/-- A reply to an upload. -/
def recordReply : List UInt8 := ascii "\x7b\"errno\":0\x7d"

/-- Its first attempt comes cut, the second one whole. -/
def cutOnce : Attempt × Attempt × Attempt :=
  (⟨[recordReply.take 5, recordReply.drop 5], 0⟩, ⟨[recordReply], 0⟩, ⟨[], 0⟩)

/-- A heap with one block in use; the fourth allocation will fail. -/
def shortOfMemory : Heap Block :=
  { oneBlock with supply := ⟨fun i => if i = 3 then none else some (i + 101), 0⟩ }

theorem ready_shortOfMemory : Ready shortOfMemory where
  once := by
    intro i j a hi hj
    simp only [shortOfMemory, Option.ite_none_left_eq_some, Option.some.injEq] at hi hj
    omega
  unused := by
    intro i a hi
    simp only [shortOfMemory, Option.ite_none_left_eq_some, Option.some.injEq] at hi
    exact if_neg (by omega)

/-- A heartbeat or an upload, with what the transport does. -/
inductive Request where
  | heartbeat (curl : Option Attempt)
  | upload (r : Record) (curl : Option (Attempt × Attempt × Attempt))

def Request.attempts : Request → List Attempt
  | .heartbeat curl => curl.toList
  | .upload _ curl => tries curl

/-- The variables, the notifications, and the texts that were posted. -/
structure Account where
  http : Http
  ntfs : List UartSendInfo
  posted : List (List UInt8)

/-- What a request does to them. -/
def Request.account (fpu : Arithmetic) (o : Outside) (x : Account) : Request → Account
  | .heartbeat curl => { x with http := (HttpProtocol.getTimeUrl o curl x.http).1 }
  | .upload r curl =>
    { http := (HttpProtocol.postRecordUrl o curl x.http).1
      ntfs := x.ntfs ++ (HttpProtocol.postRecordUrl o curl x.http).2
      posted := x.posted ++ (curl.map fun _ => PostedText.rendered fpu r).toList }

section Program

variable (fpu : Arithmetic) (stack fuel : ℕ) (behind : List UInt8 → List UInt8)
    (tm : Lib.Calendar.Fields)

/-- `cJSON_Print(root)` and `cJSON_Delete(root)`; both take `NULL`. -/
def renderRoot : Option ℕ → Mem Block (Option ℕ)
  | none => return none
  | some root => render fuel fpu root

/-- What a request does, in memory. -/
def Request.run (x : Account) : Request → Mem Block Account
  | .heartbeat curl => do
    let r ← getTimeUrl fpu stack fuel behind tm curl x.http
    return { x with http := r.1 }
  | .upload r curl => do
    let root ← httpUpDataRoot fuel r
    let rendered ← renderRoot fpu fuel root
    let u ← postRecordUrl fpu stack fuel behind curl x.http rendered
    return ⟨u.1, x.ntfs ++ u.2.1, x.posted ++ u.2.2.toList⟩

end Program

theorem Request.run_leaves (hs : Ready s) (hp : Plenty s) (hfuel : 11 ≤ fuel) {q : Request}
    (hfit : ∀ a ∈ q.attempts, AllFit fpu stack fuel behind a) (tm : Lib.Calendar.Fields)
    (x : Account) : Leaves s (q.run fpu stack fuel behind tm x) s
    (q.account fpu (program fpu stack behind tm) x) := by
  rcases q with curl | ⟨r, curl⟩
  · obtain ⟨t, hrun, ht⟩ := getTimeUrl_leaves hs hp
      (fun a ha => hfit a (Option.mem_toList.mpr ha)) tm x.http
    exact leaves_bind hrun (leaves_pure ht _)
  obtain ⟨s₁, T, hroot, hT, hsize, hs₁, ho⟩ := root_spec (owns_nil hs) (fun i _ => hp i)
    (show 6 ≤ fuel by omega) r
  obtain ⟨p, t, hrender, hprinted⟩ := render_spec fpu ho ⟨25, hs₁⟩ hT (hsize ▸ hfuel)
  cases hprinted with
  | @block p ht =>
    obtain ⟨u, hrun, hu⟩ := postRecordUrl_leaves ht hp hfit tm x.http
    exact leaves_bind hroot (leaves_bind hrender (leaves_bind hrun (leaves_pure hu _)))
  | null hfailed _ => exact absurd hp hfailed.not_plenty

theorem run_requests (hp : Plenty s) (hfuel : 11 ≤ fuel) (tm : Lib.Calendar.Fields) :
    ∀ (qs : List Request) (x : Account) (t : Heap Block), Adds s t [] →
      (∀ q ∈ qs, ∀ a ∈ q.attempts, AllFit fpu stack fuel behind a) →
      Leaves s (qs.foldlM (fun x q => q.run fpu stack fuel behind tm x) x) t
        (qs.foldl (fun x q => q.account fpu (program fpu stack behind tm) x) x)
  | [], x, t, ht, _ => leaves_pure ht x
  | q :: qs, x, t, ht, hfit => by
    obtain ⟨u, hrun, hu⟩ := q.run_leaves ht.ready (ht.since.plenty hp) hfuel
      (hfit q List.mem_cons_self) tm x
    rw [List.foldlM_cons]
    exact leaves_bind hrun (run_requests hp hfuel tm qs _ u (ht.trans hu)
      fun q hq => hfit q (List.mem_cons_of_mem _ hq))

/-- **The exchanges with the server leave no memory behind.** In any run of heartbeats and uploads,
whatever the replies say, as long as the parser stays in their texts and memory is to be had: no
pointer that is followed is `NULL` or was freed, nothing is freed twice; the variables, the
notifications and the texts that are posted are those of the model on values, and in the end the
memory holds what it held before. -/
theorem exchanges_memory (hs : Ready s) (hp : Plenty s) (hfuel : 11 ≤ fuel)
    (tm : Lib.Calendar.Fields) (qs : List Request)
    (hfit : ∀ q ∈ qs, ∀ a ∈ q.attempts, ∀ piece ∈ a.chunks, Fits fpu stack fuel behind piece)
    (x : Account) : ∃ t, qs.foldlM (fun x q => q.run fpu stack fuel behind tm x) x s =
        .next (qs.foldl (fun x q => q.account fpu (program fpu stack behind tm) x) x, t) ∧
      t.blocks = s.blocks := by
  obtain ⟨t, hrun, ht⟩ := run_requests hp hfuel tm qs x s (adds_nil hs) hfit
  exact ⟨t, hrun, ht.blocks_eq⟩

/-- A reply to a heartbeat. -/
def timeReply : List UInt8 :=
  ascii "\x7b\"errno\":0,\"data\":\x7b\"time\":\"2017-06-20 10:20:30.000\",\"time_zone\":\"800\"\x7d\x7d"

/-- A heartbeat and an upload. -/
def someRequests : List Request :=
  [.heartbeat (some ⟨[timeReply], 0⟩), .upload someRecord (some cutOnce)]

def someAccount : Account := ⟨UploadResult.httpInit, [], []⟩

/-- The theorem applied to them. -/
theorem exchanges_memory_two : ∃ t,
    someRequests.foldlM (fun x q => q.run binary64 9 100 (fun _ => []) ⟨0, 0, 0, 0, 0, 0⟩ x)
      someAccount oneBlock =
      .next (someRequests.foldl (fun x q =>
        q.account binary64 (program binary64 9 (fun _ => []) ⟨0, 0, 0, 0, 0, 0⟩) x) someAccount,
          t) ∧
    t.blocks = oneBlock.blocks := by
  have hfit : ∀ q ∈ someRequests, ∀ a ∈ q.attempts, ∀ piece ∈ a.chunks,
      Fits binary64 9 100 (fun _ => []) piece := by decide +kernel
  exact exchanges_memory ready_oneBlock (fun _ => rfl) (by decide) _ someRequests hfit someAccount

end MultiPortConvertor.Net.ReplyMemory
