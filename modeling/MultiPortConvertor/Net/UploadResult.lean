import MultiPortConvertor.Net.HttpProtocol

/-! # What the host is told of an upload

`post_record_parse` notifies the host of every piece with a numeric `errno`, in whichever attempt it
comes, and `post_record_Url` once more if the last attempt fails. So the host is told exactly once
only if the server's replies are cut into pieces in the right way (`one_result_iff`), and what it is
told is the errno modulo 256 (`zero_result_iff`). -/

namespace MultiPortConvertor.Net.UploadResult

open MultiPortConvertor.Lib.Bytes MultiPortConvertor.Lib.CString MultiPortConvertor.Lib.Scanf
open MultiPortConvertor.Lib.Transfers
open MultiPortConvertor.Tool.CJson MultiPortConvertor.App.System
open MultiPortConvertor.Uart.Dispose MultiPortConvertor.Net.HttpProtocol

/-! ### The pieces of a reply -/

/-- The `errno` of a piece. -/
def errnoOf (o : Outside) (chunk : List UInt8) : Option CJSON :=
  (o.cjsonParse chunk).bind fun root => getObjectItem root "errno"

/-- `post_record_parse` takes a piece with an `errno`, and one that is empty. -/
def takes (o : Outside) (chunk : List UInt8) : Bool := (errnoOf o chunk).isSome || chunk.isEmpty

/-- A numeric `errno`: `valueint` and `valuedouble`. -/
def numericErrno (o : Outside) (chunk : List UInt8) : Option (Int32 × ℚ) :=
  match errnoOf o chunk with
  | some (.number valueint valuedouble) => some (valueint, valuedouble)
  | _ => none

/-- The numeric errnos among the pieces of an attempt that reach `post_record_parse`. -/
def replies (o : Outside) (a : Attempt) : List (Int32 × ℚ) :=
  (passed (takes o) a.chunks).filterMap (numericErrno o)

/-- The notification of a reply. -/
def resultNtf (r : Int32 × ℚ) : UartSendInfo := httpUpDataNtf r.1.toInt8.toUInt8

theorem postRecordParse_eq (o : Outside) (ntfs : List UartSendInfo) (chunk : List UInt8) :
    postRecordParse o ntfs chunk = (ntfs ++ ((numericErrno o chunk).map resultNtf).toList,
      if (errnoOf o chunk).isSome then chunk.length else 0) := by
  unfold postRecordParse numericErrno errnoOf
  cases o.cjsonParse chunk with
  | none => simp
  | some root =>
    dsimp only [Option.bind_some]
    obtain ⟨item, hitem⟩ : ∃ item, getObjectItem root "errno" = item := ⟨_, rfl⟩
    rcases item with _ | item
    · simp [hitem]
    · cases item <;> simp [hitem, resultNtf]

theorem postRecordParse_takes (o : Outside) (ntfs : List UartSendInfo) (chunk : List UInt8) :
    (postRecordParse o ntfs chunk).2 = chunk.length ↔ takes o chunk = true := by
  rw [postRecordParse_eq]
  unfold takes
  cases errnoOf o chunk with
  | none => cases chunk <;> simp
  | some item => simp

/-- An attempt adds the notifications of its replies. -/
theorem perform_ntfs (o : Outside) (a : Attempt) (ntfs : List UartSendInfo) :
    (a.perform (postRecordParse o) ntfs).1 = ntfs ++ (replies o a).map resultNtf := by
  have hfold : ∀ (chunks : List (List UInt8)) (ntfs : List UartSendInfo),
      chunks.foldl (fun ntfs chunk => (postRecordParse o ntfs chunk).1) ntfs =
        ntfs ++ (chunks.filterMap (numericErrno o)).map resultNtf := by
    intro chunks
    induction chunks with
    | nil => simp
    | cons chunk chunks ih =>
      intro ntfs
      rw [List.foldl_cons, ih, postRecordParse_eq, List.filterMap_cons]
      cases numericErrno o chunk <;> simp
  rw [Attempt.perform, transfer_state (postRecordParse_takes o), hfold]
  rfl

/-- The `op_code` of an attempt. -/
def opCode (o : Outside) (a : Attempt) : ℕ := (a.perform (postRecordParse o) []).2

theorem opCode_eq_zero (o : Outside) (a : Attempt) : opCode o a = 0 ↔ a.Succeeds (takes o) :=
  perform_eq_zero (postRecordParse_takes o) a []

theorem perform_eq (o : Outside) (a : Attempt) (ntfs : List UartSendInfo) :
    a.perform (postRecordParse o) ntfs = (ntfs ++ (replies o a).map resultNtf, opCode o a) := by
  refine Prod.ext (perform_ntfs o a ntfs) ?_
  refine transfer_result_congr (fun s s' chunk => ?_) a.result a.chunks ntfs []
  rw [postRecordParse_eq, postRecordParse_eq]

/-! ### An upload -/

/-- The attempts that are made: up to the first that succeeds, at most three. -/
def tries (o : Outside) (curl : Attempt × Attempt × Attempt) : List Attempt :=
  if curl.1.Succeeds (takes o) then [curl.1]
  else if curl.2.1.Succeeds (takes o) then [curl.1, curl.2.1]
  else [curl.1, curl.2.1, curl.2.2]

/-- One of the attempts succeeds. -/
def Uploaded (o : Outside) (curl : Attempt × Attempt × Attempt) : Prop :=
  curl.1.Succeeds (takes o) ∨ curl.2.1.Succeeds (takes o) ∨ curl.2.2.Succeeds (takes o)

instance (o : Outside) (curl : Attempt × Attempt × Attempt) : Decidable (Uploaded o curl) :=
  inferInstanceAs (Decidable (_ ∨ _))

/-- The numeric errnos that reach `post_record_parse` during an upload. -/
def allReplies (o : Outside) (curl : Attempt × Attempt × Attempt) : List (Int32 × ℚ) :=
  (tries o curl).flatMap (replies o)

/-- **What an upload does**: the host is notified of every reply, and once more if no attempt
succeeds; the server is online if one does. -/
theorem postRecordUrl_eq (o : Outside) (curl : Attempt × Attempt × Attempt) (h : Http) :
    (postRecordUrl o (some curl) h).2 = (allReplies o curl).map resultNtf ++
        (if Uploaded o curl then [] else [httpUpDataNtf 2]) ∧
      (postRecordUrl o (some curl) h).1 = h.setErr (if Uploaded o curl then 0 else 1) := by
  obtain ⟨a₁, a₂, a₃⟩ := curl
  have hset : ∀ e e', (h.setErr e).setErr e' = h.setErr e' := by
    intro e e'
    simp [Http.setErr]
  unfold postRecordUrl allReplies tries Uploaded
  dsimp only
  rw [perform_eq, perform_eq, perform_eq]
  dsimp only
  by_cases h₁ : a₁.Succeeds (takes o)
  · simp [h₁, (opCode_eq_zero o a₁).mpr h₁]
  have hc₁ : opCode o a₁ ≠ 0 := fun hc => h₁ ((opCode_eq_zero o a₁).mp hc)
  by_cases h₂ : a₂.Succeeds (takes o)
  · simp [h₁, h₂, hc₁, (opCode_eq_zero o a₂).mpr h₂]
  have hc₂ : opCode o a₂ ≠ 0 := fun hc => h₂ ((opCode_eq_zero o a₂).mp hc)
  by_cases h₃ : a₃.Succeeds (takes o)
  · simp [h₁, h₂, h₃, hc₁, hc₂, (opCode_eq_zero o a₃).mpr h₃, hset]
  · have hc₃ : opCode o a₃ ≠ 0 := fun hc => h₃ ((opCode_eq_zero o a₃).mp hc)
    simp [h₁, h₂, h₃, hc₁, hc₂, hc₃]

/-! ### Exactly one result -/

/-- A notification of the result of an upload. -/
def IsResult (info : UartSendInfo) : Prop := info.cmdId = 0x31

instance : DecidablePred IsResult := fun info => inferInstanceAs (Decidable (info.cmdId = 0x31))

/-- What `post_record_Url` hands to `uart_protocol_dispose` are results of uploads. -/
theorem isResult_of_mem {o : Outside} {curl : Attempt × Attempt × Attempt} {h : Http}
    {info : UartSendInfo} (hi : info ∈ (postRecordUrl o (some curl) h).2) : IsResult info := by
  rw [(postRecordUrl_eq o curl h).1, List.mem_append] at hi
  rcases hi with hi | hi
  · obtain ⟨r, -, rfl⟩ := List.mem_map.mp hi
    rfl
  · split_ifs at hi
    · cases hi
    · rw [List.mem_singleton.mp hi]
      rfl

/-- **When the host is told exactly once.** If one of the three attempts succeeds, exactly when one
piece with a numeric `errno` has reached `post_record_parse` in the attempts up to that one; if none
does, exactly when no such piece has. -/
theorem one_result_iff (o : Outside) (curl : Attempt × Attempt × Attempt) (h : Http) :
    (postRecordUrl o (some curl) h).2.countP (fun info => IsResult info) = 1 ↔
      (allReplies o curl).length = if Uploaded o curl then 1 else 0 := by
  have hall : (postRecordUrl o (some curl) h).2.countP (fun info => IsResult info) =
      (postRecordUrl o (some curl) h).2.length :=
    List.countP_eq_length.mpr fun info hi => decide_eq_true (isResult_of_mem hi)
  rw [hall, (postRecordUrl_eq o curl h).1, List.length_append, List.length_map]
  split_ifs
  · simp
  · simp

/-- A reply with errno 256. -/
def errno256 : List UInt8 := ascii "\x7b\"errno\":256\x7d"

/-- `cJSON` for that reply. -/
def outsideSample : Outside where
  cjsonParse := fun text =>
    if text = errno256 then some (.object [(ascii "errno", .number 256 256)]) else none
  render := fun _ => []
  stack := ⟨0, 0, 0, 0, 0, 0⟩

def httpInit : Http := ⟨systemInfoInit, netStateInit, 0, 0⟩

/-- An upload that succeeds with an empty body. -/
def emptyReply : Attempt × Attempt × Attempt := (⟨[], 0⟩, ⟨[], 0⟩, ⟨[], 0⟩)

/-- The host is not told of it. -/
theorem emptyReply_silent :
    (postRecordUrl outsideSample (some emptyReply) httpInit).2.countP
    (fun info => IsResult info) ≠ 1 := by
  decide +kernel

/-! ### The state reported -/

/-- Success is reported to the host. -/
def ReportsSuccess (ntfs : List UartSendInfo) : Prop :=
  ∃ info ∈ ntfs, IsResult info ∧ info.data 0 = 0

/-- The server has replied with an errno of exactly 0. -/
def RepliedZero (o : Outside) (curl : Attempt × Attempt × Attempt) : Prop :=
  ∃ r ∈ allReplies o curl, r.2 = 0

/-- The state byte is the errno modulo 256. -/
theorem toUInt8_eq_zero_iff (n : Int32) : n.toInt8.toUInt8 = 0 ↔ 256 ∣ n.toInt := by
  have hbyte : n.toInt8.toUInt8.toNat = n.toBitVec.toNat % 256 := by
    show (n.toBitVec.signExtend 8).toNat = _
    rw [BitVec.signExtend_eq_setWidth_of_le _ (by decide), BitVec.toNat_setWidth]
  have hint : n.toInt = n.toBitVec.toInt := rfl
  have hlt := n.toBitVec.isLt
  rw [← UInt8.toNat_inj, hbyte, hint, BitVec.toInt_eq_toNat_cond]
  show n.toBitVec.toNat % 256 = 0 ↔ _
  split_ifs
  · omega
  · omega

/-- Success is reported exactly if some errno is a multiple of 256. -/
theorem reportsSuccess_iff (o : Outside) (curl : Attempt × Attempt × Attempt) (h : Http) :
    ReportsSuccess (postRecordUrl o (some curl) h).2 ↔
      ∃ r ∈ allReplies o curl, 256 ∣ r.1.toInt := by
  unfold ReportsSuccess
  rw [(postRecordUrl_eq o curl h).1]
  constructor
  · rintro ⟨info, hi, -, h0⟩
    rcases List.mem_append.mp hi with hi | hi
    · obtain ⟨r, hr, rfl⟩ := List.mem_map.mp hi
      exact ⟨r, hr, (toUInt8_eq_zero_iff r.1).mp h0⟩
    · split_ifs at hi
      · cases hi
      · rw [List.mem_singleton.mp hi] at h0
        exact absurd h0 (by decide)
  · rintro ⟨r, hr, hd⟩
    exact ⟨resultNtf r, List.mem_append_left _ (List.mem_map_of_mem hr), rfl,
      (toUInt8_eq_zero_iff r.1).mpr hd⟩

/-- **When success is not reported falsely.** Exactly if no reply has an errno other than 0 whose
truncation `valueint` is a multiple of 256, or another one has an errno of exactly 0. -/
theorem zero_result_iff (o : Outside) (curl : Attempt × Attempt × Attempt) (h : Http) :
    (ReportsSuccess (postRecordUrl o (some curl) h).2 → RepliedZero o curl) ↔
      (∀ r ∈ allReplies o curl, 256 ∣ r.1.toInt → r.2 = 0) ∨ RepliedZero o curl := by
  rw [reportsSuccess_iff]
  constructor
  · intro himp
    by_cases hz : RepliedZero o curl
    · exact .inr hz
    · exact .inl fun r hr hd => absurd (himp ⟨r, hr, hd⟩) hz
  · rintro (hall | hz) ⟨r, hr, hd⟩
    · exact ⟨r, hr, hall r hr hd⟩
    · exact hz

/-- An upload that the server answers with errno 256. -/
def reply256 : Attempt × Attempt × Attempt := (⟨[errno256], 0⟩, ⟨[], 0⟩, ⟨[], 0⟩)

/-- Success is reported all the same. -/
theorem reply256_success :
    ReportsSuccess (postRecordUrl outsideSample (some reply256) httpInit).2 ∧
      ¬ RepliedZero outsideSample reply256 := by
  have hall : allReplies outsideSample reply256 = [(256, 256)] := by decide +kernel
  refine ⟨(reportsSuccess_iff _ _ _).mpr ⟨(256, 256), by rw [hall]; simp, by decide⟩, ?_⟩
  rintro ⟨r, hr, h0⟩
  rw [hall, List.mem_singleton] at hr
  rw [hr] at h0
  exact absurd h0 (by decide)

end MultiPortConvertor.Net.UploadResult
