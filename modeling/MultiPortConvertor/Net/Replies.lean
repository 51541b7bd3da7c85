import MultiPortConvertor.Net.Online
import MultiPortConvertor.Net.ServerTime
import MultiPortConvertor.Tool.CJsonPrefix

/-! # Replies of the server, parsed

The transfers with the parser and the rendering of the program in the place of the parameters. The
server writes a reply as `cJSON` writes values; the transport hands it on in pieces, and a piece is
not terminated: the parser reads on into what lies behind it. So a reply that comes in one piece is
read whatever lies there, and one that is cut is refused if a zero does. -/

namespace MultiPortConvertor.Net.Replies

open MultiPortConvertor.Lib.CString MultiPortConvertor.Lib.Calendar MultiPortConvertor.Lib.Doubles
open MultiPortConvertor.Lib.Parsers MultiPortConvertor.Lib.Scanf MultiPortConvertor.Lib.Transfers
open MultiPortConvertor.Tool.CJson MultiPortConvertor.Tool.CJsonParse
open MultiPortConvertor.Tool.CJsonPrint
open MultiPortConvertor.Tool.CJsonStrings MultiPortConvertor.Tool.CJsonRoundTrip
open MultiPortConvertor.Tool.CJsonPrefix
open MultiPortConvertor.App.System MultiPortConvertor.Uart.Dispose
open MultiPortConvertor.Net.HttpProtocol MultiPortConvertor.Net.Online
open MultiPortConvertor.Net.UploadResult MultiPortConvertor.Net.ServerTime

/-- The bytes in front of the terminating zero. -/
def upToZero (s : List UInt8) : List UInt8 := s.takeWhile (· ≠ 0)

/-- `cJSON` in the place of the parameters; `behind` is what lies behind a piece in memory. -/
def program (fpu : Arithmetic) (stack : ℕ) (behind : List UInt8 → List UInt8) (tm : Fields) :
    Outside where
  cjsonParse := fun piece =>
    match cjsonParse fpu stack (upToZero (piece ++ behind piece)) with
    | .ok root _ => some root
    | _ => none
  render := printValue fpu true 0
  stack := tm

variable {fpu : Arithmetic} {stack : ℕ} {behind : List UInt8 → List UInt8}
    {tm : Fields} {fmt : Bool}

theorem upToZero_append {s : List UInt8} (hs : CStr s) (q : List UInt8) :
    upToZero (s ++ q) = s ++ upToZero q := by
  refine List.takeWhile_append_of_pos fun b hb => ?_
  simp only [ne_eq, decide_not, Bool.not_eq_eq_eq_not, Bool.not_true, decide_eq_false_iff_not]
  rintro rfl
  exact hs hb

/-! ### What is read off a value -/

/-- A number is read anew, so is a child. -/
theorem getObjectItem_reread (v : CJSON) (name : String) :
    getObjectItem (reread fpu v) name = (getObjectItem v name).map (reread fpu) := by
  rcases v with _ | _ | _ | _ | _ | child
  iterate 5 rfl
  rw [reread, rereadMembers_eq, getObjectItem, getObjectItem, List.find?_map]
  simp only [Option.map_map]
  rfl

/-- A text of the server. -/
structure Text (stack : ℕ) where
  fmt : Bool
  root : CJSON
  strings : All CStr (fun _ _ => True) root
  object : Container root
  depth_le : depth root ≤ stack

/-- Its bytes. -/
def Text.bytes (fpu : Arithmetic) (t : Text stack) : List UInt8 := cjsonText fpu t.fmt t.root

theorem Text.cstr (t : Text stack) : CStr (t.bytes fpu) := cstr_cjsonText t.root

theorem Text.bytes_ne_nil (t : Text stack) : t.bytes fpu ≠ [] := by
  obtain ⟨b, u, hb, -⟩ : ∃ b u, printValue fpu t.fmt 0 t.root = b :: u ∧ ¬ b ≤ 32 ∧ b ≠ 0x5D :=
    exists_printValue_cons 0 t.root
  exact ne_of_eq_of_ne hb (List.cons_ne_nil b u)

/-- **A text in one piece is read**, whatever lies behind it. -/
theorem Text.read (t : Text stack) :
    (program fpu stack behind tm).cjsonParse (t.bytes fpu) = some (reread fpu t.root) := by
  have hparse : ∀ q, cjsonParse fpu stack (t.bytes fpu ++ q) = .ok (reread fpu t.root) q :=
    (cjsonText_pieces t.strings t.object t.depth_le).1
  show (match cjsonParse fpu stack (upToZero (t.bytes fpu ++ behind (t.bytes fpu))) with
    | .ok root _ => some root
    | _ => none) = _
  rw [upToZero_append t.cstr, hparse]

/-- **A piece that is cut off is refused**, if a zero follows it. -/
theorem Text.refused (t : Text stack) {p q : List UInt8} (hpq : t.bytes fpu = p ++ q) (hq : q ≠ [])
    (hz : upToZero (behind p) = []) : (program fpu stack behind tm).cjsonParse p = none := by
  have hcstr : CStr p := fun h0 => t.cstr (by rw [hpq]; exact List.mem_append_left q h0)
  have hcut := (cjsonText_pieces t.strings t.object t.depth_le).2 p q hpq hq
  show (match cjsonParse fpu stack (upToZero (p ++ behind p)) with
    | .ok root _ => some root
    | _ => none) = _
  rw [upToZero_append hcstr, hz, List.append_nil]
  rcases hp : cjsonParse fpu stack p with ⟨w, r⟩ | _ | _ | _
  · exact absurd hp (hcut w r)
  · rfl
  · rfl
  · rfl

/-- The way of a text: the pieces it comes in, and the result of the transport. -/
structure Delivery (fpu : Arithmetic) (behind : List UInt8 → List UInt8) (t : Text stack) where
  pieces : List (List UInt8)
  flatten_eq : pieces.flatten = t.bytes fpu
  ne_nil : ∀ p ∈ pieces, p ≠ []
  terminated : pieces ≠ [t.bytes fpu] → ∀ p ∈ pieces, upToZero (behind p) = []
  result : ℕ

namespace Delivery

variable {t : Text stack} (d : Delivery fpu behind t)

def attempt : Attempt := ⟨d.pieces, d.result⟩

/-- The text comes in one piece. -/
def Whole : Prop := d.pieces = [t.bytes fpu]

instance : Decidable d.Whole := inferInstanceAs (Decidable (_ = _))

/-- The first piece: the whole text, or one that is refused. -/
theorem first (tm : Fields) : d.pieces = [t.bytes fpu] ∨ ∃ p ps, d.pieces = p :: ps ∧ p ≠ [] ∧
    (program fpu stack behind tm).cjsonParse p = none := by
  by_cases hw : d.pieces = [t.bytes fpu]
  · exact .inl hw
  right
  have hflatten := d.flatten_eq
  rcases hps : d.pieces with _ | ⟨p, ps⟩
  · rw [hps] at hflatten
    exact absurd hflatten.symm t.bytes_ne_nil
  · rw [hps, List.flatten_cons] at hflatten
    have hne : ps.flatten ≠ [] := by
      rcases ps with _ | ⟨p', ps⟩
      · rw [List.flatten_nil, List.append_nil] at hflatten
        exact absurd (by rw [hps, hflatten]) hw
      · rw [List.flatten_cons]
        exact List.append_ne_nil_of_left_ne_nil (d.ne_nil p' (by simp [hps])) _
    have hp : p ∈ d.pieces := by simp [hps]
    exact ⟨p, ps, rfl, d.ne_nil p hp, t.refused hflatten.symm hne (d.terminated hw p hp)⟩

end Delivery

/-- A text in one piece. -/
def Text.inOne (fpu : Arithmetic) (t : Text stack) : Delivery fpu behind t where
  pieces := [t.bytes fpu]
  flatten_eq := by simp
  ne_nil := by simpa using t.bytes_ne_nil
  terminated := fun h => absurd rfl h
  result := 0

/-! ### The clock -/

/-- What the server says of the time; `rest` follows the seconds in the text. -/
structure TimeText (stack : ℕ) extends Text stack where
  data : CJSON
  time : DateTime
  rest : List UInt8
  zone : List UInt8
  errno : getObjectItem root "errno" = some (.number 0 0)
  getData : getObjectItem root "data" = some data
  getTime : getObjectItem data "time" = some (.string (ascii time.text ++ rest))
  getZone : getObjectItem data "time_zone" = some (.string zone)

namespace TimeText

variable (t : TimeText stack)

/-- The clock and the zone, set. -/
def set (h : Http) : Http :=
  { h with
    tvSec := UInt32.ofNat t.time.clock.toNat
    systemInfo := { h.systemInfo with
      timezone := Int16.ofInt ((atoi t.zone).tdiv 50)
      timeValid := 1 } }

theorem getTimeParse_whole (h : Http) : getTimeParse (program fpu stack behind tm) h (t.bytes fpu) =
    (t.set h, (t.bytes fpu).length) := by
  have hclock : clockOf (cjsonPrint (printValue fpu true 0) (.string (ascii t.time.text ++ t.rest)))
    tm =
      UInt32.ofNat t.time.clock.toNat := by
    have hc := t.time.clockOf_text t.rest (printValue fpu true 0) tm
    obtain ⟨h0, h31⟩ := t.time.clock_bounds
    have hlt : t.time.clock.toNat < 2 ^ 32 := by omega
    rw [← UInt32.toNat_inj, UInt32.toNat_ofNat_of_lt' hlt]
    omega
  have herrno : getObjectItem (reread fpu t.root) "errno" = some (.number 0 0) := by
    rw [getObjectItem_reread, t.errno]
    exact congrArg some (reread_whole rfl)
  have hdata : getObjectItem (reread fpu t.root) "data" = some (reread fpu t.data) := by
    rw [getObjectItem_reread, t.getData, Option.map_some]
  have htime : getObjectItem (reread fpu t.data) "time" =
      some (.string (ascii t.time.text ++ t.rest)) := by
    rw [getObjectItem_reread, t.getTime]
    rfl
  have hzone : getObjectItem (reread fpu t.data) "time_zone" = some (.string t.zone) := by
    rw [getObjectItem_reread, t.getZone]
    rfl
  unfold getTimeParse
  rw [Text.read]
  simp only [herrno, hdata, htime, hzone, if_true]
  rw [TimeText.set, ← hclock]
  rfl

end TimeText

/-- What the replies of the server set. -/
def setting (h : Http) : UInt32 × SystemInfo := (h.tvSec, h.systemInfo)

/-- A heartbeat changes the setting as its transfer does. -/
theorem setting_getTimeUrl (o : Outside) (a : Attempt) (h : Http) :
    setting (getTimeUrl o (some a) h).1 = setting (a.perform (getTimeParse o) h).1 := by
  unfold getTimeUrl
  dsimp only
  split_ifs <;> rfl

/-- **A heartbeat sets the clock exactly if its reply comes in one piece.** -/
theorem TimeText.setting_beat (tm : Fields) (t : TimeText stack) (d : Delivery fpu behind t.toText)
    (h : Http) : setting (getTimeUrl (program fpu stack behind tm) (some d.attempt) h).1 =
      setting (if d.Whole then t.set h else h) := by
  rw [setting_getTimeUrl, Attempt.perform]
  by_cases hw : d.Whole
  · have hpieces : d.attempt.chunks = [t.bytes fpu] := hw
    rw [if_pos hw, hpieces, transfer, t.getTimeParse_whole]
    exact congrArg (fun x : Http × ℕ => setting x.1) (if_pos rfl)
  · obtain ⟨p, ps, hps, hne, hp⟩ := (d.first tm).resolve_left hw
    have hpieces : d.attempt.chunks = p :: ps := hps
    have hnone : getTimeParse (program fpu stack behind tm) h p = (h, 0) := by
      rw [getTimeParse, hp]
    have hlen : 0 ≠ p.length := (List.length_pos_iff.mpr hne).ne
    rw [if_neg hw, hpieces, transfer, hnone]
    exact congrArg (fun x : Http × ℕ => setting x.1) (if_neg hlen)

/-- A heartbeat that is answered with the time, one that is not answered, or an upload. -/
inductive Exchange (fpu : Arithmetic) (stack : ℕ) where
  | beat (behind : List UInt8 → List UInt8) (tm : Fields) (t : TimeText stack)
      (d : Delivery fpu behind t.toText)
  | unanswered (o : Outside) (result : ℕ)
  | upload (o : Outside) (curl : Option (Attempt × Attempt × Attempt))

def Exchange.event : Exchange fpu stack → Event
  | .beat behind tm _ d => .heartbeat (program fpu stack behind tm) (some d.attempt)
  | .unanswered o result => .heartbeat o (some ⟨[], result⟩)
  | .upload o curl => .upload o curl

/-- The time that has come whole. -/
def Exchange.said : Exchange fpu stack → Option (TimeText stack)
  | .beat _ _ t d => if d.Whole then some t else none
  | _ => none

section

variable {t : TimeText stack} {d : Delivery fpu behind t.toText}

theorem Exchange.said_whole (h : d.Whole) : (Exchange.beat behind tm t d).said = some t := if_pos h

theorem Exchange.said_cut (h : ¬ d.Whole) : (Exchange.beat behind tm t d).said = none := if_neg h

end

theorem setting_upload (o : Outside) (curl : Option (Attempt × Attempt × Attempt)) (h : Http) :
    setting (postRecordUrl o curl h).1 = setting h := by
  rcases curl with _ | curl
  · rfl
  · rw [(postRecordUrl_eq o curl h).2]
    rfl

/-- The setting after the replies, given the one before. -/
def setTo (said : Option (TimeText stack)) (h : Http) : UInt32 × SystemInfo :=
  (said.map fun t => setting (t.set h)).getD (setting h)

theorem Exchange.setting_step (e : Exchange fpu stack) (h : Http) :
    setting (Online.step h e.event) = setTo e.said h := by
  rcases e with ⟨behind, tm, t, d⟩ | ⟨o, result⟩ | ⟨o, curl⟩
  · have hbeat := t.setting_beat tm d h
    by_cases hw : d.Whole
    · rw [if_pos hw] at hbeat
      rw [Exchange.said_whole hw]
      exact hbeat
    · rw [if_neg hw] at hbeat
      rw [Exchange.said_cut hw]
      exact hbeat
  · exact setting_getTimeUrl o ⟨[], result⟩ h
  · exact setting_upload o curl h

/-- A reply leaves nothing of the one before. -/
theorem setTo_setTo {said said' : Option (TimeText stack)} {h h' : Http}
    (hs : setting h' = setTo said h) : setTo said' h' = setTo (said'.or said) h := by
  rcases said' with _ | t'
  · exact hs
  · have hinfo : h'.systemInfo = (setTo said h).2 := congrArg Prod.snd hs
    rcases said with _ | t
    · have hinfo : h'.systemInfo = h.systemInfo := hinfo
      simp [setTo, setting, TimeText.set, hinfo]
    · have hinfo : h'.systemInfo = (t.set h).systemInfo := hinfo
      simp [setTo, setting, TimeText.set, hinfo]

theorem setting_run (es : List (Exchange fpu stack)) (h : Http) :
    setting ((es.map Exchange.event).foldl Online.step h) =
    setTo (es.filterMap Exchange.said).getLast? h := by
  induction es using List.reverseRecOn with
  | nil => rfl
  | append_singleton es e ih =>
    have hstep := e.setting_step ((es.map Exchange.event).foldl Online.step h)
    have hlast : (es.filterMap Exchange.said ++ [e].filterMap Exchange.said).getLast? =
        e.said.or (es.filterMap Exchange.said).getLast? := by
      rw [List.getLast?_append]
      rcases hsaid : e.said with _ | t
      · simp [hsaid]
      · simp [hsaid]
    rw [List.map_append, List.map_singleton, List.foldl_append, List.filterMap_append, hlast,
      ← setTo_setTo ih]
    exact hstep

/-- What the server says at noon of the last of January, but for the zone. -/
def dataIn (zone : List UInt8) : CJSON :=
  .object [(ascii "time", .string (ascii january31.text ++ ascii ".000")),
    (ascii "time_zone", .string zone)]

def januaryIn (zone : List UInt8) (hz : CStr zone) : TimeText 3 where
  fmt := false
  root := .object [(ascii "errno", .number 0 0), (ascii "data", dataIn zone)]
  strings := by
    have htime : CStr (ascii january31.text ++ ascii ".000") := by decide +kernel
    have hdata : All CStr (fun _ _ => True) (dataIn zone) :=
      .object (by simp [CStr, ascii]) (by simpa using ⟨.string htime, .string hz⟩)
    exact .object (by simp [CStr, ascii]) (by simpa using ⟨.number trivial, hdata⟩)
  object := .inr ⟨_, rfl⟩
  depth_le := le_rfl
  data := dataIn zone
  time := january31
  rest := ascii ".000"
  zone := zone
  errno := rfl
  getData := rfl
  getTime := rfl
  getZone := rfl

def east : TimeText 3 := januaryIn (ascii "0800") (by decide +kernel)

def west : TimeText 3 := januaryIn (ascii "-500") (by decide +kernel)

/-- The second text cut behind the brace. -/
def westCut : Delivery binary64 (fun _ => []) west.toText where
  pieces := [(west.bytes binary64).take 1, (west.bytes binary64).drop 1]
  flatten_eq := by
    rw [List.flatten_cons, List.flatten_singleton]
    exact List.take_append_drop 1 _
  ne_nil := by decide +kernel
  terminated := fun _ _ _ => rfl
  result := 0

/-- Both are said, and in the end an upload gets no answer. -/
def eastThenWest : List (Exchange binary64 3) :=
  [.beat (fun _ => []) ⟨0, 0, 0, 0, 0, 0⟩ east (east.inOne binary64),
    .beat (fun _ => []) ⟨0, 0, 0, 0, 0, 0⟩ west westCut, .upload outsideSample (some emptyReply)]

/-- What the server says of an upload. -/
structure ErrnoText (stack : ℕ) extends Text stack where
  errno : Int32
  getErrno : getObjectItem root "errno" = some (.number errno errno.toInt)

namespace ErrnoText

variable (t : ErrnoText stack) (d : Delivery fpu behind t.toText)

theorem errnoOf_whole : errnoOf (program fpu stack behind tm) (t.bytes fpu) =
    some (.number t.errno t.errno.toInt) := by
  rw [errnoOf, Text.read, Option.bind_some, getObjectItem_reread, t.getErrno]
  exact congrArg some (reread_whole rfl)

/-- **The errno reaches `post_record_parse` exactly if the reply comes in one piece.** -/
theorem replies_eq (tm : Fields) : replies (program fpu stack behind tm) d.attempt =
    if d.Whole then [(t.errno, (t.errno.toInt : ℚ))] else [] := by
  rw [replies]
  by_cases hw : d.Whole
  · have hpieces : d.attempt.chunks = [t.bytes fpu] := hw
    have hnumeric : numericErrno (program fpu stack behind tm) (t.bytes fpu) =
        some (t.errno, (t.errno.toInt : ℚ)) := by
      rw [numericErrno, t.errnoOf_whole]
    rw [if_pos hw, hpieces, passed]
    simp [passed, hnumeric]
  · obtain ⟨p, ps, hps, hne, hp⟩ := (d.first tm).resolve_left hw
    have hpieces : d.attempt.chunks = p :: ps := hps
    have herrno : errnoOf (program fpu stack behind tm) p = none := by
      rw [errnoOf, hp, Option.bind_none]
    have htakes : takes (program fpu stack behind tm) p = false := by simp [takes, herrno, hne]
    rw [if_neg hw, hpieces, passed, htakes]
    simp [numericErrno, herrno]

theorem succeeds_iff (tm : Fields) : d.attempt.Succeeds (takes (program fpu stack behind tm)) ↔
    d.result = 0 ∧ d.Whole := by
  refine and_congr_right fun _ => ⟨fun h => ?_, fun hw p hp => ?_⟩
  · by_contra hw
    obtain ⟨p, ps, hps, hne, hp⟩ := (d.first tm).resolve_left hw
    have htakes := h p (by
      show p ∈ d.pieces
      rw [hps]
      exact List.mem_cons_self)
    simp [takes, errnoOf, hp, hne] at htakes
  · have hp : p ∈ d.pieces := hp
    rw [hw, List.mem_singleton] at hp
    rw [hp, takes, t.errnoOf_whole]
    rfl

end ErrnoText

/-- A reply with errno 0. -/
def errnoZero : ErrnoText 2 where
  fmt := false
  root := .object [(ascii "errno", .number 0 0)]
  strings := .object (by simp [CStr, ascii]) (by simpa using .number trivial)
  object := .inr ⟨_, rfl⟩
  depth_le := by decide
  errno := 0
  getErrno := rfl

/-- Its text in one piece. -/
def inOne : Delivery binary64 (fun _ => []) errnoZero.toText := errnoZero.inOne binary64

/-- Its text cut behind the name. -/
def inTwo : Delivery binary64 (fun _ => []) errnoZero.toText where
  pieces := [(errnoZero.bytes binary64).take 8, (errnoZero.bytes binary64).drop 8]
  flatten_eq := by simp
  ne_nil := by decide +kernel
  terminated := fun _ _ _ => rfl
  result := 0

end MultiPortConvertor.Net.Replies
