import MultiPortConvertor.Net.ServerTime
import MultiPortConvertor.Uart.TimeZone

/-! # What is left in the buffer of a frame before

With the same memory behind the receive buffer, two runs that end with the same frame differ only in
the bytes that frames before have left between its end and the end of the longest frame. A frame of
the full length leaves none of them (`Ends.eq_of_full`), and of a shorter one a record that is read
on shows any of them (`httpRecord_left_ne`). -/

namespace MultiPortConvertor.Uart.StaleRecord

open MultiPortConvertor.Lib.Bytes MultiPortConvertor.Lib.CString MultiPortConvertor.Lib.Calendar
open MultiPortConvertor.Lib.Scanf
open MultiPortConvertor.Uart.Format MultiPortConvertor.Uart.GetData MultiPortConvertor.Uart.Grammar
open MultiPortConvertor.Uart.Handlers MultiPortConvertor.Uart.Parse MultiPortConvertor.Uart.History
open MultiPortConvertor.Uart.TimeZone MultiPortConvertor.Net.ServerTime

variable {x : List UInt8}

/-! ### A byte that is left -/

/-- A frame of the full length whose data is zero but for the byte `j`. -/
def fillFrame (j : ℕ) (v : UInt8) : List UInt8 :=
  0xC0 :: 0 :: 128 :: (List.replicate 129 0).set (j + 4) v

theorem fillFrame_complete (j : ℕ) (v : UInt8) : Complete (fillFrame j v) :=
  ⟨0, 128, (List.replicate 129 0).set (j + 4) v, rfl, by decide, by simp [be16]⟩

/-- The buffer after such a frame and then `x`, over memory full of zeros. -/
def left (x : List UInt8) (j : ℕ) (v : UInt8) : UartCmdFormat :=
  overlay x (overlay (fillFrame j v) (Framer.init (filled 0)).uartRecvBuf)

theorem left_ends (hx : Complete x) (j : ℕ) (v : UInt8) :
    Ends (filled 0) ((fillFrame j v).map some ++ x.map some) x (left x j v) := by
  obtain ⟨h1, hidle, hbuf⟩ := uartRecvTsk_frame (idle_init (filled 0))
    (bytesOf_map_some (fillFrame j v)) (fillFrame_complete j v)
  refine ⟨?_, bytes_overlay hx _⟩
  rw [uartRecvTsk_append]
  dsimp only
  rw [(uartRecvTsk_frame hidle (bytesOf_map_some x) hx).1, hbuf, List.getLast?_concat]
  rfl

theorem left_data {i j : ℕ} {v : UInt8} (hi : x.length ≤ 7 + i) (hj : j < 125) :
    (left x j v).data i = if i = j then v else 0 := by
  have h1 : left x j v (7 + i) = overlay (fillFrame j v) (Framer.init (filled 0)).uartRecvBuf
      (7 + i) :=
    if_neg (by omega)
  have hlen : (fillFrame j v).length = 132 := by simp [fillFrame]
  unfold UartCmdFormat.data
  rw [h1]
  unfold overlay
  rw [hlen]
  rcases Nat.lt_or_ge i 125 with hlt | hge
  · have h3 : 7 + i = i + 4 + 1 + 1 + 1 := by omega
    rw [if_pos (by omega), h3, fillFrame, List.getD_cons_succ, List.getD_cons_succ,
      List.getD_cons_succ, List.getD_eq_getElem _ _ (by simp; omega), List.getElem_set]
    have hji : j + 4 = i + 4 ↔ i = j := by omega
    simp only [hji, List.getElem_replicate]
  · rw [if_neg (by omega), if_neg (by omega)]
    unfold Framer.init
    dsimp only
    exact ite_self _

/-! ### It is shown -/

theorem digit_inj {d e : ℕ} (hd : d < 10) (he : e < 10) (h : digit d = digit e) : d = e := by
  have hnat := congrArg UInt8.toNat h
  unfold digit at hnat
  rw [UInt8.toNat_ofNat', UInt8.toNat_ofNat'] at hnat
  omega

theorem digits_two_inj {m n : ℕ} (hm : m < 100) (hn : n < 100) (h : digits 2 m = digits 2 n) :
    m = n := by
  have htwo : ∀ k, digits 2 k = [digit (k / 10 % 10), digit (k % 10)] := fun _ => rfl
  rw [htwo, htwo, List.cons.injEq, List.cons.injEq] at h
  have hten := digit_inj (Nat.mod_lt _ (by omega)) (Nat.mod_lt _ (by omega)) h.1
  have hone := digit_inj (Nat.mod_lt _ (by omega)) (Nat.mod_lt _ (by omega)) h.2.1
  omega

/-- Two digits at the end of a text are told apart. -/
theorem pad2_inj_right {s t : String} {m n : ℕ} (hm : m < 100) (hn : n < 100)
    (h : s ++ pad2 m = t ++ pad2 n) : s = t ∧ m = n := by
  have hascii := congrArg ascii h
  rw [ascii_append, ascii_append, ascii_pad2 hm, ascii_pad2 hn] at hascii
  have hmn := digits_two_inj hm hn (List.append_inj' hascii (by simp)).2
  subst hmn
  exact ⟨(String.append_left_inj _).mp h, rfl⟩

/-- **The time of day is shown.** -/
theorem secs_of_measureTimeText {t t' : Int32} {zone : String}
    (h : measureTimeText t zone = measureTimeText t' zone) :
    t.toInt % 86400 = t'.toInt % 86400 := by
  unfold measureTimeText gmtime at h
  dsimp only at h
  rw [String.append_left_inj, String.append_left_inj] at h
  obtain ⟨h, hsec⟩ := pad2_inj_right (by omega) (by omega) h
  rw [String.append_left_inj] at h
  obtain ⟨h, hmin⟩ := pad2_inj_right (by omega) (by omega) h
  rw [String.append_left_inj] at h
  obtain ⟨-, hhour⟩ := pad2_inj_right (by omega) (by omega) h
  omega

theorem word_eq_add (c : UartCmdFormat) (p : ℕ) :
    word c p = (c.data p).toNat * 256 + (c.data (p + 1)).toNat := by
  rw [word, ← Nat.shiftLeft_add_eq_or_of_lt (c.data (p + 1)).toNat_lt, Nat.shiftLeft_eq]

theorem toInt_ofNat_of_lt {n : ℕ} (h : n < 2 ^ 32) :
    (Int32.ofNat n).toInt = if n < 2 ^ 31 then (n : ℤ) else (n : ℤ) - 2 ^ 32 := by
  have hsize : (Int32.size : ℤ) = 2 ^ 32 := rfl
  rw [Int32.toInt_ofNat', Int.bmod_def, hsize]
  split_ifs <;> omega

section

variable {c c' : UartCmdFormat} {env : Env} {q : ℕ}

theorem half_zone (he : httpRecord c env = httpRecord c' env) (hq : (dataStr c).length = q)
    (hq' : (dataStr c').length = q) : word c (q + 1) / 2 = word c' (q + 1) / 2 := by
  have hlt : ∀ c : UartCmdFormat, word c (q + 1) < 2 ^ 16 := by
    intro c
    have := (c.data (q + 1)).toNat_lt
    have := (c.data (q + 1 + 1)).toNat_lt
    rw [word_eq_add]
    omega
  have hhalf : ∀ c : UartCmdFormat, (Int16.ofNat (word c (q + 1) / 2)).toInt =
      (word c (q + 1) / 2 : ℕ) := by
    intro c
    have hw := hlt c
    rw [Int16.toInt_ofNat']
    have hsize : (Int16.size : ℤ) = 65536 := rfl
    exact Int.bmod_eq_of_le_mul_two (by omega) (by omega)
  have hzone : zoneText (Int16.ofNat (word c (q + 1) / 2)) =
      zoneText (Int16.ofNat (word c' (q + 1) / 2)) := by
    have h := congrArg Record.timeZone he
    unfold httpRecord at h
    rwa [hq, hq'] at h
  have hminutes := congrArg zoneMinutes hzone
  rw [zoneMinutes_zoneText (hhalf c), zoneMinutes_zoneText (hhalf c'), Option.some_inj] at hminutes
  omega

/-- The time of an upload that begins at `p`. -/
def timeAt (c : UartCmdFormat) (p : ℕ) : ℕ :=
  ((c.data p).toNat <<< 24) + ((c.data (p + 1)).toNat <<< 16) + ((c.data (p + 2)).toNat <<< 8) +
    (c.data (p + 3)).toNat

theorem secs_timeAt (he : httpRecord c env = httpRecord c' env) (hq : (dataStr c).length = q)
    (hq' : (dataStr c').length = q) : (Int32.ofNat (timeAt c (q + 3))).toInt % 86400 =
      (Int32.ofNat (timeAt c' (q + 3))).toInt % 86400 := by
  have hzone := congrArg Record.timeZone he
  have htime := congrArg Record.measureTime he
  unfold httpRecord at hzone htime
  rw [hq, hq'] at hzone htime
  dsimp only at hzone htime
  rw [hzone] at htime
  exact secs_of_measureTimeText htime

/-- **A byte that differs is seen in the record**: a different hour of the zone, or time of the day,
or reading. -/
theorem httpRecord_ne_of_data {k : ℕ} (hq : (dataStr c).length = q) (hq' : (dataStr c').length = q)
    (hsame : ∀ i, i ≠ q + k → c'.data i = c.data i) (h0 : c.data (q + k) = 0)
    (h2 : c'.data (q + k) = 2) (h1 : 1 ≤ k) (h12 : k ≤ 12) :
    httpRecord c env ≠ httpRecord c' env := by
  intro he
  have hzero : (c.data (q + k)).toNat = 0 := congrArg UInt8.toNat h0
  have htwo : (c'.data (q + k)).toNat = 2 := congrArg UInt8.toNat h2
  have hnat : ∀ i, i ≠ q + k → (c'.data i).toNat = (c.data i).toNat := fun i hi =>
    congrArg UInt8.toNat (hsame i hi)
  rcases Nat.lt_or_ge k 7 with h7 | h7
  · rcases Nat.lt_or_ge k 3 with h3 | h3
    · have hzone := half_zone he hq hq'
      rw [word_eq_add, word_eq_add] at hzone
      obtain rfl | rfl : k = 1 ∨ k = 2 := by omega
      · have hsnd := hnat (q + 1 + 1) (by omega)
        omega
      · have hfst := hnat (q + 1) (by omega)
        have hplace : q + 2 = q + 1 + 1 := rfl
        rw [hplace] at hzero htwo
        omega
    · have hsecs := secs_timeAt he hq hq'
      have hlt := fun i => (c.data i).toNat_lt
      -- two units of the byte are no number of days
      have hsum : ∃ d, timeAt c' (q + 3) = timeAt c (q + 3) + d ∧ d % 86400 ≠ 0 ∧
          timeAt c' (q + 3) < 2 ^ 32 ∧
          (timeAt c (q + 3) < 2 ^ 31 ↔ timeAt c' (q + 3) < 2 ^ 31) := by
        unfold timeAt
        simp only [Nat.shiftLeft_eq]
        have h3 := hlt (q + 3)
        have h4 := hlt (q + 3 + 1)
        have h5 := hlt (q + 3 + 2)
        have h6 := hlt (q + 3 + 3)
        obtain ⟨j, rfl⟩ : ∃ j, k = 3 + j := ⟨k - 3, by omega⟩
        have hj : j ≤ 3 := by omega
        have e3 := hnat (q + 3)
        have e4 := hnat (q + 3 + 1)
        have e5 := hnat (q + 3 + 2)
        have e6 := hnat (q + 3 + 3)
        rw [← Nat.add_assoc] at hzero htwo
        refine ⟨2 * 256 ^ (3 - j), ?_⟩
        interval_cases j
        · rw [Nat.add_zero] at hzero htwo
          omega
        · omega
        · omega
        · omega
      obtain ⟨d, hd, hday, hbound, hsign⟩ := hsum
      rw [toInt_ofNat_of_lt (by omega), toInt_ofNat_of_lt hbound, hd] at hsecs
      rw [hd] at hsign
      split_ifs at hsecs <;> omega
  · have h := data_of_readings he hq hq' (show q + 7 ≤ q + k by omega) (by omega)
    rw [h0, h2] at h
    exact absurd h (by decide)

end

/-- A record that is read on behind a shorter frame shows what is left there. -/
theorem httpRecord_left_ne (hx : Accepted x) (env : Env) (hL : lenOf x ≠ 128) (hz : 0 ∈ ownData x)
    (hread : (ownData x).length ≤ (ownData x).idxOf 0 + 12) :
    ∃ j, httpRecord (left x j 0) env ≠ httpRecord (left x j 2) env := by
  have hlen := hx.complete.length_eq
  have h4 := hx.le_lenOf
  have hle := hx.complete.lenOf_le
  have hown := hx.length_ownData
  rw [if_neg hL] at hown
  obtain ⟨q, hq⟩ : ∃ q, (ownData x).idxOf 0 = q := ⟨_, rfl⟩
  have hlt : (ownData x).idxOf 0 < (ownData x).length := List.idxOf_lt_length_iff.mpr hz
  -- the last byte that the record reads, or the last one of the longest frame
  obtain ⟨k, hk⟩ : ∃ k, min (q + 12) 124 = q + k := ⟨min (q + 12) 124 - q, by omega⟩
  have hends := left_ends hx.complete (q + k)
  obtain ⟨hs, hs'⟩ := ((hends 0).agree (hends 2) hx).dataStr_eq hz (by omega)
  have hn : (dataStr (left x (q + k) 0)).length = q := by rw [hs, length_slice, hq]
  have hk1 : 1 ≤ k := by omega
  have hk12 : k ≤ 12 := by omega
  refine ⟨q + k, httpRecord_ne_of_data hn (by rw [hs', hn]) (fun i hi => ?_) ?_ ?_ hk1 hk12⟩
  · rcases Nat.lt_or_ge i (ownData x).length with hi' | hi'
    · rw [(hends 0).data hx hi', (hends 2).data hx hi']
    · rw [left_data (by omega) (by omega), left_data (by omega) (by omega), if_neg hi, if_neg hi]
  · rw [left_data (by omega) (by omega), if_pos rfl]
  · rw [left_data (by omega) (by omega), if_pos rfl]

/-- **No byte is read that frames before have left**: a record of a frame of the full length is read
on behind the buffer at once. -/
def ReadsNoneLeft (lp0 : Bool) (x : List UInt8) : Prop :=
  (x.getD 6 0 = 0x23 → lp0 = false → 0 ∈ ownData x) ∧
    (x.getD 6 0 = 0x31 → lenOf x = 128 ∨ (ownData x).idxOf 0 + 12 < (ownData x).length)

/-- **When a command depends on its own frame only, over one memory.** An accepted frame has the
same effect after any two histories, with the same memory behind the receive buffer, exactly when
its handler reads no byte that frames before have left. -/
theorem uartProtocolParse_sameMemory_iff (x : List UInt8) (hx : Accepted x) (env : Env) :
    (∀ (va : List UInt8 → List UInt8) (behind : Memory) (es es' : List (Option UInt8))
      (buf buf' respdata respdata' : UartCmdFormat), Ends behind es x buf → Ends behind es' x buf' →
        seen respdata (uartProtocolParse va buf env) =
          seen respdata' (uartProtocolParse va buf' env)) ↔
      ReadsNoneLeft env.lp0 x := by
  have hclean := clean_ends hx.complete
  have hstale := stale_ends hx.complete (filled 0)
  constructor
  · intro hall
    refine ⟨fun hcmd hlp => ?_, fun hcmd => ?_⟩
    · by_contra hz
      exact print_ne hx hcmd hlp hz (filled 0) (filled 0) (hall id _ _ _ _ _ _ _ hclean hstale)
    · by_contra hread
      obtain ⟨hL, hread⟩ := not_or.mp hread
      by_cases hz : 0 ∈ ownData x
      · obtain ⟨j, hne⟩ := httpRecord_left_ne hx env hL hz (by omega)
        have hends := left_ends hx.complete j
        exact seen_ne_of_record hx (hends 0) (hends 2) hcmd hne id (filled 0) (filled 0)
          (hall id _ _ _ _ _ _ _ (hends 0) (hends 2))
      · obtain ⟨s, -, hne, hs⟩ := dataStr_unterminated hx hz (filled 0)
        have hcard : httpRecord (clean x) env ≠ httpRecord (stale (filled 0) x) env := by
          intro he
          have hcardNo := congrArg Record.cardNo he
          rw [cardNo_eq, cardNo_eq, hs] at hcardNo
          exact hne (by simpa using hcardNo)
        exact seen_ne_of_record hx hclean hstale hcmd hcard id (filled 0) (filled 0)
          (hall id _ _ _ _ _ _ _ hclean hstale)
  · intro hread va behind es es' buf buf' respdata respdata' h h'
    by_cases hL : lenOf x = 128
    · obtain rfl := h.eq_of_full h' hL
      exact seen_parse (h.check hx) (by rw [h.len]; omega) respdata respdata'
    · exact seen_eq h h' hx ⟨hread.1, fun hcmd => (hread.2 hcmd).resolve_left hL⟩ va
        respdata respdata'

end MultiPortConvertor.Uart.StaleRecord
