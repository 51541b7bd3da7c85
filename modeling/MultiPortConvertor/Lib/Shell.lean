import MultiPortConvertor.Lib.CString
import MultiPortConvertor.Lib.Runs
import Mathlib.Data.List.Count
import Mathlib.Data.List.Infix

/-! # The words of a shell command

How a POSIX shell splits a command line: one byte at a time, with the quoting by `\`, by single
quotes and by double quotes, which are removed. Where the shell would expand something, nothing is
read. What is read is the command with some bytes left out (`readTokens_sublist`). A text between
double quotes stands for itself exactly when it is plain (`run_double_iff`), a format between single
quotes exactly when it has no `%` and no such quote (`readTokens_format_iff`). -/

namespace MultiPortConvertor.Lib.Shell

open MultiPortConvertor.Lib.CString MultiPortConvertor.Lib.Runs

/-- A word without its quotes, or a byte of an operator; `joined` says that a word or an operator
stands directly before it, as in `2>` and `>>`. -/
inductive Token where
  | word (w : List UInt8)
  | op (c : UInt8) (joined : Bool)
  deriving DecidableEq

def Token.bytes : Token → List UInt8
  | .word w => w
  | .op c _ => [c]

/-- The two kinds of quotes. -/
inductive Kind where
  | single
  | double
  deriving DecidableEq

def Kind.mark : Kind → UInt8
  | .single => 0x27
  | .double => 0x22

def Kind.other : Kind → Kind
  | .single => .double
  | .double => .single

/-- Outside quotes, `joined` if an operator has just been read, and after a `\` there; inside
quotes, and after a `\` inside double quotes; in a comment. -/
inductive Mode where
  | out (joined : Bool)
  | esc (joined : Bool)
  | single
  | double
  | doubleEsc
  | comment
  deriving DecidableEq

/-- The quotes around. -/
def Mode.inside : Mode → Option Kind
  | .single => some .single
  | .double | .doubleEsc => some .double
  | _ => none

/-- After a `\` outside quotes. -/
def Mode.isEsc : Mode → Bool
  | .esc _ => true
  | _ => false

theorem Mode.isEsc_of_inside {m : Mode} {k : Kind} (h : m.inside = some k) : m.isEsc = false := by
  cases m <;> first | rfl | cases h

/-- The tokens read, the word begun, whether a `$` has just been read, and the mode. -/
structure Reader where
  tokens : List Token
  word : Option (List UInt8)
  dollar : Bool
  mode : Mode
  deriving DecidableEq

def isBlank (c : UInt8) : Bool := c ∈ [0x09, 0x20]

/-- `&`, `(`, `)`, `;`, `<`, `>`, `|`, and the newline. -/
def isOperator (c : UInt8) : Bool := c ∈ [0x0A, 0x26, 0x28, 0x29, 0x3B, 0x3C, 0x3E, 0x7C]

/-- Backquote, `*`, `?`, `[`, `~`: outside quotes the shell may put something else in their place.
-/
def isExpanded (c : UInt8) : Bool := c ∈ [0x2A, 0x3F, 0x5B, 0x60, 0x7E]

/-- After `$` an expansion begins with a letter, a digit, `_`, a special parameter, `{` or `(`. -/
def begins (c : UInt8) : Bool :=
  (0x30 ≤ c && c ≤ 0x39) || (0x41 ≤ c && c ≤ 0x5A) || (0x61 ≤ c && c ≤ 0x7A) ||
    c ∈ [0x21, 0x23, 0x24, 0x28, 0x2A, 0x2D, 0x3F, 0x40, 0x5F, 0x7B]

/-- What a `\` inside double quotes quotes: `$`, backquote, `"`, `\`, and the newline. -/
def isEscapable (c : UInt8) : Bool := c ∈ [0x0A, 0x22, 0x24, 0x5C, 0x60]

namespace Reader

def start : Reader := ⟨[], none, false, .out false⟩

/-- Go on in a word, which begins here if there is none. -/
def enter (r : Reader) (m : Mode) : Reader := { r with word := some (r.word.getD []), mode := m }

def push (r : Reader) (c : UInt8) (m : Mode) : Reader :=
  { r with word := some (r.word.getD [] ++ [c]), mode := m }

/-- The end of the word begun. -/
def delimit (r : Reader) (m : Mode) : Reader :=
  match r.word with
  | none => { r with mode := m }
  | some w => { r with tokens := r.tokens ++ [.word w], word := none, mode := m }

/-- An operator. -/
def operator (r : Reader) (c : UInt8) (joined : Bool) : Reader :=
  let d := r.delimit (.out true)
  { d with tokens := d.tokens ++ [.op c (r.word.isSome || joined)] }

/-- A `$` that begins no expansion stands for itself, or the shell may do with it what it likes. -/
def settle (lone : Bool) (r : Reader) : Option Reader :=
  if r.dollar then
    if lone then some { r with word := some (r.word.getD [] ++ [0x24]), dollar := false } else none
  else some r

/-- A byte outside quotes, after a `$` only one that begins no expansion. -/
def settledOut (joined : Bool) (c : UInt8) (r : Reader) : Option Reader :=
  if c = 0x27 then some (r.enter .single)
  else if c = 0x22 then some (r.enter .double)
  else if isBlank c then some (r.delimit (.out false))
  else if isOperator c then some (r.operator c joined)
  else if c = 0x23 ∧ r.word = none then some { r with mode := .comment }
  else if c = 0x24 then some { r.enter (.out false) with dollar := true }
  else if isExpanded c then none
  else some (r.push c (.out false))

def readOut (lone joined : Bool) (c : UInt8) (r : Reader) : Option Reader :=
  if r.dollar ∧ (begins c ∨ c = 0x27) then none
  else if c = 0x5C then some { r with mode := .esc joined }
  else (r.settle lone).bind (settledOut joined c)

/-- A byte inside double quotes, after a `$` only one that begins no expansion. -/
def settledDouble (c : UInt8) (r : Reader) : Option Reader :=
  if c = 0x22 then some (r.enter (.out false))
  else if c = 0x60 then none
  else if c = 0x24 then some { r with dollar := true }
  else some (r.push c .double)

def readDouble (lone : Bool) (c : UInt8) (r : Reader) : Option Reader :=
  if r.dollar ∧ begins c then none
  else if c = 0x5C then some { r with mode := .doubleEsc }
  else (r.settle lone).bind (settledDouble c)

/-- A byte after a `\` inside double quotes: a newline goes with the `\`, and a byte that needs no
quoting leaves it there. -/
def readDoubleEsc (lone : Bool) (c : UInt8) (r : Reader) : Option Reader :=
  if c = 0x0A then some { r with mode := .double }
  else (r.settle lone).map fun r =>
    if isEscapable c then r.push c .double else (r.push 0x5C .double).push c .double

/-- The next byte; `none` where the shell would expand something. Single quotes and comments begin
when `$` is settled. -/
def step (lone : Bool) (r : Reader) (c : UInt8) : Option Reader :=
  match r.mode with
  | .out joined => r.readOut lone joined c
  | .esc joined =>
    if c = 0x0A then some { r with mode := .out joined }
    else (r.settle lone).map fun r => r.push c (.out false)
  | .single =>
    (r.settle lone).map fun r => if c = 0x27 then r.enter (.out false) else r.push c .single
  | .double => r.readDouble lone c
  | .doubleEsc => r.readDoubleEsc lone c
  | .comment => if c = 0x0A then (r.settle lone).map fun r => r.operator c false else some r

def run (lone : Bool) (r : Reader) (cmd : List UInt8) : Option Reader := exec (step lone) r cmd

/-- The end of the command, which no quote is left open at. -/
def finish (lone : Bool) (r : Reader) : Option (List Token) :=
  match r.mode with
  | .out _ => (r.settle lone).map fun r => (r.delimit (.out false)).tokens
  | .comment => some r.tokens
  | _ => none

/-- What has been read, with the `$` and the `\` that are not settled. -/
def pending (r : Reader) : List UInt8 :=
  (if r.dollar then [0x24] else []) ++ if r.mode = .doubleEsc then [0x5C] else []

def kept (r : Reader) : List UInt8 := r.tokens.flatMap Token.bytes ++ r.word.getD []

def bytes (r : Reader) : List UInt8 := r.kept ++ r.pending

end Reader

/-- **The words of a command**, and its operators. -/
def readTokens (lone : Bool) (cmd : List UInt8) : Option (List Token) :=
  (Reader.start.run lone cmd).bind (Reader.finish lone)

example : readTokens false [0x61, 0x20, 0x22, 0x62, 0x20, 0x63, 0x22, 0x3E, 0x64] =
    some [.word [0x61], .word [0x62, 0x20, 0x63], .op 0x3E true, .word [0x64]] := by decide

/-! ### What is read of a command -/

namespace Reader

variable {lone joined : Bool} {r r' : Reader} {c : UInt8} {m : Mode} {s t : List UInt8}

@[simp] theorem enter_dollar : (r.enter m).dollar = r.dollar := rfl
@[simp] theorem enter_mode : (r.enter m).mode = m := rfl
@[simp] theorem push_dollar : (r.push c m).dollar = r.dollar := rfl
@[simp] theorem push_mode : (r.push c m).mode = m := rfl

@[simp] theorem delimit_dollar : (r.delimit m).dollar = r.dollar := by
  unfold delimit; split <;> rfl

@[simp] theorem delimit_mode : (r.delimit m).mode = m := by
  unfold delimit; split <;> rfl

@[simp] theorem operator_dollar : (r.operator c joined).dollar = r.dollar := delimit_dollar
@[simp] theorem operator_mode : (r.operator c joined).mode = .out true := delimit_mode

@[simp] theorem kept_enter : (r.enter m).kept = r.kept := by simp [enter, kept]

@[simp] theorem kept_push : (r.push c m).kept = r.kept ++ [c] := by simp [push, kept]

@[simp] theorem kept_delimit : (r.delimit m).kept = r.kept := by
  unfold delimit kept
  split <;> simp_all [Token.bytes]

@[simp] theorem kept_operator : (r.operator c joined).kept = r.kept ++ [c] := by
  obtain ⟨ts, w, d, m⟩ := r
  cases w <;> simp [operator, delimit, kept, Token.bytes]

theorem settle_eq (h : r.settle lone = some r') :
    r'.bytes = r.bytes ∧ r'.dollar = false ∧ r'.mode = r.mode := by
  unfold settle at h
  split_ifs at h with hd hl
  · cases h
    simp [bytes, kept, pending, hd]
  · cases h
    simp [hd]

theorem bytes_eq (hd : r.dollar = false) (hm : r.mode ≠ .doubleEsc) : r.bytes = r.kept := by
  simp [bytes, pending, hd, hm]

/-- A byte that is no quote is kept in any mode. -/
theorem ne_mark {P : Kind → Prop} (h1 : c ≠ 0x27) (h2 : c ≠ 0x22) : ∀ k, c = Kind.mark k → P k
  | .single, hc => absurd hc h1
  | .double, hc => absurd hc h2

/-- **What a byte does**: it is kept, or goes, opens or closes quotes, is a `\` that quotes the next
byte, or is quoted by the `\` before it, which goes. -/
inductive Effect (r : Reader) (c : UInt8) (r' : Reader) : Prop where
  | keep (hb : r'.bytes = r.bytes ++ [c]) (hi : r'.mode.inside = r.mode.inside)
      (he : r'.mode.isEsc = false)
      (hq : r.mode.isEsc = true ∨ ∀ k, c = Kind.mark k → r.mode.inside = some k.other)
  | drop (hb : r'.bytes = r.bytes) (hi : r'.mode.inside = r.mode.inside)
      (he : r'.mode.isEsc = false)
  | enter (k : Kind) (hb : r'.bytes = r.bytes) (hc : c = k.mark) (hi : r.mode.inside = none)
      (hi' : r'.mode.inside = some k)
  | leave (k : Kind) (hb : r'.bytes = r.bytes) (hc : c = k.mark) (hi : r.mode.inside = some k)
      (ho : ∃ joined, r'.mode = .out joined)
  | escape (hb : r'.bytes = r.bytes) (hc : c = 0x5C) (hi : r.mode.inside = none)
  | unescape (w : List UInt8) (hb : r.bytes = w ++ [0x5C])
      (hb' : r'.bytes = w ∧ c ≠ 0x5C ∨ r'.bytes = w ++ [c])
      (hi : r'.mode.inside = r.mode.inside) (he : r'.mode.isEsc = false)

/-- Outside quotes. -/
theorem effect_settledOut (hd : r.dollar = false) (hm : r.mode = .out joined)
    (h : r.settledOut joined c = some r') : Effect r c r' := by
  have hb : r.bytes = r.kept := bytes_eq hd (by simp [hm])
  unfold settledOut at h
  split_ifs at h with h1 h2 h3 h4 h5 h6 h7 <;> cases h
  · exact .enter .single (by rw [hb, bytes_eq (by simpa) (by simp), kept_enter]) h1
      (by simp [hm, Mode.inside]) rfl
  · exact .enter .double (by rw [hb, bytes_eq (by simpa) (by simp), kept_enter]) h2
      (by simp [hm, Mode.inside]) rfl
  · exact .drop (by rw [hb, bytes_eq (by simpa) (by simp), kept_delimit])
      (by simp [hm, Mode.inside]) (by simp [Mode.isEsc])
  · exact .keep (by rw [hb, bytes_eq (by simpa) (by simp), kept_operator])
      (by simp [hm, Mode.inside]) (by simp [Mode.isEsc]) (.inr (ne_mark h1 h2))
  · exact .drop (by simp [bytes, kept, pending, hm]) (by simp [hm, Mode.inside])
      (by simp [Mode.isEsc])
  · refine .keep ?_ (by simp [hm, Mode.inside]) (by simp [Mode.isEsc]) (.inr (ne_mark h1 h2))
    rw [hb]
    simp [bytes, pending, kept, enter, h6]
  · exact .keep (by rw [hb, bytes_eq (by simpa) (by simp), kept_push])
      (by simp [hm, Mode.inside]) (by simp [Mode.isEsc]) (.inr (ne_mark h1 h2))

/-- Inside double quotes. -/
theorem effect_settledDouble (hd : r.dollar = false) (hm : r.mode = .double)
    (h : r.settledDouble c = some r') : Effect r c r' := by
  have hb : r.bytes = r.kept := bytes_eq hd (by simp [hm])
  unfold settledDouble at h
  split_ifs at h with h1 h2 h3 <;> cases h
  · exact .leave .double (by rw [hb, bytes_eq (by simpa) (by simp), kept_enter]) h1
      (by simp [hm, Mode.inside]) ⟨false, rfl⟩
  · refine .keep ?_ (by simp [hm, Mode.inside]) (by simp [hm, Mode.isEsc]) (.inr ?_)
    · rw [hb]
      simp [bytes, pending, kept, hm, h3]
    · exact ne_mark (by simp [h3]) h1
  · refine .keep (by rw [hb, bytes_eq (by simpa) (by simp), kept_push])
      (by simp [hm, Mode.inside]) (by simp [Mode.isEsc]) (.inr fun k hk => ?_)
    cases k with
    | single => simp [hm, Mode.inside, Kind.other]
    | double => exact absurd hk h1

theorem Effect.of_settle {r₁ : Reader} (hs : r.settle lone = some r₁) (h : Effect r₁ c r') :
    Effect r c r' := by
  obtain ⟨hb, -, hm⟩ := settle_eq hs
  cases h with
  | keep hb' hi he hq => exact .keep (by rw [hb', hb]) (by rw [hi, hm]) he (by rwa [← hm])
  | drop hb' hi he => exact .drop (by rw [hb', hb]) (by rw [hi, hm]) he
  | enter k hb' hc hi hi' => exact .enter k (by rw [hb', hb]) hc (by rwa [← hm]) hi'
  | leave k hb' hc hi ho => exact .leave k (by rw [hb', hb]) hc (by rwa [← hm]) ho
  | escape hb' hc hi => exact .escape (by rw [hb', hb]) hc (by rwa [← hm])
  | unescape w hb₁ hb' hi he => exact .unescape w (by rw [← hb, hb₁]) hb' (by rw [hi, hm]) he

/-- What is settled is kept. -/
theorem settle_kept {r₁ : Reader} (hs : r.settle lone = some r₁) (hm : r.mode ≠ .doubleEsc) :
    r.bytes = r₁.kept ∧ r₁.dollar = false := by
  obtain ⟨hb, hd, hm₁⟩ := settle_eq hs
  rw [← hb, bytes_eq hd (by rwa [hm₁])]
  exact ⟨rfl, hd⟩

section modes

variable (h : step lone r c = some r')
include h

theorem effect_out (hm : r.mode = .out joined) : Effect r c r' := by
  rw [step, hm] at h
  dsimp only at h
  unfold readOut at h
  split_ifs at h with hx hc
  · cases h
    exact .escape (by simp [bytes, kept, pending, hm]) hc (by simp [hm, Mode.inside])
  · obtain ⟨r₁, hs, h⟩ := Option.bind_eq_some_iff.mp h
    obtain ⟨-, hd, hm₁⟩ := settle_eq hs
    exact .of_settle hs (effect_settledOut hd (hm₁.trans hm) h)

theorem effect_esc (hm : r.mode = .esc joined) : Effect r c r' := by
  rw [step, hm] at h
  dsimp only at h
  split_ifs at h with hc
  · cases h
    exact .drop (by simp [bytes, kept, pending, hm]) (by simp [hm, Mode.inside]) rfl
  · obtain ⟨r₁, hs, rfl⟩ := Option.map_eq_some_iff.mp h
    obtain ⟨hb, hd⟩ := settle_kept hs (by simp [hm])
    exact .keep (by rw [hb, bytes_eq (by simpa) (by simp), kept_push])
      (by simp [hm, Mode.inside]) rfl (.inl (by simp [hm, Mode.isEsc]))

theorem effect_single (hm : r.mode = .single) : Effect r c r' := by
  rw [step, hm] at h
  obtain ⟨r₁, hs, rfl⟩ := Option.map_eq_some_iff.mp h
  obtain ⟨hb, hd⟩ := settle_kept hs (by simp [hm])
  split_ifs with hc
  · exact .leave .single (by rw [hb, bytes_eq (by simpa) (by simp), kept_enter]) hc
      (by simp [hm, Mode.inside]) ⟨false, rfl⟩
  · refine .keep (by rw [hb, bytes_eq (by simpa) (by simp), kept_push]) (by simp [hm, Mode.inside])
      rfl (.inr fun k hk => ?_)
    cases k with
    | single => exact absurd hk hc
    | double => simp [hm, Mode.inside, Kind.other]

theorem effect_double (hm : r.mode = .double) : Effect r c r' := by
  rw [step, hm] at h
  dsimp only at h
  unfold readDouble at h
  split_ifs at h with hx hc
  · cases h
    refine .keep ?_ (by simp [hm, Mode.inside]) rfl (.inr (ne_mark (by simp [hc]) (by simp [hc])))
    simp [bytes, kept, pending, hm, hc]
  · obtain ⟨r₁, hs, h⟩ := Option.bind_eq_some_iff.mp h
    obtain ⟨-, hd, hm₁⟩ := settle_eq hs
    exact .of_settle hs (effect_settledDouble hd (hm₁.trans hm) h)

theorem effect_doubleEsc (hm : r.mode = .doubleEsc) : Effect r c r' := by
  have hkept : ∀ r₁ : Reader, r.settle lone = some r₁ →
      r.bytes = r₁.kept ++ [0x5C] ∧ r₁.dollar = false := by
    intro r₁ hs
    obtain ⟨hb, hd, hm₁⟩ := settle_eq hs
    rw [← hb]
    exact ⟨by simp [bytes, pending, hd, hm₁, hm], hd⟩
  rw [step, hm] at h
  dsimp only at h
  unfold readDoubleEsc at h
  split_ifs at h with hn he
  · cases h
    exact .unescape (r.kept ++ if r.dollar then [0x24] else []) (by simp [bytes, pending, hm])
      (.inl ⟨by simp [bytes, kept, pending], by simp [hn]⟩) (by simp [hm, Mode.inside]) rfl
  · obtain ⟨r₁, hs, rfl⟩ := Option.map_eq_some_iff.mp h
    obtain ⟨hb, hd⟩ := hkept r₁ hs
    exact .unescape r₁.kept hb (.inr (by rw [bytes_eq (by simpa) (by simp), kept_push]))
      (by simp [hm, Mode.inside]) rfl
  · obtain ⟨r₁, hs, rfl⟩ := Option.map_eq_some_iff.mp h
    obtain ⟨hb, hd⟩ := hkept r₁ hs
    refine .keep (by rw [hb, bytes_eq (by simpa) (by simp), kept_push, kept_push])
      (by simp [hm, Mode.inside]) rfl (.inr fun k hk => ?_)
    cases k with
    | single => simp [hm, Mode.inside, Kind.other]
    | double => exact absurd (by simp [hk, isEscapable, Kind.mark]) he

theorem effect_comment (hm : r.mode = .comment) : Effect r c r' := by
  rw [step, hm] at h
  dsimp only at h
  split_ifs at h with hn
  · obtain ⟨r₁, hs, rfl⟩ := Option.map_eq_some_iff.mp h
    obtain ⟨hb, hd⟩ := settle_kept hs (by simp [hm])
    exact .keep (by rw [hb, bytes_eq (by simpa) (by simp), kept_operator])
      (by simp [hm, Mode.inside]) (by simp [Mode.isEsc])
        (.inr (ne_mark (by simp [hn]) (by simp [hn])))
  · cases h
    exact .drop rfl rfl (by simp [hm, Mode.isEsc])

end modes

/-- **Every step** has one of the effects. -/
theorem step_effect (h : step lone r c = some r') : Effect r c r' :=
  match hm : r.mode with
  | .out _ => effect_out h hm
  | .esc _ => effect_esc h hm
  | .single => effect_single h hm
  | .double => effect_double h hm
  | .doubleEsc => effect_doubleEsc h hm
  | .comment => effect_comment h hm

/-- What is read is the command with some bytes left out. -/
theorem step_sublist (h : step lone r c = some r') : r'.bytes.Sublist (r.bytes ++ [c]) := by
  cases step_effect h with
  | keep hb => rw [hb]
  | drop hb | enter _ hb | leave _ hb | escape hb =>
    rw [hb]
    exact List.sublist_append_left _ _
  | unescape w hb hb' =>
    rw [hb]
    rcases hb' with ⟨he, -⟩ | he
    · rw [he, List.append_assoc]
      exact List.sublist_append_left _ _
    · rw [he]
      exact (List.sublist_append_left w _).append_right _

theorem run_nil : run lone r [] = some r' ↔ r = r' := Option.some_inj

theorem run_cons : run lone r (c :: s) = (step lone r c).bind fun r => run lone r s := rfl

theorem run_append : run lone r (s ++ t) = (run lone r s).bind fun r => run lone r t :=
  exec_append r s t

theorem run_singleton : run lone r [c] = step lone r c := Option.bind_fun_some _

theorem run_sublist : ∀ {s : List UInt8} {r : Reader}, run lone r s = some r' →
    r'.bytes.Sublist (r.bytes ++ s)
  | [], r, h => by
    obtain rfl := run_nil.mp h
    simp
  | c :: s, r, h => by
    rw [run_cons] at h
    obtain ⟨r₁, h₁, h⟩ := Option.bind_eq_some_iff.mp h
    have hstep : (r₁.bytes ++ s).Sublist (r.bytes ++ [c] ++ s) := (step_sublist h₁).append_right s
    rw [List.append_assoc] at hstep
    exact (run_sublist h).trans hstep

theorem finish_bytes {ts : List Token} (h : r.finish lone = some ts) :
    (ts.flatMap Token.bytes).Sublist r.bytes := by
  unfold finish at h
  split at h
  case h_1 joined hm =>
    obtain ⟨r₁, hs, rfl⟩ := Option.map_eq_some_iff.mp h
    obtain ⟨hb, hd, hm₁⟩ := settle_eq hs
    rw [← hb, bytes_eq hd (by simp [hm₁, hm])]
    rw [← kept_delimit (m := .out false)]
    exact List.sublist_append_left _ _
  case h_2 hm =>
    cases h
    unfold bytes kept
    rw [List.append_assoc]
    exact List.sublist_append_left _ _
  case h_3 => cases h

/-- A command that ends is outside quotes. -/
theorem inside_of_finish {ts : List Token} (h : r.finish lone = some ts) :
    r.mode.inside = none := by
  unfold finish at h
  split at h
  case h_1 joined hm => simp [hm, Mode.inside]
  case h_2 hm => simp [hm, Mode.inside]
  case h_3 => cases h

/-- Only its own mark ends a quoted text. -/
theorem step_inside {k : Kind} (h : step lone r c = some r') (hi : r.mode.inside = some k)
    (hc : c ≠ k.mark) : r'.mode.inside = some k := by
  cases step_effect h with
  | keep _ hi' | drop _ hi' | unescape _ _ _ hi' => rw [hi', hi]
  | leave k' _ hc' hi' =>
    obtain rfl : k = k' := Option.some.inj (hi.symm.trans hi')
    exact absurd hc' hc
  | enter _ _ _ hi' | escape _ _ hi' => simp [hi'] at hi

theorem run_inside {k : Kind} : ∀ {s : List UInt8} {r : Reader}, run lone r s = some r' →
    r.mode.inside = some k → k.mark ∉ s → r'.mode.inside = some k
  | [], r, h, hi, _ => by
    obtain rfl := run_nil.mp h
    exact hi
  | c :: s, r, h, hi, hs => by
    rw [run_cons] at h
    obtain ⟨r₁, h₁, h⟩ := Option.bind_eq_some_iff.mp h
    have hc : c ≠ k.mark := (List.ne_of_not_mem_cons hs).symm
    exact run_inside h (step_inside h₁ hi hc) (List.not_mem_of_not_mem_cons hs)

/-! ### Where the quotes go -/

/-- No byte `b` goes between two readers. -/
def Whole (b : UInt8) (r : Reader) (s : List UInt8) (r' : Reader) : Prop :=
  r'.bytes.count b = r.bytes.count b + s.count b

theorem whole_cons {r₁ : Reader} {b : UInt8} (h₁ : step lone r c = some r₁)
    (h : run lone r₁ s = some r') (hw : Whole b r (c :: s) r') :
    Whole b r [c] r₁ ∧ Whole b r₁ s r' := by
  have hle₁ := (step_sublist h₁).count_le b
  have hle := (run_sublist h).count_le b
  unfold Whole at *
  rw [List.count_append] at hle₁ hle
  have hc : ([c] ++ s).count b = [c].count b + s.count b := List.count_append
  rw [List.singleton_append] at hc
  omega

/-- Nothing read is a mark of the kind `k`, and no such mark can come in. -/
structure Markless (k : Kind) (r : Reader) : Prop where
  notMem : k.mark ∉ r.bytes
  inside : r.mode.inside ≠ some k.other
  esc : r.mode.isEsc = false

/-- **A mark is kept** only after a `\`, or inside the other quotes, which go. -/
theorem Markless.step {k : Kind} (hr : Markless k r) (h : step lone r c = some r')
    (he : Whole 0x5C r [c] r') (ho : Whole k.other.mark r [c] r') : Markless k r' := by
  unfold Whole at he ho
  cases step_effect h with
  | keep hb hi hesc hq =>
    refine ⟨?_, by rw [hi]; exact hr.inside, hesc⟩
    rw [hb, List.mem_append, not_or]
    refine ⟨hr.notMem, fun hc => ?_⟩
    rcases hq with hq | hq
    · rw [hr.esc] at hq
      cases hq
    · exact hr.inside (hq k (List.mem_singleton.mp hc).symm)
  | drop hb hi hesc => exact ⟨by rw [hb]; exact hr.notMem, by rw [hi]; exact hr.inside, hesc⟩
  | enter k' hb hc hi hi' =>
    refine ⟨by rw [hb]; exact hr.notMem, fun hk => ?_, ?_⟩
    · rw [hi'] at hk
      rw [hb, hc, Option.some.inj hk] at ho
      simp at ho
    · exact Mode.isEsc_of_inside hi'
  | leave k' hb hc hi hout =>
    obtain ⟨joined, hm⟩ := hout
    exact ⟨by rw [hb]; exact hr.notMem, by simp [hm, Mode.inside], by simp [hm, Mode.isEsc]⟩
  | escape hb hc =>
    rw [hb, hc] at he
    simp at he
  | unescape w hb hb' hi hesc =>
    rw [hb, List.count_append] at he
    rcases hb' with ⟨hb', hc⟩ | hb'
    · rw [hb', List.count_singleton_self] at he
      omega
    · rw [hb', List.count_append] at he
      simp at he

theorem Markless.run {k : Kind} : ∀ {s : List UInt8} {r : Reader}, Markless k r →
    run lone r s = some r' → Whole 0x5C r s r' → Whole k.other.mark r s r' → Markless k r'
  | [], r, hr, h, _, _ => by
    obtain rfl := run_nil.mp h
    exact hr
  | c :: s, r, hr, h, he, ho => by
    rw [run_cons] at h
    obtain ⟨r₁, h₁, h⟩ := Option.bind_eq_some_iff.mp h
    obtain ⟨he₁, he₂⟩ := whole_cons h₁ h he
    obtain ⟨ho₁, ho₂⟩ := whole_cons h₁ h ho
    exact (hr.step h₁ he₁ ho₁).run h he₂ ho₂

theorem bytes_start : start.bytes = [] := rfl

theorem markless_start (k : Kind) : Markless k start :=
  ⟨by simp [bytes_start], by simp [start, Mode.inside], rfl⟩

end Reader

variable {lone : Bool} {cmd s : List UInt8} {ts : List Token}

theorem readTokens_eq_some : readTokens lone cmd = some ts ↔
    ∃ r, Reader.start.run lone cmd = some r ∧ r.finish lone = some ts := Option.bind_eq_some_iff

/-- **What is read is the command with some bytes left out.** -/
theorem readTokens_sublist (h : readTokens lone cmd = some ts) :
    (ts.flatMap Token.bytes).Sublist cmd := by
  obtain ⟨r, hr, hf⟩ := readTokens_eq_some.mp h
  exact (Reader.finish_bytes hf).trans (Reader.run_sublist hr)

/-- **The quotes of one kind go**, if no `\` and none of the other quotes goes. -/
theorem mark_notMem (h : readTokens lone cmd = some ts) (k : Kind)
    (he : cmd.count 0x5C ≤ (ts.flatMap Token.bytes).count 0x5C)
    (ho : cmd.count k.other.mark ≤ (ts.flatMap Token.bytes).count k.other.mark) :
    k.mark ∉ ts.flatMap Token.bytes := by
  obtain ⟨r, hr, hf⟩ := readTokens_eq_some.mp h
  have hts := Reader.finish_bytes hf
  have hsub := Reader.run_sublist hr
  have hwhole : ∀ b, cmd.count b ≤ (ts.flatMap Token.bytes).count b →
      Reader.Whole b .start cmd r := by
    intro b hb
    have h₁ := hts.count_le b
    have h₂ := hsub.count_le b
    unfold Reader.Whole
    rw [Reader.bytes_start] at h₂ ⊢
    simp only [List.nil_append, List.count_nil, Nat.zero_add] at h₂ ⊢
    omega
  have hm := (Reader.markless_start k).run hr (hwhole _ he) (hwhole _ ho)
  exact fun hmem => hm.notMem (hts.subset hmem)

/-! ### Texts between quotes -/

namespace Reader

/-- **Between single quotes** every text without one stands for itself. -/
theorem run_single (ts : List Token) : ∀ {s : List UInt8} (w : List UInt8), 0x27 ∉ s →
    run lone ⟨ts, some w, false, .single⟩ (s ++ [0x27]) =
    some ⟨ts, some (w ++ s), false, .out false⟩
  | [], w, _ => by simp [run_singleton, step, settle, enter]
  | c :: s, w, hs => by
    have hc : c ≠ 0x27 := (List.ne_of_not_mem_cons hs).symm
    have ih := run_single ts (w ++ [c]) (List.not_mem_of_not_mem_cons hs)
    rw [List.cons_append, run_cons]
    simpa [step, settle, hc, push] using ih

end Reader

/-- **A plain text**, which stands for itself between double quotes: no `"` and no backquote, a `\`
only before a byte that it does not quote, and, where a `$` that begins no expansion stands for
itself, a `$` only there. -/
def Plain (lone : Bool) : List UInt8 → Prop
  | [] => True
  | c :: s => c ≠ 0x22 ∧ c ≠ 0x60 ∧ (c = 0x5C → ∃ d ∈ s.head?, isEscapable d = false) ∧
      (c = 0x24 → lone = true ∧ ∀ d ∈ s.head?, begins d = false) ∧ Plain lone s

instance (lone : Bool) : DecidablePred (Plain lone)
  | [] => isTrue trivial
  | _ :: s =>
    have := instDecidablePredListUInt8Plain lone s
    inferInstanceAs (Decidable (_ ∧ _ ∧ _ ∧ _ ∧ _))

/-- An ordinary byte. -/
theorem plain_cons {c : UInt8} (h1 : c ≠ 0x22) (h2 : c ≠ 0x60) (h3 : c ≠ 0x5C) (h4 : c ≠ 0x24) :
    Plain lone (c :: s) ↔ Plain lone s := by
  simp [Plain, h1, h2, h3, h4]

namespace Reader

/-- A `$` and a `\` that are not settled. -/
def unsettled (d e : Bool) : List UInt8 := (if d then [0x24] else []) ++ if e then [0x5C] else []

theorem length_unsettled (d : Bool) : (unsettled d true).length =
    (unsettled d false).length + 1 := by
  cases d <;> rfl

/-- Inside double quotes, in a word. -/
def quoted (ts : List Token) (w : List UInt8) (d e : Bool) : Reader :=
  ⟨ts, some w, d, if e then .doubleEsc else .double⟩

/-- Behind the closing quote. -/
def closed (ts : List Token) (w : List UInt8) : Reader := ⟨ts, some w, false, .out false⟩

theorem bytes_quoted (ts : List Token) (w : List UInt8) (d e : Bool) :
    (quoted ts w d e).bytes = ts.flatMap Token.bytes ++ w ++ unsettled d e := by
  cases e <;> simp [quoted, bytes, kept, pending, unsettled]

theorem bytes_closed (ts : List Token) (w : List UInt8) :
    (closed ts w).bytes = ts.flatMap Token.bytes ++ w := by
  simp [closed, bytes, kept, pending]

/-- The mark that closes a quoted text is not kept. -/
theorem run_closed {k : Kind} {s : List UInt8} {r r' : Reader} (hi : r.mode.inside = some k)
    (hs : k.mark ∉ s) (h : run lone r (s ++ [k.mark]) = some r') (ho : r'.mode.inside = none) :
    r'.bytes.Sublist (r.bytes ++ s) := by
  rw [run_append] at h
  obtain ⟨r₁, h₁, h⟩ := Option.bind_eq_some_iff.mp h
  have hi₁ := run_inside h₁ hi hs
  have hlast : step lone r₁ k.mark = some r' := run_singleton.symm.trans h
  cases step_effect hlast with
  | keep _ hi' | drop _ hi' | unescape _ _ _ hi' => simp [hi', hi₁] at ho
  | enter _ _ _ hi' | escape _ _ hi' => simp [hi'] at hi₁
  | leave _ hb =>
    rw [hb]
    exact run_sublist h₁

/-- A text of which a byte goes does not stand for itself. -/
theorem run_ne_closed {ts : List Token} {w v s : List UInt8} {d : Bool} (hs : 0x22 ∉ s)
    (hl : (w ++ unsettled d false ++ s).length < v.length) :
    run lone (quoted ts w d false) (s ++ [0x22]) ≠ some (closed ts v) := by
  intro h
  have hlen := (run_closed (k := .double) (by simp [quoted, Mode.inside]) hs h
    (by simp [closed, Mode.inside])).length_le
  rw [bytes_quoted, bytes_closed] at hlen
  simp only [List.length_append] at hlen hl
  omega

section quoted

variable (ts : List Token) (w : List UInt8) (d : Bool)

theorem step_quoted_escape :
    step lone (quoted ts w d false) 0x5C = some (quoted ts w d true) := by
  cases d <;> simp [step, quoted, readDouble, begins]

theorem step_quoted_dollar :
    step lone (quoted ts w false false) 0x24 = some (quoted ts w true false) := by
  simp [step, quoted, readDouble, settle, settledDouble]

theorem step_quoted_push {c : UInt8} (h1 : c ≠ 0x22) (h2 : c ≠ 0x60) (h3 : c ≠ 0x5C)
    (h4 : c ≠ 0x24) : step lone (quoted ts w false false) c =
    some (quoted ts (w ++ [c]) false false) := by
  simp [step, quoted, readDouble, settle, settledDouble, push, h1, h2, h3, h4]

/-- After a `$` that begins no expansion. -/
theorem step_quoted_settle {c : UInt8} (hb : begins c = false) (hc : c ≠ 0x5C) :
    step lone (quoted ts w true false) c =
      if lone then step lone (quoted ts (w ++ [0x24]) false false) c else none := by
  cases lone <;> simp [step, quoted, readDouble, settle, hb, hc]

/-- After a `\` that quotes nothing. -/
theorem step_quoted_esc {c : UInt8} (hc : isEscapable c = false) :
    step lone (quoted ts w d true) c =
      if d && !lone then none
      else some (quoted ts (w ++ unsettled d true ++ [c]) false false) := by
  have hn : c ≠ 0x0A := fun he => by simp [he, isEscapable] at hc
  cases d <;> cases lone <;>
    simp [step, quoted, readDoubleEsc, settle, push, unsettled, hc, hn]

/-- After a `\` that quotes it a byte goes, or the `\`. -/
theorem step_quoted_unescape {c : UInt8} (hc : isEscapable c = true) {r : Reader}
    (h : step lone (quoted ts w d true) c = some r) : ∃ v e, r = quoted ts v e false ∧
      (v ++ unsettled e false).length < (w ++ unsettled d true).length + 1 := by
  rcases eq_or_ne c 0x0A with rfl | hn
  · refine ⟨w, d, ?_, ?_⟩
    · simpa [step, quoted, readDoubleEsc] using h.symm
    · rw [List.length_append, List.length_append, length_unsettled]
      omega
  · refine ⟨w ++ unsettled d false ++ [c], false, ?_, by simp [unsettled]⟩
    cases d <;> cases lone <;>
      simpa [step, quoted, readDoubleEsc, settle, push, unsettled, hc, hn] using h.symm

end quoted

/-- Behind whatever has been read of the quoted text, the rest of it stands for itself exactly when
it is plain there. -/
def StandsIffPlain (lone : Bool) (ts : List Token) (s : List UInt8) : Prop :=
  ∀ (w : List UInt8) (d e : Bool), run lone (quoted ts w d e) (s ++ [0x22]) =
    some (closed ts (w ++ (unsettled d e ++ s))) ↔ Plain lone (unsettled d e ++ s)

theorem standsIffPlain_nil (lone : Bool) (ts : List Token) : StandsIffPlain lone ts [] := by
  intro w d e
  cases d <;> cases e <;> cases lone <;>
    simp [run_singleton, step, quoted, closed, unsettled, readDouble, readDoubleEsc, settle,
      settledDouble, enter, push, begins, isEscapable, Plain]

section standsIffPlain

variable {ts : List Token} {c : UInt8} (ih : StandsIffPlain lone ts s) (w : List UInt8)
include ih

/-- A byte after which everything is settled. -/
theorem StandsIffPlain.settled (hc : c ≠ 0x22) :
    run lone (quoted ts w false false) (c :: s ++ [0x22]) = some (closed ts (w ++ (c :: s))) ↔
      Plain lone (c :: s) := by
  rw [List.cons_append, run_cons]
  rcases eq_or_ne c 0x5C with rfl | h3
  · rw [step_quoted_escape]
    exact ih w false true
  rcases eq_or_ne c 0x24 with rfl | h4
  · rw [step_quoted_dollar]
    exact ih w true false
  rcases eq_or_ne c 0x60 with rfl | h2
  · simp [step, quoted, readDouble, settle, settledDouble, Plain]
  · have hw : w ++ (c :: s) = w ++ [c] ++ s := by simp
    rw [step_quoted_push ts w hc h2 h3 h4, hw, plain_cons hc h2 h3 h4]
    exact ih (w ++ [c]) false false

/-- A byte after a `$`. -/
theorem StandsIffPlain.dollar (hc : c ≠ 0x22) :
    run lone (quoted ts w true false) (c :: s ++ [0x22]) =
      some (closed ts (w ++ (0x24 :: c :: s))) ↔ Plain lone (0x24 :: c :: s) := by
  rcases eq_or_ne c 0x5C with rfl | h3
  · rw [List.cons_append, run_cons, step_quoted_escape]
    exact ih w true true
  rcases Bool.eq_false_or_eq_true (begins c) with hb | hb
  · simp [run_cons, step, quoted, readDouble, Plain, hb]
  rcases Bool.eq_false_or_eq_true lone with rfl | rfl
  · have hw : w ++ (0x24 :: c :: s) = w ++ [0x24] ++ (c :: s) := by simp
    have hp : Plain true (0x24 :: c :: s) ↔ Plain true (c :: s) := by simp [Plain, hb]
    rw [List.cons_append, run_cons, step_quoted_settle ts w hb h3, if_pos rfl, ← run_cons, hw, hp]
    exact ih.settled (w ++ [0x24]) hc
  · rw [List.cons_append, run_cons, step_quoted_settle ts w hb h3]
    simp [Plain]

/-- A byte after a `\`. -/
theorem StandsIffPlain.esc (d : Bool) (hs : 0x22 ∉ s) :
    run lone (quoted ts w d true) (c :: s ++ [0x22]) =
      some (closed ts (w ++ (unsettled d true ++ c :: s))) ↔
        Plain lone (unsettled d true ++ c :: s) := by
  rw [List.cons_append, run_cons]
  rcases Bool.eq_false_or_eq_true (isEscapable c) with hc | hc
  · have hp : ¬ Plain lone (unsettled d true ++ c :: s) := by
      cases d <;> simp [unsettled, Plain, hc]
    refine iff_of_false (fun h => ?_) hp
    obtain ⟨r, hr, h⟩ := Option.bind_eq_some_iff.mp h
    obtain ⟨v, e, rfl, hl⟩ := step_quoted_unescape ts w d hc hr
    refine run_ne_closed hs ?_ h
    simp only [List.length_append, List.length_cons] at hl ⊢
    omega
  · have hne : c ≠ 0x22 ∧ c ≠ 0x60 ∧ c ≠ 0x5C ∧ c ≠ 0x24 := by
      refine ⟨?_, ?_, ?_, ?_⟩ <;> (rintro rfl; simp [isEscapable] at hc)
    obtain ⟨h1, h2, h3, h4⟩ := hne
    rw [step_quoted_esc ts w d hc]
    rcases Bool.eq_false_or_eq_true (d && !lone) with hl | hl
    · obtain ⟨rfl, rfl⟩ : d = true ∧ lone = false := by simpa using hl
      simp [unsettled, Plain]
    · have hp : Plain lone (unsettled d true ++ c :: s) ↔ Plain lone s := by
        revert hl
        cases d <;> cases lone <;> simp [unsettled, Plain, begins, hc, h1, h2, h3, h4]
      have hw : w ++ (unsettled d true ++ c :: s) = w ++ unsettled d true ++ [c] ++ s := by
        simp [List.append_assoc]
      rw [hp, hw, hl]
      exact ih (w ++ unsettled d true ++ [c]) false false

end standsIffPlain

/-- By induction on the text; what has been read before a byte decides what the byte does. -/
theorem standsIffPlain (ts : List Token) : ∀ {s : List UInt8}, 0x22 ∉ s → StandsIffPlain lone ts s
  | [], _ => standsIffPlain_nil lone ts
  | c :: s, hs => by
    have hc : c ≠ 0x22 := (List.ne_of_not_mem_cons hs).symm
    have hs' : 0x22 ∉ s := List.not_mem_of_not_mem_cons hs
    have ih : StandsIffPlain lone ts s := standsIffPlain ts hs'
    intro w d e
    match d, e with
    | false, false => exact ih.settled w hc
    | true, false => exact ih.dollar w hc
    | d, true => exact ih.esc w d hs'

/-- **Between double quotes** a text without one stands for itself exactly when it is plain. -/
theorem run_double_iff (ts : List Token) (hs : 0x22 ∉ s) :
    run lone (quoted ts [] false false) (s ++ [0x22]) = some (closed ts s) ↔ Plain lone s :=
  standsIffPlain ts hs [] false false

/-- Without a `"` the quoted text goes on. -/
theorem step_quoted (ts : List Token) {w : List UInt8} {d e : Bool} {c : UInt8} {r : Reader}
    (hc : c ≠ 0x22) (h : step lone (quoted ts w d e) c = some r) :
    ∃ v d e, r = quoted ts v d e := by
  have hplain : ∀ {w : List UInt8}, step lone (quoted ts w false false) c = some r →
      ∃ v d e, r = quoted ts v d e := by
    intro w h
    rcases eq_or_ne c 0x5C with rfl | h3
    · exact ⟨w, false, true, by rw [step_quoted_escape] at h; exact (Option.some.inj h).symm⟩
    rcases eq_or_ne c 0x24 with rfl | h4
    · exact ⟨w, true, false, by rw [step_quoted_dollar] at h; exact (Option.some.inj h).symm⟩
    rcases eq_or_ne c 0x60 with rfl | h2
    · simp [step, quoted, readDouble, settle, settledDouble] at h
    · rw [step_quoted_push ts w hc h2 h3 h4] at h
      exact ⟨w ++ [c], false, false, (Option.some.inj h).symm⟩
  match d, e, h with
  | false, false, h => exact hplain h
  | true, false, h =>
    rcases eq_or_ne c 0x5C with rfl | h3
    · exact ⟨w, true, true, by rw [step_quoted_escape] at h; exact (Option.some.inj h).symm⟩
    rcases Bool.eq_false_or_eq_true (begins c) with hb | hb
    · simp [step, quoted, readDouble, hb] at h
    · rw [step_quoted_settle ts w hb h3] at h
      split_ifs at h
      exact hplain h
  | d, true, h =>
    rcases Bool.eq_false_or_eq_true (isEscapable c) with he | he
    · obtain ⟨v, d, rfl, -⟩ := step_quoted_unescape ts w d he h
      exact ⟨v, d, false, rfl⟩
    · rw [step_quoted_esc ts w d he] at h
      split_ifs at h
      exact ⟨_, false, false, (Option.some.inj h).symm⟩

theorem run_quoted (ts : List Token) : ∀ {s w : List UInt8} {d e : Bool} {r : Reader}, 0x22 ∉ s →
    run lone (quoted ts w d e) s = some r → ∃ v d e, r = quoted ts v d e
  | [], w, d, e, _, _, h => ⟨w, d, e, (Option.some.inj h).symm⟩
  | c :: s, w, d, e, r, hs, h => by
    rw [run_cons] at h
    obtain ⟨r₁, h₁, h⟩ := Option.bind_eq_some_iff.mp h
    obtain ⟨v, d, e, rfl⟩ := step_quoted ts (List.ne_of_not_mem_cons hs).symm h₁
    exact run_quoted ts (List.not_mem_of_not_mem_cons hs) h

/-- A `"` closes the quoted text, unless a `\` stands before it. -/
theorem run_quoted_mark {ts : List Token} {s w : List UInt8} {d e : Bool} {r : Reader}
    (hs : 0x22 ∉ s) (h : run lone (quoted ts w d e) (s ++ [0x22]) = some r) :
    (∃ v, r = closed ts v) ∨ r.mode.inside = some .double := by
  rw [run_append] at h
  obtain ⟨r₁, h₁, h⟩ := Option.bind_eq_some_iff.mp h
  obtain ⟨v, d, e, rfl⟩ := run_quoted ts hs h₁
  have hlast : step lone (quoted ts v d e) 0x22 = some r := run_singleton.symm.trans h
  cases e with
  | true =>
    obtain ⟨v', d', rfl, -⟩ := step_quoted_unescape ts v d (by decide) hlast
    exact .inr rfl
  | false =>
    left
    cases d <;> cases lone <;>
      simp [step, quoted, readDouble, settle, settledDouble, enter, begins] at hlast
    · exact ⟨v, hlast.symm⟩
    · exact ⟨v, hlast.symm⟩
    · exact ⟨v ++ [0x24], hlast.symm⟩

end Reader

theorem plain_notMem : ∀ {s : List UInt8}, Plain lone s → 0x22 ∉ s
  | [], _ => List.not_mem_nil
  | _ :: _, ⟨hc, _, _, _, hs⟩ => by
    rw [List.mem_cons, not_or]
    exact ⟨hc.symm, plain_notMem hs⟩

/-! ### Texts put into a command -/

section

variable {pre post : List UInt8}

/-- A command that ends with a text between single quotes. -/
theorem readTokens_single {w : List UInt8}
    (hpre : Reader.start.run lone pre = some ⟨ts, some w, false, .single⟩) (hs : 0x27 ∉ s) :
    readTokens lone (pre ++ s ++ [0x27]) = some (ts ++ [.word (w ++ s)]) := by
  rw [List.append_assoc, readTokens, Reader.run_append, hpre, Option.bind_some,
    Reader.run_single ts w hs]
  rfl

theorem count_splice {b : UInt8} (hpre : b ∉ pre) (hpost : b ∉ post) :
    (pre ++ s ++ post).count b = s.count b := by
  rw [List.count_append, List.count_append, List.count_eq_zero.mpr hpre,
    List.count_eq_zero.mpr hpost,
    Nat.zero_add, Nat.add_zero]

/-- **A text that is read whole** has no mark of a kind of quotes, where the command around it has
no `\` and no mark of the other kind. -/
theorem splice_notMem (h : readTokens lone (pre ++ s ++ post) = some ts)
    (hs : s.Sublist (ts.flatMap Token.bytes)) (k : Kind) (hb : 0x5C ∉ pre) (hb' : 0x5C ∉ post)
    (ho : k.other.mark ∉ pre) (ho' : k.other.mark ∉ post) : k.mark ∉ s := by
  have hm : k.mark ∉ ts.flatMap Token.bytes := by
    refine mark_notMem h k ?_ ?_
    · rw [count_splice hb hb']
      exact hs.count_le _
    · rw [count_splice ho ho']
      exact hs.count_le _
  exact fun hk => hm (hs.subset hk)

/-- A format that is read whole has no `%`: what it leaves out where a conversion writes nothing
cannot be read. -/
theorem format_notMem (h : readTokens lone (pre ++ sprintf (fun _ => []) s ++ post) = some ts)
    (hs : s.Sublist (ts.flatMap Token.bytes)) (hpre : 0x25 ∉ pre) (hpost : 0x25 ∉ post) :
    0x25 ∉ s := by
  intro hmem
  have hle : s.count 0x25 ≤ (sprintf (fun _ => []) s).count 0x25 :=
    calc s.count 0x25 ≤ (ts.flatMap Token.bytes).count 0x25 := hs.count_le _
      _ ≤ (pre ++ sprintf (fun _ => []) s ++ post).count 0x25 := (readTokens_sublist h).count_le _
      _ = (sprintf (fun _ => []) s).count 0x25 := count_splice hpre hpost
  exact absurd (count_sprintf_lt hmem) (Nat.not_lt.mpr hle)

/-- **A format between single quotes** is read as it stands exactly when it has no `%` and no such
quote. -/
theorem readTokens_format_iff {w : List UInt8}
    (hpre : Reader.start.run lone pre = some ⟨ts, some w, false, .single⟩)
    (hb : ∀ b ∈ [0x22, 0x25, 0x5C], b ∉ pre) :
    (∀ va, readTokens lone (pre ++ sprintf va s ++ [0x27]) = some (ts ++ [.word (w ++ s)])) ↔
      0x25 ∉ s ∧ 0x27 ∉ s := by
  have hsub : s.Sublist ((ts ++ [Token.word (w ++ s)]).flatMap Token.bytes) := by
    simp only [List.flatMap_append, List.flatMap_singleton, Token.bytes]
    exact (List.sublist_append_right w s).trans (List.sublist_append_right _ _)
  constructor
  · intro h
    have hread := h fun _ => []
    have hfmt : 0x25 ∉ s := format_notMem hread hsub (hb _ (by simp)) (by decide)
    rw [sprintf_of_notMem _ hfmt] at hread
    exact ⟨hfmt, splice_notMem hread hsub .single (hb _ (by simp)) (by decide)
      (hb _ (by simp [Kind.other, Kind.mark])) (by decide)⟩
  · rintro ⟨hfmt, hq⟩ va
    rw [sprintf_of_notMem va hfmt]
    exact readTokens_single hpre hq

end

end MultiPortConvertor.Lib.Shell
