import MultiPortConvertor.Tool.CJsonBounds
import MultiPortConvertor.Tool.CJsonValues

/-! # The parser of `cJSON`, in memory

The same functions as in `CJsonParse`, with the items and strings that they allocate; any allocation
may fail. `cJSON_Parse` gives the items that stand for the value, or it gives `NULL` and has freed
what it has allocated (`parse_memory`). `ep` is left out. -/

namespace MultiPortConvertor.Tool.CJsonParseMemory

open MultiPortConvertor.Lib.CString MultiPortConvertor.Lib.Doubles MultiPortConvertor.Lib.Heaps
open MultiPortConvertor.Lib.Outcomes MultiPortConvertor.Lib.Parsers
open MultiPortConvertor.Lib.Scanf (isDigit)
open MultiPortConvertor.Tool.CJson MultiPortConvertor.Tool.CJsonHeap
open MultiPortConvertor.Tool.CJsonOwned
open MultiPortConvertor.Tool.CJsonValues
open MultiPortConvertor.Tool.CJsonParse (skip lenPass unescape signPart wholePart fracPart
  exponentPart)

/-- A text is read; the place where it is not well formed is left out. -/
def passed {γ : Type} : Parsed UInt8 γ → Ptr Block (γ × List UInt8)
  | .ok c r => return (c, r)
  | .fail _ => failure
  | _ => OptionT.mk fun _ => .fault

/-- `cJSON_New_Item`. -/
def newItem : Ptr Block ℕ := alloc (.item zeroItem)

/-- `parse_string`. -/
def parseString (item : ℕ) : List UInt8 → Ptr Block (List UInt8)
  | [] => failure
  | b :: s =>
    if b = 0x22 then do
      let len ← passed (lenPass s)
      let out ← alloc (Block.text [])
      let str ← passed (unescape 0 s)
      if str.1.length ≤ len.1 then do
        store (some out) (Block.text str.1)
        setItem (some item) fun i => { i with valuestring := some out, type := 4 }
        return str.2
      else OptionT.mk fun _ => .fault
    else failure

/-- `parse_number`. -/
def parseNumber (fpu : Arithmetic) (item : ℕ) (num : List UInt8) : Ptr Block (List UInt8) := do
  let sign := signPart num
  let whole := wholePart fpu sign.2
  let frac := fracPart fpu whole.1 whole.2
  let exp := exponentPart frac.2.2
  let n := fpu.rnd (sign.1 * frac.1 * fpu.pow10 (frac.2.1 + exp.1.toInt))
  setItem (some item) fun i => { i with valuedouble := n, valueint := fpu.toInt n, type := 3 }
  return exp.2

/-- The items of an array or an object, up to the closing character; `child` is the last one that
there is. -/
def items (entry : ℕ → List UInt8 → Ptr Block (List UInt8)) (close : UInt8) :
    ℕ → ℕ → List UInt8 → Ptr Block (List UInt8)
  | 0, _, _ => OptionT.mk fun _ => .blocked
  | fuel + 1, child, s => do
    match ← entry child s with
    | [] => failure
    | b :: s =>
      if b = 0x2C then do
        let new ← newItem
        suffixObject child new
        items entry close fuel new s
      else if b = close then return s
      else failure

/-- What follows the opening character; `item->child` stays `NULL` if the allocation fails. -/
def children (entry : ℕ → List UInt8 → Ptr Block (List UInt8)) (close : UInt8) (item : ℕ)
    (s : List UInt8) : Ptr Block (List UInt8) :=
  if s.head? = some close then return s.tail
  else do
    let child ← newItem
    setItem (some item) fun i => { i with child := some child }
    items entry close (s.length + 1) child s

section Values

variable (value : ℕ → List UInt8 → Ptr Block (List UInt8))

/-- `value=skip(parse_value(child,skip(value)))`. -/
def entry (child : ℕ) (s : List UInt8) : Ptr Block (List UInt8) := do
  let s ← value child (skip s)
  return skip s

/-- `parse_array`; `value` is the call of `parse_value`. -/
def parseArray (item : ℕ) : List UInt8 → Ptr Block (List UInt8)
  | [] => failure
  | b :: s =>
    if b = 0x5B then do
      setItem (some item) fun i => { i with type := 5 }
      children (entry value) 0x5D item (skip s)
    else failure

/-- A name and a value of an object; the name is read as a string, and moved. -/
def member (child : ℕ) (s : List UInt8) : Ptr Block (List UInt8) := do
  let s ← parseString child (skip s)
  setItem (some child) fun i => { i with string := i.valuestring, valuestring := none }
  match skip s with
  | [] => failure
  | b :: s => if b = 0x3A then entry value child s else failure

/-- `parse_object`. -/
def parseObject (item : ℕ) : List UInt8 → Ptr Block (List UInt8)
  | [] => failure
  | b :: s =>
    if b = 0x7B then do
      setItem (some item) fun i => { i with type := 6 }
      children (member value) 0x7D item (skip s)
    else failure

end Values

/-- `parse_value`. -/
def parseValue (fpu : Arithmetic) : ℕ → ℕ → List UInt8 → Ptr Block (List UInt8)
  | 0, _, _ => OptionT.mk fun _ => .fault
  | stack + 1, item, s =>
    if ascii "null" <+: s then do
      setItem (some item) fun i => { i with type := 2 }
      return s.drop 4
    else if ascii "false" <+: s then do
      setItem (some item) fun i => { i with type := 0 }
      return s.drop 5
    else if ascii "true" <+: s then do
      setItem (some item) fun i => { i with type := 1, valueint := 1 }
      return s.drop 4
    else
      match s with
      | [] => failure
      | b :: t =>
        if b = 0x22 then parseString item (b :: t)
        else if b = 0x2D ∨ isDigit b then parseNumber fpu item (b :: t)
        else if b = 0x5B then parseArray (parseValue fpu stack) item (b :: t)
        else if b = 0x7B then parseObject (parseValue fpu stack) item (b :: t)
        else failure

/-- `cJSON_Delete(c); return 0;` -/
def deleted {γ : Type} (fuel c : ℕ) : Ptr Block γ := do
  cjsonDelete fuel (some c)
  failure

/-- `cJSON_ParseWithOpts`: besides the item, `return_parse_end`. -/
def cjsonParseWithOpts (fpu : Arithmetic) (stack fuel : ℕ) (requireNullTerminated : Bool)
    (s : List UInt8) : Ptr Block (ℕ × List UInt8) := do
  let c ← newItem
  let rest ← parseValue fpu stack c (skip s) <|> deleted fuel c
  if requireNullTerminated then
    if skip rest = [] then return (c, []) else deleted fuel c
  else return (c, rest)

/-- `cJSON_Parse`. -/
def cjsonParse (fpu : Arithmetic) (stack fuel : ℕ) : List UInt8 → Ptr Block (ℕ × List UInt8) :=
  cjsonParseWithOpts fpu stack fuel false

/-! ### What a function leaves behind -/

variable {before : ℕ → Option Block} {Ts : List Node} {C : Ctx} {a k y : ℕ} {f g : Fields}
    {cs : List Node}
  {n : Node} {s s₁ : Heap Block} {b : UInt8} {t u r : List UInt8} {γ δ : Type} {x : Parsed UInt8 γ}
  {good : γ → Node → Prop} {str : List UInt8} {fpu : Arithmetic}

/-- The item that has been read, or what there is of it. -/
inductive Ended (s s' : Heap Block) (k : ℕ) (x : Parsed UInt8 γ) (good : γ → Node → Prop) :
    Option (List UInt8) → Node → Prop where
  | ok {v : γ} {r : List UInt8} {n : Node} (hx : x = .ok v r) (hn : good v n)
      (hsize : size n + r.length ≤ k) : Ended s s' k x good (some r) n
  | failed {n : Node} (hx : ¬ Failed s s' → ∀ v r, x ≠ .ok v r) (hsize : size n ≤ k + 1) :
      Ended s s' k x good none n

/-- The code has read the item at `a` as the parser reads it, and the memory holds what it has
built. `k` bounds the number of items. -/
def Builds (before : ℕ → Option Block) (Ts : List Node) (C : Ctx) (a : ℕ) (s : Heap Block) (k : ℕ)
    (x : Parsed UInt8 γ) (good : γ → Node → Prop) (m : Ptr Block (List UInt8)) : Prop :=
  ∃ p s' g cs, m.run s = .next (p, s') ∧ Since s s' ∧ Owns before s' (C.fill (.mk a g cs) :: Ts) ∧
    Ended s s' k x good p (.mk a g cs)

theorem builds_failure (ho : Owns before s (C.fill (.mk a f cs) :: Ts)) (hx : ∀ v r, x ≠ .ok v r)
    (hsize : size (.mk a f cs) ≤ k + 1) : Builds before Ts C a s k x good failure :=
  ⟨none, s, f, cs, rfl, Since.refl s, ho, .failed (fun _ => hx) hsize⟩

/-- What is done first changes only the item. -/
theorem Builds.step {x₂ : Parsed UInt8 δ} {good₂ : δ → Node → Prop} {k₂ : ℕ}
    {m m₂ : Ptr Block (List UInt8)} (h : Builds before Ts C a s₁ k₂ x₂ good₂ m₂)
    (hm : m.run s = m₂.run s₁) (hs : Since s s₁) (hk : k₂ ≤ k) (φ : δ → γ) (hx : x = x₂.map φ)
    (hgood : ∀ v n, good₂ v n → good (φ v) n) : Builds before Ts C a s k x good m := by
  obtain ⟨p, s', g, cs, hrun, hsince, ho, hended⟩ := h
  refine ⟨p, s', g, cs, hm.trans hrun, hs.trans hsince, ho, ?_⟩
  rw [hx]
  cases hended with
  | ok hv hn hsize => exact .ok (by rw [hv, Parsed.map_ok]) (hgood _ _ hn) (hsize.trans hk)
  | failed hv hsize =>
    refine .failed (fun hp v r h => ?_) (by omega)
    obtain ⟨w, hw, -⟩ := Parsed.map_eq_ok.mp h
    exact hv (fun hfail => hp (hs.failed hfail)) w r hw

/-- A function that goes on where another one has stopped. -/
theorem Builds.bind {F : List UInt8 → Ptr Block (List UInt8)} {φ : γ → Parser UInt8 δ} {k₂ : ℕ}
    {good₂ : δ → Node → Prop} {m : Ptr Block (List UInt8)} (h : Builds before Ts C a s k x good m)
    (hk : k ≤ k₂)
    (hF : ∀ {v r s₁ g cs}, x = .ok v r → good v (.mk a g cs) → size (.mk a g cs) + r.length ≤ k →
      Owns before s₁ (C.fill (.mk a g cs) :: Ts) → Builds before Ts C a s₁ k₂ (φ v r) good₂ (F r)) :
    Builds before Ts C a s k₂ (x.bind φ) good₂ (m >>= F) := by
  obtain ⟨p, s', g, cs, hrun, hsince, ho, hended⟩ := h
  cases hended with
  | ok hv hn hsize =>
    refine (hF hv hn hsize ho).step (run_bind_some hrun) hsince le_rfl id ?_ fun _ _ h => h
    rw [hv, Parsed.ok_bind, Parsed.map_id]
  | failed hv hsize =>
    refine ⟨none, s', g, cs, run_bind_none hrun, hsince, ho,
      .failed (fun hp w r h => ?_) (by omega)⟩
    obtain ⟨v, r', hx, -⟩ := Parsed.bind_eq_ok.mp h
    exact hv hp v r' hx

/-! ### Strings -/

theorem lenPass_ne_fail : ∀ (s : List UInt8) (ep : List UInt8), lenPass s ≠ .fail ep := by
  intro s ep
  fun_induction lenPass s with
  | case1 => simp
  | case2 => simp
  | case3 b s hb hb' ih => exact fun h => ih (Parsed.map_eq_fail.mp h)
  | case4 => simp
  | case5 b hb c s hb' ih => exact fun h => ih (Parsed.map_eq_fail.mp h)

theorem unescape_ne_fail (n : ℕ) (s ep : List UInt8) : unescape n s ≠ .fail ep := by
  fun_induction unescape n s with
  | case1 => simp
  | case2 => simp
  | case3 k c s ih => exact ih
  | case4 => simp
  | case5 b s hb hb' ih => exact fun h => ih (Parsed.map_eq_fail.mp h)
  | case6 => simp
  | case7 b hb hb' c s ih => exact fun h => ih (Parsed.map_eq_fail.mp h)

theorem unescape_length {n : ℕ} {s out : List UInt8} (h : unescape n s = .ok out r) :
    r.length ≤ s.length := by
  fun_induction unescape n s generalizing out with
  | case1 =>
    cases h
    exact le_rfl
  | case2 => cases h
  | case3 k c s ih => exact (ih h).trans (Nat.le_succ _)
  | case4 =>
    cases h
    exact Nat.le_succ _
  | case5 b s hb hb' ih =>
    obtain ⟨out', hout, -⟩ := Parsed.map_eq_ok.mp h
    exact (ih hout).trans (Nat.le_succ _)
  | case6 => cases h
  | case7 b hb hb' c s ih =>
    obtain ⟨out', hout, -⟩ := Parsed.map_eq_ok.mp h
    exact (ih hout).trans ((Nat.le_succ _).trans (Nat.le_succ _))

/-- The type of an item is written. -/
def typed (f : Fields) (type : UInt32) (h : isReference type = false ∧ stringIsConst type = false) :
    Fields :=
  { newFields type f.valuestring f.valueint f.valuedouble h with string := f.string }

/-- A string is put into an item. -/
def texted (f : Fields) (y : ℕ) (str : List UInt8) : Fields :=
  { stringFields y str with
    valueint := f.valueint, valuedouble := f.valuedouble, string := f.string }

theorem passed_ok {c : γ} (hx : x = .ok c r) : (passed x).run s = .next (some (c, r), s) := by
  rw [hx]
  rfl

theorem parseString_builds (ho : Owns before s (C.fill (.mk a f []) :: Ts))
    (hf : f.valuestring = none) (hx : Sound (CJsonParse.parseString t)) :
    Builds before Ts C a s t.length (CJsonParse.parseString t)
      (fun str n => ∃ y, n = .mk a (texted f y str) []) (parseString a t) := by
  rcases t with _ | ⟨b, u⟩
  · exact builds_failure ho (fun _ _ h => by cases h) (Nat.le_refl _)
  by_cases hb : b = 0x22
  swap
  · rw [parseString, if_neg hb]
    refine builds_failure ho (fun _ _ h => ?_) (Nat.succ_le_succ (Nat.zero_le _))
    rw [CJsonParse.parseString, if_neg hb] at h
    cases h
  rw [CJsonParse.parseString, if_pos hb] at hx ⊢
  rw [parseString, if_pos hb]
  -- the two passes
  rcases hlen : lenPass u with ⟨len, r₁⟩ | ep | _ | _
  all_goals rw [hlen] at hx
  rotate_left
  · exact absurd hlen (lenPass_ne_fail u ep)
  · exact absurd hx not_sound_outside
  · exact absurd hx not_sound_overflow
  rw [Parsed.ok_bind] at hx ⊢
  rcases hstr : unescape 0 u with ⟨str, r⟩ | ep | _ | _
  all_goals rw [hstr] at hx
  rotate_left
  · exact absurd hstr (unescape_ne_fail 0 u ep)
  · exact absurd hx not_sound_outside
  · exact absurd hx not_sound_overflow
  rw [Parsed.ok_bind] at hx ⊢
  by_cases hle : str.length ≤ len
  swap
  · rw [if_neg hle] at hx
    exact absurd hx not_sound_outside
  rw [if_pos hle]
  have hread : ∀ F : ℕ × List UInt8 → Ptr Block (List UInt8),
    (passed (Parsed.ok len r₁) >>= F).run s =
      (F (len, r₁)).run s := fun F => run_bind_some rfl
  rcases alloc_cases ho.ready (Block.text []) with ⟨hnull, hfail⟩ | ⟨y, hy, -, hsome⟩
  · refine ⟨none, s.later 1, f, [], (hread _).trans (run_bind_none hnull), ⟨1, rfl⟩, ho.failed, ?_⟩
    exact .failed (fun h => absurd hfail h) (Nat.succ_le_succ (Nat.zero_le _))
  · have hstore : store (some y) (Block.text str) ((s.later 1).put y (.text [])) =
        .next ((), (s.later 1).put y (.text str)) := by
      rw [store_some put_self, put_put]
    obtain ⟨s', hset, hs', ho'⟩ := ho.putText (g := texted f y str)
      (w := fun i => { i with valuestring := some y, type := 4 }) hy str (by
        simp [Fields.texts, texted, stringFields, newFields, hf]) fun _ _ _ => rfl
    refine ⟨some r, s', texted f y str, [], ?_, ⟨1, hs'⟩, ho', .ok rfl ⟨y, rfl⟩ ?_⟩
    · refine (hread _).trans ((run_bind_some hsome).trans
        ((run_bind_some (passed_ok rfl)).trans ?_))
      show (if str.length ≤ len then _ else _ : Ptr Block (List UInt8)).run _ = _
      rw [if_pos hle, run_lift_bind hstore, run_lift_bind hset]
      rfl
    · have hr : r.length ≤ u.length := unescape_length hstr
      show 1 + r.length ≤ u.length + 1
      omega

/-! ### Words and numbers -/

/-- The item stands for the value, and has the name that it had. -/
def Valued (f : Fields) (v : CJSON) (n : Node) : Prop := Stands n v ∧ name n = f.string.map Prod.snd

/-- A value that needs no memory but that of the item. -/
theorem scalar_builds (ho : Owns before s (C.fill (.mk a f []) :: Ts)) {w : Item → Item} {v : CJSON}
    {m : Ptr Block (List UInt8)} {x : Parsed UInt8 CJSON} (htexts : g.texts = f.texts)
    (hw : ∀ prev next child, w (f.item prev next child) = g.item prev next child)
    (hname : g.string = f.string) (hv : Stands (.mk a g []) v) (hx : x = .ok v r)
    (hr : r.length + 1 ≤ k) (hm : m = do
      setItem (some a) w
      return r) : Builds before Ts C a s k x (Valued f) m := by
  obtain ⟨s', hset, hs', ho'⟩ := ho.write htexts hw
  refine ⟨some r, s', g, [], ?_, Since.of_eq hs', ho', .ok hx ⟨hv, ?_⟩ ?_⟩
  · rw [hm, run_lift_bind hset]
    rfl
  · show g.string.map Prod.snd = _
    rw [hname]
  · show 1 + r.length ≤ k
    omega

theorem length_drop_word {w : List UInt8} (hw : w <+: t) (hne : w ≠ []) :
    (t.drop w.length).length + 1 ≤ t.length := by
  have hpos := List.length_pos_iff.mpr hne
  have hle := hw.length_le
  rw [List.length_drop]
  omega

theorem parseNumber_builds (ho : Owns before s (C.fill (.mk a f []) :: Ts))
    (hb : b = 0x2D ∨ isDigit b = true) : Builds before Ts C a s (b :: t).length
    (CJsonParse.parseNumber fpu (b :: t)) (Valued f)
      (parseNumber fpu a (b :: t)) := by
  rcases hx : CJsonParse.parseNumber fpu (b :: t) with ⟨v, r⟩ | ep | _ | _
  · have hr : r.length ≤ t.length := (CJsonBounds.parseNumber_passed hb hx).suffix.length_le
    rw [CJsonParse.parseNumber, Parsed.ok.injEq] at hx
    obtain ⟨rfl, rfl⟩ := hx
    exact scalar_builds (g := { typed f 3 (by decide) with valuedouble := _, valueint := _ }) ho rfl
      (fun _ _ _ => rfl) rfl (.number rfl) rfl (Nat.succ_le_succ hr) rfl
  all_goals
    rw [CJsonParse.parseNumber] at hx
    cases hx

/-! ### Lists -/

/-- What `parse_value` does. -/
def Careful (value : ℕ → List UInt8 → Ptr Block (List UInt8)) (pure : Parser UInt8 CJSON) : Prop :=
  ∀ {before : ℕ → Option Block} {Ts : List Node} {C : Ctx} {a : ℕ} {f : Fields} {s : Heap Block}
  {t : List UInt8},
    Owns before s (C.fill (.mk a f []) :: Ts) → f.valuestring = none → Sound (pure t) →
    Builds before Ts C a s t.length (pure t) (Valued f) (value a t)

/-- What is done with an entry. -/
def CarefulItem (entry : ℕ → List UInt8 → Ptr Block (List UInt8)) (pure : Parser UInt8 γ)
    (good : γ → Node → Prop) : Prop :=
  ∀ {before : ℕ → Option Block} {Ts : List Node} {C : Ctx} {a : ℕ} {f : Fields} {s : Heap Block}
  {t : List UInt8},
    Owns before s (C.fill (.mk a f []) :: Ts) → f.valuestring = none → f.string = none →
    Sound (pure t) →
    Builds before Ts C a s t.length (pure t) good (entry a t)

/-- The fields after `memset`. -/
def zeroFields : Fields := newFields 0 none 0 0 (by decide)

theorem sizeAll_concat (n : Node) : ∀ cs : List Node, sizeAll (cs ++ [n]) = sizeAll cs + size n
  | [] => by simp [sizeAll]
  | c :: cs => by
    rw [List.cons_append, sizeAll, sizeAll, sizeAll_concat n cs, Nat.add_assoc]

variable {entry' : ℕ → List UInt8 → Ptr Block (List UInt8)} {pure' : Parser UInt8 γ} {close : UInt8}
  {L : List γ → List Node → Prop}

/-- **The loop over the items.** -/
theorem items_builds (hentry : CarefulItem entry' pure' good)
    (hL : ∀ {vs cs v n}, L vs cs → good v n → L (vs ++ [v]) (cs ++ [n])) :
    ∀ {fuel : ℕ} {t : List UInt8} {s : Heap Block} {cs : List Node} {us : List γ}
    {d : Fields} {child : ℕ},
    Owns before s (C.fill (.mk a f (cs ++ [.mk child d []])) :: Ts) → d.valuestring = none →
    d.string = none →
    L us cs → Sound (Lib.Parsers.items pure' 0x2C close fuel t) →
    Builds before Ts C a s (sizeAll cs + 1 + t.length) (Lib.Parsers.items pure' 0x2C close fuel t)
      (fun vs n => ∃ cs', n = .mk a f cs' ∧ L (us ++ vs) cs') (items entry' close fuel child t)
  | 0, _, _, _, _, _, _, _, _, _, _, hx => absurd hx not_sound_overflow
  | fuel + 1, t, s, cs, us, d, child, ho, hd, hd', hus, hx => by
    have hdown : ∀ n, (C.comp (.down a f cs .here [])).fill n = C.fill (.mk a f (cs ++ [n])) :=
      fun n =>
      fill_comp (.down a f cs .here []) n C
    have ho' : Owns before s ((C.comp (.down a f cs .here [])).fill (.mk child d []) :: Ts) := by
      rw [hdown]
      exact ho
    obtain ⟨p, s₁, g, ds, hrun, hsince, ho₁, hended⟩ := hentry ho' hd hd' hx.of_bind
    rw [hdown] at ho₁
    have hsize : size (.mk a f (cs ++ [.mk child g ds])) = sizeAll cs +
        size (.mk child g ds) + 1 := by
      show sizeAll (cs ++ [.mk child g ds]) + 1 = _
      rw [sizeAll_concat]
    cases hended with
    | failed hv hk =>
      refine ⟨none, s₁, f, _, run_bind_none hrun, hsince, ho₁,
        .failed (fun hp w r h => ?_) (by omega)⟩
      obtain ⟨v, r', hv', -⟩ := Parsed.bind_eq_ok.mp h
      exact hv hp v r' hv'
    | @ok v r _ hv hn hk =>
      rw [Lib.Parsers.items, hv, Parsed.ok_bind] at hx ⊢
      have hnode : size (.mk a f (cs ++ [.mk child g ds])) + r.length ≤
        sizeAll cs + 1 + t.length := by omega
      refine Builds.step ?_ (run_bind_some hrun) hsince le_rfl id (Parsed.map_id _).symm
        fun _ _ h => h
      rcases r with _ | ⟨b, r⟩
      · exact builds_failure ho₁ (fun _ _ h => by cases h) (by omega)
      rw [List.length_cons] at hnode
      dsimp only at hx ⊢
      by_cases hb : b = 0x2C
      · rw [if_pos hb] at hx
        rw [if_pos hb, if_pos hb]
        rcases alloc_cases ho₁.ready (Block.item zeroItem) with ⟨hnull, hfail⟩ | ⟨y, hy, -, hsome⟩
        · refine ⟨none, s₁.later 1, f, _, run_bind_none hnull, ⟨1, rfl⟩, ho₁.failed, ?_⟩
          exact .failed (fun h => absurd hfail h) (by omega)
        · obtain ⟨-, ho₂⟩ := ho₁.fresh hy
          obtain ⟨s₃, hlink, hs₃, ho₃⟩ :=
            ho₂.attach (attaches_suffix _ a f cs (.mk child g ds) (.mk y zeroFields []))
          have ih := items_builds hentry hL ho₃ rfl rfl (hL hus hn) hx.of_map
          refine ih.step ((run_bind_some hsome).trans (run_lift_bind hlink)) ⟨1, hs₃⟩ ?_
            (v :: ·) rfl ?_
          · rw [sizeAll_concat]
            omega
          · rintro vs n ⟨cs', rfl, hcs'⟩
            exact ⟨cs', rfl, by simpa using hcs'⟩
      · rw [if_neg hb, if_neg hb]
        by_cases hc : b = close
        · rw [if_pos hc, if_pos hc]
          exact ⟨some r, s₁, f, _, rfl, Since.refl s₁, ho₁, .ok rfl ⟨_, rfl, hL hus hn⟩ (by omega)⟩
        · rw [if_neg hc, if_neg hc]
          exact builds_failure ho₁ (fun _ _ h => by cases h) (by omega)

/-- What follows the opening character. -/
theorem children_builds (hentry : CarefulItem entry' pure' good)
    (hL : ∀ {vs cs v n}, L vs cs → good v n → L (vs ++ [v]) (cs ++ [n])) (hnil : L [] [])
    (ho : Owns before s (C.fill (.mk a f []) :: Ts))
    (hx : Sound (if t.head? = some close then .ok [] t.tail
      else Lib.Parsers.items pure' 0x2C close (t.length + 1) t)) :
    Builds before Ts C a s (t.length + 1)
      (if t.head? = some close then .ok [] t.tail
        else Lib.Parsers.items pure' 0x2C close (t.length + 1) t)
      (fun vs n => ∃ cs, n = .mk a f cs ∧ L vs cs) (children entry' close a t) := by
  unfold children
  by_cases hclose : t.head? = some close
  · rw [if_pos hclose, if_pos hclose]
    refine ⟨some t.tail, s, f, [], rfl, Since.refl s, ho, .ok rfl ⟨[], rfl, hnil⟩ ?_⟩
    show 1 + t.tail.length ≤ t.length + 1
    rw [List.length_tail]
    omega
  · rw [if_neg hclose] at hx
    rw [if_neg hclose, if_neg hclose]
    rcases alloc_cases ho.ready (Block.item zeroItem) with ⟨hnull, hfail⟩ | ⟨y, hy, -, hsome⟩
    · refine ⟨none, s.later 1, f, [], run_bind_none hnull, ⟨1, rfl⟩, ho.failed, ?_⟩
      exact .failed (fun h => absurd hfail h) (Nat.succ_le_succ (Nat.zero_le _))
    · obtain ⟨-, ho₁⟩ := ho.fresh hy
      obtain ⟨s₂, hlink, hs₂, ho₂⟩ := ho₁.attach (attaches_first _ a f (.mk y zeroFields []))
      have ho₂' : Owns before s₂ (C.fill (.mk a f ([] ++ [.mk y zeroFields []])) :: Ts) := ho₂
      have hitems := items_builds hentry hL ho₂' rfl rfl hnil hx
      refine hitems.step ((run_bind_some hsome).trans (run_lift_bind hlink)) ⟨1, hs₂⟩ ?_ id
        (Parsed.map_id _).symm fun _ _ h => h
      show 0 + 1 + t.length ≤ t.length + 1
      omega

/-! ### Values -/

theorem length_skip (t : List UInt8) : (skip t).length ≤ t.length :=
  (List.dropWhile_suffix _).length_le

variable {value : ℕ → List UInt8 → Ptr Block (List UInt8)} {pureValue : Parser UInt8 CJSON}

theorem entry_builds (hv : Careful value pureValue) (ho : Owns before s (C.fill (.mk a f []) :: Ts))
    (hf : f.valuestring = none) (hx : Sound (CJsonParse.entry pureValue t)) :
    Builds before Ts C a s t.length (CJsonParse.entry pureValue t) (Valued f)
    (entry value a t) := by
  refine (hv ho hf hx.of_bind).bind (length_skip t) fun {v r s₁ g cs} _ hn hsize ho₁ => ?_
  have hr := length_skip r
  exact ⟨some (skip r), s₁, g, cs, rfl, Since.refl s₁, ho₁, .ok rfl hn (by
    have ht := length_skip t
    omega)⟩

theorem parseArray_builds (hv : Careful value pureValue)
    (ho : Owns before s (C.fill (.mk a f []) :: Ts))
    (hx : Sound (CJsonParse.parseArray pureValue t)) :
    Builds before Ts C a s t.length ((CJsonParse.parseArray pureValue t).map .array) (Valued f)
      (parseArray value a t) := by
  rcases t with _ | ⟨b, u⟩
  · exact builds_failure ho (fun _ _ h => by cases h) (Nat.le_refl _)
  by_cases hb : b = 0x5B
  · rw [CJsonParse.parseArray, if_pos hb] at hx ⊢
    rw [parseArray, if_pos hb]
    obtain ⟨s₁, hset, hs₁, ho₁⟩ := ho.write (g := typed f 5 (by decide))
      (w := fun i => { i with type := 5 }) rfl fun _ _ _ => rfl
    have hentry : CarefulItem (entry value) (CJsonParse.entry pureValue) fun v n =>
        name n = none ∧ Stands n v :=
      fun ho hf hname hx => (entry_builds hv ho hf hx).step rfl (Since.refl _) le_rfl id
        (Parsed.map_id _).symm fun v n hn => ⟨by rw [hn.2, hname]; rfl, hn.1⟩
    have hlist := children_builds (L := fun vs cs => Entries cs vs) hentry
      (fun h hn => h.concat hn.1 hn.2) .nil ho₁ hx
    refine hlist.step (run_lift_bind hset) (Since.of_eq hs₁)
      (Nat.succ_le_succ (length_skip u)) .array rfl ?_
    rintro vs n ⟨cs, rfl, hcs⟩
    exact ⟨.array rfl hcs, rfl⟩
  · rw [parseArray, if_neg hb]
    refine builds_failure ho (fun _ _ h => ?_) (Nat.succ_le_succ (Nat.zero_le _))
    rw [CJsonParse.parseArray, if_neg hb] at h
    cases h

/-- A name and a value. -/
theorem member_builds (hv : Careful value pureValue)
    (ho : Owns before s (C.fill (.mk a f []) :: Ts)) (hf : f.valuestring = none)
    (hname : f.string = none) (hx : Sound (CJsonParse.member pureValue t)) :
    Builds before Ts C a s t.length (CJsonParse.member pureValue t)
      (fun m n => name n = some m.1 ∧ Stands n m.2) (member value a t) := by
  refine (parseString_builds ho hf hx.of_bind).bind (length_skip t) fun {str r s₁ g cs} hstr hn
    hsize ho₁ => ?_
  obtain ⟨y, hn⟩ := hn
  obtain ⟨rfl, rfl⟩ : g = texted f y str ∧ cs = [] := by
    rw [Node.mk.injEq] at hn
    exact hn.2
  rw [CJsonParse.member, hstr, Parsed.ok_bind] at hx
  have ht := length_skip t
  have hr := length_skip r
  -- the name is moved
  obtain ⟨s₂, hset, hs₂, ho₂⟩ := ho₁.write
    (g := { texted f y str with string := some (y, str), valuestring := none })
    (w := fun i => { i with string := i.valuestring, valuestring := none })
    (by simp [Fields.texts, texted, stringFields, newFields, hname]) fun _ _ _ => rfl
  have hsize' : 1 + r.length ≤ (skip t).length := hsize
  refine Builds.step ?_ (run_lift_bind hset) (Since.of_eq hs₂) le_rfl id (Parsed.map_id _).symm
    fun _ _ h => h
  rcases hskip : skip r with _ | ⟨b, u⟩
  · exact builds_failure ho₂ (fun _ _ h => by cases h) (Nat.succ_le_succ (Nat.zero_le _))
  rw [hskip] at hx
  rw [hskip, List.length_cons] at hr
  dsimp only at hx ⊢
  by_cases hb : b = 0x3A
  · rw [if_pos hb] at hx
    rw [if_pos hb, if_pos hb]
    refine (entry_builds hv ho₂ rfl hx.of_map).step rfl (Since.refl s₂) (by omega) _ rfl ?_
    exact fun v n hn => ⟨hn.2, hn.1⟩
  · rw [if_neg hb, if_neg hb]
    exact builds_failure ho₂ (fun _ _ h => by cases h) (Nat.succ_le_succ (Nat.zero_le _))

theorem parseObject_builds (hv : Careful value pureValue)
    (ho : Owns before s (C.fill (.mk a f []) :: Ts))
    (hx : Sound (CJsonParse.parseObject pureValue t)) :
    Builds before Ts C a s t.length ((CJsonParse.parseObject pureValue t).map .object) (Valued f)
      (parseObject value a t) := by
  rcases t with _ | ⟨b, u⟩
  · exact builds_failure ho (fun _ _ h => by cases h) (Nat.le_refl _)
  by_cases hb : b = 0x7B
  · rw [CJsonParse.parseObject, if_pos hb] at hx ⊢
    rw [parseObject, if_pos hb]
    obtain ⟨s₁, hset, hs₁, ho₁⟩ := ho.write (g := typed f 6 (by decide))
      (w := fun i => { i with type := 6 }) rfl fun _ _ _ => rfl
    have hlist := children_builds (L := fun ms cs => Members cs ms) (member_builds hv)
      (fun h hn => h.concat hn.1 hn.2) .nil ho₁ hx
    refine hlist.step (run_lift_bind hset) (Since.of_eq hs₁) (Nat.succ_le_succ (length_skip u))
      .object rfl ?_
    rintro vs n ⟨cs, rfl, hcs⟩
    exact ⟨.object rfl hcs, rfl⟩
  · rw [parseObject, if_neg hb]
    refine builds_failure ho (fun _ _ h => ?_) (Nat.succ_le_succ (Nat.zero_le _))
    rw [CJsonParse.parseObject, if_neg hb] at h
    cases h

/-- **`parse_value`**, by induction on the room on the stack. -/
theorem parseValue_builds (fpu : Arithmetic) : ∀ stack : ℕ,
    Careful (parseValue fpu stack) (CJsonParse.parseValue fpu stack) := by
  intro stack
  induction stack with
  | zero => exact fun _ _ hx => absurd hx not_sound_overflow
  | succ stack ih =>
    intro before Ts C a f s t ho hf hx
    unfold CJsonParse.parseValue at hx ⊢
    unfold parseValue
    by_cases hnull : ascii "null" <+: t
    · rw [if_pos hnull, if_pos hnull]
      exact scalar_builds (g := typed f 2 (by decide)) ho rfl (fun _ _ _ => rfl) rfl (.null rfl) rfl
        (length_drop_word hnull (by decide)) rfl
    rw [if_neg hnull] at hx
    rw [if_neg hnull, if_neg hnull]
    by_cases hfalse : ascii "false" <+: t
    · rw [if_pos hfalse, if_pos hfalse]
      exact scalar_builds (g := typed f 0 (by decide)) ho rfl (fun _ _ _ => rfl) rfl
        (.bool false rfl) rfl (length_drop_word hfalse (by decide)) rfl
    rw [if_neg hfalse] at hx
    rw [if_neg hfalse, if_neg hfalse]
    by_cases htrue : ascii "true" <+: t
    · rw [if_pos htrue, if_pos htrue]
      exact scalar_builds (g := { typed f 1 (by decide) with valueint := 1 }) ho rfl
        (fun _ _ _ => rfl) rfl (.bool true rfl) rfl (length_drop_word htrue (by decide)) rfl
    rw [if_neg htrue] at hx
    rw [if_neg htrue, if_neg htrue]
    rcases t with _ | ⟨b, u⟩
    · exact builds_failure ho (fun _ _ h => by cases h) (Nat.le_refl _)
    dsimp only at hx ⊢
    by_cases hquote : b = 0x22
    · rw [if_pos hquote] at hx
      rw [if_pos hquote, if_pos hquote]
      refine (parseString_builds ho hf hx.of_map).step rfl (Since.refl s) le_rfl .string rfl ?_
      rintro str n ⟨y, rfl⟩
      exact ⟨.string rfl rfl, rfl⟩
    rw [if_neg hquote] at hx
    rw [if_neg hquote, if_neg hquote]
    by_cases hnum : b = 0x2D ∨ isDigit b = true
    · rw [if_pos hnum, if_pos hnum]
      exact parseNumber_builds ho hnum
    rw [if_neg hnum] at hx
    rw [if_neg hnum, if_neg hnum]
    by_cases harray : b = 0x5B
    · rw [if_pos harray] at hx
      rw [if_pos harray, if_pos harray]
      exact parseArray_builds ih ho hx.of_map
    rw [if_neg harray] at hx
    rw [if_neg harray, if_neg harray]
    by_cases hobject : b = 0x7B
    · rw [if_pos hobject] at hx
      rw [if_pos hobject, if_pos hobject]
      exact parseObject_builds ih ho hx.of_map
    · rw [if_neg hobject, if_neg hobject]
      exact builds_failure ho (fun _ _ h => by cases h) (Nat.succ_le_succ (Nat.zero_le _))

/-! ### The whole text -/

/-- What `cJSON_ParseWithOpts` gives for a text that the parser reads as `x`, and what it leaves
behind. -/
inductive Read (s s' : Heap Block) (k : ℕ) (x : Parsed UInt8 CJSON) :
    Option (ℕ × List UInt8) → Prop where
  | ok {T : Node} {v : CJSON} {r : List UInt8} (hx : x = .ok v r) (hT : Stands T v)
      (ho : Owns s.blocks s' [T]) (hsize : size T ≤ k) : Read s s' k x (some (T.addr, r))
  | null (hx : ¬ Failed s s' → ∀ v r, x ≠ .ok v r) (ho : Owns s.blocks s' []) : Read s s' k x none

theorem deleted_spec (fuel : ℕ) (ho : Owns before s (n :: Ts)) (hfuel : size n ≤ fuel) : ∃ s',
    (deleted fuel n.addr : Ptr Block γ).run s = .next (none, s') ∧ s'.supply = s.supply ∧
    Owns before s' Ts := by
  obtain ⟨s', hdelete, hs', ho'⟩ := ho.delete hfuel
  exact ⟨s', run_lift_bind hdelete, hs', ho'⟩

/-- **`cJSON_ParseWithOpts`**, whichever allocations fail. -/
theorem parse_spec (fpu : Arithmetic) (requireNullTerminated : Bool) {stack fuel : ℕ} (hs : Ready s)
    (hx : Sound (CJsonParse.cjsonParseWithOpts fpu stack requireNullTerminated t))
    (hfuel : t.length + 1 ≤ fuel) :
    ∃ p s', (cjsonParseWithOpts fpu stack fuel requireNullTerminated t).run s = .next (p, s') ∧
      Since s s' ∧
      Read s s' t.length (CJsonParse.cjsonParseWithOpts fpu stack requireNullTerminated t) p := by
  have ht := length_skip t
  rcases alloc_cases hs (Block.item zeroItem) with ⟨hnull, hfail⟩ | ⟨c, hc, -, hsome⟩
  · exact ⟨none, s.later 1, run_bind_none hnull, ⟨1, rfl⟩,
      .null (fun h => absurd hfail h) (owns_nil hs).failed⟩
  obtain ⟨-, ho⟩ := (owns_nil hs).fresh hc
  have hsince₁ : Since s ((s.later 1).put c (.item zeroItem)) := ⟨1, rfl⟩
  obtain ⟨p, s₂, g, cs, hrun, hsince, ho₂, hended⟩ :=
    parseValue_builds fpu stack (C := .here) ho rfl
      (show Sound (CJsonParse.parseValue fpu stack (skip t)) from hx.of_bind)
  cases hended with
  | failed hv hsize =>
    obtain ⟨s₃, hdelete, hs₃, ho₃⟩ := deleted_spec (γ := List UInt8) fuel ho₂ (by
      show size (.mk c g cs) ≤ fuel
      omega)
    refine ⟨none, s₃, ?_, (hsince₁.trans hsince).trans (Since.of_eq hs₃),
      .null (fun hp v r h => ?_) ho₃⟩
    · exact (run_bind_some hsome).trans (run_bind_none ((run_orElse_none hrun).trans hdelete))
    · obtain ⟨w, r', hw, -⟩ := Parsed.bind_eq_ok.mp h
      exact hv (fun hfail => hp ((hsince₁.failed hfail).since (Since.of_eq hs₃))) w r' hw
  | @ok v r _ hv hn hsize =>
    have hread : (cjsonParseWithOpts fpu stack fuel requireNullTerminated t).run s =
        (if requireNullTerminated then
          if skip r = [] then return (c, []) else deleted fuel c
        else return (c, r) : Ptr Block (ℕ × List UInt8)).run s₂ :=
      (run_bind_some hsome).trans (run_bind_some (run_orElse_some hrun))
    have hpure : CJsonParse.cjsonParseWithOpts fpu stack requireNullTerminated t =
        if requireNullTerminated then if skip r = [] then .ok v [] else .fail (skip r)
          else .ok v r := by
      rw [CJsonParse.cjsonParseWithOpts, hv, Parsed.ok_bind]
    rw [hread, hpure]
    cases requireNullTerminated with
    | false =>
      exact ⟨some (c, r), s₂, rfl, hsince₁.trans hsince,
        .ok (T := .mk c g cs) rfl hn.1 ho₂ (by omega)⟩
    | true =>
      by_cases hend : skip r = []
      · rw [if_pos rfl, if_pos hend, if_pos rfl, if_pos hend]
        exact ⟨some (c, []), s₂, rfl, hsince₁.trans hsince,
          .ok (T := .mk c g cs) rfl hn.1 ho₂ (by omega)⟩
      · rw [if_pos rfl, if_neg hend, if_pos rfl, if_neg hend]
        obtain ⟨s₃, hdelete, hs₃, ho₃⟩ := deleted_spec (γ := ℕ × List UInt8) fuel ho₂ (by
          show size (.mk c g cs) ≤ fuel
          omega)
        exact ⟨none, s₃, hdelete, (hsince₁.trans hsince).trans (Since.of_eq hs₃),
          .null (fun _ _ _ h => by cases h) ho₃⟩

/-- **The parser in memory.** On a text that the parser reads without leaving it, whichever
allocations fail, no pointer that is followed is `NULL` or was freed. If the result is an item, it
stands for the value of the text, and nothing else was allocated; if it is `NULL`, everything was
freed, and one of the allocations made has failed or the text is none of a value. -/
theorem parse_memory (fpu : Arithmetic) (requireNullTerminated : Bool) {stack fuel : ℕ}
    (hs : Ready s) (hx : Sound (CJsonParse.cjsonParseWithOpts fpu stack requireNullTerminated t))
    (hfuel : t.length + 1 ≤ fuel) :
    ∃ p s', (cjsonParseWithOpts fpu stack fuel requireNullTerminated t).run s = .next (p, s') ∧
      ((∃ T v r, CJsonParse.cjsonParseWithOpts fpu stack requireNullTerminated t = .ok v r ∧
          p = some (Node.addr T, r) ∧ Stands T v ∧ Owns s.blocks s' [T]) ∨
        p = none ∧ s'.blocks = s.blocks ∧
          (Failed s s' ∨
            ∀ v r, CJsonParse.cjsonParseWithOpts fpu stack requireNullTerminated t ≠ .ok v r)) := by
  obtain ⟨p, s', hrun, -, hread⟩ := parse_spec fpu requireNullTerminated hs hx hfuel
  refine ⟨p, s', hrun, ?_⟩
  cases hread with
  | ok hx hT ho => exact .inl ⟨_, _, _, hx, rfl, hT, ho⟩
  | null hx ho => exact .inr ⟨rfl, ho.blocks_eq, or_iff_not_imp_left.mpr hx⟩

/-- An array of three entries. -/
def threeEntries : List UInt8 := ascii "[1, \"a\", [] ]"

/-- The theorem applied to it, when the fourth allocation fails: that of the second item. -/
theorem parse_memory_failing : ∃ p s',
    (cjsonParseWithOpts binary64 5 20 true threeEntries).run (Heap.failing [] 3) = .next (p, s') ∧
      ((∃ T v r, CJsonParse.cjsonParseWithOpts binary64 5 true threeEntries = .ok v r ∧
          p = some (Node.addr T, r) ∧ Stands T v ∧ Owns (Heap.failing [] 3).blocks s' [T]) ∨
        p = none ∧ s'.blocks = (Heap.failing [] 3).blocks ∧
          (Failed (Heap.failing [] 3) s' ∨
            ∀ v r, CJsonParse.cjsonParseWithOpts binary64 5 true threeEntries ≠ .ok v r)) := by
  have hx : Sound (CJsonParse.cjsonParseWithOpts binary64 5 true threeEntries) := by decide +kernel
  have hlen : threeEntries.length + 1 ≤ 20 := by decide +kernel
  exact parse_memory binary64 true (ready_failing [] 3) hx hlen

end MultiPortConvertor.Tool.CJsonParseMemory
