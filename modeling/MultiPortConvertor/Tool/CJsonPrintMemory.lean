import MultiPortConvertor.Tool.CJsonPrint
import MultiPortConvertor.Tool.CJsonValues
import Mathlib.Data.List.ReduceOption

/-! # The rendering of `cJSON`, in memory

The same functions as in `CJsonPrint`, with the texts of the children and the arrays of pointers to
them; any allocation may fail. `cJSON_Print` leaves one block, with the text, or it gives `NULL` and
leaves nothing (`print_memory`). -/

namespace MultiPortConvertor.Tool.CJsonPrintMemory

open MultiPortConvertor.Lib.CString MultiPortConvertor.Lib.Doubles MultiPortConvertor.Lib.Heaps
open MultiPortConvertor.Lib.Outcomes
open MultiPortConvertor.Tool.CJson MultiPortConvertor.Tool.CJsonHeap
open MultiPortConvertor.Tool.CJsonOwned
open MultiPortConvertor.Tool.CJsonValues
open MultiPortConvertor.Tool.CJsonPrint (cjsonText)

/-- `cJSON_free`, of a pointer that is not `NULL`. -/
def cjsonFree (p : ℕ) : Mem Block Unit := free (some p)

/-- The array of pointers at `p`. -/
def loadPointers (p : ℕ) : Mem Block (List (Option ℕ)) := do
  match ← load (some p) with
  | .pointers ps => return ps
  | _ => fun _ => .fault

/-- `p[i]=q`. -/
def setPointer (p i : ℕ) (q : Option ℕ) : Mem Block Unit := do
  let ps ← loadPointers p
  if i < ps.length then store (some p) (Block.pointers (ps.set i q)) else fun _ => .fault

/-- `while (child) numentries++,child=child->next;` -/
def countItems : ℕ → Option ℕ → Mem Block ℕ
  | _, none => return 0
  | 0, some _ => fun _ => .blocked
  | fuel + 1, some c => do
    let i ← loadItem (some c)
    let n ← countItems fuel i.next
    return n + 1

/-- `print_string_ptr`. -/
def printStringPtr (str : Option ℕ) : Ptr Block ℕ := do
  let s ← loadText str
  alloc (Block.text (printString s))

section Children

variable (value : ℕ → Ptr Block ℕ) (fmt : Bool)

/-- The texts of the children of an array; the result is `fail`. -/
def entriesLoop (entries : ℕ) : ℕ → Option ℕ → ℕ → Mem Block Bool
  | _, none, _ => return false
  | 0, some _, _ => fun _ => .blocked
  | fuel + 1, some c, i => do
    let ret ← (value c).run
    setPointer entries i ret
    let child ← loadItem (some c)
    if ret.isSome then entriesLoop entries fuel child.next (i + 1) else return true

/-- `if (entries[i]) cJSON_free(entries[i]);`, for each of them. -/
def freeEntries : List (Option ℕ) → Mem Block Unit
  | [] => return ()
  | p :: ps => do
    guarded p.isSome (free p)
    freeEntries ps

/-- The texts are copied and freed, one after the other. -/
def takeEntries : List (Option ℕ) → Mem Block (List (List UInt8))
  | [] => return []
  | p :: ps => do
    let t ← loadText p
    free p
    let ts ← takeEntries ps
    return t :: ts

/-- The block for the output, unless something has failed. -/
def outBlock (fail : Bool) : Ptr Block ℕ := if fail then failure else alloc (Block.text [])

/-- `if (fail)`: everything is freed. -/
def failEntries (entries : ℕ) : Ptr Block ℕ := do
  let ps ← loadPointers entries
  freeEntries ps
  cjsonFree entries
  failure

def composeArray (entries out : ℕ) : Ptr Block ℕ := do
  let ps ← loadPointers entries
  let texts ← takeEntries ps
  store (some out) (Block.text (CJsonPrint.printArray fmt texts))
  cjsonFree entries
  return out

/-- `print_array`; `value` is the call of `print_value`. -/
def printArray (fuel : ℕ) (child : Option ℕ) : Ptr Block ℕ := do
  let numentries ← countItems fuel child
  if numentries = 0 then alloc (Block.text (ascii "[]"))
  else do
    let entries ← alloc (Block.pointers (List.replicate numentries none))
    let fail ← entriesLoop value entries fuel child 0
    let out ← outBlock fail <|> failEntries entries
    composeArray fmt entries out

/-- The names and texts of the children of an object; the loop goes on when something fails. -/
def membersLoop (entries names : ℕ) : ℕ → Option ℕ → ℕ → Mem Block Bool
  | _, none, _ => return false
  | 0, some _, _ => fun _ => .blocked
  | fuel + 1, some c, i => do
    let child ← loadItem (some c)
    let str ← (printStringPtr child.string).run
    setPointer names i str
    let ret ← (value c).run
    setPointer entries i ret
    let fail ← membersLoop entries names fuel child.next (i + 1)
    return !(str.isSome && ret.isSome) || fail

/-- `if (names[i]) cJSON_free(names[i]);if (entries[i]) cJSON_free(entries[i]);` -/
def freeMembers : List (Option ℕ) → List (Option ℕ) → Mem Block Unit
  | n :: ns, e :: es => do
    guarded n.isSome (free n)
    guarded e.isSome (free e)
    freeMembers ns es
  | _, _ => return ()

def takeMembers : List (Option ℕ) → List (Option ℕ) → Mem Block (List (List UInt8 × List UInt8))
  | n :: ns, e :: es => do
    let name ← loadText n
    let text ← loadText e
    free n
    free e
    let ms ← takeMembers ns es
    return (name, text) :: ms
  | _, _ => return []

/-- `if (!names) {cJSON_free(entries);return 0;}` -/
def failNames (entries : ℕ) : Ptr Block ℕ := do
  cjsonFree entries
  failure

def failMembers (entries names : ℕ) : Ptr Block ℕ := do
  let ns ← loadPointers names
  let es ← loadPointers entries
  freeMembers ns es
  cjsonFree names
  cjsonFree entries
  failure

def composeObject (depth entries names out : ℕ) : Ptr Block ℕ := do
  let ns ← loadPointers names
  let es ← loadPointers entries
  let members ← takeMembers ns es
  store (some out) (Block.text (CJsonPrint.printObject fmt depth members))
  cjsonFree names
  cjsonFree entries
  return out

/-- `print_object`. -/
def printObject (depth fuel : ℕ) (child : Option ℕ) : Ptr Block ℕ := do
  let numentries ← countItems fuel child
  if numentries = 0 then alloc (Block.text (CJsonPrint.printObject fmt depth []))
  else do
    let entries ← alloc (Block.pointers (List.replicate numentries none))
    let names ← alloc (Block.pointers (List.replicate numentries none)) <|> failNames entries
    let fail ← membersLoop value entries names fuel child 0
    let out ← outBlock fail <|> failMembers entries names
    composeObject fmt depth entries names out

end Children

/-- The `switch` of `print_value`; `value` is the call for the children. -/
def printSwitch (fpu : Arithmetic) (fmt : Bool) (value : ℕ → Ptr Block ℕ)
    (depth fuel : ℕ) (i : Item) : Ptr Block ℕ :=
  let type := i.type &&& 255
  if type = 2 then alloc (Block.text (ascii "null"))
  else if type = 0 then alloc (Block.text (ascii "false"))
  else if type = 1 then alloc (Block.text (ascii "true"))
  else if type = 3 then alloc (Block.text (CJsonPrint.printNumber fpu i.valueint i.valuedouble))
  else if type = 4 then printStringPtr i.valuestring
  else if type = 5 then printArray value fmt fuel i.child
  else if type = 6 then printObject value fmt depth fuel i.child
  else failure

/-- `print_value`. -/
def printValue (fpu : Arithmetic) (fmt : Bool) : ℕ → ℕ → ℕ → Ptr Block ℕ
  | 0, _, _ => OptionT.mk fun _ => .blocked
  | fuel + 1, depth, item => do
    let i ← loadItem (some item)
    printSwitch fpu fmt (printValue fpu fmt fuel (depth + 1)) depth fuel i

/-- `cJSON_Print` and `cJSON_PrintUnformatted`. -/
def cjsonPrint (fpu : Arithmetic) (fmt : Bool) (fuel item : ℕ) : Ptr Block ℕ :=
  printValue fpu fmt fuel 0 item

/-! ### One text -/

variable {s t u : Heap Block} {prev next : Option ℕ} {c : Node} {cs : List Node}
    {bs : List (ℕ × Block)}
  {text : List UInt8} {texts : List (List UInt8)} {fpu : Arithmetic} {fmt : Bool} {e k : ℕ}
  {value : ℕ → Ptr Block ℕ}

/-- One block is left, with the text; or nothing, and the result is `NULL`. -/
inductive Printed (s t : Heap Block) (text : List UInt8) : Option ℕ → Prop where
  | block {p : ℕ} (h : Adds s t [(p, .text text)]) : Printed s t text (some p)
  | null (hp : Failed s t) (h : Adds s t []) : Printed s t text none

/-- The code renders the text. -/
def Prints (m : Ptr Block ℕ) (s : Heap Block) (text : List UInt8) : Prop :=
  ∃ p t, m.run s = .next (p, t) ∧ Printed s t text p

theorem alloc_prints (hs : Ready s) (text : List UInt8) :
    Prints (alloc (Block.text text)) s text := by
  rcases alloc_cases hs (Block.text text) with ⟨hnull, hfail⟩ | ⟨a, ha, -, hsome⟩
  · exact ⟨none, _, hnull, .null hfail (adds_nil hs).failed⟩
  · exact ⟨some a, _, hsome, .block ((adds_nil hs).alloc ha _)⟩

theorem loadText_some {a : ℕ} (h : s.blocks a = some (.text text)) :
    loadText (some a) s = .next (text, s) :=
  bind_next (load_some h)

theorem printStringPtr_prints (hs : Ready s) {a : ℕ} {str : List UInt8}
    (h : s.blocks a = some (.text str)) : Prints (printStringPtr (some a)) s (printString str) := by
  obtain ⟨p, t, hrun, hp⟩ := alloc_prints hs (printString str)
  exact ⟨p, t, (run_lift_bind (loadText_some h)).trans hrun, hp⟩

theorem countItems_spec : ∀ {cs : List Node} {prev : Option ℕ} {fuel : ℕ}, Chain s.blocks prev cs →
    cs.length ≤ fuel → countItems fuel (firstOf cs) s = .next (cs.length, s)
  | [], _, fuel, _, _ => by
    rcases fuel with _ | fuel
    · rfl
    · rfl
  | .mk a f ds :: cs, _, fuel + 1, hc, hfuel => by
    have ih := countItems_spec hc.2 (Nat.le_of_succ_le_succ hfuel)
    exact (bind_next (loadItem_some hc.1.1)).trans (bind_next ih)

/-! ### Arrays of pointers -/

theorem loadPointers_some {ps : List (Option ℕ)} (h : Adds s t ((e, .pointers ps) :: bs)) :
    loadPointers e t = .next (ps, t) :=
  bind_next (load_some (h.held (e, .pointers ps) List.mem_cons_self))

theorem setPointer_spec {qs : List (Option ℕ)} {p q : Option ℕ} {ps : List (Option ℕ)}
    (h : Adds s t ((e, .pointers (qs ++ p :: ps)) :: bs)) :
    ∃ u, setPointer e qs.length q t = .next ((), u) ∧ Since t u ∧
      Adds s u ((e, .pointers ((qs ++ [q]) ++ ps)) :: bs) := by
  obtain ⟨hstore, h'⟩ := h.store (.pointers ((qs ++ [q]) ++ ps))
  have hlt : qs.length < (qs ++ p :: ps).length := by simp
  have hset : (qs ++ p :: ps).set qs.length q = (qs ++ [q]) ++ ps := by simp
  refine ⟨t.put e _, (bind_next (loadPointers_some h)).trans ?_, Since.of_eq rfl, h'⟩
  rw [if_pos hlt, hset]
  exact hstore

/-- The texts that pointers of an array point to, with their addresses. -/
def pointersOf (os : List (Option (ℕ × List UInt8))) : List (Option ℕ) :=
  os.map (Option.map Prod.fst)

/-- Their blocks. -/
def blocksOf (os : List (Option (ℕ × List UInt8))) : List (ℕ × Block) :=
  os.reduceOption.map fun o => (o.1, .text o.2)

/-- A loop has gathered all the texts, or an allocation has failed. -/
inductive Gathered (s t : Heap Block) (texts : List (List UInt8))
    (os : List (Option (ℕ × List UInt8))) : Bool → Prop where
  | all (h : os.map (Option.map Prod.snd) = texts.map some) : Gathered s t texts os false
  | short (hp : Failed s t) (hlen : os.length = texts.length) : Gathered s t texts os true

theorem freeEntries_spec : ∀ {os : List (Option (ℕ × List UInt8))} {t : Heap Block},
    Adds s t (blocksOf os ++ bs) →
      ∃ u, freeEntries (pointersOf os) t = .next ((), u) ∧ Since t u ∧ Adds s u bs
  | [], t, h => ⟨t, rfl, Since.refl t, h⟩
  | none :: os, t, h => by
    have ih : ∃ u, freeEntries (pointersOf os) t = .next ((), u) ∧ Since t u ∧ Adds s u bs :=
      freeEntries_spec h
    exact ih
  | some (a, text) :: os, t, h => by
    obtain ⟨hfree, h₁⟩ := Adds.free (a := a) h
    have ih : ∃ u, freeEntries (pointersOf os) (t.erased [a]) = .next ((), u) ∧
        Since (t.erased [a]) u ∧ Adds s u bs := freeEntries_spec h₁
    obtain ⟨u, hrest, hsince, h₂⟩ := ih
    exact ⟨u, (bind_next hfree).trans hrest, hsince, h₂⟩

theorem takeEntries_spec : ∀ {os : List (Option (ℕ × List UInt8))} {texts : List (List UInt8)}
    {t : Heap Block},
    os.map (Option.map Prod.snd) = texts.map some → Adds s t (blocksOf os ++ bs) →
    ∃ u, takeEntries (pointersOf os) t = .next (texts, u) ∧ Adds s u bs
  | [], [], t, _, h => ⟨t, rfl, h⟩
  | none :: os, text :: texts, _, ho, _ => by simp at ho
  | some (a, str) :: os, text :: texts, t, ho, h => by
    obtain ⟨rfl, ho'⟩ : str = text ∧ os.map (Option.map Prod.snd) = texts.map some := by
      simpa using ho
    obtain ⟨hfree, h₁⟩ := Adds.free (a := a) h
    have ih : ∃ u, takeEntries (pointersOf os) (t.erased [a]) = .next (texts, u) ∧ Adds s u bs :=
      takeEntries_spec ho' h₁
    obtain ⟨u, hrest, h₂⟩ := ih
    have hload : loadText (some a) t = .next (str, t) :=
      loadText_some (h.held (a, .text str) List.mem_cons_self)
    exact ⟨u, (bind_next hload).trans ((bind_next hfree).trans (bind_next hrest)), h₂⟩

/-- `print_value` renders the children. -/
def PrintsAll (value : ℕ → Ptr Block ℕ) : List Node → List (List UInt8) → Prop :=
  List.Forall₂ fun c text => ∀ (t : Heap Block) (prev next : Option ℕ), Ready t →
  Rep t.blocks prev next c →
    Prints (value c.addr) t text

/-- **The loop over the children of an array.** -/
theorem entriesLoop_spec : ∀ {cs : List Node} {texts : List (List UInt8)}
    {prev : Option ℕ} {fuel : ℕ} {t : Heap Block} {qs : List (Option ℕ)} {bs : List (ℕ × Block)},
    PrintsAll value cs texts →
    Chain s.blocks prev cs → cs.length ≤ fuel →
    Adds s t ((e, .pointers (qs ++ List.replicate cs.length none)) :: bs) →
    ∃ fail u os, entriesLoop value e fuel (firstOf cs) qs.length t = .next (fail, u) ∧
      Adds s u ((e, .pointers (qs ++ pointersOf os)) :: (blocksOf os ++ bs)) ∧
        Gathered s u texts os fail
  | [], _, _, fuel, t, qs, bs, .nil, _, _, h => by
    refine ⟨false, t, [], ?_, h, .all rfl⟩
    rcases fuel with _ | fuel
    · rfl
    · rfl
  | .mk a f ds :: cs, text :: texts, prev, fuel + 1, t, qs, bs, .cons hv hvs, hc, hfuel, h => by
    obtain ⟨hr, hrest⟩ := hc
    obtain ⟨p, t₁, hrun, hp⟩ := hv t prev _ h.ready (Rep.adds hr h)
    cases hp with
    | @block p hp =>
      have h₁ : Adds s t₁ ((e, .pointers (qs ++ none :: List.replicate cs.length none)) ::
          (p, .text text) :: bs) :=
        (h.trans hp).perm (List.Perm.swap _ _ _)
      obtain ⟨t₂, hset, -, h₂⟩ := setPointer_spec (q := some p) h₁
      obtain ⟨fail, u, os, hloop, h₃, hos⟩ :=
        entriesLoop_spec hvs hrest (Nat.le_of_succ_le_succ hfuel) h₂
      have hload := loadItem_some (Rep.adds hr h₂).1
      refine ⟨fail, u, some (p, text) :: os, ?_, ?_, ?_⟩
      · refine (bind_next hrun).trans ((bind_next hset).trans ((bind_next hload).trans ?_))
        rw [List.length_append] at hloop
        exact hloop
      · rw [List.append_assoc] at h₃
        exact h₃.perm (List.Perm.cons _ List.perm_middle)
      · cases hos with
        | all hall => exact .all (by simp [hall])
        | short hp hlen => exact .short hp (by simp [hlen])
    | null hp h' =>
      have h₁ : Adds s t₁ ((e, .pointers (qs ++ none :: List.replicate cs.length none)) :: bs) :=
        h.trans h'
      obtain ⟨t₂, hset, hsince, h₂⟩ := setPointer_spec (q := none) h₁
      have hload := loadItem_some (Rep.adds hr h₂).1
      refine ⟨true, t₂, none :: List.replicate cs.length none, ?_, ?_,
        .short ((h.since.failed hp).since hsince) ?_⟩
      · exact (bind_next hrun).trans ((bind_next hset).trans (bind_next hload))
      · have hpointers : pointersOf (none :: List.replicate cs.length none) =
            none :: List.replicate cs.length none := by
          simp [pointersOf]
        have hblocks : blocksOf (none :: List.replicate cs.length none) = [] := by
          simp [blocksOf, List.reduceOption]
        rw [hpointers, hblocks]
        simpa using h₂
      · simp [hvs.length_eq]

theorem cjsonFree_spec {a : ℕ} {b : Block} (h : Adds s t ((a, b) :: bs)) :
    ∃ u, cjsonFree a t = .next ((), u) ∧ Since t u ∧ Adds s u bs :=
  ⟨_, h.free.1, Since.of_eq rfl, h.free.2⟩

/-- The output has its block, or something has failed. -/
theorem outBlock_cases (hs : Ready t) (fail : Bool) :
    (∃ u, (outBlock fail).run t = .next (none, u) ∧
    Since t u ∧ (fail = false → Failed t u) ∧ ∀ {bs}, Adds s t bs → Adds s u bs) ∨
    fail = false ∧ ∃ p u, (outBlock fail).run t = .next (some p, u) ∧
      ∀ {bs}, Adds s t bs → Adds s u ((p, .text []) :: bs) := by
  cases fail with
  | true => exact .inl ⟨t, rfl, Since.refl t, fun h => absurd h (by decide), fun h => h⟩
  | false =>
    rcases alloc_cases hs (Block.text []) with ⟨hnull, hfail⟩ | ⟨p, hp, -, hsome⟩
    · exact .inl ⟨_, hnull, ⟨1, rfl⟩, fun _ => hfail, fun h => h.failed⟩
    · exact .inr ⟨rfl, p, _, hsome, fun h => h.alloc hp _⟩

theorem failEntries_spec {os : List (Option (ℕ × List UInt8))}
    (h : Adds s t ((e, .pointers (pointersOf os)) :: blocksOf os)) :
    ∃ u, (failEntries e).run t = .next (none, u) ∧ Since t u ∧ Adds s u [] := by
  have hload := loadPointers_some h
  obtain ⟨u₁, hfree, hs₁, h₁⟩ := freeEntries_spec (h.perm (List.perm_append_singleton _ _).symm)
  obtain ⟨u₂, hfree', hs₂, h₂⟩ := cjsonFree_spec h₁
  exact ⟨u₂, (run_lift_bind hload).trans ((run_lift_bind hfree).trans (run_lift_bind hfree')),
    hs₁.trans hs₂, h₂⟩

theorem composeArray_spec {os : List (Option (ℕ × List UInt8))} {p : ℕ}
    (hos : os.map (Option.map Prod.snd) = texts.map some)
    (h : Adds s t ((p, .text []) :: (e, .pointers (pointersOf os)) :: blocksOf os)) :
    ∃ u, (composeArray fmt e p).run t = .next (some p, u) ∧
      Adds s u [(p, .text (CJsonPrint.printArray fmt texts))] := by
  have hload := loadPointers_some (h.perm (List.Perm.swap _ _ _))
  have hlast : ([(p, Block.text []), (e, Block.pointers (pointersOf os))] ++ blocksOf os).Perm
      (blocksOf os ++ [(p, .text []), (e, .pointers (pointersOf os))]) := List.perm_append_comm
  obtain ⟨u₁, htake, h₁⟩ := takeEntries_spec hos (h.perm hlast)
  obtain ⟨hstore, h₂⟩ := h₁.store (.text (CJsonPrint.printArray fmt texts))
  obtain ⟨u₃, hfree, -, h₃⟩ := cjsonFree_spec (h₂.perm (List.Perm.swap _ _ _))
  exact ⟨u₃, (run_lift_bind hload).trans ((run_lift_bind htake).trans ((run_lift_bind hstore).trans
    (run_lift_bind hfree))), h₃⟩

/-- **`print_array`** renders the array, if its children are rendered. -/
theorem printArray_prints {fuel : ℕ} (hs : Ready s) (hv : PrintsAll value cs texts)
    (hc : Chain s.blocks prev cs) (hfuel : cs.length ≤ fuel) :
    Prints (printArray value fmt fuel (firstOf cs)) s (CJsonPrint.printArray fmt texts) := by
  have hcount := countItems_spec hc hfuel
  by_cases hcs : cs.length = 0
  · obtain rfl := List.length_eq_zero_iff.mp hcs
    cases hv
    obtain ⟨p, t, hrun, hp⟩ := alloc_prints hs (ascii "[]")
    exact ⟨p, t, (run_lift_bind hcount).trans hrun, hp⟩
  have hstart : (printArray value fmt fuel (firstOf cs)).run s = _ := run_lift_bind hcount
  rw [if_neg hcs] at hstart
  rcases alloc_cases hs (Block.pointers (List.replicate cs.length none)) with
    ⟨hnull, hfail⟩ | ⟨e, he, -, hsome⟩
  · exact ⟨none, _, hstart.trans (run_bind_none hnull), .null hfail (adds_nil hs).failed⟩
  have h₁ : Adds s _ ((e, .pointers ([] ++ List.replicate cs.length none)) :: []) :=
    (adds_nil hs).alloc he _
  obtain ⟨fail, t, os, hloop, h₂, hos⟩ := entriesLoop_spec hv hc hfuel h₁
  rw [List.append_nil, List.nil_append] at h₂
  have hgather := hstart.trans ((run_bind_some hsome).trans (run_lift_bind hloop))
  rcases outBlock_cases (s := s) h₂.ready fail
    with ⟨u, hout, hs₁, hfail, h₃⟩ | ⟨rfl, p, u, hout, h₃⟩
  · obtain ⟨u', hfree, hs₂, h₄⟩ := failEntries_spec (h₃ h₂)
    refine ⟨none, u', hgather.trans (run_bind_none ((run_orElse_none hout).trans hfree)),
      .null ?_ h₄⟩
    cases hos with
    | all => exact (h₂.since.failed (hfail rfl)).since hs₂
    | short hp => exact hp.since (hs₁.trans hs₂)
  · cases hos with
    | all hall =>
      have hout' : ∃ u', (composeArray fmt e p).run u = .next (some p, u') ∧ _ :=
        composeArray_spec hall (h₃ h₂)
      obtain ⟨u', hcompose, h₄⟩ := hout'
      exact ⟨some p, u', hgather.trans ((run_bind_some (run_orElse_some hout)).trans hcompose),
        .block h₄⟩

/-! ### Objects -/

variable {ns es : List (Option (ℕ × List UInt8))} {members : List (List UInt8 × List UInt8)} {m : ℕ}

/-- The blocks of the names and of the texts. -/
theorem freeMembers_spec : ∀ {ns es : List (Option (ℕ × List UInt8))} {t : Heap Block},
    ns.length = es.length →
    Adds s t (blocksOf ns ++ (blocksOf es ++ bs)) →
    ∃ u, freeMembers (pointersOf ns) (pointersOf es) t = .next ((), u) ∧ Since t u ∧ Adds s u bs
  | [], [], t, _, h => ⟨t, rfl, Since.refl t, h⟩
  | n :: ns, e :: es, t, hlen, h => by
    have hname : ∃ u, guarded (n.map Prod.fst).isSome (free (n.map Prod.fst)) t = .next ((), u) ∧
        Since t u ∧ Adds s u (blocksOf ns ++ (blocksOf (e :: es) ++ bs)) := by
      rcases n with _ | ⟨a, text⟩
      · exact ⟨t, rfl, Since.refl t, h⟩
      · obtain ⟨hfree, h'⟩ := Adds.free (a := a) h
        exact ⟨_, hfree, Since.of_eq rfl, h'⟩
    obtain ⟨t₁, hfree₁, hs₁, h₁⟩ := hname
    have htext : ∃ u, guarded (e.map Prod.fst).isSome (free (e.map Prod.fst)) t₁ = .next ((), u) ∧
        Since t₁ u ∧ Adds s u (blocksOf ns ++ (blocksOf es ++ bs)) := by
      rcases e with _ | ⟨a, text⟩
      · exact ⟨t₁, rfl, Since.refl t₁, h₁⟩
      · obtain ⟨hfree, h'⟩ := Adds.free (a := a) (h₁.perm List.perm_middle)
        exact ⟨_, hfree, Since.of_eq rfl, h'⟩
    obtain ⟨t₂, hfree₂, hs₂, h₂⟩ := htext
    obtain ⟨u, hrest, hs₃, h₃⟩ := freeMembers_spec (Nat.succ.inj hlen) h₂
    exact ⟨u, (bind_next hfree₁).trans ((bind_next hfree₂).trans hrest),
      hs₁.trans (hs₂.trans hs₃), h₃⟩

theorem takeMembers_spec : ∀ {ns es : List (Option (ℕ × List UInt8))}
    {members : List (List UInt8 × List UInt8)}
    {t : Heap Block}, ns.map (Option.map Prod.snd) = members.map (fun m => some m.1) →
    es.map (Option.map Prod.snd) = members.map (fun m => some m.2) →
    Adds s t (blocksOf ns ++ (blocksOf es ++ bs)) →
    ∃ u, takeMembers (pointersOf ns) (pointersOf es) t = .next (members, u) ∧ Adds s u bs
  | [], [], [], t, _, _, h => ⟨t, rfl, h⟩
  | [], _ :: _, [], _, _, he, _ => by simp at he
  | _ :: _, _, [], _, hn, _, _ => by simp at hn
  | [], _, _ :: _, _, hn, _, _ => by simp at hn
  | _, [], _ :: _, _, _, he, _ => by simp at he
  | n :: ns, e :: es, (name, text) :: members, t, hn, he, h => by
    rw [List.map_cons, List.map_cons, List.cons.injEq] at hn he
    obtain ⟨hn, hns⟩ := hn
    obtain ⟨he, hes⟩ := he
    obtain ⟨⟨a, name'⟩, rfl, rfl⟩ := Option.map_eq_some_iff.mp hn
    obtain ⟨⟨b, text'⟩, rfl, rfl⟩ := Option.map_eq_some_iff.mp he
    have hname : loadText (some a) t = .next (name', t) :=
      loadText_some (h.held (a, .text name') List.mem_cons_self)
    have htext : loadText (some b) t = .next (text', t) := by
      refine loadText_some (h.held (b, .text text') ?_)
      exact List.mem_append_right _ (List.mem_append_left _ List.mem_cons_self)
    obtain ⟨hfree₁, h₁⟩ := Adds.free (a := a) h
    obtain ⟨hfree₂, h₂⟩ := Adds.free (a := b) (h₁.perm List.perm_middle)
    obtain ⟨u, hrest, h₃⟩ := takeMembers_spec hns hes h₂
    exact ⟨u, (bind_next hname).trans ((bind_next htext).trans
      ((bind_next hfree₁).trans ((bind_next hfree₂).trans (bind_next hrest)))), h₃⟩

theorem blocksOf_cons (o : Option (ℕ × List UInt8)) (os : List (Option (ℕ × List UInt8))) :
    blocksOf (o :: os) = blocksOf [o] ++ blocksOf os := by
  cases o <;> rfl

/-- A text that has been rendered, or not, with its block. -/
theorem Printed.gather {p : Option ℕ} (hp : Printed t u text p) (h : Adds s t bs) :
    ∃ o : Option (ℕ × List UInt8), p = o.map Prod.fst ∧ Since t u ∧ Adds s u (blocksOf [o] ++ bs) ∧
      (o.map Prod.snd = some text ∨ Failed s u ∧ o = none) := by
  cases hp with
  | @block p hp => exact ⟨some (p, text), rfl, hp.since, h.trans hp, .inl rfl⟩
  | null hp h' => exact ⟨none, rfl, h'.since, h.trans h', .inr ⟨h.since.failed hp, rfl⟩⟩

/-- The children of an object are rendered. -/
def PrintsMembers (value : ℕ → Ptr Block ℕ) : List Node → List (List UInt8 × List UInt8) → Prop :=
  List.Forall₂ fun c m => (∃ str, name c = some str ∧ m.1 = printString str) ∧
    ∀ (t : Heap Block) (prev next : Option ℕ), Ready t → Rep t.blocks prev next c →
    Prints (value c.addr) t m.2

/-- The loop has gathered all names and texts, or an allocation has failed. -/
inductive GatheredMembers (s t : Heap Block) (members : List (List UInt8 × List UInt8))
    (ns es : List (Option (ℕ × List UInt8))) : Bool → Prop where
  | all (hn : ns.map (Option.map Prod.snd) = members.map fun m => some m.1)
      (he : es.map (Option.map Prod.snd) = members.map fun m => some m.2) :
      GatheredMembers s t members ns es false
  | short (hp : Failed s t) (hlen : ns.length = es.length) : GatheredMembers s t members ns es true

theorem GatheredMembers.length_eq {fail : Bool} (h : GatheredMembers s t members ns es fail) :
    ns.length = es.length := by
  cases h with
  | all hn he =>
    have h1 := congrArg List.length hn
    have h2 := congrArg List.length he
    rw [List.length_map, List.length_map] at h1 h2
    exact h1.trans h2.symm
  | short hp hlen => exact hlen

/-- **The loop over the children of an object.** -/
theorem membersLoop_spec : ∀ {cs : List Node} {members : List (List UInt8 × List UInt8)}
    {prev : Option ℕ} {fuel : ℕ} {t : Heap Block} {qn qe : List (Option ℕ)} {bs : List (ℕ × Block)},
    PrintsMembers value cs members →
    Chain s.blocks prev cs → cs.length ≤ fuel → qn.length = qe.length →
    Adds s t ((m, .pointers (qn ++ List.replicate cs.length none)) ::
      (e, .pointers (qe ++ List.replicate cs.length none)) :: bs) →
    ∃ fail u ns es, membersLoop value e m fuel (firstOf cs) qn.length t = .next (fail, u) ∧
      Adds s u ((m, .pointers (qn ++ pointersOf ns)) :: (e, .pointers (qe ++ pointersOf es)) ::
        (blocksOf ns ++ (blocksOf es ++ bs))) ∧ Since t u ∧ GatheredMembers s u members ns es fail
  | [], _, _, fuel, t, qn, qe, bs, .nil, _, _, _, h => by
    refine ⟨false, t, [], [], ?_, h, Since.refl t, .all rfl rfl⟩
    rcases fuel with _ | fuel
    · rfl
    · rfl
  | .mk a f ds :: cs, (str', text) :: members, prev, fuel + 1, t, qn, qe, bs, .cons hv hvs, hc,
      hfuel, hlen, h => by
    obtain ⟨hr, hrest⟩ := hc
    obtain ⟨⟨str, hname, rfl⟩, hv⟩ := hv
    obtain ⟨⟨y, str₀⟩, hy, rfl⟩ := Option.map_eq_some_iff.mp hname
    have hload := loadItem_some (Rep.adds hr h).1
    -- the name
    have htext : t.blocks y = some (.text str₀) :=
      (Rep.adds hr h).2.1 (y, str₀) (by simp [Fields.texts, hy])
    obtain ⟨p₁, t₁, hrun₁, hp₁⟩ := printStringPtr_prints h.ready htext
    obtain ⟨o₁, rfl, hs₁, h₁, ho₁⟩ := hp₁.gather h
    have hmove₁ := h₁.perm (List.perm_middle.trans (List.Perm.cons _ List.perm_middle))
    obtain ⟨t₂, hset₂, hs₂, h₂⟩ := setPointer_spec (q := o₁.map Prod.fst) hmove₁
    -- the value
    obtain ⟨p₃, t₃, hrun₃, hp₃⟩ := hv t₂ prev _ h₂.ready (Rep.adds hr h₂)
    obtain ⟨o₂, rfl, hs₃, h₃, ho₂⟩ := hp₃.gather h₂
    have hmove₃ := h₃.perm ((List.perm_middle.trans (List.Perm.cons _ List.perm_middle)).trans
      (List.Perm.swap _ _ _))
    obtain ⟨t₄, hset₄, hs₄, h₄⟩ := setPointer_spec (q := o₂.map Prod.fst) hmove₃
    obtain ⟨fail, u, ns, es, hloop, h₅, hs₅, hgather⟩ :=
      membersLoop_spec hvs hrest (Nat.le_of_succ_le_succ hfuel)
      (by rw [List.length_append, List.length_append, hlen]; rfl) (h₄.perm (List.Perm.swap _ _ _))
    have hstring : (f.item prev (firstOf cs) (firstOf ds)).string = some y := by
      show f.string.map Prod.fst = some y
      rw [hy]
      rfl
    have hlast : Since t₃ u := hs₄.trans hs₅
    have hlate : Since t₁ u := hs₂.trans (hs₃.trans hlast)
    refine ⟨!((o₁.map Prod.fst).isSome && (o₂.map Prod.fst).isSome) || fail, u, o₁ :: ns, o₂ :: es,
      ?_, ?_, hs₁.trans hlate, ?_⟩
    · refine (bind_next hload).trans ?_
      rw [hstring]
      refine (bind_next hrun₁).trans ((bind_next hset₂).trans ((bind_next hrun₃).trans ?_))
      rw [← hlen] at hset₄
      rw [List.length_append] at hloop
      exact (bind_next hset₄).trans (bind_next hloop)
    · rw [List.append_assoc, List.append_assoc] at h₅
      refine h₅.perm (List.Perm.cons _ (List.Perm.cons _ ?_))
      rw [blocksOf_cons o₁ ns, blocksOf_cons o₂ es]
      classical
      rw [List.perm_iff_count]
      intro x
      simp only [List.count_append]
      omega
    · rcases ho₁ with ho₁ | ⟨hp, rfl⟩
      · rcases ho₂ with ho₂ | ⟨hp, rfl⟩
        · obtain ⟨x₁, rfl, hx₁⟩ := Option.map_eq_some_iff.mp ho₁
          obtain ⟨x₂, rfl, hx₂⟩ := Option.map_eq_some_iff.mp ho₂
          cases hgather with
          | all hn he => exact .all (by simp [hn, hx₁]) (by simp [he, hx₂])
          | short hp hlen' => exact .short hp (congrArg Nat.succ hlen')
        · obtain ⟨x₁, rfl, hx₁⟩ := Option.map_eq_some_iff.mp ho₁
          exact .short (hp.since hlast) (congrArg Nat.succ hgather.length_eq)
      · exact .short (hp.since hlate) (congrArg Nat.succ hgather.length_eq)

theorem failNames_spec {b : Block} (h : Adds s t [(e, b)]) :
    ∃ u, (failNames e).run t = .next (none, u) ∧ Since t u ∧ Adds s u [] := by
  obtain ⟨u, hfree, hs, h₁⟩ := cjsonFree_spec h
  exact ⟨u, run_lift_bind hfree, hs, h₁⟩

/-- The arrays, behind the blocks of the texts. -/
theorem perm_arrays (x y : ℕ × Block) (bs cs : List (ℕ × Block)) :
    (x :: y :: (bs ++ cs)).Perm (bs ++ (cs ++ [x, y])) := by
  have h : ([x, y] ++ (bs ++ cs)).Perm ((bs ++ cs) ++ [x, y]) := List.perm_append_comm
  rwa [List.append_assoc] at h

theorem failMembers_spec (hlen : ns.length = es.length)
    (h : Adds s t ((m, .pointers (pointersOf ns)) :: (e, .pointers (pointersOf es)) ::
      (blocksOf ns ++ blocksOf es))) :
    ∃ u, (failMembers e m).run t = .next (none, u) ∧ Since t u ∧ Adds s u [] := by
  have hloadn := loadPointers_some h
  have hloade := loadPointers_some (h.perm (List.Perm.swap _ _ _))
  obtain ⟨u₁, hfree, hs₁, h₁⟩ := freeMembers_spec hlen (h.perm (perm_arrays _ _ _ _))
  obtain ⟨u₂, hfree₂, hs₂, h₂⟩ := cjsonFree_spec h₁
  obtain ⟨u₃, hfree₃, hs₃, h₃⟩ := cjsonFree_spec h₂
  exact ⟨u₃, (run_lift_bind hloadn).trans ((run_lift_bind hloade).trans ((run_lift_bind hfree).trans
    ((run_lift_bind hfree₂).trans (run_lift_bind hfree₃)))), hs₁.trans (hs₂.trans hs₃), h₃⟩

theorem composeObject_spec {p depth : ℕ}
    (hn : ns.map (Option.map Prod.snd) = members.map fun m => some m.1)
    (he : es.map (Option.map Prod.snd) = members.map fun m => some m.2)
    (h : Adds s t ((p, .text []) :: (m, .pointers (pointersOf ns)) ::
      (e, .pointers (pointersOf es)) :: (blocksOf ns ++ blocksOf es))) :
    ∃ u, (composeObject fmt depth e m p).run t = .next (some p, u) ∧
      Adds s u [(p, .text (CJsonPrint.printObject fmt depth members))] := by
  have hloadn := loadPointers_some (h.perm (List.Perm.swap _ _ _))
  have hloade := loadPointers_some (h.perm ((List.Perm.cons _ (List.Perm.swap _ _ _)).trans
    (List.Perm.swap _ _ _)))
  have hlast : ([(p, Block.text []), (m, .pointers (pointersOf ns)),
    (e, .pointers (pointersOf es))] ++
      (blocksOf ns ++ blocksOf es)).Perm ((blocksOf ns ++ blocksOf es) ++ [(p, .text []),
        (m, .pointers (pointersOf ns)), (e, .pointers (pointersOf es))]) := List.perm_append_comm
  rw [List.append_assoc] at hlast
  obtain ⟨u₁, htake, h₁⟩ := takeMembers_spec hn he (h.perm hlast)
  obtain ⟨hstore, h₂⟩ := h₁.store (.text (CJsonPrint.printObject fmt depth members))
  obtain ⟨u₃, hfree₃, -, h₃⟩ := cjsonFree_spec (h₂.perm (List.Perm.swap _ _ _))
  obtain ⟨u₄, hfree₄, -, h₄⟩ := cjsonFree_spec (h₃.perm (List.Perm.swap _ _ _))
  exact ⟨u₄, (run_lift_bind hloadn).trans ((run_lift_bind hloade).trans ((run_lift_bind htake).trans
    ((run_lift_bind hstore).trans ((run_lift_bind hfree₃).trans (run_lift_bind hfree₄))))), h₄⟩

/-- **`print_object`** renders the object, if its children are rendered. -/
theorem printObject_prints {fuel depth : ℕ} (hs : Ready s) (hv : PrintsMembers value cs members)
    (hc : Chain s.blocks prev cs) (hfuel : cs.length ≤ fuel) :
    Prints (printObject value fmt depth fuel (firstOf cs)) s
    (CJsonPrint.printObject fmt depth members) := by
  have hcount := countItems_spec hc hfuel
  by_cases hcs : cs.length = 0
  · obtain rfl := List.length_eq_zero_iff.mp hcs
    cases hv
    obtain ⟨p, t, hrun, hp⟩ := alloc_prints hs (CJsonPrint.printObject fmt depth [])
    exact ⟨p, t, (run_lift_bind hcount).trans hrun, hp⟩
  have hstart : (printObject value fmt depth fuel (firstOf cs)).run s = _ := run_lift_bind hcount
  rw [if_neg hcs] at hstart
  rcases alloc_cases hs (Block.pointers (List.replicate cs.length none)) with
    ⟨hnull, hfail⟩ | ⟨e, he, -, hsome⟩
  · exact ⟨none, _, hstart.trans (run_bind_none hnull), .null hfail (adds_nil hs).failed⟩
  have h₁ : Adds s _ ((e, .pointers ([] ++ List.replicate cs.length none)) :: []) :=
    (adds_nil hs).alloc he _
  have hentries := hstart.trans (run_bind_some hsome)
  rcases alloc_cases h₁.ready (Block.pointers (List.replicate cs.length none)) with
    ⟨hnull, hfail⟩ | ⟨m, hm, -, hsome'⟩
  · obtain ⟨u, hfree, hs₂, h₂⟩ := failNames_spec h₁.failed
    exact ⟨none, u, hentries.trans (run_bind_none ((run_orElse_none hnull).trans hfree)),
      .null ((h₁.since.failed hfail).since hs₂) h₂⟩
  have h₂ : Adds s _ ((m, .pointers ([] ++ List.replicate cs.length none)) :: _) := h₁.alloc hm _
  obtain ⟨fail, t, ns, es, hloop, h₃, -, hgather⟩ := membersLoop_spec hv hc hfuel rfl h₂
  rw [List.append_nil, List.nil_append, List.nil_append] at h₃
  have hloop' := hentries.trans ((run_bind_some (run_orElse_some hsome')).trans
    (run_lift_bind hloop))
  rcases outBlock_cases (s := s) h₃.ready fail
    with ⟨u, hout, hs₁, hfail, h₄⟩ | ⟨rfl, p, u, hout, h₄⟩
  · obtain ⟨u', hfree, hs₂, h₅⟩ := failMembers_spec hgather.length_eq (h₄ h₃)
    refine ⟨none, u', hloop'.trans (run_bind_none ((run_orElse_none hout).trans hfree)),
      .null ?_ h₅⟩
    cases hgather with
    | all => exact (h₃.since.failed (hfail rfl)).since hs₂
    | short hp => exact hp.since (hs₁.trans hs₂)
  · cases hgather with
    | all hn he =>
      have hcompose : ∃ u', (composeObject fmt depth e m p).run u = .next (some p, u') ∧ _ :=
        composeObject_spec hn he (h₄ h₃)
      obtain ⟨u', hcompose, h₅⟩ := hcompose
      exact ⟨some p, u', hloop'.trans ((run_bind_some (run_orElse_some hout)).trans hcompose),
        .block h₅⟩

/-! ### Values -/

theorem entries_prints {P : Node → CJSON → Prop} {fuel : ℕ}
    (hP : ∀ c v, Stands c v → size c ≤ fuel → P c v) {cs : List Node} {vs : List CJSON}
    (h : Entries cs vs) (hsize : sizeAll cs ≤ fuel) : List.Forall₂ P cs vs := by
  induction cs generalizing vs with
  | nil =>
    cases h
    exact .nil
  | cons c cs ih =>
    rw [sizeAll] at hsize
    cases h with
    | cons _ hc hcs => exact .cons (hP c _ hc (by omega)) (ih hcs (by omega))

theorem members_prints {P : Node → CJSON → Prop} {fuel : ℕ}
    (hP : ∀ c v, Stands c v → size c ≤ fuel → P c v) {cs : List Node}
    {ms : List (List UInt8 × CJSON)} (h : Members cs ms) (hsize : sizeAll cs ≤ fuel) :
    List.Forall₂ (fun c m => name c = some m.1 ∧ P c m.2) cs ms := by
  induction cs generalizing ms with
  | nil =>
    cases h
    exact .nil
  | cons c cs ih =>
    rw [sizeAll] at hsize
    cases h with
    | cons hn hc hcs => exact .cons ⟨hn, hP c _ hc (by omega)⟩ (ih hcs (by omega))

/-- **`print_value`** renders what the item stands for. -/
theorem printValue_prints (fpu : Arithmetic) (fmt : Bool) : ∀ (fuel : ℕ) (c : Node)
    (v : CJSON), Stands c v →
    size c ≤ fuel → ∀ (depth : ℕ) (t : Heap Block) (prev next : Option ℕ), Ready t →
    Rep t.blocks prev next c →
      Prints (printValue fpu fmt fuel depth c.addr) t (CJsonPrint.printValue fpu fmt depth v) := by
  intro fuel
  induction fuel with
  | zero =>
    rintro ⟨a, f, cs⟩ v hv hsize
    exact absurd hsize (Nat.not_succ_le_zero _)
  | succ fuel ih =>
    rintro ⟨a, f, cs⟩ v hv hsize depth t prev next ht hr
    have hload := loadItem_some hr.1
    have hsizes : sizeAll cs ≤ fuel := Nat.le_of_succ_le_succ hsize
    have hfuel : cs.length ≤ fuel := (length_le_sizeAll cs).trans hsizes
    have hrun : (printValue fpu fmt (fuel + 1) depth a).run t = _ := run_lift_bind hload
    suffices h : Prints (printSwitch fpu fmt (printValue fpu fmt fuel (depth + 1)) depth fuel
        (f.item prev next (firstOf cs))) t (CJsonPrint.printValue fpu fmt depth v) by
      obtain ⟨p, u, hswitch, hp⟩ := h
      exact ⟨p, u, hrun.trans hswitch, hp⟩
    have hcall : ∀ c v, Stands c v → size c ≤ fuel → ∀ (t : Heap Block)
      (prev next : Option ℕ), Ready t →
        Rep t.blocks prev next c → Prints (printValue fpu fmt fuel (depth + 1) c.addr) t
          (CJsonPrint.printValue fpu fmt (depth + 1) v) :=
          fun c v hv hsize => ih c v hv hsize (depth + 1)
    cases hv with
    | null h =>
      have hswitch : ∀ value, printSwitch fpu fmt value depth fuel (f.item prev next none) =
          alloc (Block.text (ascii "null")) := fun value => by
        have htype : f.type &&& 255 = 2 := congrArg (fun x => x &&& 255) h
        simp [printSwitch, Fields.item, htype]
      exact hswitch _ ▸ alloc_prints ht _
    | bool b h =>
      have hswitch : ∀ value, printSwitch fpu fmt value depth fuel (f.item prev next none) =
          alloc (Block.text (if b then ascii "true" else ascii "false")) := fun value => by
        have htype : f.type &&& 255 = if b then 1 else 0 := by
          rw [h]
          cases b <;> rfl
        cases b <;> simp [printSwitch, Fields.item, htype]
      exact hswitch _ ▸ alloc_prints ht _
    | number h =>
      have hswitch : ∀ value, printSwitch fpu fmt value depth fuel (f.item prev next none) =
          alloc (Block.text (CJsonPrint.printNumber fpu f.valueint f.valuedouble)) :=
          fun value => by
        have htype : f.type &&& 255 = 3 := congrArg (fun x => x &&& 255) h
        simp [printSwitch, Fields.item, htype]
      exact hswitch _ ▸ alloc_prints ht _
    | @string _ y _ str h hs =>
      have hswitch : ∀ value, printSwitch fpu fmt value depth fuel (f.item prev next none) =
          printStringPtr (some y) := fun value => by
        have htype : f.type &&& 255 = 4 := congrArg (fun x => x &&& 255) h
        simp [printSwitch, Fields.item, htype, hs]
      have htext : t.blocks y = some (.text str) := hr.2.1 (y, str) (by simp [Fields.texts, hs])
      exact hswitch _ ▸ printStringPtr_prints ht htext
    | @array _ _ _ vs h hcs =>
      have hswitch : ∀ value, printSwitch fpu fmt value depth fuel (f.item prev next (firstOf cs)) =
          printArray value fmt fuel (firstOf cs) := fun value => by
        have htype : f.type &&& 255 = 5 := congrArg (fun x => x &&& 255) h
        simp [printSwitch, Fields.item, htype]
      have hall : PrintsAll (printValue fpu fmt fuel (depth + 1)) cs
          (CJsonPrint.printEntries fpu fmt (depth + 1) vs) := by
        rw [CJsonPrint.printEntries_eq, PrintsAll, List.forall₂_map_right_iff]
        exact entries_prints hcall hcs hsizes
      rw [hswitch]
      exact printArray_prints ht hall hr.2.2 hfuel
    | @object _ _ _ ms h hcs =>
      have hswitch : ∀ value, printSwitch fpu fmt value depth fuel (f.item prev next (firstOf cs)) =
          printObject value fmt depth fuel (firstOf cs) := fun value => by
        have htype : f.type &&& 255 = 6 := congrArg (fun x => x &&& 255) h
        simp [printSwitch, Fields.item, htype]
      have hall : PrintsMembers (printValue fpu fmt fuel (depth + 1)) cs
          (CJsonPrint.printMembers fpu fmt (depth + 1) ms) := by
        rw [CJsonPrint.printMembers_eq, PrintsMembers, List.forall₂_map_right_iff]
        exact (members_prints hcall hcs hsizes).imp fun c m hm => ⟨⟨m.1, hm.1, rfl⟩, hm.2⟩
      rw [hswitch]
      exact printObject_prints ht hall hr.2.2 hfuel

/-- **The rendering in memory.** An item that stands for a value is rendered without a pointer that
is `NULL` or was freed, whichever allocations fail. Then there is one more block than before, the
text of the value, and the result points to it; or the result is `NULL`, one of the allocations made
has failed, and no block is left. -/
theorem print_memory (fpu : Arithmetic) (fmt : Bool) {fuel : ℕ} {v : CJSON} (hs : Ready s)
    (hr : Rep s.blocks prev next c) (hv : Stands c v) (hfuel : size c ≤ fuel) :
    ∃ p t, (cjsonPrint fpu fmt fuel c.addr).run s = .next (p, t) ∧
      ((∃ a, p = some a ∧ s.blocks a = none ∧
          t.blocks = Function.update s.blocks a (some (.text (cjsonText fpu fmt v)))) ∨
        p = none ∧ Failed s t ∧ t.blocks = s.blocks) := by
  obtain ⟨p, t, hrun, hp⟩ := printValue_prints fpu fmt fuel c v hv hfuel 0 s prev next hs hr
  refine ⟨p, t, hrun, ?_⟩
  cases hp with
  | @block a h =>
    refine .inl ⟨a, rfl, h.unused _ List.mem_cons_self, funext fun x => ?_⟩
    by_cases hx : x = a
    · rw [hx, Function.update_self]
      exact h.held _ List.mem_cons_self
    · rw [Function.update_of_ne hx]
      exact h.rest x (by simpa using hx)
  | null hp h => exact .inr ⟨rfl, hp, h.blocks_eq⟩

/-- An object with one member, an array with one entry, `null`. -/
def nested : Node :=
  .mk 3 objectFields [.mk 2 (arrayFields.named 1 (ascii "k"))
    [.mk 0 (newFields 2 none 0 0 (by decide)) []]]

/-- A heap that holds it. After the pointers and the name of the member, and the pointers of the
array, the allocation for the text of the entry fails. -/
def nestedHeap : Heap Block := Heap.failing [.item
      ((newFields 2 none 0 0 (by decide)).item none none none),
  .text (ascii "k"), .item ((arrayFields.named 1 (ascii "k")).item none none (some 0)),
  .item (objectFields.item none none (some 2))] 4

/-- The theorem applied to it: all that was allocated is freed. -/
theorem print_memory_nested :
    ∃ t, (cjsonPrint binary64 true 3 nested.addr).run nestedHeap = .next (none, t) ∧
      Failed nestedHeap t ∧ t.blocks = nestedHeap.blocks := by
  have hrep : Rep nestedHeap.blocks none none nested := by
    refine ⟨rfl, by simp [Fields.texts, objectFields, newFields],
      ⟨rfl, ?_, ⟨rfl, ?_, trivial⟩, trivial⟩,
      trivial⟩
    · simp [Fields.texts, Fields.named, arrayFields, newFields, nestedHeap, Heap.failing]
    · simp [Fields.texts, newFields]
  have hstands : Stands nested (.object [(ascii "k", .array [.null])]) :=
    .object rfl (.cons rfl (.array rfl (.cons rfl (.null rfl) .nil)) .nil)
  have hnull : ((cjsonPrint binary64 true 3 nested.addr).run nestedHeap).toOption.map Prod.fst =
      some none := by
    decide +kernel
  obtain ⟨p, t, hrun, hp⟩ := print_memory binary64 true (ready_failing _ 4) hrep hstands le_rfl
  obtain rfl : p = none := by
    rw [show (cjsonPrint binary64 true 3 nested.addr).run nestedHeap =
      .next (p, t) from hrun] at hnull
    exact Option.some.inj hnull
  obtain ⟨a, ha, -⟩ | ⟨-, hfail, hblocks⟩ := hp
  · cases ha
  · exact ⟨t, hrun, hfail, hblocks⟩

end MultiPortConvertor.Tool.CJsonPrintMemory
