import MultiPortConvertor.Tool.CJsonOwned

/-! # The values of items

`Stands` says which value an item in memory stands for. `cJSON_GetObjectItem` finds in the memory
what `getObjectItem` finds in the value (`getObjectItem_spec`). -/

namespace MultiPortConvertor.Tool.CJsonValues

open MultiPortConvertor.Lib.CString MultiPortConvertor.Lib.Heaps MultiPortConvertor.Lib.Outcomes
open MultiPortConvertor.Tool.CJson MultiPortConvertor.Tool.CJsonHeap
open MultiPortConvertor.Tool.CJsonOwned

/-- The name of an item. -/
def name : Node → Option (List UInt8)
  | .mk _ f _ => f.string.map Prod.snd

mutual

/-- The item stands for the value. -/
inductive Stands : Node → CJSON → Prop where
  | null {a : ℕ} {f : Fields} (h : f.type = 2) : Stands (.mk a f []) .null
  | bool {a : ℕ} {f : Fields} (b : Bool) (h : f.type = if b then 1 else 0) :
      Stands (.mk a f []) (.bool b)
  | number {a : ℕ} {f : Fields} (h : f.type = 3) :
      Stands (.mk a f []) (.number f.valueint f.valuedouble)
  | string {a y : ℕ} {f : Fields} {str : List UInt8} (h : f.type = 4)
      (hs : f.valuestring = some (y, str)) : Stands (.mk a f []) (.string str)
  | array {a : ℕ} {f : Fields} {cs : List Node} {vs : List CJSON} (h : f.type = 5)
      (hcs : Entries cs vs) : Stands (.mk a f cs) (.array vs)
  | object {a : ℕ} {f : Fields} {cs : List Node} {ms : List (List UInt8 × CJSON)} (h : f.type = 6)
      (hcs : Members cs ms) : Stands (.mk a f cs) (.object ms)

/-- The children of an array: they have no names. -/
inductive Entries : List Node → List CJSON → Prop where
  | nil : Entries [] []
  | cons {c : Node} {v : CJSON} {cs : List Node} {vs : List CJSON} (hn : name c = none)
      (hc : Stands c v) (hcs : Entries cs vs) : Entries (c :: cs) (v :: vs)

/-- The children of an object. -/
inductive Members : List Node → List (List UInt8 × CJSON) → Prop where
  | nil : Members [] []
  | cons {c : Node} {m : List UInt8 × CJSON} {cs : List Node} {ms : List (List UInt8 × CJSON)}
      (hn : name c = some m.1) (hc : Stands c m.2) (hcs : Members cs ms) :
      Members (c :: cs) (m :: ms)

end

theorem Entries.concat {c : Node} {v : CJSON} (hn : name c = none) (hc : Stands c v) :
    ∀ {cs : List Node} {vs : List CJSON}, Entries cs vs → Entries (cs ++ [c]) (vs ++ [v])
  | _, _, .nil => .cons hn hc .nil
  | _, _, .cons hn' hc' hcs => .cons hn' hc' (hcs.concat hn hc)

theorem Members.concat {c : Node} {m : List UInt8 × CJSON} (hn : name c = some m.1)
    (hc : Stands c m.2) :
    ∀ {cs : List Node} {ms : List (List UInt8 × CJSON)}, Members cs ms →
    Members (cs ++ [c]) (ms ++ [m])
  | _, _, .nil => .cons hn hc .nil
  | _, _, .cons hn' hc' hcs => .cons hn' hc' (hcs.concat hn hc)

/-! ### `cJSON_GetObjectItem` -/

/-- The text that `p` points to. -/
def loadText (p : Option ℕ) : Mem Block (List UInt8) := do
  match ← load p with
  | .text str => return str
  | _ => fun _ => .fault

/-- `cJSON_strcasecmp` gives 0, for a name in memory. -/
def cjsonStrcasecmp (p : Option ℕ) (string : List UInt8) : Mem Block Bool := do
  match p with
  | none => return false
  | some p =>
    let s ← loadText (some p)
    return sameName s string

/-- `while (c && cJSON_strcasecmp(c->string,string)) c=c->next;` -/
def itemNamed (string : List UInt8) : ℕ → Option ℕ → Mem Block (Option ℕ)
  | _, none => return none
  | 0, some _ => fun _ => .blocked
  | fuel + 1, some c => do
    let i ← loadItem (some c)
    let same ← cjsonStrcasecmp i.string string
    if same then return some c else itemNamed string fuel i.next

/-- `cJSON_GetObjectItem`. -/
def cjsonGetObjectItem (fuel : ℕ) (object : Option ℕ) (string : List UInt8) :
    Mem Block (Option ℕ) := do
  let i ← loadItem object
  itemNamed string fuel i.child

variable {s : Heap Block} {prev next : Option ℕ} {fuel a : ℕ} {f : Fields} {cs : List Node}

/-- The item has the name. -/
def isNamed (string : List UInt8) (c : Node) : Bool := (name c).any fun n => sameName n string

theorem strcasecmp_spec {o : Option (ℕ × List UInt8)}
    (ho : ∀ t ∈ o.toList, s.blocks t.1 = some (.text t.2)) (string : List UInt8) :
    cjsonStrcasecmp (o.map Prod.fst) string s =
      .next ((o.map Prod.snd).any fun n => sameName n string, s) := by
  rcases o with _ | ⟨p, str⟩
  · rfl
  · have hload : loadText (some p) s = .next (str, s) :=
      bind_next (load_some (ho (p, str) (by simp)))
    exact bind_next hload

theorem itemNamed_spec (string : List UInt8) : ∀ {cs : List Node} {fuel : ℕ} {prev : Option ℕ},
    Chain s.blocks prev cs → cs.length ≤ fuel →
    itemNamed string fuel (firstOf cs) s = .next ((cs.find? (isNamed string)).map Node.addr, s)
  | [], fuel, prev, _, _ => by
    rcases fuel with _ | fuel
    · rfl
    · rfl
  | .mk a f ds :: cs, fuel + 1, prev, hc, hfuel => by
    obtain ⟨⟨ha, htexts, -⟩, hrest⟩ := hc
    have hsame := strcasecmp_spec (o := f.string)
      (fun t ht => htexts t (List.mem_append_right _ ht)) string
    have hloop : itemNamed string (fuel + 1) (some a) s =
        (if isNamed string (.mk a f ds) then return some a
          else itemNamed string fuel (firstOf cs) : Mem Block (Option ℕ)) s :=
      (bind_next (loadItem_some ha)).trans (bind_next hsame)
    show itemNamed string (fuel + 1) (some a) s = _
    rw [hloop]
    by_cases hname : isNamed string (.mk a f ds)
    · rw [if_pos hname, List.find?_cons_of_pos hname]
      rfl
    · rw [if_neg hname, List.find?_cons_of_neg hname]
      exact itemNamed_spec string hrest (by simpa using hfuel)

/-- What is found stands for what is found in the value. -/
inductive Finds : Option Node → Option CJSON → Prop where
  | some {c : Node} {w : CJSON} (hc : Stands c w) : Finds (some c) (some w)
  | none : Finds none none

theorem members_find (string : String) : ∀ {cs : List Node} {ms : List (List UInt8 × CJSON)},
    Members cs ms →
    Finds (cs.find? (isNamed (ascii string))) (getObjectItem (.object ms) string)
  | _, _, .nil => .none
  | c :: cs, m :: ms, .cons hn hc hcs => by
    have hnamed : isNamed (ascii string) c = sameName m.1 (ascii string) := by
      rw [isNamed, hn]
      rfl
    have ih := members_find string hcs
    simp only [getObjectItem] at ih ⊢
    by_cases hm : sameName m.1 (ascii string)
    · rw [List.find?_cons_of_pos (hnamed ▸ hm), List.find?_cons_of_pos (a := m) hm]
      exact .some hc
    · rw [List.find?_cons_of_neg (hnamed ▸ hm), List.find?_cons_of_neg (a := m) hm]
      exact ih

theorem entries_find (string : List UInt8) : ∀ {cs : List Node} {vs : List CJSON}, Entries cs vs →
    cs.find? (isNamed string) = none
  | _, _, .nil => rfl
  | c :: cs, _, .cons hn _ hcs => by
    have hnamed : ¬ isNamed string c := by simp [isNamed, hn]
    rw [List.find?_cons_of_neg hnamed]
    exact entries_find string hcs

theorem stands_find {v : CJSON} (hv : Stands (.mk a f cs) v) (string : String) :
    Finds (cs.find? (isNamed (ascii string))) (getObjectItem v string) := by
  cases hv with
  | object _ hcs => exact members_find string hcs
  | array _ hcs =>
    rw [entries_find _ hcs]
    exact .none
  | _ => exact .none

/-- **`cJSON_GetObjectItem`** finds in memory what stands for the child of the value. -/
theorem getObjectItem_spec {v : CJSON} (hr : Rep s.blocks prev next (.mk a f cs))
    (hv : Stands (.mk a f cs) v) (hfuel : cs.length ≤ fuel) (string : String) :
    cjsonGetObjectItem fuel (some a) (ascii string) s =
        .next ((cs.find? (isNamed (ascii string))).map Node.addr, s) ∧
      Finds (cs.find? (isNamed (ascii string))) (getObjectItem v string) :=
  ⟨(bind_next (loadItem_some hr.1)).trans (itemNamed_spec (ascii string) hr.2.2 hfuel),
    stands_find hv string⟩

end MultiPortConvertor.Tool.CJsonValues
