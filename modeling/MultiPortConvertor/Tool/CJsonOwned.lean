import MultiPortConvertor.Tool.CJsonHeap
import Mathlib.Data.List.Nodup

/-! # The memory of an item

A `Node` is an item with all that is below it, and the addresses of it. `Rep` says that the memory
holds it, with the pointers along the children. `cJSON_Delete` frees the blocks of the items it is
given and no other, each once (`delete_chain`), and `cJSON_AddItemToArray` makes an item the last
child of one that may stand anywhere below another (`attaches_add`). -/

namespace MultiPortConvertor.Tool.CJsonOwned

open MultiPortConvertor.Lib.Heaps MultiPortConvertor.Lib.Outcomes MultiPortConvertor.Tool.CJsonHeap

/-- The fields of an item that owns what it points to; a string stands with its address. -/
structure Fields where
  type : UInt32
  valuestring : Option (ℕ × List UInt8)
  valueint : Int32
  valuedouble : ℚ
  string : Option (ℕ × List UInt8)
  isReference_eq : isReference type = false
  stringIsConst_eq : stringIsConst type = false

/-- An item with its children. -/
inductive Node where
  | mk (addr : ℕ) (fields : Fields) (child : List Node)

def Node.addr : Node → ℕ
  | .mk a _ _ => a

/-- The pointer to the first of them. -/
def firstOf (cs : List Node) : Option ℕ := cs.head?.map Node.addr

def Fields.item (f : Fields) (prev next child : Option ℕ) : Item :=
  ⟨next, prev, child, f.type, f.valuestring.map Prod.fst, f.valueint, f.valuedouble,
    f.string.map Prod.fst⟩

/-- The strings of an item. -/
def Fields.texts (f : Fields) : List (ℕ × List UInt8) := f.valuestring.toList ++ f.string.toList

mutual

/-- The memory holds the item and what is below it. -/
def Rep (h : ℕ → Option Block) (prev next : Option ℕ) : Node → Prop
  | .mk a f cs => h a = some (.item (f.item prev next (firstOf cs))) ∧
      (∀ t ∈ f.texts, h t.1 = some (.text t.2)) ∧ Chain h none cs

/-- The memory holds the items, one after the other. -/
def Chain (h : ℕ → Option Block) (prev : Option ℕ) : List Node → Prop
  | [] => True
  | c :: cs => Rep h prev (firstOf cs) c ∧ Chain h (some c.addr) cs

end

mutual

/-- The addresses of the item and of what is below it. -/
def addrs : Node → List ℕ
  | .mk a f cs => a :: (f.texts.map Prod.fst ++ addrsAll cs)

def addrsAll : List Node → List ℕ
  | [] => []
  | c :: cs => addrs c ++ addrsAll cs

end

mutual

/-- The number of items. -/
def size : Node → ℕ
  | .mk _ _ cs => sizeAll cs + 1

def sizeAll : List Node → ℕ
  | [] => 0
  | c :: cs => size c + sizeAll cs

end

/-- **Induction over an item**, with its children. -/
theorem node_induct {P : Node → Prop} {Q : List Node → Prop} (mk : ∀ a f cs, Q cs → P (.mk a f cs))
    (nil : Q []) (cons : ∀ c cs, P c → Q cs → Q (c :: cs)) : (∀ c, P c) ∧ ∀ cs, Q cs :=
  ⟨@Node.rec P Q mk nil cons, @Node.rec_1 P Q mk nil cons⟩

variable {h h' : ℕ → Option Block} {prev next : Option ℕ} {s : Heap Block} {c : Node}
    {cs : List Node}

/-- **The frame**: only the addresses of the item count. -/
theorem congr_aux : (∀ c prev next, (∀ x ∈ addrs c, h' x = h x) → Rep h prev next c →
    Rep h' prev next c) ∧
    ∀ cs prev, (∀ x ∈ addrsAll cs, h' x = h x) → Chain h prev cs → Chain h' prev cs := by
  refine node_induct ?_ ?_ ?_
  · intro a f cs ih prev next hx hr
    obtain ⟨ha, htexts, hcs⟩ := hr
    rw [addrs] at hx
    refine ⟨(hx a List.mem_cons_self).trans ha, fun t ht => ?_, ih none (fun x hm => ?_) hcs⟩
    · refine (hx t.1 ?_).trans (htexts t ht)
      exact List.mem_cons_of_mem a (List.mem_append_left _ (List.mem_map_of_mem ht))
    · exact hx x (List.mem_cons_of_mem a (List.mem_append_right _ hm))
  · exact fun _ _ _ => trivial
  · intro c cs hc hcs prev hx hr
    rw [addrsAll] at hx
    exact ⟨hc prev _ (fun x hm => hx x (List.mem_append_left _ hm)) hr.1,
      hcs _ (fun x hm => hx x (List.mem_append_right _ hm)) hr.2⟩

theorem Rep.congr (hr : Rep h prev next c) (hx : ∀ x ∈ addrs c, h' x = h x) : Rep h' prev next c :=
  congr_aux.1 c prev next hx hr

theorem Chain.congr (hr : Chain h prev cs) (hx : ∀ x ∈ addrsAll cs, h' x = h x) :
    Chain h' prev cs :=
  congr_aux.2 cs prev hx hr

theorem loadItem_some {a : ℕ} {i : Item} (ha : s.blocks a = some (.item i)) :
    loadItem (some a) s = .next (i, s) :=
  bind_next (load_some ha)

theorem setItem_some {a : ℕ} {i : Item} {f : Item → Item} (ha : s.blocks a = some (.item i)) :
    setItem (some a) f s = .next ((), s.put a (.item (f i))) :=
  (bind_next (loadItem_some ha)).trans (store_some ha)

/-! ### `cJSON_Delete` -/

/-- A string is freed, if there is one. -/
theorem free_text {o : Option (ℕ × List UInt8)}
    (ho : ∀ t ∈ o.toList, s.blocks t.1 = some (.text t.2)) :
    guarded (o.map Prod.fst).isSome (free (o.map Prod.fst)) s =
      .next ((), s.erased (o.toList.map Prod.fst)) := by
  rcases o with _ | ⟨a, str⟩
  · simp [guarded, pure_apply]
  · exact free_some (ho (a, str) (by simp))

/-- What `cJSON_Delete` does with the items. -/
def Deletes (cs : List Node) : Prop := ∀ (fuel : ℕ) (s : Heap Block) (prev : Option ℕ),
    sizeAll cs ≤ fuel →
  Chain s.blocks prev cs → (addrsAll cs).Nodup →
  cjsonDelete fuel (firstOf cs) s = .next ((), s.erased (addrsAll cs))

theorem Deletes.cons {a : ℕ} {f : Fields} {ds : List Node} (hds : Deletes ds) (hcs : Deletes cs) :
    Deletes (.mk a f ds :: cs) := by
  intro fuel s prev hfuel hchain hnd
  obtain ⟨⟨ha, htexts, hchild⟩, hrest⟩ := hchain
  have hsize : size (.mk a f ds) = sizeAll ds + 1 := rfl
  rw [sizeAll, hsize] at hfuel
  obtain ⟨n, rfl⟩ : ∃ n, fuel = n + 1 := ⟨fuel - 1, by omega⟩
  show cjsonDelete (n + 1) (some a) s = _
  unfold cjsonDelete
  rw [bind_next (loadItem_some ha)]
  simp only [Fields.item, f.isReference_eq, f.stringIsConst_eq, Bool.not_false, Bool.true_and]
  rw [addrsAll, addrs, List.cons_append, List.nodup_cons, List.append_assoc, List.nodup_append,
    List.nodup_append] at hnd
  obtain ⟨hna, hndt, ⟨hndd, hndc, hdc⟩, htd⟩ := hnd
  have htexts_ds : ∀ t ∈ f.texts, t.1 ∉ addrsAll ds := fun t ht hm =>
    htd t.1 (List.mem_map_of_mem ht) t.1 (List.mem_append_left _ hm) rfl
  have hstrings : ∀ t ∈ f.string.toList, t.1 ∉ f.valuestring.toList.map Prod.fst := by
    rw [Fields.texts, List.map_append, List.nodup_append] at hndt
    exact fun t ht hm => hndt.2.2 t.1 hm t.1 (List.mem_map_of_mem ht) rfl
  -- the children go first
  have h1 : guarded (firstOf ds).isSome (cjsonDelete n (firstOf ds)) s =
      .next ((), s.erased (addrsAll ds)) := by
    rcases ds with _ | ⟨d, ds⟩
    · simp [guarded, firstOf, addrsAll, pure_apply]
    · exact hds n s none (by omega) hchild hndd
  rw [bind_next h1]
  have h2 : guarded (f.valuestring.map Prod.fst).isSome (free (f.valuestring.map Prod.fst))
      (s.erased (addrsAll ds)) = _ := free_text fun t ht => by
    have ht : t ∈ f.texts := List.mem_append_left _ ht
    rw [erased_of_notMem (htexts_ds t ht), htexts t ht]
  rw [bind_next h2]
  have h3 : guarded (f.string.map Prod.fst).isSome (free (f.string.map Prod.fst))
      ((s.erased (addrsAll ds)).erased (f.valuestring.toList.map Prod.fst)) = _ :=
      free_text fun t ht => by
    have ht' : t ∈ f.texts := List.mem_append_right _ ht
    rw [erased_of_notMem (hstrings t ht), erased_of_notMem (htexts_ds t ht'), htexts t ht']
  rw [bind_next h3, erased_erased, erased_erased]
  have hown : ∀ x, x ∈ f.string.toList.map Prod.fst ++ f.valuestring.toList.map Prod.fst ++
    addrsAll ds ↔
      x ∈ f.texts.map Prod.fst ++ addrsAll ds := by
    intro x
    simp only [Fields.texts, List.map_append, List.mem_append]
    tauto
  rw [erased_congr hown]
  have h4 : free (some a) (s.erased (f.texts.map Prod.fst ++ addrsAll ds)) = _ := free_some (by
    rw [erased_of_notMem, ha]
    exact fun hm => hna (by
      rw [← List.append_assoc]
      exact List.mem_append_left _ hm))
  rw [bind_next h4, erased_erased]
  have h5 := hcs n (s.erased ([a] ++ (f.texts.map Prod.fst ++ addrsAll ds))) (some a) (by omega)
    (hrest.congr fun x hx => erased_of_notMem fun hm => ?_) hndc
  · rw [h5, erased_erased]
    congr 2
    refine erased_congr fun x => ?_
    simp only [addrsAll, addrs, List.mem_append, List.mem_cons, List.not_mem_nil, or_false]
    tauto
  · rcases List.mem_append.mp hm with hm | hm
    · rw [List.mem_singleton.mp hm] at hx
      exact hna (List.mem_append_right _ (List.mem_append_right _ hx))
    rcases List.mem_append.mp hm with hm | hm
    · exact htd x hm x (List.mem_append_right _ hx) rfl
    · exact hdc x hm x hx rfl

/-- **`cJSON_Delete` frees what it is given**: the blocks of the items, with all that is below them,
each once, and no other block. -/
theorem delete_chain : ∀ cs : List Node, Deletes cs := by
  refine (node_induct (P := fun c => match c with | .mk _ _ ds => Deletes ds) ?_ ?_ ?_).2
  · exact fun _ _ _ h => h
  · intro fuel s prev _ _ _
    rw [addrsAll, erased_nil]
    rcases fuel with _ | fuel
    · rfl
    · rfl
  · rintro ⟨a, f, ds⟩ cs hds hcs
    exact hds.cons hcs

theorem delete_root {fuel : ℕ} (hfuel : size c ≤ fuel) (hr : Rep s.blocks none none c)
    (hnd : (addrs c).Nodup) : cjsonDelete fuel (some c.addr) s =
    .next ((), s.erased (addrs c)) := by
  have h := delete_chain [c] fuel s none (by simpa [sizeAll] using hfuel) ⟨hr, trivial⟩
    (by simpa [addrsAll] using hnd)
  simpa [addrsAll, firstOf] using h

/-! ### `cJSON_AddItemToArray` -/

theorem firstOf_append_cons (cs ds : List Node) (c : Node) : firstOf (cs ++ c :: ds) =
    firstOf (cs ++ [c]) := by
  cases cs <;> rfl

theorem addrsAll_append : ∀ cs ds : List Node, addrsAll (cs ++ ds) = addrsAll cs ++ addrsAll ds
  | [], _ => rfl
  | c :: cs, ds => by
    show addrs c ++ addrsAll (cs ++ ds) = addrs c ++ addrsAll cs ++ addrsAll ds
    rw [addrsAll_append cs ds, List.append_assoc]

theorem addr_mem (c : Node) : c.addr ∈ addrs c := by
  rcases c with ⟨a, f, ds⟩
  exact List.mem_cons_self

/-- The loop ends at the last of the items. -/
theorem lastItem_eq {last : Node} : ∀ {cs : List Node} {prev : Option ℕ} {fuel p : ℕ},
    Chain s.blocks prev (cs ++ [last]) → cs.length < fuel → firstOf (cs ++ [last]) = some p →
    lastItem fuel p s = .next (last.addr, s)
  | [], prev, fuel, p, hc, hfuel, hp => by
    rcases last with ⟨a, f, ds⟩
    obtain rfl : a = p := Option.some.inj hp
    obtain ⟨n, rfl⟩ : ∃ n, fuel = n + 1 := ⟨fuel - 1, by omega⟩
    obtain ⟨⟨ha, -, -⟩, -⟩ := hc
    rw [lastItem, bind_next (loadItem_some ha)]
    rfl
  | .mk a f ds :: cs, prev, fuel, p, hc, hfuel, hp => by
    obtain rfl : a = p := Option.some.inj hp
    obtain ⟨n, rfl⟩ : ∃ n, fuel = n + 1 := ⟨fuel - 1, by omega⟩
    obtain ⟨⟨ha, -, -⟩, hrest⟩ := hc
    obtain ⟨q, hq⟩ : ∃ q, firstOf (cs ++ [last]) = some q := by
      rcases cs with _ | ⟨c, cs⟩
      · exact ⟨_, rfl⟩
      · exact ⟨_, rfl⟩
    have hnext : (f.item prev (firstOf (cs.append [last])) (firstOf ds)).next = some q := hq
    rw [lastItem, bind_next (loadItem_some ha), hnext]
    exact lastItem_eq hrest (by simpa using hfuel) hq

/-- An item whose pointers to its neighbours are written. -/
theorem Rep.relink {prev' next' : Option ℕ} {a : ℕ} {f : Fields} (hr : Rep h prev next (.mk a f cs))
    (hnd : (addrs (.mk a f cs)).Nodup) (ha : h' a = some (.item (f.item prev' next' (firstOf cs))))
    (hx : ∀ x ∈ addrs (.mk a f cs), x ≠ a → h' x = h x) : Rep h' prev' next' (.mk a f cs) := by
  obtain ⟨-, htexts, hcs⟩ := hr
  rw [addrs] at hnd hx
  have hne : ∀ x ∈ f.texts.map Prod.fst ++ addrsAll cs, h' x = h x := fun x hm =>
    hx x (List.mem_cons_of_mem a hm) fun h0 => (List.nodup_cons.mp hnd).1 (h0 ▸ hm)
  refine ⟨ha, fun t ht => ?_, hcs.congr fun x hm => hne x (List.mem_append_right _ hm)⟩
  exact (hne t.1 (List.mem_append_left _ (List.mem_map_of_mem ht))).trans (htexts t ht)

theorem Rep.item_eq {a : ℕ} {f : Fields} {i : Item} (hr : Rep h prev next (.mk a f cs))
    (hi : h a = some (.item i)) : i = f.item prev next (firstOf cs) :=
  Block.item.inj (Option.some.inj (hi.symm.trans hr.1))

/-- What `suffix_object` writes. -/
def suffixed (s : Heap Block) (last n : ℕ) (i j : Item) : Heap Block :=
  (s.put last (.item { i with next := some n })).put n (.item { j with prev := some last })

/-- **An item behind the last one.** -/
theorem chain_extend {last n : Node} {i j : Item} (hi : s.blocks last.addr = some (.item i))
    (hj : s.blocks n.addr = some (.item j)) (hn : Rep s.blocks none none n) :
    ∀ {cs : List Node} {prev : Option ℕ}, Chain s.blocks prev (cs ++ [last]) →
      (addrsAll (cs ++ [last]) ++ addrs n).Nodup →
      Chain (suffixed s last.addr n.addr i j).blocks prev (cs ++ [last, n])
  | [], prev, hc, hnd => by
    rcases last with ⟨a, f, ds⟩
    rcases n with ⟨b, g, es⟩
    obtain ⟨hlast, -⟩ := hc
    rw [List.nil_append, addrsAll, addrsAll, List.append_nil, List.nodup_append] at hnd
    obtain ⟨hnda, hndb, hdisj⟩ := hnd
    have hab : a ≠ b := hdisj a (addr_mem (.mk a f ds)) b (addr_mem (.mk b g es))
    refine ⟨hlast.relink hnda ?_ fun x hx hxa => ?_, hn.relink hndb ?_ fun x hx hxb => ?_, trivial⟩
    · rw [hlast.item_eq hi]
      exact (put_of_ne hab).trans put_self
    · exact (put_of_ne (hdisj x hx b (addr_mem (.mk b g es)))).trans (put_of_ne hxa)
    · rw [hn.item_eq hj]
      exact put_self
    · exact (put_of_ne hxb).trans (put_of_ne (hdisj a (addr_mem (.mk a f ds)) x hx).symm)
  | c :: cs, prev, hc, hnd => by
    obtain ⟨hfirst, hrest⟩ := hc
    rw [List.cons_append, addrsAll, List.append_assoc, List.nodup_append] at hnd
    obtain ⟨-, hndr, hdisj⟩ := hnd
    have hlast : last.addr ∈ addrsAll (cs ++ [last]) ++ addrs n := by
      rw [addrsAll_append, List.append_assoc]
      exact List.mem_append_right _ (List.mem_append_left _
        (List.mem_append_left _ (addr_mem last)))
    have hn' : n.addr ∈ addrsAll (cs ++ [last]) ++ addrs n := List.mem_append_right _ (addr_mem n)
    refine ⟨?_, chain_extend hi hj hn hrest hndr⟩
    have hnext : firstOf (cs ++ [last, n]) = firstOf (cs ++ [last]) :=
      firstOf_append_cons cs [n] last
    show Rep _ prev (firstOf (cs ++ [last, n])) c
    rw [hnext]
    exact hfirst.congr fun x hx => (put_of_ne (hdisj x hx _ hn')).trans
      (put_of_ne (hdisj x hx _ hlast))

theorem exists_item (hr : Rep h prev next c) : ∃ i, h c.addr = some (.item i) := by
  rcases c with ⟨a, f, ds⟩
  exact ⟨_, hr.1⟩

theorem Chain.last {last : Node} : ∀ {cs : List Node} {prev : Option ℕ},
    Chain h prev (cs ++ [last]) →
    ∃ i, h last.addr = some (.item i)
  | [], _, hc => exists_item hc.1
  | _ :: _, _, hc => hc.2.last

/-- The code makes `n` the last child of the item. -/
def Attaches (x : Mem Block Unit) (s : Heap Block) (a : ℕ) (f : Fields) (cs : List Node)
    (n : Node) : Prop :=
  ∀ prev next, Rep s.blocks prev next (.mk a f cs) → Rep s.blocks none none n →
    (addrs (.mk a f cs) ++ addrs n).Nodup → ∃ s', x s = .next ((), s') ∧ s'.supply = s.supply ∧
      Rep s'.blocks prev next (.mk a f (cs ++ [n])) ∧
      ∀ x, x ∉ addrs (.mk a f cs) ++ addrs n → s'.blocks x = s.blocks x

/-- The first child. -/
theorem attaches_first (s : Heap Block) (a : ℕ) (f : Fields) (n : Node) :
    Attaches (setItem (some a) fun i => { i with child := some n.addr }) s a f [] n := by
  rintro prev next ⟨ha, htexts, -⟩ hn hnd
  rw [addrs, List.cons_append, List.nodup_cons] at hnd
  refine ⟨_, setItem_some ha, rfl, ⟨put_self, fun t ht => ?_, hn.congr fun x hx =>
    put_of_ne ?_, trivial⟩,
    fun x hx => put_of_ne ?_⟩
  · have hta : t.1 ≠ a := fun h0 =>
      hnd.1 (h0 ▸ List.mem_append_left _ (List.mem_append_left _ (List.mem_map_of_mem ht)))
    exact (put_of_ne hta).trans (htexts t ht)
  · exact fun h0 => hnd.1 (h0 ▸ List.mem_append_right _ hx)
  · exact fun h0 => hx (h0 ▸ List.mem_append_left _ List.mem_cons_self)

/-- `suffix_object`, with the last of the children. -/
theorem attaches_suffix (s : Heap Block) (a : ℕ) (f : Fields) (cs : List Node) (last n : Node) :
    Attaches (suffixObject last.addr n.addr) s a f (cs ++ [last]) n := by
  rintro prev next ⟨ha, htexts, hcs⟩ hn hnd
  rw [addrs, List.cons_append, List.nodup_cons, List.append_assoc, List.nodup_append] at hnd
  obtain ⟨hna, -, hndc, htd⟩ := hnd
  have htne : ∀ t ∈ f.texts, ∀ y ∈ addrsAll (cs ++ [last]) ++ addrs n, t.1 ≠ y := fun t ht y hy =>
    htd t.1 (List.mem_map_of_mem ht) y hy
  have hnn : n.addr ∈ addrsAll (cs ++ [last]) ++ addrs n := List.mem_append_right _ (addr_mem n)
  have hlast : last.addr ∈ addrsAll (cs ++ [last]) := by
    rw [addrsAll_append]
    exact List.mem_append_right _ (List.mem_append_left _ (addr_mem last))
  have hne : last.addr ≠ n.addr := (List.nodup_append.mp hndc).2.2 last.addr hlast
    n.addr (addr_mem n)
  obtain ⟨i, hi⟩ := hcs.last
  obtain ⟨j, hj⟩ := exists_item hn
  have hrun : suffixObject last.addr n.addr s = .next ((), suffixed s last.addr n.addr i j) := by
    unfold suffixObject
    rw [bind_next (setItem_some hi)]
    exact setItem_some ((put_of_ne hne.symm).trans hj)
  have hout : ∀ x, x ∉ addrsAll (cs ++ [last]) ++ addrs n →
      (suffixed s last.addr n.addr i j).blocks x = s.blocks x := by
    intro x hx
    have hxn : x ≠ n.addr := fun h0 => hx (h0 ▸ hnn)
    have hxl : x ≠ last.addr := fun h0 => hx (h0 ▸ List.mem_append_left _ hlast)
    exact (put_of_ne hxn).trans (put_of_ne hxl)
  refine ⟨_, hrun, rfl, ⟨?_, fun t ht => ?_, ?_⟩, fun x hx => hout x fun hm => hx ?_⟩
  · rw [hout a fun hm => hna (List.mem_append_right _ hm), ha, List.append_assoc]
    exact congrArg (fun p => some (Block.item (f.item prev next p)))
      (firstOf_append_cons cs [n] last).symm
  · rw [hout t.1 fun hm => htne t ht t.1 hm rfl, htexts t ht]
  · rw [List.append_assoc]
    exact chain_extend hi hj hn hcs hndc
  · rw [addrs, List.cons_append, List.append_assoc]
    exact List.mem_cons_of_mem a (List.mem_append_right _ hm)

/-- **`cJSON_AddItemToArray`** makes a new item the last child. -/
theorem attaches_add {fuel : ℕ} (hfuel : cs.length ≤ fuel) (s : Heap Block) (a : ℕ)
    (f : Fields) (n : Node) :
    Attaches (cjsonAddItemToArray fuel (some a) (some n.addr)) s a f cs n := by
  intro prev next hr hn hnd
  have hload : loadItem (some a) s = .next (f.item prev next (firstOf cs), s) := loadItem_some hr.1
  have hrun : cjsonAddItemToArray fuel (some a) (some n.addr) s =
      behindChild fuel (some a) n.addr (firstOf cs) s := bind_next hload
  rw [hrun]
  rcases List.eq_nil_or_concat' cs with rfl | ⟨cs, last, rfl⟩
  · exact attaches_first s a f n prev next hr hn hnd
  · obtain ⟨p, hp⟩ : ∃ p, firstOf (cs ++ [last]) = some p := by
      rcases cs with _ | ⟨c, cs⟩
      · exact ⟨_, rfl⟩
      · exact ⟨_, rfl⟩
    rw [List.length_append, List.length_singleton] at hfuel
    have hloop : lastItem fuel p s = .next (last.addr, s) := lastItem_eq hr.2.2 hfuel hp
    have hchild : behindChild fuel (some a) n.addr (some p) s = suffixObject last.addr n.addr s :=
      bind_next hloop
    rw [hp, hchild]
    exact attaches_suffix s a f cs last n prev next hr hn hnd

/-! ### An item below another -/

/-- The way from an item down to one below it, with what is beside the way. -/
inductive Ctx where
  | here
  | down (a : ℕ) (f : Fields) (before : List Node) (way : Ctx) (after : List Node)

def Ctx.fill : Ctx → Node → Node
  | .here, n => n
  | .down a f before way after, n => .mk a f (before ++ way.fill n :: after)

def Ctx.addrs : Ctx → List ℕ
  | .here => []
  | .down a f before way after => a :: (f.texts.map Prod.fst ++
      (addrsAll before ++ (way.addrs ++ addrsAll after)))

/-- One way goes on where another ends. -/
def Ctx.comp : Ctx → Ctx → Ctx
  | .here, D => D
  | .down a f before way after, D => .down a f before (way.comp D) after

theorem fill_comp (D : Ctx) (n : Node) : ∀ C : Ctx, (C.comp D).fill n = C.fill (D.fill n)
  | .here => rfl
  | .down a f before way after => by
    show Node.mk a f (before ++ (way.comp D).fill n :: after) = .mk a f
      (before ++ way.fill (D.fill n) :: after)
    rw [fill_comp D n way]

theorem count_fill (x : ℕ) (n : Node) : ∀ C : Ctx,
    (addrs (C.fill n)).count x = C.addrs.count x + (addrs n).count x
  | .here => by simp [Ctx.fill, Ctx.addrs]
  | .down a f before way after => by
    have ih := count_fill x n way
    simp only [Ctx.fill, Ctx.addrs, CJsonOwned.addrs, addrsAll_append, addrsAll, List.count_cons,
      List.count_append]
    omega

theorem addr_fill {n n' : Node} (hn : n'.addr = n.addr) : ∀ C :
    Ctx, (C.fill n').addr = (C.fill n).addr
  | .here => hn
  | .down .. => rfl

theorem firstOf_middle {c c' : Node} (hc : c'.addr = c.addr) (xs ys : List Node) :
    firstOf (xs ++ c' :: ys) = firstOf (xs ++ c :: ys) := by
  cases xs
  · exact congrArg some hc
  · rfl

/-- An item in the middle may be another one at the same address. -/
theorem chain_middle {ys : List Node} : ∀ {xs : List Node} {prev : Option ℕ}, Chain h prev
    (xs ++ c :: ys) →
    ∃ p q, Rep h p q c ∧ ∀ (h' : ℕ → Option Block) (c' : Node), c'.addr = c.addr →
      (∀ x ∈ addrsAll xs ++ addrsAll ys, h' x = h x) → Rep h' p q c' → Chain h' prev
      (xs ++ c' :: ys)
  | [], prev, hc => by
    refine ⟨prev, firstOf ys, hc.1, fun h' c' hca hx hr => ⟨hr, ?_⟩⟩
    rw [hca]
    exact hc.2.congr fun x hm => hx x (List.mem_append_right _ hm)
  | d :: xs, prev, hc => by
    obtain ⟨p, q, hr, hback⟩ := chain_middle hc.2
    refine ⟨p, q, hr, fun h' c' hca hx hr' => ⟨?_, hback h' c' hca (fun x hm => hx x ?_) hr'⟩⟩
    · show Rep h' prev (firstOf (xs ++ c' :: ys)) d
      rw [firstOf_middle hca xs ys]
      exact hc.1.congr fun x hm => hx x (List.mem_append_left _ (List.mem_append_left _ hm))
    · rcases List.mem_append.mp hm with hm | hm
      · exact List.mem_append_left _ (List.mem_append_right _ hm)
      · exact List.mem_append_right _ hm

/-- So may an item further down. -/
theorem rep_fill {n : Node} : ∀ {C : Ctx} {prev next : Option ℕ}, Rep h prev next (C.fill n) →
    ∃ p q, Rep h p q n ∧ ∀ (h' : ℕ → Option Block) (n' : Node), n'.addr = n.addr →
      (∀ x ∈ C.addrs, h' x = h x) → Rep h' p q n' → Rep h' prev next (C.fill n')
  | .here, prev, next, hr => ⟨prev, next, hr, fun _ _ _ _ h => h⟩
  | .down a f before way after, prev, next, ⟨ha, htexts, hcs⟩ => by
    obtain ⟨p', q', hr', hback'⟩ := chain_middle hcs
    obtain ⟨p, q, hr, hback⟩ := rep_fill hr'
    refine ⟨p, q, hr, fun h' n' hn hx hrep => ⟨?_, fun t ht => ?_, ?_⟩⟩
    · rw [hx a List.mem_cons_self, ha]
      exact congrArg (fun p => some (Block.item (f.item prev next p)))
        (firstOf_middle (addr_fill hn way) before after).symm
    · refine (hx t.1 ?_).trans (htexts t ht)
      exact List.mem_cons_of_mem a (List.mem_append_left _ (List.mem_map_of_mem ht))
    · have hin : ∀ x ∈ addrsAll before ++ (way.addrs ++ addrsAll after), h' x = h x := fun x hm =>
        hx x (List.mem_cons_of_mem a (List.mem_append_right _ hm))
      refine hback' h' _ (addr_fill hn way) (fun x hm => hin x ?_)
        (hback h' n' hn (fun x hm => hin x (List.mem_append_right _ (List.mem_append_left _ hm)))
          hrep)
      rcases List.mem_append.mp hm with hm | hm
      · exact List.mem_append_left _ hm
      · exact List.mem_append_right _ (List.mem_append_right _ hm)

/-! ### The whole memory -/

/-- Besides what was there before, the memory holds the items `Ts` and nothing else. -/
structure Owns (before : ℕ → Option Block) (s : Heap Block) (Ts : List Node) : Prop where
  rep : ∀ c ∈ Ts, Rep s.blocks none none c
  nodup : (addrsAll Ts).Nodup
  rest : ∀ x, x ∉ addrsAll Ts → s.blocks x = before x
  unused : ∀ x ∈ addrsAll Ts, before x = none
  ready : Ready s

variable {before : ℕ → Option Block} {fuel a x k : ℕ} {f g : Fields} {n n' : Node} {C : Ctx}
    {Ts : List Node}
  {s' : Heap Block} {as : List ℕ}

theorem owns_nil (hs : Ready s) : Owns s.blocks s [] :=
  ⟨by simp, List.nodup_nil, fun _ _ => rfl, by simp [addrsAll], hs⟩

theorem Owns.blocks_eq (ho : Owns before s []) : s.blocks = before :=
  funext fun x => ho.rest x (by simp [addrsAll])

/-- Nothing was added. -/
theorem Owns.adds_nil {s₀ : Heap Block} (ho : Owns s₀.blocks s []) (hsince : Since s₀ s) :
    Adds s₀ s [] :=
  ⟨by simp, by simp, by simp, fun x _ => congrFun ho.blocks_eq x, ho.ready, hsince⟩

theorem mem_fill {m : Node} : x ∈ addrs (C.fill m) ↔ x ∈ C.addrs ∨ x ∈ addrs m := by
  rw [← List.count_pos_iff, count_fill, Nat.add_pos_iff_pos_or_pos, List.count_pos_iff,
    List.count_pos_iff]

theorem addrs_concat (a : ℕ) (f : Fields) (cs : List Node) (n : Node) :
    addrs (.mk a f (cs ++ [n])) = addrs (.mk a f cs) ++ addrs n := by
  simp only [addrs, addrsAll_append, addrsAll, List.append_nil, List.cons_append, List.append_assoc]

/-- The addresses, those beside the way last. -/
theorem perm_fill (n m : Node) (C : Ctx) (Ts : List Node) : (addrsAll (n :: C.fill m :: Ts)).Perm
    ((addrs m ++ addrs n) ++ (C.addrs ++ addrsAll Ts)) := by
  rw [List.perm_iff_count]
  intro x
  simp only [addrsAll, List.count_append, count_fill]
  omega

theorem perm_filled (m : Node) (C : Ctx) (Ts : List Node) :
    (addrsAll (C.fill m :: Ts)).Perm (addrs m ++ (C.addrs ++ addrsAll Ts)) := by
  rw [List.perm_iff_count]
  intro x
  simp only [addrsAll, List.count_append, count_fill]
  omega

theorem mem_addrsAll {c : Node} : ∀ {Ts : List Node}, c ∈ Ts → x ∈ addrs c → x ∈ addrsAll Ts
  | d :: Ts, hc, hx => by
    rcases List.mem_cons.mp hc with rfl | hc
    · exact List.mem_append_left _ hx
    · exact List.mem_append_right _ (mem_addrsAll hc hx)

theorem exists_mem_of_addrsAll : ∀ {Ts : List Node}, x ∈ addrsAll Ts → ∃ c ∈ Ts, x ∈ addrs c
  | c :: Ts, hx => by
    rcases List.mem_append.mp hx with hx | hx
    · exact ⟨c, List.mem_cons_self, hx⟩
    · obtain ⟨d, hd, hx⟩ := exists_mem_of_addrsAll hx
      exact ⟨d, List.mem_cons_of_mem c hd, hx⟩

theorem used_aux : (∀ c prev next, Rep h prev next c → ∀ x ∈ addrs c, h x ≠ none) ∧
    ∀ cs prev, Chain h prev cs → ∀ x ∈ addrsAll cs, h x ≠ none := by
  refine node_induct ?_ ?_ ?_
  · rintro a f cs ih prev next ⟨ha, htexts, hcs⟩ x hx
    rcases List.mem_cons.mp hx with rfl | hx
    · rw [ha]
      exact Option.some_ne_none _
    rcases List.mem_append.mp hx with hx | hx
    · obtain ⟨t, ht, rfl⟩ := List.mem_map.mp hx
      rw [htexts t ht]
      exact Option.some_ne_none _
    · exact ih none hcs x hx
  · exact fun _ _ x hx => absurd hx List.not_mem_nil
  · rintro c cs hc hcs prev ⟨hr, hrest⟩ x hx
    rcases List.mem_append.mp hx with hx | hx
    · exact hc prev _ hr x hx
    · exact hcs _ hrest x hx

/-- What `malloc` gives belongs to no item. -/
theorem Owns.notMem_of_none (ho : Owns before s Ts) (hx : s.blocks x = none) : x ∉ addrsAll Ts := by
  intro hm
  obtain ⟨c, hc, hxc⟩ := exists_mem_of_addrsAll hm
  exact used_aux.1 c none none (ho.rep c hc) x hxc hx

/-- Some of the items are replaced by others, with more addresses. -/
theorem Owns.replace {ns ns' : List Node} (ho : Owns before s (ns ++ Ts))
    (hlater : s'.supply = (s.later k).supply) (has : Drawn s k as)
    (hperm : (addrsAll ns').Perm (addrsAll ns ++ as)) (hr : ∀ c ∈ ns', Rep s'.blocks none none c)
    (hout : ∀ x, x ∉ addrsAll ns ++ as → s'.blocks x = s.blocks x) :
    Owns before s' (ns' ++ Ts) := by
  have hnone : ∀ x ∈ as, s.blocks x = none := fun x hx => has.unused ho.ready hx
  have hsplit := ho.nodup
  rw [addrsAll_append, List.nodup_append] at hsplit
  have hbeside : ∀ x ∈ addrsAll Ts, x ∉ addrsAll ns ++ as := by
    intro x hx hm
    rcases List.mem_append.mp hm with hm | hm
    · exact hsplit.2.2 x hm x hx rfl
    · refine ho.notMem_of_none (hnone x hm) ?_
      rw [addrsAll_append]
      exact List.mem_append_right _ hx
  refine ⟨fun c hc => ?_, ?_, fun x hx => ?_, fun x hx => ?_,
    ho.ready.later hlater fun {i x} hi => ?_⟩
  · rcases List.mem_append.mp hc with hc | hc
    · exact hr c hc
    · exact (ho.rep c (List.mem_append_right _ hc)).congr fun x hx =>
        hout x (hbeside x (mem_addrsAll hc hx))
  · rw [addrsAll_append, List.nodup_append]
    refine ⟨hperm.nodup_iff.mpr (List.nodup_append.mpr ⟨hsplit.1, has.nodup, fun x hx y hy hxy =>
      ?_⟩), hsplit.2.1,
      fun x hx y hy hxy => hbeside y hy (hxy ▸ hperm.mem_iff.mp hx)⟩
    refine ho.notMem_of_none (hnone y hy) ?_
    rw [addrsAll_append, ← hxy]
    exact List.mem_append_left _ hx
  · rw [addrsAll_append, List.mem_append, not_or, hperm.mem_iff] at hx
    rw [hout x hx.1]
    refine ho.rest x ?_
    rw [addrsAll_append, List.mem_append, not_or]
    exact ⟨fun hm => hx.1 (List.mem_append_left _ hm), hx.2⟩
  · rw [addrsAll_append] at hx
    rcases List.mem_append.mp hx with hx | hx
    · rcases List.mem_append.mp (hperm.mem_iff.mp hx) with hx | hx
      · refine ho.unused x ?_
        rw [addrsAll_append]
        exact List.mem_append_left _ hx
      · rw [← ho.rest x (ho.notMem_of_none (hnone x hx)), hnone x hx]
    · refine ho.unused x ?_
      rw [addrsAll_append]
      exact List.mem_append_right _ hx
  · rw [hlater] at hi
    have hx' := ho.notMem_of_none (ho.ready.unused hi)
    rw [addrsAll_append, List.mem_append, not_or] at hx'
    refine hout x fun hm => ?_
    rcases List.mem_append.mp hm with hm | hm
    · exact hx'.1 hm
    · exact has.later ho.ready hi hm

/-- An item below another one is replaced. -/
theorem Owns.update (ho : Owns before s (C.fill n :: Ts)) (hn : n'.addr = n.addr)
    (hlater : s'.supply = (s.later k).supply) (has : Drawn s k as)
    (hperm : (addrs n').Perm (addrs n ++ as))
    (hr : ∀ prev next, Rep s.blocks prev next n → Rep s'.blocks prev next n')
    (hout : ∀ x, x ∉ addrs n ++ as → s'.blocks x = s.blocks x) :
    Owns before s' (C.fill n' :: Ts) := by
  have hC := perm_filled n C []
  have hperm' : (addrsAll [C.fill n']).Perm (addrsAll [C.fill n] ++ as) := by
    rw [List.perm_iff_count] at hperm hC ⊢
    intro x
    have h1 := hperm x
    have h2 := hC x
    have h3 := (perm_filled n' C []).count_eq x
    simp only [List.count_append] at h1 h2 h3 ⊢
    omega
  have hnd := (List.nodup_append.mp ho.nodup).1
  obtain ⟨p, q, hn', hback⟩ := rep_fill (ho.rep (C.fill n) List.mem_cons_self)
  have ho' : Owns before s ([C.fill n] ++ Ts) := ho
  refine ho'.replace hlater has hperm' (fun c hc => ?_) fun x hx => hout x fun hm => hx ?_
  · rw [List.mem_singleton.mp hc]
    refine hback s'.blocks n' hn (fun x hx => hout x fun hm => ?_) (hr p q hn')
    rcases List.mem_append.mp hm with hm | hm
    · have hpos : 1 < (addrs (C.fill n)).count x := by
        have h1 := List.count_pos_iff.mpr hx
        have h2 := List.count_pos_iff.mpr hm
        rw [count_fill]
        omega
      exact absurd (List.nodup_iff_count_le_one.mp hnd x) (by omega)
    · refine ho.notMem_of_none (has.unused ho.ready hm) (List.mem_append_left _ ?_)
      exact mem_fill.mpr (.inl hx)
  · rcases List.mem_append.mp hm with hm | hm
    · exact List.mem_append_left _ (List.mem_append_left _ (mem_fill.mpr (.inr hm)))
    · exact List.mem_append_right _ hm

/-- The item itself, and the pointers to its neighbours. -/
theorem Owns.below (ho : Owns before s (C.fill (.mk a f cs) :: Ts)) : (addrs (.mk a f cs)).Nodup ∧
    ∃ p q, Rep s.blocks p q (.mk a f cs) ∧ ∀ p' q', Rep s.blocks p' q' (.mk a f cs) →
    p' = p ∧ q' = q := by
  have hnd := (perm_filled (.mk a f cs) C Ts).nodup_iff.mp ho.nodup
  obtain ⟨p, q, hr, -⟩ := rep_fill (ho.rep (C.fill (.mk a f cs)) List.mem_cons_self)
  refine ⟨(List.nodup_append.mp hnd).1, p, q, hr, fun p' q' hr' => ?_⟩
  have hitem : f.item p q (firstOf cs) = f.item p' q' (firstOf cs) :=
    Block.item.inj (Option.some.inj (hr.1.symm.trans hr'.1))
  exact ⟨(congrArg Item.prev hitem).symm, (congrArg Item.next hitem).symm⟩

/-- **The fields of an item are written.** -/
theorem Owns.write (ho : Owns before s (C.fill (.mk a f cs) :: Ts)) {w : Item → Item}
    (htexts : g.texts = f.texts) (hw : ∀ prev next child, w (f.item prev next child) =
      g.item prev next child) :
    ∃ s', setItem (some a) w s = .next ((), s') ∧ s'.supply = s.supply ∧
      Owns before s' (C.fill (.mk a g cs) :: Ts) := by
  obtain ⟨hnd, p, q, hr, huniq⟩ := ho.below
  rw [addrs, List.nodup_cons] at hnd
  refine ⟨_, setItem_some hr.1, rfl, ?_⟩
  rw [hw]
  refine ho.update rfl rfl (drawn_nil 0) ?_ (fun p' q' hr' => ?_) fun x hx => put_of_ne ?_
  · rw [addrs, addrs, htexts, List.append_nil]
  · obtain ⟨rfl, rfl⟩ := huniq p' q' hr'
    refine ⟨put_self, fun t ht => ?_, hr'.2.2.congr fun x hx => put_of_ne ?_⟩
    · rw [htexts] at ht
      have hta : t.1 ≠ a := fun h0 => hnd.1 (h0 ▸ List.mem_append_left _ (List.mem_map_of_mem ht))
      exact (put_of_ne hta).trans (hr'.2.1 t ht)
    · exact fun h0 => hnd.1 (h0 ▸ List.mem_append_right _ hx)
  · exact fun h0 => hx (h0 ▸ List.mem_append_left _ List.mem_cons_self)

/-- **An item is attached** to an array or an object anywhere below another. -/
theorem Owns.attach (ho : Owns before s (n :: C.fill (.mk a f cs) :: Ts)) {x : Mem Block Unit}
    (hx : Attaches x s a f cs n) : ∃ s', x s = .next ((), s') ∧ s'.supply = s.supply ∧
      Owns before s' (C.fill (.mk a f (cs ++ [n])) :: Ts) := by
  have hperm := perm_fill n (.mk a f cs) C []
  have hperm' : (addrsAll [C.fill (.mk a f (cs ++ [n]))]).Perm
      (addrsAll [n, C.fill (.mk a f cs)] ++ []) := by
    have hfilled := perm_filled (.mk a f (cs ++ [n])) C []
    rw [addrs_concat] at hfilled
    rw [List.append_nil]
    exact hfilled.trans hperm.symm
  have hnd := ho.nodup
  rw [show n :: C.fill (.mk a f cs) :: Ts = [n, C.fill (.mk a f cs)] ++ Ts from rfl,
    addrsAll_append,
    List.nodup_append, hperm.nodup_iff, List.nodup_append] at hnd
  obtain ⟨⟨hnd, -, hdisj⟩, -, -⟩ := hnd
  have hn : Rep s.blocks none none n := ho.rep n (by simp)
  obtain ⟨p, q, hr, hback⟩ := rep_fill (ho.rep (C.fill (.mk a f cs)) (by simp))
  obtain ⟨s', hrun, hsupply, hrep, hout⟩ := hx p q hr hn hnd
  have ho' : Owns before s ([n, C.fill (.mk a f cs)] ++ Ts) := ho
  refine ⟨s', hrun, hsupply, ho'.replace hsupply (drawn_nil 0) hperm' ?_ ?_⟩
  · intro c hc
    rw [List.mem_singleton.mp hc]
    refine hback s'.blocks _ rfl (fun x hx => hout x fun hm => ?_) hrep
    exact hdisj x hm x (List.mem_append_left _ hx) rfl
  · intro x hx
    rw [List.append_nil, hperm.mem_iff] at hx
    exact hout x fun hm => hx (List.mem_append_left _ hm)

/-- **`cJSON_Delete` gives everything back.** -/
theorem Owns.delete (ho : Owns before s (c :: Ts)) (hfuel : size c ≤ fuel) :
    ∃ s', cjsonDelete fuel (some c.addr) s = .next ((), s') ∧ s'.supply = s.supply ∧
    Owns before s' Ts := by
  have hnd := ho.nodup
  rw [addrsAll, List.nodup_append] at hnd
  obtain ⟨hndc, hndT, hdisj⟩ := hnd
  have hx' : ∀ x ∈ addrsAll Ts, x ∉ addrs c := fun x hx hm => hdisj x hm x hx rfl
  refine ⟨_, delete_root hfuel (ho.rep c (by simp)) hndc, rfl, fun d hd => ?_, hndT, fun x hx => ?_,
    fun x hx => ho.unused x (List.mem_append_right _ hx),
      ho.ready.later (k := 0) rfl fun {i x} hi => ?_⟩
  · exact (ho.rep d (List.mem_cons_of_mem c hd)).congr fun x hx =>
      erased_of_notMem (hx' x (mem_addrsAll hd hx))
  · by_cases hm : x ∈ addrs c
    · rw [ho.unused x (List.mem_append_left _ hm)]
      exact if_pos hm
    · rw [erased_of_notMem hm]
      exact ho.rest x fun h0 => (List.mem_append.mp h0).elim hm hx
  · exact erased_of_notMem fun hm => ho.notMem_of_none (ho.ready.unused hi)
      (List.mem_append_left _ hm)

/-! ### New items -/

/-- The fields of a new item. -/
def newFields (type : UInt32) (valuestring : Option (ℕ × List UInt8)) (valueint : Int32)
    (valuedouble : ℚ) (h : isReference type = false ∧ stringIsConst type = false) : Fields :=
  ⟨type, valuestring, valueint, valuedouble, none, h.1, h.2⟩

def arrayFields : Fields := newFields 5 none 0 0 (by decide)

def objectFields : Fields := newFields 6 none 0 0 (by decide)

def numberFields (valueint : Int32) (num : ℚ) : Fields := newFields 3 none valueint num (by decide)

def stringFields (y : ℕ) (str : List UInt8) : Fields := newFields 4 (some (y, str)) 0 0 (by decide)

/-- The item gets a name. -/
def Fields.named (f : Fields) (y : ℕ) (name : List UInt8) : Fields :=
  { f with string := some (y, name) }

variable {y : ℕ} {str name : List UInt8}

/-- An allocation has failed. -/
theorem Owns.failed (ho : Owns before s Ts) : Owns before (s.later 1) Ts :=
  ⟨ho.rep, ho.nodup, ho.rest, ho.unused, ho.ready.later rfl fun _ => rfl⟩

/-- A new item. -/
theorem Owns.fresh (ho : Owns before s Ts) (hx : s.supply 0 = some x) :
    malloc (.item zeroItem) s = .next (some x, (s.later 1).put x (.item zeroItem)) ∧
      Owns before ((s.later 1).put x (.item zeroItem))
      (.mk x (newFields 0 none 0 0 (by decide)) [] :: Ts) := by
  have ho' : Owns before s ([] ++ Ts) := ho
  refine ⟨malloc_some hx (ho.ready.unused hx), ?_⟩
  show Owns before _ ([.mk x (newFields 0 none 0 0 (by decide)) []] ++ Ts)
  refine ho'.replace rfl (drawn_one hx) ?_ (fun c hc => ?_) fun z hz => put_of_ne ?_
  · simp [addrsAll, addrs, Fields.texts, newFields]
  · rw [List.mem_singleton.mp hc]
    exact ⟨put_self, by simp [Fields.texts, newFields], trivial⟩
  · simpa [addrsAll] using hz

/-- A new item whose fields are written. -/
theorem Owns.created (ho : Owns before s Ts) (hx : s.supply 0 = some x) {w : Item → Item}
    (hg : g.texts = []) (hw : ∀ prev next child,
      w ((newFields 0 none 0 0 (by decide)).item prev next child) =
      g.item prev next child) :
    ∃ s', (do
        let item ← cjsonNewItem
        guarded item.isSome (setItem item w)
        return item : Mem Block (Option ℕ)) s = .next (some x, s') ∧
      s'.supply = (s.later 1).supply ∧ Owns before s' (.mk x g [] :: Ts) := by
  obtain ⟨hnew, hown⟩ := ho.fresh hx
  obtain ⟨s', hset, hsupply, hown'⟩ := Owns.write (C := .here) hown hg hw
  exact ⟨s', (bind_next hnew).trans (bind_next hset), hsupply, hown'⟩

theorem Owns.createArray (ho : Owns before s Ts) (hx : s.supply 0 = some x) : ∃ s',
    cjsonCreateArray s = .next (some x, s') ∧ s'.supply = (s.later 1).supply ∧
      Owns before s' (.mk x arrayFields [] :: Ts) :=
  ho.created hx rfl fun _ _ _ => rfl

theorem Owns.createObject (ho : Owns before s Ts) (hx : s.supply 0 = some x) : ∃ s',
    cjsonCreateObject s = .next (some x, s') ∧ s'.supply = (s.later 1).supply ∧
      Owns before s' (.mk x objectFields [] :: Ts) :=
  ho.created hx rfl fun _ _ _ => rfl

theorem Owns.createNumber (ho : Owns before s Ts) (hx : s.supply 0 = some x)
    (valueint : Int32) (num : ℚ) :
    ∃ s', cjsonCreateNumber valueint num s = .next (some x, s') ∧ s'.supply = (s.later 1).supply ∧
      Owns before s' (.mk x (numberFields valueint num) [] :: Ts) :=
  ho.created hx rfl fun _ _ _ => rfl

/-- **A text is put into an item**: a block is allocated and the pointer to it written. -/
theorem Owns.putText (ho : Owns before s (C.fill (.mk a f cs) :: Ts)) (hy : s.supply 0 = some y)
    (str : List UInt8) {w : Item → Item} (htexts : g.texts.Perm ((y, str) :: f.texts))
    (hw : ∀ prev next child, w (f.item prev next child) = g.item prev next child) :
    ∃ s', setItem (some a) w ((s.later 1).put y (.text str)) = .next ((), s') ∧
      s'.supply = (s.later 1).supply ∧ Owns before s' (C.fill (.mk a g cs) :: Ts) := by
  obtain ⟨hnd, p, q, hr, huniq⟩ := ho.below
  have hny : y ∉ addrs (.mk a f cs) := fun hm =>
    ho.notMem_of_none (ho.ready.unused hy) (List.mem_append_left _ (mem_fill.mpr (.inr hm)))
  rw [addrs] at hny
  rw [addrs, List.nodup_cons] at hnd
  have hay : a ≠ y := fun h0 => hny (h0 ▸ List.mem_cons_self)
  refine ⟨_, setItem_some ((put_of_ne hay).trans hr.1), rfl, ?_⟩
  rw [hw]
  refine ho.update rfl rfl (drawn_one hy) ?_ (fun p' q' hr' => ?_) fun x hx => ?_
  · rw [addrs, addrs, List.perm_iff_count]
    intro x
    have hcount := (htexts.map Prod.fst).count_eq x
    simp only [List.map_cons, List.cons_append, List.count_cons, List.count_append,
      List.count_nil] at hcount ⊢
    omega
  · obtain ⟨rfl, rfl⟩ := huniq p' q' hr'
    have hold : ∀ x ∈ f.texts.map Prod.fst ++ addrsAll cs,
        (((s.later 1).put y (.text str)).put a (.item (g.item p' q' (firstOf cs)))).blocks x =
        s.blocks x := by
      intro x hx
      have hxa : x ≠ a := fun h0 => hnd.1 (h0 ▸ hx)
      have hxy : x ≠ y := fun h0 => hny (h0 ▸ List.mem_cons_of_mem a hx)
      exact (put_of_ne hxa).trans (put_of_ne hxy)
    refine ⟨put_self, fun t ht => ?_, hr'.2.2.congr fun x hx => hold x (List.mem_append_right _ hx)⟩
    rcases List.mem_cons.mp (htexts.mem_iff.mp ht) with rfl | ht
    · exact (put_of_ne hay.symm).trans put_self
    · exact (hold t.1 (List.mem_append_left _ (List.mem_map_of_mem ht))).trans (hr'.2.1 t ht)
  · have hxa : x ≠ a := fun h0 => hx (h0 ▸ List.mem_append_left _ List.mem_cons_self)
    have hxy : x ≠ y := fun h0 => hx (h0 ▸ List.mem_append_right _ List.mem_cons_self)
    exact (put_of_ne hxa).trans (put_of_ne hxy)

theorem Owns.createString (ho : Owns before s Ts) (hx : s.supply 0 = some x)
    (hy : s.supply 1 = some y) (str : List UInt8) :
    ∃ s', cjsonCreateString str s = .next (some x, s') ∧
      s'.supply = (s.later 2).supply ∧ Owns before s' (.mk x (stringFields y str) [] :: Ts) := by
  obtain ⟨hnew, hown⟩ := ho.fresh hx
  obtain ⟨s₁, htype, hs₁, hown₁⟩ := Owns.write (C := .here) (g := newFields 4 none 0 0 (by decide))
    (w := fun i => { i with type := 4 }) hown rfl fun _ _ _ => rfl
  have hy₁ : s₁.supply 0 = some y := by
    rw [hs₁]
    exact hy
  obtain ⟨s₂, hset, hs₂, hown₂⟩ := Owns.putText (C := .here) (g := stringFields y str)
    (w := fun i => { i with valuestring := some y }) hown₁ hy₁ str (List.Perm.refl _) fun _ _ _ =>
      rfl
  have hdup : cjsonStrdup str s₁ = .next (some y, (s₁.later 1).put y (.text str)) :=
    malloc_some hy₁ (hown₁.ready.unused hy₁)
  refine ⟨s₂, (bind_next hnew).trans (bind_next
    ((bind_next htype).trans ((bind_next hdup).trans hset))), ?_, hown₂⟩
  rw [hs₂]
  show s₁.supply.later 1 = _
  rw [hs₁]
  rfl

theorem texts_named (hg : g.string = none) : (g.named y name).texts.Perm
    ((y, name) :: g.texts) := by
  have htexts : g.texts = g.valuestring.toList := by simp [Fields.texts, hg]
  rw [htexts]
  exact List.perm_append_comm

/-- **A named item is added** to an object. -/
theorem Owns.addNamed {b : ℕ} {es : List Node} (hg : g.string = none)
    (ho : Owns before s (.mk b g es :: C.fill (.mk a f cs) :: Ts)) (hy : s.supply 0 = some y)
    (hfuel : cs.length ≤ fuel) (name : List UInt8) :
    ∃ s', cjsonAddItemToObject fuel (some a) name (some b) s = .next ((), s') ∧
      s'.supply = (s.later 1).supply ∧
      Owns before s' (C.fill (.mk a f (cs ++ [.mk b (g.named y name) es])) :: Ts) := by
  obtain ⟨hb, -, -⟩ := ho.rep (.mk b g es) List.mem_cons_self
  have hfree : free (g.item none none (firstOf es)).string s = .next ((), s) := by
    rw [show (g.item none none (firstOf es)).string = none from congrArg (Option.map Prod.fst) hg]
    rfl
  have hname : cjsonStrdup name s = .next (some y, (s.later 1).put y (.text name)) :=
    malloc_some hy (ho.ready.unused hy)
  obtain ⟨s₁, hset, hs₁, ho₁⟩ := Owns.putText (C := .here) (g := g.named y name)
    (w := fun i => { i with string := some y }) ho hy name (texts_named hg) fun _ _ _ => rfl
  obtain ⟨s₂, hadd, hs₂, ho₂⟩ := Owns.attach (n := .mk b (g.named y name) es) ho₁
    (attaches_add hfuel s₁ a f (.mk b (g.named y name) es))
  refine ⟨s₂, ?_, hs₂.trans hs₁, ho₂⟩
  show (loadItem (some b) >>= _) s = _
  rw [bind_next (loadItem_some hb), bind_next hfree, bind_next hname, bind_next hset]
  exact hadd

/-! ### A child -/

theorem exists_rep_of_mem {d : Node} : ∀ {cs : List Node} {prev : Option ℕ},
    Chain h prev cs → d ∈ cs →
    ∃ p q, Rep h p q d
  | c :: cs, prev, hc, hd => by
    rcases List.mem_cons.mp hd with rfl | hd
    · exact ⟨prev, _, hc.1⟩
    · exact exists_rep_of_mem hc.2 hd

theorem size_le_sizeAll {d : Node} : ∀ {cs : List Node}, d ∈ cs → size d ≤ sizeAll cs
  | c :: cs, hd => by
    rw [sizeAll]
    rcases List.mem_cons.mp hd with rfl | hd
    · omega
    · have ih := size_le_sizeAll hd
      omega

theorem length_le_sizeAll : ∀ cs : List Node, cs.length ≤ sizeAll cs
  | [] => Nat.le_refl 0
  | .mk a f ds :: cs => by
    have ih := length_le_sizeAll cs
    rw [sizeAll, size, List.length_cons]
    omega

/-! ### Blocks beside the items -/

theorem Rep.adds {u : Heap Block} {bs : List (ℕ × Block)} (hr : Rep s.blocks prev next c)
    (h : Adds s u bs) : Rep u.blocks prev next c :=
  hr.congr fun x hx => h.of_ne_none (used_aux.1 c prev next hr x hx)

/-- Blocks that were added are no item's. -/
theorem Owns.adds {u : Heap Block} {bs : List (ℕ × Block)} (ho : Owns before s Ts)
    (h : Adds s u bs) :
    Owns (fun x => if x ∈ bs.map Prod.fst then u.blocks x else before x) u Ts := by
  have hnot : ∀ x ∈ addrsAll Ts, x ∉ bs.map Prod.fst := by
    intro x hx hm
    obtain ⟨b, hb, rfl⟩ := List.mem_map.mp hm
    exact ho.notMem_of_none (h.unused b hb) hx
  refine ⟨fun c hc => (ho.rep c hc).adds h, ho.nodup, fun x hx => ?_, fun x hx => ?_, h.ready⟩
  · by_cases hm : x ∈ bs.map Prod.fst
    · exact (if_pos hm).symm
    · exact (h.rest x hm).trans ((ho.rest x hx).trans (if_neg hm).symm)
  · exact (if_neg (hnot x hx)).trans (ho.unused x hx)

end MultiPortConvertor.Tool.CJsonOwned
