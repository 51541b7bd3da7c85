import Mathlib.Data.List.Basic
import Mathlib.Data.List.Infix
import Mathlib.Data.Nat.Notation

/-! # Parsers of texts

A parser takes a value off the front of a text and leaves the rest, fails at a place of the text,
leaves the memory that the text is in (`outside`), or needs more stack than there is (`overflow`).
`items` is a list of entries with a separator between them and a closing character; `delimited`
writes one. -/

namespace MultiPortConvertor.Lib.Parsers

variable {χ α β : Type}

inductive Parsed (χ α : Type) where
  | ok (a : α) (rest : List χ)
  | fail (ep : List χ)
  | outside
  | overflow
  deriving DecidableEq

abbrev Parser (χ α : Type) := List χ → Parsed χ α

namespace Parsed

/-- The next parser goes on where this one has stopped. -/
def bind : Parsed χ α → (α → Parser χ β) → Parsed χ β
  | ok a rest, f => f a rest
  | fail ep, _ => fail ep
  | outside, _ => outside
  | overflow, _ => overflow

def map (f : α → β) : Parsed χ α → Parsed χ β
  | ok a rest => ok (f a) rest
  | fail ep => fail ep
  | outside => outside
  | overflow => overflow

@[simp] theorem ok_bind (a : α) (rest : List χ) (f : α → Parser χ β) :
    (ok a rest).bind f = f a rest := rfl
@[simp] theorem map_ok (f : α → β) (a : α) (rest : List χ) : (ok a rest).map f = ok (f a) rest :=
  rfl

theorem bind_eq_ok {x : Parsed χ α} {f : α → Parser χ β} {b : β} {r : List χ} :
    x.bind f = ok b r ↔ ∃ a s, x = ok a s ∧ f a s = ok b r := by
  cases x <;> simp [bind]

theorem map_eq_ok {x : Parsed χ α} {f : α → β} {b : β} {r : List χ} :
    x.map f = ok b r ↔ ∃ a, x = ok a r ∧ f a = b := by
  cases x with
  | ok a rest => constructor <;> (intro h; simp_all [map])
  | _ => simp [map]

theorem map_id (x : Parsed χ α) : x.map id = x := by
  cases x <;> rfl

theorem map_eq_fail {x : Parsed χ α} {f : α → β} {ep : List χ} :
    x.map f = fail ep ↔ x = fail ep := by
  cases x <;> simp [map]

end Parsed

open Parsed

/-! ### Where a parser may stop -/

/-- The parser has stayed in the text `s`, and what it leaves meets `I`; the stack may be too small
only if `deep`. -/
def Stays (I : List χ → Prop) (deep : Prop) (s : List χ) : Parsed χ α → Prop
  | .ok _ r => I r ∧ r <:+ s
  | .fail ep => ep <:+ s
  | .outside => False
  | .overflow => deep

/-- The same, and something has been taken off the text. -/
def Takes (I : List χ → Prop) (deep : Prop) (s : List χ) : Parsed χ α → Prop
  | .ok _ r => I r ∧ r <:+ s ∧ r ≠ s
  | .fail ep => ep <:+ s
  | .outside => False
  | .overflow => deep

section Stays

variable {I J : List χ → Prop} {deep : Prop} {s t : List χ} {x : Parsed χ α}

theorem Takes.stays (h : Takes I deep s x) : Stays I deep s x := by
  cases x with
  | ok a r => exact ⟨h.1, h.2.1⟩
  | _ => exact h

theorem Takes.bind {f : α → Parser χ β} (h : Takes I deep s x)
    (hf : ∀ a r, x = .ok a r → I r → Stays J deep r (f a r)) : Takes J deep s (x.bind f) := by
  cases x with
  | ok a r =>
    obtain ⟨hr, hs, hne⟩ := h
    have hfr := hf a r rfl hr
    rw [ok_bind]
    cases hx : f a r with
    | ok b r' =>
      rw [hx] at hfr
      refine ⟨hfr.1, hfr.2.trans hs, fun he => hne ?_⟩
      exact hs.eq_of_length (le_antisymm hs.length_le (he ▸ hfr.2.length_le))
    | fail ep =>
      rw [hx] at hfr
      exact hfr.trans hs
    | _ => rw [hx] at hfr; exact hfr
  | _ => exact h

theorem Takes.length_lt {a : α} {r : List χ} (h : Takes I deep s x) (hx : x = .ok a r) :
    r.length < s.length := by
  subst hx
  exact lt_of_le_of_ne h.2.1.length_le fun he => h.2.2 (h.2.1.eq_of_length he)

theorem Takes.map (h : Takes I deep s x) (f : α → β) : Takes I deep s (x.map f) := by
  cases x <;> exact h

theorem Takes.mono (hIJ : ∀ r, I r → J r) (h : Takes I deep s x) : Takes J deep s x := by
  cases x with
  | ok a r => exact ⟨hIJ r h.1, h.2⟩
  | _ => exact h

/-- The text before the place where the parser starts. -/
theorem Stays.of_suffix (h : Stays I deep s x) (hs : s <:+ t) : Stays I deep t x := by
  cases x with
  | ok a r => exact ⟨h.1, h.2.trans hs⟩
  | fail ep => exact List.IsSuffix.trans h hs
  | _ => exact h

theorem Stays.takes (h : Stays I deep s x) (hs : s <:+ t) (hne : s ≠ t) : Takes I deep t x := by
  cases x with
  | ok a r =>
    refine ⟨h.1, h.2.trans hs, fun he => hne ?_⟩
    exact hs.eq_of_length (le_antisymm hs.length_le (he ▸ h.2.length_le))
  | fail ep => exact List.IsSuffix.trans h hs
  | _ => exact h

theorem Takes.of_suffix (h : Takes I deep s x) (hs : s <:+ t) : Takes I deep t x := by
  cases x with
  | ok a r =>
    obtain ⟨hr, hrs, hne⟩ := h
    refine ⟨hr, hrs.trans hs, fun he => hne ?_⟩
    exact hrs.eq_of_length (le_antisymm hrs.length_le (he ▸ hs.length_le))
  | fail ep => exact List.IsSuffix.trans h hs
  | _ => exact h

end Stays

/-- The parser has not left the text, and the stack was not too small. -/
structure Sound (x : Parsed χ α) : Prop where
  inside : x ≠ .outside
  room : x ≠ .overflow

instance : DecidablePred (Sound : Parsed χ α → Prop) := fun x =>
  match x with
  | .ok _ _ => isTrue ⟨by simp, by simp⟩
  | .fail _ => isTrue ⟨by simp, by simp⟩
  | .outside => isFalse fun h => h.inside rfl
  | .overflow => isFalse fun h => h.room rfl

section Sound

variable {x : Parsed χ α}

theorem not_sound_outside : ¬ Sound (.outside : Parsed χ α) := fun h => h.inside rfl

theorem not_sound_overflow : ¬ Sound (.overflow : Parsed χ α) := fun h => h.room rfl

theorem Sound.of_bind {f : α → Parser χ β} (h : Sound (x.bind f)) : Sound x :=
  ⟨fun hx => h.inside (hx ▸ rfl), fun hx => h.room (hx ▸ rfl)⟩

theorem Sound.of_map {f : α → β} (h : Sound (x.map f)) : Sound x :=
  ⟨fun hx => h.inside (hx ▸ rfl), fun hx => h.room (hx ▸ rfl)⟩

end Sound

/-! ### Lists of entries -/

/-- Texts with `sep` in between and `last` at the end. -/
def delimited (sep : χ) (last : List χ) : List (List χ) → List χ
  | [] => last
  | [t] => t ++ last
  | t :: t' :: ts => t ++ sep :: delimited sep last (t' :: ts)

theorem delimited_append (sep : χ) (last p t : List χ) (ts : List (List χ)) :
    delimited sep last ((p ++ t) :: ts) = p ++ delimited sep last (t :: ts) := by
  cases ts <;> simp [delimited]

theorem length_le_delimited (sep : χ) (last : List χ) : ∀ ts : List (List χ),
    ts.length ≤ (delimited sep last ts).length + 1
  | [] => Nat.zero_le _
  | [t] => by simp
  | t :: t' :: ts => by
    have ih := length_le_delimited sep last (t' :: ts)
    simp only [delimited, List.length_cons, List.length_append] at ih ⊢
    omega

section Items

variable [DecidableEq χ] (entry : Parser χ α) (sep close : χ)

/-- At least one entry, with `sep` in between and `close` at the end; at most `n` entries. -/
def items : ℕ → Parser χ (List α)
  | 0, _ => .overflow
  | n + 1, s => (entry s).bind fun a r =>
    match r with
    | [] => .fail []
    | c :: r =>
      if c = sep then (items n r).map (a :: ·)
      else if c = close then .ok [a] r
      else .fail (c :: r)

variable {entry sep close}

/-- **What an accepted list is made of**: an entry, and what follows its end. -/
theorem items_eq_ok {n : ℕ} {s r : List χ} {as : List α}
    (h : items entry sep close n s = .ok as r) :
    ∃ m a, n = m + 1 ∧ ((∃ as' s', entry s = .ok a (sep :: s') ∧
      items entry sep close m s' = .ok as' r ∧
      as = a :: as') ∨ (close ≠ sep ∧ entry s = .ok a (close :: r) ∧ as = [a])) := by
  cases n with
  | zero => simp [items] at h
  | succ n =>
    obtain ⟨a, s', hs, h⟩ := bind_eq_ok.mp h
    refine ⟨n, a, rfl, ?_⟩
    cases s' with
    | nil => simp at h
    | cons c s' =>
      dsimp only at h
      split_ifs at h with hc hc'
      · obtain ⟨as', hr, rfl⟩ := map_eq_ok.mp h
        exact .inl ⟨as', s', by rw [hs, hc], hr, rfl⟩
      · simp only [ok.injEq] at h
        obtain ⟨rfl, rfl⟩ := h
        exact .inr ⟨hc' ▸ hc, by rw [hs, hc'], rfl⟩

/-- **A list that was written is read back**, if each entry is read back before a separator and
before the end. -/
theorem items_delimited (hne : close ≠ sep) {l r : List χ} : ∀ {ts : List (List χ × α)} {n : ℕ},
    ts ≠ [] → ts.length ≤ n →
    (∀ t ∈ ts, (∀ r', entry (t.1 ++ sep :: r') = .ok t.2 (sep :: r')) ∧
      entry (t.1 ++ (l ++ r)) = .ok t.2 (close :: r)) →
    items entry sep close n (delimited sep l (ts.map Prod.fst) ++ r) = .ok (ts.map Prod.snd) r
  | [t], n + 1, _, _, h => by
    have ht := (h t (by simp)).2
    simp [items, delimited, ht, hne]
  | t :: t' :: ts, n + 1, _, hn, h => by
    have ht := (h t (by simp)).1 (delimited sep l ((t' :: ts).map Prod.fst) ++ r)
    have ih := items_delimited hne (l := l) (r := r) (n := n) (List.cons_ne_nil t' ts)
      (by simpa using hn) fun u hu => h u (List.mem_cons_of_mem t hu)
    simp only [List.map_cons] at ht ih
    simp [items, delimited, ht, ih]

/-- **What follows a list is not looked at**, if what follows the end of an entry is not, in the
texts that meet `I`. -/
theorem items_append {q : List χ} {I : List χ → Prop}
    (hentry : ∀ s a c r, I s → c = sep ∨ c = close →
    entry s = .ok a (c :: r) → entry (s ++ q) = .ok a (c :: (r ++ q)) ∧ I r) :
    ∀ {n m : ℕ} {s r : List χ} {as : List α}, n ≤ m → I s → items entry sep close n s = .ok as r →
    items entry sep close m (s ++ q) = .ok as (r ++ q) := by
  intro n
  induction n with
  | zero => intro m s r as _ _ h; simp [items] at h
  | succ n ih =>
    intro m s r as hm hI h
    obtain ⟨m, rfl⟩ := Nat.exists_eq_add_one_of_ne_zero
      (Nat.ne_of_gt (Nat.lt_of_lt_of_le n.succ_pos hm))
    obtain ⟨n', a, hn, ⟨as', s', hs, hr, rfl⟩ | ⟨hne, hs, rfl⟩⟩ := items_eq_ok h
    · obtain rfl : n = n' := Nat.succ_injective hn
      obtain ⟨hs', hI'⟩ := hentry s a sep s' hI (.inl rfl) hs
      have ih' := ih (Nat.le_of_succ_le_succ hm) hI' hr
      simp [items, hs', ih']
    · simp [items, (hentry s a close r hI (.inr rfl) hs).1, hne]

/-- **A list stays in the text**, if its entries do; `n` is large enough for every text of the
length. -/
theorem items_takes {I : List χ → Prop} {deep : Prop} (hentry : ∀ s, I s → Takes I deep s (entry s))
    (hI : ∀ c s, c = sep ∨ c = close → I (c :: s) → I s) :
    ∀ {n : ℕ} {s : List χ}, s.length < n → I s →
    Takes I deep s (items entry sep close n s)
  | n + 1, s, hn, hs => by
    refine (hentry s hs).bind fun a r hx hr => ?_
    have hlt : r.length < s.length := (hentry s hs).length_lt hx
    cases r with
    | nil => exact List.nil_suffix
    | cons c r =>
      rw [List.length_cons] at hlt
      dsimp only
      split_ifs with hc hc'
      · have ih := items_takes hentry hI (n := n) (s := r) (by omega) (hI c r (.inl hc) hr)
        exact (ih.map (a :: ·)).stays.of_suffix (List.suffix_cons c r)
      · exact ⟨hI c r (.inr hc') hr, List.suffix_cons c r⟩
      · exact List.suffix_rfl

end Items

end MultiPortConvertor.Lib.Parsers
