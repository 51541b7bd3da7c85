import Mathlib.Data.Nat.Notation
import Mathlib.Tactic.SplitIfs

/-! # Transfers with a write callback

A transfer hands the body it receives to a callback, piece by piece. The callback answers how much
it has taken; a piece that it does not take whole ends the transfer with an error. Otherwise the
transfer ends with the result of the transport. -/

namespace MultiPortConvertor.Lib.Transfers

/-- What the peer and the transport do in one transfer: the pieces of the body, and the result once
they are all taken; 0 is success. -/
structure Attempt where
  chunks : List (List UInt8)
  result : ℕ

variable {σ : Type}

/-- The result of a transfer that the callback has ended. -/
def writeError : ℕ := 23

/-- The pieces handed to the callback, on its state `s`, and the result. -/
def transfer (callback : σ → List UInt8 → σ × ℕ) (s : σ) : List (List UInt8) → ℕ → σ × ℕ
  | [], result => (s, result)
  | chunk :: chunks, result =>
    let (s, taken) := callback s chunk
    if taken = chunk.length then transfer callback s chunks result else (s, writeError)

def Attempt.perform (a : Attempt) (callback : σ → List UInt8 → σ × ℕ) (s : σ) : σ × ℕ :=
  transfer callback s a.chunks a.result

/-- A transfer whose callback has effects besides its state. -/
def transferM {m : Type → Type} [Monad m] (callback : σ → List UInt8 → m (σ × ℕ)) (s : σ) :
    List (List UInt8) → ℕ → m (σ × ℕ)
  | [], result => return (s, result)
  | chunk :: chunks, result => do
    let r ← callback s chunk
    if r.2 = chunk.length then transferM callback r.1 chunks result else return (r.1, writeError)

def Attempt.performM {m : Type → Type} [Monad m] (a : Attempt)
    (callback : σ → List UInt8 → m (σ × ℕ)) (s : σ) : m (σ × ℕ) :=
  transferM callback s a.chunks a.result

/-- What the callback never changes, a transfer does not change. -/
theorem transfer_keeps {β : Type} {callback : σ → List UInt8 → σ × ℕ} {f : σ → β}
    (h : ∀ s chunk, f (callback s chunk).1 = f s) (result : ℕ) :
    ∀ (chunks : List (List UInt8)) (s : σ), f (transfer callback s chunks result).1 = f s
  | [], _ => rfl
  | chunk :: chunks, s => by
    rw [transfer]
    dsimp only
    split_ifs
    · rw [transfer_keeps h result chunks, h]
    · exact h s chunk

/-! ### Callbacks whose answer depends on the piece alone -/

/-- The pieces that reach a callback that takes those with `takes`: all up to the first it refuses.
-/
def passed (takes : List UInt8 → Bool) : List (List UInt8) → List (List UInt8)
  | [] => []
  | chunk :: chunks => chunk :: if takes chunk then passed takes chunks else []

/-- The transfer succeeds. -/
def Attempt.Succeeds (a : Attempt) (takes : List UInt8 → Bool) : Prop :=
  a.result = 0 ∧ ∀ chunk ∈ a.chunks, takes chunk = true

instance (a : Attempt) (takes : List UInt8 → Bool) : Decidable (a.Succeeds takes) :=
  inferInstanceAs (Decidable (_ ∧ _))

section

variable {callback : σ → List UInt8 → σ × ℕ} {takes : List UInt8 → Bool}

theorem transfer_result (h : ∀ s chunk, (callback s chunk).2 = chunk.length ↔ takes chunk = true)
    (result : ℕ) : ∀ (chunks : List (List UInt8)) (s : σ),
      (transfer callback s chunks result).2 = 0 ↔ result = 0 ∧ ∀ chunk ∈ chunks, takes chunk = true
  | [], s => by simp [transfer]
  | chunk :: chunks, s => by
    rw [transfer]
    dsimp only
    by_cases ht : takes chunk = true
    · rw [if_pos ((h s chunk).mpr ht), transfer_result h result chunks]
      simp [ht]
    · rw [if_neg fun hn => ht ((h s chunk).mp hn)]
      simp [writeError, ht]

/-- **When a transfer succeeds.** -/
theorem perform_eq_zero (h : ∀ s chunk, (callback s chunk).2 = chunk.length ↔ takes chunk = true)
    (a : Attempt) (s : σ) : (a.perform callback s).2 = 0 ↔ a.Succeeds takes :=
  transfer_result h a.result a.chunks s

/-- **What the callback leaves behind**: the pieces that reach it, one after another. -/
theorem transfer_state (h : ∀ s chunk, (callback s chunk).2 = chunk.length ↔ takes chunk = true)
    (result : ℕ) : ∀ (chunks : List (List UInt8)) (s : σ),
      (transfer callback s chunks result).1 =
        (passed takes chunks).foldl (fun s chunk => (callback s chunk).1) s
  | [], s => rfl
  | chunk :: chunks, s => by
    rw [transfer, passed, List.foldl_cons]
    dsimp only
    by_cases ht : takes chunk = true
    · rw [if_pos ((h s chunk).mpr ht), if_pos ht, transfer_state h result chunks]
    · rw [if_neg fun hn => ht ((h s chunk).mp hn), if_neg ht]
      rfl

/-- The result does not depend on the state of the callback, if its answers do not. -/
theorem transfer_result_congr (h : ∀ s s' chunk, (callback s chunk).2 = (callback s' chunk).2)
    (result : ℕ) : ∀ (chunks : List (List UInt8)) (s s' : σ),
      (transfer callback s chunks result).2 = (transfer callback s' chunks result).2
  | [], _, _ => rfl
  | chunk :: chunks, s, s' => by
    rw [transfer, transfer]
    dsimp only
    rw [h s s' chunk]
    split_ifs
    · exact transfer_result_congr h result chunks _ _
    · rfl

end

end MultiPortConvertor.Lib.Transfers
