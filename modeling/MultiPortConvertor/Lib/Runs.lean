import Mathlib.Logic.Function.Basic
import Mathlib.Data.Nat.Notation

/-! # Runs of a labelled transition system

A system is a partial function `step : σ → α → Option σ`: in a state an action leads to a state or
is disabled. A run is a list of actions. `Steps P` says that `P` holds of every step the run takes
(its state and its action), `States Q` that `Q` holds of every state it goes through. The rules
below derive both from facts about one step; `steps_iff` is the rule for an exact condition: a guard
on the steps that keeps an invariant, and whose first violation breaks the property. -/

namespace MultiPortConvertor.Lib.Runs

universe u v w

variable {σ : Type u} {α : Type v} {τ : Type w} (step : σ → α → Option σ)

/-- The state after the actions, if none of them is disabled. -/
def exec : σ → List α → Option σ
  | s, [] => some s
  | s, a :: as => (step s a).bind fun t => exec t as

/-- `P` holds of every step of the run. -/
def Steps (P : σ → α → Prop) : σ → List α → Prop
  | _, [] => True
  | s, a :: as => P s a ∧ ∀ t, step s a = some t → Steps P t as

/-- `Q` holds of every state of the run. -/
def States (Q : σ → Prop) : σ → List α → Prop
  | s, [] => Q s
  | s, a :: as => Q s ∧ ∀ t, step s a = some t → States Q t as

variable {step}

instance decidableSteps {P : σ → α → Prop} [∀ s a, Decidable (P s a)] :
    ∀ (s : σ) (as : List α), Decidable (Steps step P s as)
  | _, [] => isTrue trivial
  | s, a :: as =>
    match h : step s a with
    | none => decidable_of_iff (P s a) (by simp [Steps, h])
    | some t =>
      have : Decidable (Steps step P t as) := decidableSteps t as
      decidable_of_iff (P s a ∧ Steps step P t as) (by simp [Steps, h])

theorem exec_append : ∀ (s : σ) (as bs : List α),
    exec step s (as ++ bs) = (exec step s as).bind fun t => exec step t bs
  | _, [], _ => rfl
  | s, a :: as, bs => by
    simp only [List.cons_append, exec, Option.bind_assoc]
    congr 1
    funext t
    exact exec_append t as bs

theorem steps_true : ∀ (s : σ) (as : List α), Steps step (fun _ _ => True) s as
  | _, [] => trivial
  | _, _ :: as => ⟨trivial, fun t _ => steps_true t as⟩

/-- **A property of a part of the state** is one of the runs of the part, where each step of the
whole steps the part. -/
theorem steps_part {step' : τ → α → Option τ} (f : σ → τ)
    (hf : ∀ s a, step' (f s) a = (step s a).map f) {P : τ → α → Prop} : ∀ {s : σ} {as : List α},
    Steps step (fun s a => P (f s) a) s as ↔ Steps step' P (f s) as
  | _, [] => Iff.rfl
  | s, a :: as => by
    refine and_congr Iff.rfl ?_
    rw [hf]
    constructor
    · intro h t ht
      obtain ⟨u, hu, rfl⟩ := Option.map_eq_some_iff.mp ht
      exact (steps_part f hf).mp (h u hu)
    · intro h t ht
      exact (steps_part f hf).mpr (h (f t) (by rw [ht]; rfl))

theorem States.head {Q : σ → Prop} {s : σ} {as : List α} (h : States step Q s as) : Q s := by
  cases as with
  | nil => exact h
  | cons a as => exact h.1

theorem States.mono {Q Q' : σ → Prop} (h : ∀ s, Q s → Q' s) : ∀ {s : σ} {as : List α},
    States step Q s as → States step Q' s as
  | _, [], hs => h _ hs
  | _, _ :: _, hs => ⟨h _ hs.1, fun t ht => (hs.2 t ht).mono h⟩

theorem States.last {Q : σ → Prop} : ∀ {s t : σ} {as : List α}, States step Q s as →
    exec step s as = some t → Q t
  | s, t, [], h, he => by
    obtain rfl := Option.some.inj he
    exact h
  | s, t, a :: as, h, he => by
    obtain ⟨u, hu, he⟩ := Option.bind_eq_some_iff.mp he
    exact (h.2 u hu).last he

/-- **The invariant rule**, for runs whose steps all meet a guard. -/
theorem states_of_guarded {I : σ → Prop} {G : σ → α → Prop}
    (hI : ∀ s a t, I s → G s a → step s a = some t → I t) : ∀ {s : σ} {as : List α},
    I s → Steps step G s as → States step I s as
  | _, [], hs, _ => hs
  | _, _ :: _, hs, hg => ⟨hs, fun t ht => states_of_guarded hI (hI _ _ t hs hg.1 ht) (hg.2 t ht)⟩

/-- **The invariant rule.** -/
theorem states_of_inv {I : σ → Prop} (hI : ∀ s a t, I s → step s a = some t → I t) :
    ∀ {s : σ} {as : List α}, I s → States step I s as
  | _, [], hs => hs
  | _, _ :: _, hs => ⟨hs, fun t ht => states_of_inv hI (hI _ _ t hs ht)⟩

/-- What an invariant gives at a step that meets the guard, along a run whose steps all do. -/
theorem steps_of_guarded {I : σ → Prop} {G P : σ → α → Prop}
    (hI : ∀ s a t, I s → G s a → step s a = some t → I t) (hP : ∀ s a, I s → G s a → P s a) :
    ∀ {s : σ} {as : List α}, I s → Steps step G s as → Steps step P s as
  | _, [], _, _ => trivial
  | _, _ :: _, hs, hg => ⟨hP _ _ hs hg.1,
      fun t ht => steps_of_guarded hI hP (hI _ _ t hs hg.1 ht) (hg.2 t ht)⟩

/-- Along a run whose steps all meet the guard, conditions that an invariant makes equivalent hold
of every step together. -/
theorem steps_congr {I : σ → Prop} {G P P' : σ → α → Prop}
    (hI : ∀ s a t, I s → G s a → step s a = some t → I t) (hP : ∀ s a, I s → (P s a ↔ P' s a)) :
    ∀ {s : σ} {as : List α}, I s → Steps step G s as → (Steps step P s as ↔ Steps step P' s as)
  | _, [], _, _ => Iff.rfl
  | s, a :: _, hs, hg => and_congr (hP s a hs)
      (forall_congr' fun t => forall_congr' fun ht =>
        steps_congr hI hP (hI s a t hs hg.1 ht) (hg.2 t ht))

/-- **The first violation.** Two conditions that an invariant makes equivalent hold of every step
together, if the steps that meet them keep the invariant: the first step that violates one violates
the other. -/
theorem steps_iff_of_inv {I : σ → Prop} {G P : σ → α → Prop}
    (hI : ∀ s a t, I s → G s a → step s a = some t → I t) (hP : ∀ s a, I s → (G s a ↔ P s a)) :
    ∀ {s : σ} {as : List α}, I s → (Steps step G s as ↔ Steps step P s as)
  | _, [], _ => Iff.rfl
  | s, a :: as, hs => by
    constructor
    · rintro ⟨hg, hgs⟩
      exact ⟨(hP s a hs).mp hg, fun t ht => (steps_iff_of_inv hI hP (hI s a t hs hg ht)).mp
        (hgs t ht)⟩
    · rintro ⟨hp, hps⟩
      have hg : G s a := (hP s a hs).mpr hp
      exact ⟨hg, fun t ht => (steps_iff_of_inv hI hP (hI s a t hs hg ht)).mpr (hps t ht)⟩

/-- **The rule for an exact condition.** If steps that meet the guard `G` keep the invariant `I`,
`I` gives `Q` of the states and `P` of the guarded steps, and a step that violates the guard
violates `P` or leads out of `Q`, then along a run the guard is met exactly when `P` and `Q` hold
throughout. -/
theorem steps_iff {I Q : σ → Prop} {G P : σ → α → Prop}
    (hI : ∀ s a t, I s → G s a → step s a = some t → I t) (hP : ∀ s a, I s → G s a → P s a)
    (hQ : ∀ s, I s → Q s)
    (hbad : ∀ s a, I s → ¬ G s a → P s a → ∃ t, step s a = some t ∧ ¬ Q t) :
    ∀ {s : σ} {as : List α}, I s → (Steps step G s as ↔ States step Q s as ∧ Steps step P s as)
  | _, [], hs => ⟨fun _ => ⟨hQ _ hs, trivial⟩, fun _ => trivial⟩
  | s, a :: as, hs => by
    constructor
    · intro hg
      exact ⟨(states_of_guarded hI hs hg).mono hQ, steps_of_guarded hI hP hs hg⟩
    · rintro ⟨hst, hsp⟩
      have hg : G s a := by
        by_contra hng
        obtain ⟨t, ht, hnq⟩ := hbad s a hs hng hsp.1
        exact hnq (hst.2 t ht).head
      exact ⟨hg, fun t ht =>
        (steps_iff hI hP hQ hbad (hI s a t hs hg ht)).mpr ⟨hst.2 t ht, hsp.2 t ht⟩⟩

/-- **Simulation.** If every enabled step of `step'` that meets the guard is matched by a step of
`step` between related states, a run of `step'` whose steps all meet it is matched by the same run
of `step`. -/
theorem exec_of_simulation {step' : τ → α → Option τ} {R : σ → τ → Prop} {G : τ → α → Prop}
    (hR : ∀ s a b t, R s b → G b a → step' b a = some t → ∃ s', step s a = some s' ∧ R s' t) :
    ∀ {s : σ} {b t : τ} {as : List α}, R s b → Steps step' G b as → exec step' b as = some t →
      ∃ s', exec step s as = some s' ∧ R s' t
  | s, b, t, [], h, _, he => by
    obtain rfl := Option.some.inj he
    exact ⟨s, rfl, h⟩
  | s, b, t, a :: as, h, hg, he => by
    obtain ⟨c, hc, hct⟩ := Option.bind_eq_some_iff.mp he
    obtain ⟨s', hs', hR'⟩ := hR s a b c h hg.1 hc
    obtain ⟨s'', hs'', hR''⟩ := exec_of_simulation hR hR' (hg.2 c hc) hct
    refine ⟨s'', ?_, hR''⟩
    rw [exec, hs']
    exact hs''

end MultiPortConvertor.Lib.Runs
