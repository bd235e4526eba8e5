import Mathlib.Data.List.Induction
import Mathlib.Tactic.Common

/-!
# Runs of a labelled transition system

A step of an `Lts` carries an event. `Steps T s es t` is a finite run from `s` to `t` that emits the
events `es`; `Run T es t` starts in an initial state.

* `Run.invariant`: what holds initially and is kept by every step holds after every run, where the
  invariant may read the events so far (a history).
* `Steps.preserves`: what every step keeps is kept by a run from any state.
* `Steps.descend`: where a measure can always be made smaller, it can be brought to 0; `Steps.length_add_le`:
  where every step makes it smaller, the runs are no longer than it is.
* `restrict`: the runs all of whose steps meet a condition; `Run.of_restrict`.
* `of_play`: the runs that a list of choices computes, when the steps come from a function; `of_nextIf`:
  the same with a condition on the steps. `play_invariant`: an invariant that may read the choices so far.
-/

/-- A transition system over states `σ` whose steps emit events `ε`. -/
structure Lts (σ ε : Type) where
  init : σ → Prop
  step : σ → ε → σ → Prop

namespace Lts

variable {σ ε : Type}

/-- A finite run from a state, with the events it emits in order. -/
inductive Steps (T : Lts σ ε) (s : σ) : List ε → σ → Prop
  | nil : Steps T s [] s
  | snoc {es t e u} : Steps T s es t → T.step t e u → Steps T s (es ++ [e]) u

/-- A finite run from an initial state. -/
def Run (T : Lts σ ε) (es : List ε) (t : σ) : Prop := ∃ s, T.init s ∧ T.Steps s es t

variable {T : Lts σ ε} {s t u : σ} {es fs : List ε} {e : ε}

theorem Steps.trans (h : T.Steps s es t) (h' : T.Steps t fs u) : T.Steps s (es ++ fs) u := by
  induction h' with
  | nil => simpa using h
  | snoc _ hstep ih => rw [← List.append_assoc]; exact ih.snoc hstep

theorem Steps.single (h : T.step s e t) : T.Steps s [e] t := Steps.nil.snoc h

/-- A run whose events end in `e` ends with a step that emits `e`. -/
theorem Steps.last (h : T.Steps s (es ++ [e]) u) : ∃ t, T.Steps s es t ∧ T.step t e u := by
  generalize hl : es ++ [e] = l at h
  cases h with
  | nil => simp at hl
  | snoc h hstep =>
    obtain ⟨rfl, he⟩ := List.append_inj' hl rfl
    cases he
    exact ⟨_, h, hstep⟩

theorem Steps.eq_of_nil (h : T.Steps s [] t) : t = s := by
  generalize hl : ([] : List ε) = l at h
  cases h with
  | nil => rfl
  | snoc _ _ => simp at hl

/-- A run splits wherever its events do. -/
theorem Steps.split (h : T.Steps s (es ++ fs) u) : ∃ t, T.Steps s es t ∧ T.Steps t fs u := by
  induction fs using List.reverseRecOn generalizing u with
  | nil => exact ⟨u, by simpa using h, .nil⟩
  | append_singleton fs e ih =>
    rw [← List.append_assoc] at h
    obtain ⟨v, h, hstep⟩ := h.last
    obtain ⟨t, h₁, h₂⟩ := ih h
    exact ⟨t, h₁, h₂.snoc hstep⟩

theorem Steps.cons (h : T.Steps s (e :: es) u) : ∃ t, T.step s e t ∧ T.Steps t es u := by
  have hsplit : T.Steps s ([e] ++ es) u := h
  obtain ⟨t, h₁, h₂⟩ := hsplit.split
  have hlast : T.Steps s ([] ++ [e]) t := h₁
  obtain ⟨_, h₀, hstep⟩ := hlast.last
  cases h₀.eq_of_nil
  exact ⟨t, hstep, h₂⟩

theorem Run.init (h : T.init s) : T.Run [] s := ⟨s, h, .nil⟩

theorem Run.snoc (h : T.Run es s) (hstep : T.step s e t) : T.Run (es ++ [e]) t :=
  let ⟨s₀, h₀, h⟩ := h
  ⟨s₀, h₀, h.snoc hstep⟩

theorem Run.trans (h : T.Run es s) (h' : T.Steps s fs t) : T.Run (es ++ fs) t :=
  let ⟨s₀, h₀, h⟩ := h
  ⟨s₀, h₀, h.trans h'⟩

theorem Run.split (h : T.Run (es ++ fs) u) : ∃ t, T.Run es t ∧ T.Steps t fs u :=
  let ⟨s₀, h₀, h⟩ := h
  let ⟨t, h₁, h₂⟩ := h.split
  ⟨t, ⟨s₀, h₀, h₁⟩, h₂⟩

/-- **The invariant rule.** The invariant may read the events emitted so far. -/
theorem Run.invariant {I : List ε → σ → Prop} (h₀ : ∀ s, T.init s → I [] s)
    (hstep : ∀ es s e t, T.Run es s → I es s → T.step s e t → I (es ++ [e]) t)
    (h : T.Run es t) : I es t := by
  obtain ⟨s, hs, h⟩ := h
  induction h with
  | nil => exact h₀ s hs
  | snoc h hs' ih => exact hstep _ _ _ _ ⟨s, hs, h⟩ ih hs'

/-- What every step keeps, a run keeps. -/
theorem Steps.preserves {P : σ → Prop} (hstep : ∀ s e t, P s → T.step s e t → P t)
    (h : T.Steps s es t) (hs : P s) : P t := by
  induction h with
  | nil => exact hs
  | snoc _ h ih => exact hstep _ _ _ ih h

/-- **From every state that keeps `I` a run leads to measure 0**, if from each such state of another
measure some run makes it smaller. -/
theorem Steps.descend {I : σ → Prop} {μ : σ → ℕ}
    (hless : ∀ s, I s → μ s ≠ 0 → ∃ es t, T.Steps s es t ∧ I t ∧ μ t < μ s) (s : σ) (hs : I s) :
    ∃ es t, T.Steps s es t ∧ I t ∧ μ t = 0 := by
  induction hn : μ s using Nat.strongRecOn generalizing s with
  | ind n ih =>
    by_cases h0 : μ s = 0
    · exact ⟨[], s, .nil, hs, h0⟩
    · obtain ⟨es, t, hst, ht, hlt⟩ := hless s hs h0
      obtain ⟨fs, u, htu, hu, hu0⟩ := ih (μ t) (hn ▸ hlt) t ht rfl
      exact ⟨es ++ fs, u, hst.trans htu, hu, hu0⟩

/-- Where every step makes a measure smaller, the measure bounds the length of the runs. -/
theorem Steps.length_add_le {μ : σ → ℕ} (hless : ∀ s e t, T.step s e t → μ t < μ s) (h : T.Steps s es t) :
    es.length + μ t ≤ μ s := by
  induction h with
  | nil => exact Nat.le_of_eq (Nat.zero_add _)
  | snoc _ hstep ih =>
    have hlt := hless _ _ _ hstep
    rw [List.length_append, List.length_singleton]
    omega

/-! ## Conditions on steps -/

/-- The steps that meet `ok`. -/
def restrict (T : Lts σ ε) (ok : σ → ε → σ → Prop) : Lts σ ε where
  init := T.init
  step s e t := T.step s e t ∧ ok s e t

variable {ok : σ → ε → σ → Prop}

theorem Steps.of_restrict (h : (T.restrict ok).Steps s es t) : T.Steps s es t := by
  induction h with
  | nil => exact .nil
  | snoc _ h ih => exact ih.snoc h.1

theorem Steps.restrict (h : T.Steps s es t) (hok : ∀ e ∈ es, ∀ s t, ok s e t) :
    (T.restrict ok).Steps s es t := by
  induction h with
  | nil => exact .nil
  | snoc _ hstep ih =>
    exact (ih fun e he => hok e (List.mem_append_left _ he)).snoc
      ⟨hstep, hok _ (List.mem_append_right _ (List.mem_singleton_self _)) _ _⟩

theorem Run.of_restrict (h : (T.restrict ok).Run es t) : T.Run es t :=
  let ⟨s, hs, h⟩ := h
  ⟨s, hs, h.of_restrict⟩

theorem Run.restrict (h : T.Run es t) (hok : ∀ e ∈ es, ∀ s t, ok s e t) :
    (T.restrict ok).Run es t :=
  let ⟨s, hs, h⟩ := h
  ⟨s, hs, h.restrict hok⟩

theorem Steps.restrict_mono {ok' : σ → ε → σ → Prop} (h : (T.restrict ok).Steps s es t)
    (hok : ∀ s e t, T.step s e t → ok s e t → ok' s e t) : (T.restrict ok').Steps s es t := by
  induction h with
  | nil => exact .nil
  | snoc _ h ih => exact ih.snoc ⟨h.1, hok _ _ _ h.1 h.2⟩

theorem Run.restrict_mono {ok' : σ → ε → σ → Prop} (h : (T.restrict ok).Run es t)
    (hok : ∀ s e t, T.step s e t → ok s e t → ok' s e t) : (T.restrict ok').Run es t :=
  let ⟨s, hs, h⟩ := h
  ⟨s, hs, h.restrict_mono hok⟩

/-! ## Steps computed by a function -/

section OfFun

variable {ι : Type}

/-- The system of a step function: a choice `c` fixes what happens, the function computes the event
and the next state. -/
def ofFun (init : σ → Prop) (next : σ → ι → Option (ε × σ)) : Lts σ ε where
  init := init
  step s e t := ∃ c, next s c = some (e, t)

/-- Follow a list of choices. -/
def play (next : σ → ι → Option (ε × σ)) : σ → List ι → Option (List ε × σ)
  | s, [] => some ([], s)
  | s, c :: cs =>
    match next s c with
    | none => none
    | some (e, t) => (play next t cs).map fun p => (e :: p.1, p.2)

theorem of_play {init : σ → Prop} {next : σ → ι → Option (ε × σ)} (cs : List ι)
    (h : play next s cs = some (es, t)) : (ofFun init next).Steps s es t := by
  induction cs generalizing s es with
  | nil => cases h; exact .nil
  | cons c cs ih =>
    rw [play] at h
    rcases hn : next s c with _ | ⟨e, u⟩
    · rw [hn] at h; cases h
    · rw [hn] at h
      obtain ⟨⟨es', t'⟩, hp, heq⟩ := Option.map_eq_some_iff.mp h
      cases heq
      exact (Steps.single (T := ofFun init next) ⟨c, hn⟩).trans (ih hp)

theorem play_append (next : σ → ι → Option (ε × σ)) (s : σ) (cs ds : List ι) :
    play next s (cs ++ ds) =
      (play next s cs).bind fun p => (play next p.2 ds).map fun q => (p.1 ++ q.1, q.2) := by
  induction cs generalizing s with
  | nil => cases h : play next s ds <;> simp [play, h]
  | cons c cs ih =>
    rcases hn : next s c with _ | ⟨e, t⟩
    · simp [play, hn]
    · simp only [List.cons_append, play, hn, ih]
      rcases play next t cs with _ | ⟨es, u⟩
      · rfl
      · rcases hd : play next u ds with _ | ⟨fs, v⟩ <;> simp [hd]

/-- **The invariant rule for played runs.** The invariant may read the choices so far. -/
theorem play_invariant {next : σ → ι → Option (ε × σ)} {I : List ι → σ → Prop} (h₀ : I [] s)
    (hstep : ∀ cs es u c e v, play next s cs = some (es, u) → I cs u → next u c = some (e, v) → I (cs ++ [c]) v)
    (cs : List ι) (h : play next s cs = some (es, t)) : I cs t := by
  induction cs using List.reverseRecOn generalizing es t with
  | nil =>
    cases h
    exact h₀
  | append_singleton cs c ih =>
    rw [play_append] at h
    obtain ⟨⟨es₁, u⟩, hu, h⟩ := Option.bind_eq_some_iff.mp h
    obtain ⟨⟨es₂, v⟩, hv, heq⟩ := Option.map_eq_some_iff.mp h
    cases heq
    cases hn : next u c with
    | none => simp [play, hn] at hv
    | some p =>
      obtain ⟨e, w⟩ := p
      simp only [play, hn, Option.map_some, Option.some.injEq, Prod.mk.injEq] at hv
      obtain ⟨-, rfl⟩ := hv
      exact hstep cs es₁ u c e w hu (ih hu) hn

/-- The choices whose steps meet a condition that can be computed. -/
def nextIf (next : σ → ι → Option (ε × σ)) (ok : σ → ε → σ → Prop) [∀ s e t, Decidable (ok s e t)]
    (s : σ) (c : ι) : Option (ε × σ) :=
  (next s c).filter fun p => ok s p.1 p.2

theorem Steps.of_nextIf {init : σ → Prop} {next : σ → ι → Option (ε × σ)} {ok : σ → ε → σ → Prop}
    [∀ s e t, Decidable (ok s e t)] (h : (ofFun init (nextIf next ok)).Steps s es t) :
    ((ofFun init next).restrict ok).Steps s es t := by
  induction h with
  | nil => exact .nil
  | snoc _ hstep ih =>
    obtain ⟨c, hc⟩ := hstep
    obtain ⟨hn, hok⟩ := Option.filter_eq_some_iff.mp hc
    exact ih.snoc ⟨⟨c, hn⟩, by simpa using hok⟩

end OfFun

end Lts
