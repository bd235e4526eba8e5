import FireCtrl.Lib.Bfs

/-!
# Breadth-first order

The order in which a search finds the nodes, without its queue, its depths and its limit.

* `enter`, `below`: the nodes of the next level. `levelOrder`: the open nodes, level by level, where some
  nodes may start one level below the others.
* `loop_levelOrder`: `loop` finds the first `L` nodes of this order.
* `ReachFrom`: the nodes within reach of the sources; **`mem_levelOrder`**, `nodup_levelOrder`: the order
  lists each of them once.
-/

namespace Bfs

variable {α : Type*} {g : α → Option (List α)} {u v w : α} {n : ℕ}

/-! ## Paths from their first step -/

theorem Path.cons {succs : List α} (hg : g u = some succs) (hv : v ∈ succs) (h : Path g v n w) :
    Path g u (n + 1) w := by
  induction h with
  | root ho => exact .step (.root (by rw [hg]; rfl)) hg hv ho
  | step _ hgw hmem ho ih => exact .step ih hgw hmem ho

theorem Path.head (h : Path g u (n + 1) w) :
    ∃ succs v, g u = some succs ∧ v ∈ succs ∧ Path g v n w := by
  induction n generalizing w with
  | zero =>
    cases h with
    | step hp hg hmem ho =>
      cases hp with
      | root _ => exact ⟨_, _, hg, hmem, .root ho⟩
  | succ n ih =>
    cases h with
    | step hp hg hmem ho =>
      obtain ⟨succs, v, hu, hv, hp⟩ := ih hp
      exact ⟨succs, v, hu, hv, .step hp hg hmem ho⟩

theorem Path.eq_of_zero (h : Path g u 0 w) : w = u := by
  cases h with
  | root _ => rfl

/-- A path that starts in `P` ends there, or goes on from a node of `F`, the successors outside. -/
theorem Path.leaves {P F : α → Prop}
    (hP : ∀ w, P w → ∀ succs, g w = some succs → ∀ v ∈ succs, P v ∨ F v) (h : Path g u n w) (hu : P u) :
    P w ∨ ∃ f, F f ∧ ∃ k < n, Path g f k w := by
  induction n generalizing u with
  | zero =>
    obtain rfl := h.eq_of_zero
    exact .inl hu
  | succ n ih =>
    obtain ⟨succs, v, hg, hv, hp⟩ := h.head
    rcases hP u hu succs hg v hv with hv | hv
    · rcases ih hp hv with hw | ⟨f, hf, k, hk, hp⟩
      · exact .inl hw
      · exact .inr ⟨f, hf, k, Nat.lt_succ_of_lt hk, hp⟩
    · exact .inr ⟨v, hv, n, Nat.lt_succ_self n, hp⟩

/-! ## Levels -/

variable [DecidableEq α]

/-- Mark the nodes that have not been seen, and append them to the level. -/
def enter (s : Finset α × List α) (vs : List α) : Finset α × List α :=
  vs.foldl (fun s v => if v ∈ s.1 then s else (insert v s.1, s.2 ++ [v])) s

/-- Enter the successors of the nodes of a level. -/
def below (g : α → Option (List α)) (s : Finset α × List α) (us : List α) : Finset α × List α :=
  us.foldl (fun s u => enter s ((g u).getD [])) s

/-- The open nodes, `us` first and `next` one level below; the first `n` levels are passed. -/
def levelOrder (g : α → Option (List α)) : ℕ → Finset α → List α → List α → List α
  | 0, _, us, next => (us ++ next).filter fun u => (g u).isSome
  | n + 1, V, us, next =>
    us.filter (fun u => (g u).isSome) ++
      levelOrder g n (below g (V, next) us).1 (below g (V, next) us).2 []

variable {V V' : Finset α} {us next next' vs fresh : List α} {D L c : ℕ} {Q out : List (α × ℕ)}

theorem discover_enter {δ : Type*} (d : δ) (V : Finset α) (Q : List (α × δ)) (next vs : List α) :
    discover d (V, Q ++ next.map (·, d)) vs =
      ((enter (V, next) vs).1, Q ++ (enter (V, next) vs).2.map (·, d)) := by
  induction vs generalizing V next with
  | nil => rfl
  | cons v vs ih =>
    by_cases hv : v ∈ V
    · simpa [discover, enter, hv] using ih V next
    · simpa [discover, enter, hv] using ih (insert v V) (next ++ [v])

theorem enter_fresh (V : Finset α) (next vs : List α) :
    ∃ fresh V', enter (V, next) vs = (V', next ++ fresh) ∧ Fresh V vs fresh V' := by
  obtain ⟨fresh, V', heq, hf⟩ := discover_fresh () V (next.map (·, ())) vs
  have h := discover_enter () V [] next vs
  rw [List.nil_append, List.nil_append, heq, Prod.mk.injEq] at h
  refine ⟨fresh, V', Prod.ext h.1.symm ?_, hf⟩
  have hfst := congrArg (List.map Prod.fst) h.2
  simpa [Function.comp_def] using hfst.symm

/-- What a level finds below it. -/
theorem below_fresh (g : α → Option (List α)) (V : Finset α) (next us : List α) :
    ∃ fresh V', below g (V, next) us = (V', next ++ fresh) ∧
      Fresh V (us.flatMap fun u => (g u).getD []) fresh V' := by
  induction us generalizing V next with
  | nil => exact ⟨[], V, by simp [below], by simp, by simp, by simp, by simp⟩
  | cons u us ih =>
    obtain ⟨fresh₁, V₁, heq₁, h₁⟩ := enter_fresh V next ((g u).getD [])
    obtain ⟨fresh₂, V₂, heq₂, h₂⟩ := ih V₁ (next ++ fresh₁)
    refine ⟨fresh₁ ++ fresh₂, V₂, ?_, ?_, fun v hv => ?_, fun v hv => ?_, fun v => ?_⟩
    · rw [← List.append_assoc, ← heq₂, ← heq₁]
      rfl
    · refine List.nodup_append.mpr ⟨h₁.nodup, h₂.nodup, fun v hv w hw hvw => ?_⟩
      exact (h₂.unseen w hw).2 ((h₁.mem w).mpr (.inr (hvw ▸ hv)))
    · rw [List.flatMap_cons]
      rcases List.mem_append.mp hv with hv | hv
      · exact ⟨List.mem_append_left _ (h₁.unseen v hv).1, (h₁.unseen v hv).2⟩
      · refine ⟨List.mem_append_right _ (h₂.unseen v hv).1, fun hV => ?_⟩
        exact (h₂.unseen v hv).2 ((h₁.mem v).mpr (.inl hV))
    · rw [List.flatMap_cons] at hv
      rcases List.mem_append.mp hv with hv | hv
      · exact (h₂.mem v).mpr (.inl (h₁.seen v hv))
      · exact h₂.seen v hv
    · rw [h₂.mem, h₁.mem, List.mem_append, or_assoc]

/-! ## The search follows the order -/

/-- Nodes at the greatest depth and below are not passed. -/
theorem loop_flat (hQ : ∀ p ∈ Q, D ≤ p.2) (hL : out.length ≤ L) :
    (loop g D L V Q out).map Prod.fst = out.map Prod.fst ++
      ((Q.map Prod.fst).filter fun u => (g u).isSome).take (L - out.length) := by
  induction Q generalizing out with
  | nil => simp [loop]
  | cons p Q ih =>
    obtain ⟨u, d⟩ := p
    have hd : ¬ d < D := not_lt.mpr (hQ _ List.mem_cons_self)
    have hQ' : ∀ p ∈ Q, D ≤ p.2 := fun p hp => hQ p (List.mem_cons_of_mem _ hp)
    rw [loop]
    by_cases hle : L ≤ out.length
    · rw [if_pos hle, Nat.sub_eq_zero_of_le hle, List.take_zero, List.append_nil]
    · rw [if_neg hle]
      rcases hg : g u with _ | succs
      · simpa [hg] using ih hQ' hL
      · have hlen : (out ++ [(u, d)]).length ≤ L := by
          rw [List.length_append, List.length_singleton]
          omega
        have hsub : L - out.length = L - (out ++ [(u, d)]).length + 1 := by
          rw [List.length_append, List.length_singleton]
          omega
        simp only [expand, if_neg hd]
        rw [ih hQ' hlen, hsub]
        simp [hg]

/-- **The search finds the first `L` nodes in breadth-first order.** -/
theorem loop_levelOrder (hD : c + n = D) (hL : out.length ≤ L) :
    (loop g D L V (us.map (·, c) ++ next.map (·, c + 1)) out).map Prod.fst =
      out.map Prod.fst ++ (levelOrder g n V us next).take (L - out.length) := by
  induction n generalizing c V us next out with
  | zero =>
    rw [loop_flat _ hL]
    · simp [levelOrder, Function.comp_def]
    · intro p hp
      rcases List.mem_append.mp hp with hp | hp <;> obtain ⟨u, -, rfl⟩ := List.mem_map.mp hp <;>
        simp only <;> omega
  | succ n ihn =>
    induction us generalizing V next out with
    | nil =>
      have h : (loop g D L V (next.map (·, c + 1) ++ ([] : List α).map (·, c + 1 + 1)) out).map Prod.fst =
          out.map Prod.fst ++ (levelOrder g n V next []).take (L - out.length) := ihn (by omega) hL
      rw [List.map_nil, List.append_nil] at h
      rw [List.map_nil, List.nil_append, h]
      rfl
    | cons u us ih =>
      rw [List.map_cons, List.cons_append, loop]
      by_cases hle : L ≤ out.length
      · rw [if_pos hle, Nat.sub_eq_zero_of_le hle, List.take_zero, List.append_nil]
      · rw [if_neg hle]
        rcases hg : g u with _ | succs
        · have horder : levelOrder g (n + 1) V (u :: us) next = levelOrder g (n + 1) V us next := by
            simp [levelOrder, below, enter, hg]
          rw [horder]
          exact ih hL
        · have hlen : (out ++ [(u, c)]).length ≤ L := by
            rw [List.length_append, List.length_singleton]
            omega
          have hsub : L - out.length = L - (out ++ [(u, c)]).length + 1 := by
            rw [List.length_append, List.length_singleton]
            omega
          have horder : levelOrder g (n + 1) V (u :: us) next =
              u :: levelOrder g (n + 1) (enter (V, next) succs).1 us (enter (V, next) succs).2 := by
            simp [levelOrder, below, hg]
          simp only [expand, if_pos (show c < D by omega)]
          rw [discover_enter, ih hlen, horder, hsub, List.take_succ_cons]
          simp

/-! ## The nodes within reach -/

/-- The node is within reach of `us`, or of `next` with one step less. -/
def ReachFrom (g : α → Option (List α)) (us next : List α) (n : ℕ) (v : α) : Prop :=
  (∃ u ∈ us, Reach g u n v) ∨ ∃ u ∈ next, Reach g u (n - 1) v

theorem reachFrom_of_mem (h : v ∈ levelOrder g n V us next) : ReachFrom g us next n v := by
  induction n generalizing V us next with
  | zero =>
    obtain ⟨hv, ho⟩ := List.mem_filter.mp h
    rcases List.mem_append.mp hv with hv | hv
    · exact .inl ⟨v, hv, 0, le_rfl, .root ho⟩
    · exact .inr ⟨v, hv, 0, le_rfl, .root ho⟩
  | succ n ih =>
    rcases List.mem_append.mp h with h | h
    · obtain ⟨hv, ho⟩ := List.mem_filter.mp h
      exact .inl ⟨v, hv, 0, Nat.zero_le _, .root ho⟩
    · obtain ⟨fresh, V', heq, hf⟩ := below_fresh g V next us
      rw [heq] at h
      obtain ⟨u, hu, k, hk, hp⟩ | ⟨u, hu, -⟩ := ih h
      · rcases List.mem_append.mp hu with hu | hu
        · exact .inr ⟨u, hu, k, hk, hp⟩
        · obtain ⟨w, hw, hmem⟩ := List.mem_flatMap.mp (hf.unseen u hu).1
          rcases hg : g w with _ | succs
          · rw [hg] at hmem; cases hmem
          · rw [hg] at hmem
            exact .inl ⟨w, hw, k + 1, Nat.succ_le_succ hk, hp.cons hg hmem⟩
      · cases hu

omit [DecidableEq α] in
theorem ReachFrom.mem_of_zero (h : ReachFrom g us next 0 v) : v ∈ us ++ next ∧ (g v).isSome := by
  rcases h with ⟨u, hu, k, hk, hp⟩ | ⟨u, hu, k, hk, hp⟩
  · obtain rfl := Nat.le_zero.mp hk
    obtain rfl := hp.eq_of_zero
    exact ⟨List.mem_append_left _ hu, hp.isSome⟩
  · obtain rfl := Nat.le_zero.mp hk
    obtain rfl := hp.eq_of_zero
    exact ⟨List.mem_append_right _ hu, hp.isSome⟩

/-- What is within reach is listed, or was passed before: `W` are the nodes whose successors have been
entered. -/
theorem mem_of_reachFrom {W : α → Prop} (hV : ∀ w ∈ V, w ∈ us ∨ w ∈ next ∨ W w)
    (hW : ∀ w, W w → ∀ succs, g w = some succs → ∀ v ∈ succs, v ∈ V) (h : ReachFrom g us next n v) :
    v ∈ levelOrder g n V us next ∨ W v := by
  induction n generalizing V us next W with
  | zero => exact .inl (List.mem_filter.mpr h.mem_of_zero)
  | succ n ih =>
    obtain ⟨fresh, V', heq, hf⟩ := below_fresh g V next us
    have horder : levelOrder g (n + 1) V us next = us.filter (fun u => (g u).isSome) ++
        levelOrder g n V' (next ++ fresh) [] := by
      rw [levelOrder, heq]
    rw [horder]
    -- after this level the nodes of the level have been passed as well
    have hV' : ∀ w ∈ V', w ∈ next ++ fresh ∨ w ∈ [] ∨ (W w ∨ w ∈ us) := by
      intro w hw
      rcases (hf.mem w).mp hw with hw | hw
      · rcases hV w hw with hu | hn | hW'
        · exact .inr (.inr (.inr hu))
        · exact .inl (List.mem_append_left _ hn)
        · exact .inr (.inr (.inl hW'))
      · exact .inl (List.mem_append_right _ hw)
    have hW' : ∀ w, W w ∨ w ∈ us → ∀ succs, g w = some succs → ∀ v ∈ succs, v ∈ V' := by
      rintro w (hw | hw) succs hg v hv
      · exact (hf.mem v).mpr (.inl (hW w hw succs hg v hv))
      · exact hf.seen v (List.mem_flatMap.mpr ⟨w, hw, by rw [hg]; exact hv⟩)
    have hdone (hv : (g v).isSome) : W v ∨ v ∈ us →
        v ∈ us.filter (fun u => (g u).isSome) ++ levelOrder g n V' (next ++ fresh) [] ∨ W v := by
      rintro (hv' | hv')
      · exact .inr hv'
      · exact .inl (List.mem_append_left _ (List.mem_filter.mpr ⟨hv', hv⟩))
    have hnext {w : α} {k : ℕ} (hk : k ≤ n) (hw : w ∈ next ++ fresh) (hp : Path g w k v) :
        v ∈ us.filter (fun u => (g u).isSome) ++ levelOrder g n V' (next ++ fresh) [] ∨ W v := by
      rcases ih hV' hW' (.inl ⟨w, hw, k, hk, hp⟩) with hv | hv
      · exact .inl (List.mem_append_right _ hv)
      · exact hdone hp.isSome hv
    have hout : ∀ w, W w ∨ w ∈ us → ∀ succs, g w = some succs → ∀ v ∈ succs,
        (W v ∨ v ∈ us) ∨ v ∈ next ++ fresh := by
      intro w hw succs hg v hv
      rcases hV' v (hW' w hw succs hg v hv) with hv | hv | hv
      · exact .inr hv
      · cases hv
      · exact .inl hv
    rcases h with ⟨u, hu, k, hk, hp⟩ | ⟨u, hu, k, hk, hp⟩
    · rcases hp.leaves hout (.inr hu) with hv | ⟨f, hf, j, hj, hp'⟩
      · exact hdone hp.isSome hv
      · exact hnext (by omega) hf hp'
    · exact hnext hk (List.mem_append_left _ hu) hp

/-- **The order lists the nodes within reach of the sources.** -/
theorem mem_levelOrder (hV : ∀ w ∈ V, w ∈ us ∨ w ∈ next) :
    v ∈ levelOrder g n V us next ↔ ReachFrom g us next n v := by
  constructor
  · exact reachFrom_of_mem
  · intro h
    refine (mem_of_reachFrom (W := fun _ => False) (fun w hw => ?_) (fun _ => False.elim) h).resolve_right id
    rcases hV w hw with hw | hw
    · exact .inl hw
    · exact .inr (.inl hw)

/-- The nodes of the order are sources, or had not been seen. -/
theorem source_or_unseen (h : v ∈ levelOrder g n V us next) : v ∈ us ∨ v ∈ next ∨ v ∉ V := by
  induction n generalizing V us next with
  | zero =>
    rcases List.mem_append.mp (List.mem_filter.mp h).1 with h | h
    · exact .inl h
    · exact .inr (.inl h)
  | succ n ih =>
    rcases List.mem_append.mp h with h | h
    · exact .inl (List.mem_filter.mp h).1
    · obtain ⟨fresh, V', heq, hf⟩ := below_fresh g V next us
      rw [heq] at h
      rcases ih h with h | h | h
      · rcases List.mem_append.mp h with h | h
        · exact .inr (.inl h)
        · exact .inr (.inr (hf.unseen v h).2)
      · cases h
      · exact .inr (.inr fun hv => h ((hf.mem v).mpr (.inl hv)))

theorem nodup_levelOrder (h : (us ++ next).Nodup) (hV : ∀ u ∈ us ++ next, u ∈ V) :
    (levelOrder g n V us next).Nodup := by
  induction n generalizing V us next with
  | zero => exact h.filter _
  | succ n ih =>
    obtain ⟨fresh, V', heq, hf⟩ := below_fresh g V next us
    obtain ⟨hus, hnext, hdisj⟩ := List.nodup_append.mp h
    have hV' (u : α) (hu : u ∈ us ++ next) : u ∈ V' := (hf.mem u).mpr (.inl (hV u hu))
    rw [levelOrder, heq]
    refine List.nodup_append.mpr ⟨hus.filter _, ih ?_ ?_, fun u hu v hv huv => ?_⟩
    · rw [List.append_nil]
      refine List.nodup_append.mpr ⟨hnext, hf.nodup, fun u hu v hv huv => ?_⟩
      exact (hf.unseen v hv).2 (huv ▸ hV u (List.mem_append_right _ hu))
    · rw [List.append_nil]
      intro u hu
      rcases List.mem_append.mp hu with hu | hu
      · exact hV' u (List.mem_append_right _ hu)
      · exact (hf.mem u).mpr (.inr hu)
    · subst huv
      have hus := (List.mem_filter.mp hu).1
      rcases source_or_unseen hv with hv | hv | hv
      · rcases List.mem_append.mp hv with hv | hv
        · exact hdisj u hus u hv rfl
        · exact (hf.unseen u hv).2 (hV u (List.mem_append_left _ hus))
      · cases hv
      · exact hv (hV' u (List.mem_append_left _ hus))

end Bfs
