import Mathlib.Data.Finset.Basic
import Mathlib.Data.Set.Card
import Mathlib.Data.Set.Finite.List
import Mathlib.Order.Lattice.Nat
import Mathlib.Tactic.Common

/-!
# Breadth-first search with a depth and a size limit

`g u` is the list of successors of node `u`, or `none` if `u` is closed: a closed node is neither
returned nor passed.

* `Path`, `Reach`, `dist`: the paths from the root on which every node is open, and the length of the
  shortest one.
* `loop`: the queue carries the depth at which a node was first seen, and the node is examined when it is
  taken from the queue; `bfs`.
* `Inv`, `inv_closed`, `inv_open`: what one round keeps. **`bfs_correct`**: the nodes within reach are
  returned, each once and by distance, unless they are too many.
-/

namespace Bfs

variable {α : Type*}

/-! ## Paths -/

section Paths

variable (g : α → Option (List α)) (root : α)

/-- A path of `n` steps from the root on which every node is open. -/
inductive Path : ℕ → α → Prop
  | root : (g root).isSome → Path 0 root
  | step {n : ℕ} {u v : α} {succs : List α} : Path n u → g u = some succs → v ∈ succs → (g v).isSome →
      Path (n + 1) v

/-- The node is at the end of a path of at most `D` steps. -/
def Reach (D : ℕ) (u : α) : Prop := ∃ n ≤ D, Path g root n u

/-- The length of the shortest path. -/
noncomputable def dist (u : α) : ℕ := sInf {n | Path g root n u}

end Paths

variable {g : α → Option (List α)} {root : α} {n D : ℕ} {u v : α}

theorem Path.isSome (h : Path g root n u) : (g u).isSome := by
  cases h with
  | root h => exact h
  | step _ _ _ h => exact h

theorem dist_eq (h : Path g root n u) (hle : ∀ m < n, ¬ Path g root m u) : dist g root u = n := by
  have hmem : Path g root (dist g root u) u := Nat.sInf_mem (s := {n | Path g root n u}) ⟨n, h⟩
  have hdist : dist g root u ≤ n := Nat.sInf_le h
  by_contra hne
  exact hle _ (by omega) hmem

/-! ## What a round keeps -/

/-- The state of the search at depth `c`: nodes `V` seen, nodes `out` found, and `Q` to come. -/
structure Inv (g : α → Option (List α)) (root : α) (D c : ℕ) (V : Finset α) (Q out : List (α × ℕ)) :
    Prop where
  nodup : ((out ++ Q).map Prod.fst).Nodup
  visited : ∀ p ∈ out ++ Q, p.1 ∈ V
  known : ∀ u ∈ V, (g u).isSome → ∃ p ∈ out ++ Q, p.1 = u
  sorted : (out ++ Q).Pairwise fun p q => p.2 ≤ q.2
  depth : ∀ p ∈ out ++ Q, p.2 ≤ D
  path : ∀ p ∈ out ++ Q, (g p.1).isSome → Path g root p.2 p.1
  least : ∀ p ∈ out ++ Q, ∀ n < p.2, ¬ Path g root n p.1
  found : ∀ p ∈ out, (g p.1).isSome ∧ p.2 ≤ c
  level : ∀ p ∈ Q, p.2 = c ∨ p.2 = c + 1
  expanded : ∀ p ∈ out, p.2 < D → ∀ succs, g p.1 = some succs → ∀ v ∈ succs, v ∈ V
  done : ∀ n u, n ≤ D → n < c → Path g root n u → ∃ p ∈ out, p.1 = u
  seen : ∀ n u, n ≤ D → n ≤ c → Path g root n u → u ∈ V

section Rounds

variable {c L : ℕ} {V V' : Finset α} {Q out : List (α × ℕ)} {fresh succs : List α}

theorem inv_init : Inv g root D 0 {root} [(root, 0)] [] where
  nodup := by simp
  visited := by simp
  known u hu _ := by simpa using (Finset.mem_singleton.mp hu).symm
  sorted := by simp
  depth := by simp
  path := by simpa using Path.root
  least := by simp
  found := by simp
  level := by simp
  expanded := by simp
  done := by simp
  seen n u _ hn h := by
    obtain rfl := Nat.le_zero.mp hn
    cases h
    simp

/-- When the nodes at depth `c` are used up, the search is at depth `c + 1`. -/
theorem inv_next (h : Inv g root D c V Q out) (hQ : ∀ p ∈ Q, p.2 = c + 1) :
    Inv g root D (c + 1) V Q out := by
  have hdone (n : ℕ) (u : α) (hD : n ≤ D) (hn : n < c + 1) (hp : Path g root n u) :
      ∃ p ∈ out, p.1 = u := by
    obtain ⟨p, hmem, rfl⟩ := h.known u (h.seen n u hD (by omega) hp) hp.isSome
    rcases List.mem_append.mp hmem with hout | hq
    · exact ⟨p, hout, rfl⟩
    · exact absurd hp (h.least p hmem n (by rw [hQ p hq]; omega))
  refine { h with
    found := fun p hp => ⟨(h.found p hp).1, (h.found p hp).2.trans (Nat.le_succ c)⟩
    level := fun p hp => .inl (hQ p hp)
    done := hdone
    seen := fun n u hD hn hp => ?_ }
  by_cases hc : n ≤ c
  · exact h.seen n u hD hc hp
  · obtain rfl : n = c + 1 := by omega
    cases hp with
    | @step _ w _ succs hw hg hu _ =>
      obtain ⟨p, hmem, rfl⟩ := hdone c w (by omega) (by omega) hw
      have hpc := (h.found p hmem).2
      exact h.expanded p hmem (by omega) succs hg u hu

/-- A closed node is dropped. -/
theorem inv_closed {d : ℕ} (h : Inv g root D c V ((u, d) :: Q) out) (hg : g u = none) :
    Inv g root D c V Q out := by
  have hsub : (out ++ Q).Sublist (out ++ (u, d) :: Q) :=
    (List.sublist_cons_self (u, d) Q).append_left out
  have hmem {p : α × ℕ} (hp : p ∈ out ++ Q) : p ∈ out ++ (u, d) :: Q := hsub.subset hp
  exact {
    nodup := h.nodup.sublist (hsub.map _)
    visited := fun p hp => h.visited p (hmem hp)
    known := fun v hv hs => by
      obtain ⟨p, hp, rfl⟩ := h.known v hv hs
      refine ⟨p, ?_, rfl⟩
      rcases List.mem_append.mp hp with hp | hp
      · exact List.mem_append_left _ hp
      · rcases List.mem_cons.mp hp with rfl | hp
        · rw [hg] at hs
          cases hs
        · exact List.mem_append_right _ hp
    sorted := h.sorted.sublist hsub
    depth := fun p hp => h.depth p (hmem hp)
    path := fun p hp => h.path p (hmem hp)
    least := fun p hp => h.least p (hmem hp)
    found := h.found
    level := fun p hp => h.level p (List.mem_cons_of_mem _ hp)
    expanded := h.expanded
    done := h.done
    seen := h.seen }

/-- Nodes that have not been seen are appended, one level deeper. -/
theorem Inv.nodup_append (h : Inv g root D c V Q out) (hnodup : fresh.Nodup)
    (hfresh : ∀ v ∈ fresh, v ∉ V) :
    ((out ++ Q ++ fresh.map (·, c + 1)).map Prod.fst).Nodup := by
  rw [List.map_append, List.map_map]
  have hid : Prod.fst ∘ (fun v => (v, c + 1)) = (id : α → α) := rfl
  rw [hid, List.map_id]
  refine List.nodup_append.mpr ⟨h.nodup, hnodup, fun v hv w hw hvw => ?_⟩
  obtain ⟨p, hp, rfl⟩ := List.mem_map.mp hv
  exact hfresh w hw (hvw ▸ h.visited p hp)

theorem Inv.sorted_append (h : Inv g root D c V Q out) (fresh : List α) :
    (out ++ Q ++ fresh.map (·, c + 1)).Pairwise fun p q => p.2 ≤ q.2 := by
  refine List.pairwise_append.mpr ⟨h.sorted, ?_, fun p hp q hq => ?_⟩
  · exact List.pairwise_map.mpr (List.pairwise_of_forall fun _ _ => le_rfl)
  · obtain ⟨v, -, rfl⟩ := List.mem_map.mp hq
    rcases List.mem_append.mp hp with hp | hp
    · exact (h.found p hp).2.trans (Nat.le_succ c)
    · rcases h.level p hp with hl | hl <;> simp only [hl] <;> omega

/-- An open node is found, and its successors are seen unless they are too deep. -/
theorem inv_open (h : Inv g root D c V ((u, c) :: Q) out) (hg : g u = some succs)
    (hnodup : fresh.Nodup) (hV : ∀ v, v ∈ V' ↔ v ∈ V ∨ v ∈ fresh)
    (hfresh : ∀ v ∈ fresh, c < D ∧ v ∈ succs ∧ v ∉ V) (hsuccs : c < D → ∀ v ∈ succs, v ∈ V') :
    Inv g root D c V' (Q ++ fresh.map (·, c + 1)) (out ++ [(u, c)]) := by
  have happend : out ++ [(u, c)] ++ (Q ++ fresh.map (·, c + 1)) =
      (out ++ (u, c) :: Q) ++ fresh.map (·, c + 1) := by simp
  have hu : (u, c) ∈ out ++ (u, c) :: Q := by simp
  have hopen : (g u).isSome := by rw [hg]; rfl
  have hpath := h.path _ hu hopen
  have hcD : c ≤ D := h.depth _ hu
  -- a node of the new queue is an old one, or fresh and one deeper
  have hcases {P : α × ℕ → Prop} (hold : ∀ p ∈ out ++ (u, c) :: Q, P p)
      (hnew : ∀ v ∈ fresh, P (v, c + 1)) :
      ∀ p ∈ out ++ [(u, c)] ++ (Q ++ fresh.map (·, c + 1)), P p := by
    rw [happend]
    intro p hp
    rcases List.mem_append.mp hp with hp | hp
    · exact hold p hp
    · obtain ⟨v, hv, rfl⟩ := List.mem_map.mp hp
      exact hnew v hv
  have hout {P : α × ℕ → Prop} (hold : ∀ p ∈ out, P p) (hnew : P (u, c)) :
      ∀ p ∈ out ++ [(u, c)], P p := by
    intro p hp
    rcases List.mem_append.mp hp with hp | hp
    · exact hold p hp
    · exact List.mem_singleton.mp hp ▸ hnew
  exact {
    nodup := by
      rw [happend]
      exact h.nodup_append hnodup fun v hv => (hfresh v hv).2.2
    visited := hcases (fun p hp => (hV _).mpr (.inl (h.visited p hp))) fun v hv => (hV v).mpr (.inr hv)
    known := fun v hv hs => by
      rw [happend]
      rcases (hV v).mp hv with hv | hv
      · obtain ⟨p, hp, rfl⟩ := h.known v hv hs
        exact ⟨p, List.mem_append_left _ hp, rfl⟩
      · exact ⟨(v, c + 1), List.mem_append_right _ (List.mem_map_of_mem hv), rfl⟩
    sorted := by
      rw [happend]
      exact h.sorted_append fresh
    depth := hcases h.depth fun v hv => (hfresh v hv).1
    path := hcases h.path fun v hv hs => hpath.step hg (hfresh v hv).2.1 hs
    least := hcases h.least fun v hv n hn hp => by
      have hle : n ≤ c := Nat.le_of_lt_succ hn
      exact (hfresh v hv).2.2 (h.seen n v (hle.trans hcD) hle hp)
    found := hout h.found ⟨hopen, le_rfl⟩
    level := fun p hp => by
      rcases List.mem_append.mp hp with hp | hp
      · exact h.level p (List.mem_cons_of_mem _ hp)
      · obtain ⟨v, -, rfl⟩ := List.mem_map.mp hp
        exact .inr rfl
    expanded := hout (fun p hp hd vs hvs v hv => (hV v).mpr (.inl (h.expanded p hp hd vs hvs v hv)))
      fun hd vs hvs v hv => by
        rw [hg, Option.some.injEq] at hvs
        exact hsuccs hd v (hvs ▸ hv)
    done := fun n v hD hn hv => by
      obtain ⟨p, hp, rfl⟩ := h.done n v hD hn hv
      exact ⟨p, List.mem_append_left _ hp, rfl⟩
    seen := fun n v hD hn hp => (hV v).mpr (.inl (h.seen n v hD hn hp)) }

/-- A search that has found the nodes `out` is at an end: they are as many as allowed, or all. -/
structure Outcome (g : α → Option (List α)) (root : α) (D L : ℕ) (out : List (α × ℕ)) : Prop where
  nodup : (out.map Prod.fst).Nodup
  sorted : out.Pairwise fun p q => p.2 ≤ q.2
  path : ∀ p ∈ out, p.2 ≤ D ∧ Path g root p.2 p.1
  least : ∀ p ∈ out, ∀ n < p.2, ¬ Path g root n p.1
  length : out.length ≤ L
  full : out.length = L ∨ ∀ u, Reach g root D u → u ∈ out.map Prod.fst

theorem Inv.outcome (h : Inv g root D c V Q out) (hL : out.length ≤ L)
    (hfull : out.length = L ∨ ∀ u, Reach g root D u → u ∈ out.map Prod.fst) :
    Outcome g root D L out where
  nodup := h.nodup.sublist ((List.sublist_append_left _ _).map _)
  sorted := h.sorted.sublist (List.sublist_append_left _ _)
  path p hp :=
    have hp' := List.mem_append_left Q hp
    ⟨h.depth p hp', h.path p hp' (h.found p hp).1⟩
  least p hp := h.least p (List.mem_append_left Q hp)
  length := hL
  full := hfull

/-- With an empty queue the search is at any depth. -/
theorem Inv.reach (h : Inv g root D c V [] out) (hu : Reach g root D u) : u ∈ out.map Prod.fst := by
  have hdeep (k : ℕ) : Inv g root D (c + k) V [] out := by
    induction k with
    | zero => exact h
    | succ k ih => exact inv_next ih (by simp)
  obtain ⟨n, hn, hp⟩ := hu
  obtain ⟨p, hmem, rfl⟩ := (hdeep (n + 1)).done n u hn (by omega) hp
  exact List.mem_map_of_mem hmem

/-- The first node of the queue is at the depth of the search, or at the next one with all others. -/
theorem Inv.head {d : ℕ} (h : Inv g root D c V ((u, d) :: Q) out) :
    Inv g root D d V ((u, d) :: Q) out := by
  rcases h.level _ List.mem_cons_self with rfl | rfl
  · exact h
  · refine inv_next h fun p hp => ?_
    rcases List.mem_cons.mp hp with rfl | hq
    · rfl
    · have hsorted := (List.pairwise_append.mp h.sorted).2.1
      have hle := List.rel_of_pairwise_cons hsorted hq
      rcases h.level p hp with hl | hl <;> simp only at hle ⊢ <;> omega

end Rounds

/-! ## The search -/

variable [DecidableEq α] {δ : Type*}

/-- Mark the nodes that have not been seen, and append them to the queue. -/
def discover (d : δ) (s : Finset α × List (α × δ)) (vs : List α) : Finset α × List (α × δ) :=
  vs.foldl (fun s v => if v ∈ s.1 then s else (insert v s.1, s.2 ++ [(v, d)])) s

/-- The nodes `fresh` are the ones among `vs` that had not been seen. -/
structure Fresh (V : Finset α) (vs fresh : List α) (V' : Finset α) : Prop where
  nodup : fresh.Nodup
  unseen : ∀ v ∈ fresh, v ∈ vs ∧ v ∉ V
  seen : ∀ v ∈ vs, v ∈ V'
  mem : ∀ v, v ∈ V' ↔ v ∈ V ∨ v ∈ fresh

theorem discover_fresh (d : δ) (V : Finset α) (Q : List (α × δ)) (vs : List α) :
    ∃ fresh V', discover d (V, Q) vs = (V', Q ++ fresh.map (·, d)) ∧ Fresh V vs fresh V' := by
  induction vs generalizing V Q with
  | nil => exact ⟨[], V, by simp [discover], by simp, by simp, by simp, by simp⟩
  | cons v vs ih =>
    by_cases hv : v ∈ V
    · obtain ⟨fresh, V', heq, h⟩ := ih V Q
      refine ⟨fresh, V', ?_, h.nodup, fun w hw => ?_, fun w hw => ?_, h.mem⟩
      · rw [← heq]
        simp [discover, hv]
      · exact ⟨List.mem_cons_of_mem _ (h.unseen w hw).1, (h.unseen w hw).2⟩
      · rcases List.mem_cons.mp hw with rfl | hw
        · exact (h.mem w).mpr (.inl hv)
        · exact h.seen w hw
    · obtain ⟨fresh, V', heq, h⟩ := ih (insert v V) (Q ++ [(v, d)])
      have hmem (w : α) : w ∈ V' ↔ w ∈ V ∨ w ∈ v :: fresh := by
        rw [h.mem w, Finset.mem_insert, List.mem_cons]
        tauto
      refine ⟨v :: fresh, V', ?_, ?_, fun w hw => ?_, fun w hw => ?_, hmem⟩
      · rw [List.map_cons, List.append_cons, ← heq]
        simp [discover, hv]
      · refine List.nodup_cons.mpr ⟨fun hw => ?_, h.nodup⟩
        exact (h.unseen v hw).2 (Finset.mem_insert_self v V)
      · rcases List.mem_cons.mp hw with rfl | hw
        · exact ⟨List.mem_cons_self, hv⟩
        · obtain ⟨hvs, hV⟩ := h.unseen w hw
          exact ⟨List.mem_cons_of_mem _ hvs, fun hw => hV (Finset.mem_insert_of_mem hw)⟩
      · rcases List.mem_cons.mp hw with rfl | hw
        · exact (hmem w).mpr (.inr List.mem_cons_self)
        · exact h.seen w hw

/-- Depths may be written in another type. -/
theorem discover_map {ε : Type*} (f : δ → ε) (d : δ) (V : Finset α) (Q : List (α × δ)) (vs : List α) :
    discover (f d) (V, Q.map fun p => (p.1, f p.2)) vs =
      ((discover d (V, Q) vs).1, (discover d (V, Q) vs).2.map fun p => (p.1, f p.2)) := by
  induction vs generalizing V Q with
  | nil => rfl
  | cons v vs ih =>
    by_cases hv : v ∈ V
    · simpa [discover, hv] using ih V Q
    · simpa [discover, hv] using ih (insert v V) (Q ++ [(v, d)])

/-- The successors of a node at depth `d` are one deeper, and `D` is the greatest depth. -/
def expand (D d : ℕ) (s : Finset α × List (α × ℕ)) (succs : List α) : Finset α × List (α × ℕ) :=
  if d < D then discover (d + 1) s succs else s

/-- Take nodes from the queue until it is empty or `L` nodes have been found. -/
def loop (g : α → Option (List α)) (D L : ℕ) (V : Finset α) (Q out : List (α × ℕ)) : List (α × ℕ) :=
  match Q with
  | [] => out
  | (u, d) :: Q =>
    if L ≤ out.length then out
    else
      match g u with
      | none => loop g D L V Q out
      | some succs =>
        loop g D L (expand D d (V, Q) succs).1 (expand D d (V, Q) succs).2 (out ++ [(u, d)])
termination_by (L - out.length, Q.length)
decreasing_by
  · exact Prod.Lex.right _ (by simp)
  · exact Prod.Lex.left _ _ (by simp only [List.length_append, List.length_singleton]; omega)

/-- The nodes that the search finds, with their depths. -/
def bfs (g : α → Option (List α)) (root : α) (D L : ℕ) : List (α × ℕ) :=
  loop g D L {root} [(root, 0)] []

section Correct

variable {c L : ℕ} {V : Finset α} {Q out : List (α × ℕ)}

theorem loop_outcome (h : Inv g root D c V Q out) (hL : out.length ≤ L) :
    Outcome g root D L (loop g D L V Q out) := by
  fun_induction loop g D L V Q out generalizing c with
  | case1 V out => exact h.outcome hL (.inr fun u hu => h.reach hu)
  | case2 V out u d Q hle => exact h.outcome hL (.inl (le_antisymm hL hle))
  | case3 V out u d Q hle hg ih => exact ih (inv_closed h hg) hL
  | case4 V out u d Q hle succs hg ih =>
    have hlen : (out ++ [(u, d)]).length ≤ L := by
      rw [List.length_append, List.length_singleton]
      omega
    by_cases hd : d < D
    · obtain ⟨fresh, V', heq, hf⟩ := discover_fresh (d + 1) V Q succs
      have hs : expand D d (V, Q) succs = (V', Q ++ fresh.map (·, d + 1)) := (if_pos hd).trans heq
      rw [hs] at ih ⊢
      exact ih (inv_open h.head hg hf.nodup hf.mem (fun v hv => ⟨hd, hf.unseen v hv⟩) fun _ => hf.seen) hlen
    · have hs : expand D d (V, Q) succs = (V, Q ++ [].map (·, d + 1)) := by simp [expand, hd]
      rw [hs] at ih ⊢
      exact ih (inv_open h.head hg List.nodup_nil (by simp) (by simp) fun hd' => absurd hd' hd) hlen

/-- **The search is correct.** -/
theorem bfs_correct (g : α → Option (List α)) (root : α) (D L : ℕ) :
    let found := (bfs g root D L).map Prod.fst
    found.Nodup ∧ (∀ u ∈ found, Reach g root D u) ∧
      (found.Pairwise fun u v => dist g root u ≤ dist g root v) ∧
      ({u | Reach g root D u}.encard ≤ L → ∀ u, Reach g root D u → u ∈ found) ∧
      (L < {u | Reach g root D u}.encard → found.length = L) := by
  have h : Outcome g root D L (bfs g root D L) := loop_outcome inv_init (Nat.zero_le L)
  have hdist (p : α × ℕ) (hp : p ∈ bfs g root D L) : dist g root p.1 = p.2 :=
    dist_eq (h.path p hp).2 (h.least p hp)
  have hreach (u : α) (hu : u ∈ (bfs g root D L).map Prod.fst) : Reach g root D u := by
    obtain ⟨p, hp, rfl⟩ := List.mem_map.mp hu
    exact ⟨p.2, h.path p hp⟩
  have hcard : {v | v ∈ (bfs g root D L).map Prod.fst}.encard = (bfs g root D L).length := by
    rw [← List.coe_toFinset, Set.encard_coe_eq_coe_finsetCard, List.toFinset_card_of_nodup h.nodup,
      List.length_map]
  refine ⟨h.nodup, hreach, ?_, fun hle u hu => ?_, fun hlt => ?_⟩
  · refine List.pairwise_map.mpr (h.sorted.imp_of_mem fun {p q} hp hq hpq => ?_)
    rwa [hdist p hp, hdist q hq]
  · rcases h.full with hlen | hall
    · have heq : {v | v ∈ (bfs g root D L).map Prod.fst} = {v | Reach g root D v} := by
        refine Set.Finite.eq_of_subset_of_encard_le (List.finite_toSet _) hreach ?_
        rw [hcard, hlen]
        exact hle
      exact heq.symm.subset hu
    · exact hall u hu
  · rcases h.full with hlen | hall
    · rw [List.length_map, hlen]
    · have hle : {u | Reach g root D u}.encard ≤ L := by
        have hsub : {u | Reach g root D u} ⊆ {v | v ∈ (bfs g root D L).map Prod.fst} := hall
        refine (Set.encard_le_encard hsub).trans ?_
        rw [hcard]
        exact_mod_cast h.length
      exact absurd hlt (not_lt.mpr hle)

end Correct

end Bfs
