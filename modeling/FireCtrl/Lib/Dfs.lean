import FireCtrl.Lib.Levels
import Mathlib.Data.List.Infix

/-!
# Depth-first search with a depth limit

One set of seen nodes for the whole search: a node that is met again is not searched again, even where it
is nearer to the root than it was the first time. `g` is as in `FireCtrl.Lib.Bfs`, but a closed node counts
as seen. `Room` says of the nodes seen so far that the search goes on (a bound on what they hold together).

* `visit`: the search; its result lists the nodes in the order in which they were entered.
  `reach_of_mem_visit`: what is entered is within reach.
* `Call`: the calls that the search makes. `Cut`: while there is room, it enters at the greatest depth a node
  that is nearer to the root and has open successors.
* `Trail`, `LeftOf`: simple paths, and which of two is searched first. `ShallowFirst`: a path of full length
  to a node that is nearer has a shorter one on its left, or there is no room for what is on its left.
* **`shallowFirst_iff`**: then, and only then, nothing is cut; **`mem_visit_of_reach`**: and then everything
  within reach is entered, if there is room to the end.
-/

namespace Dfs

open Bfs (Path Reach)

variable {α : Type*} {g : α → Option (List α)} {r u v x y : α} {D : ℕ} {s t V : List α}

/-! ## Simple paths -/

/-- `v` is an open successor of `u`. -/
def Linked (g : α → Option (List α)) (u v : α) : Prop :=
  (∃ succs, g u = some succs ∧ v ∈ succs) ∧ (g v).isSome

/-- A simple path on which every node is open, the last node first. -/
inductive Trail (g : α → Option (List α)) (r : α) : List α → Prop
  | root : (g r).isSome → Trail g r [r]
  | step {x v : α} {s : List α} : Trail g r (x :: s) → Linked g x v → v ∉ x :: s → Trail g r (v :: x :: s)

theorem Linked.isSome_left (h : Linked g u v) : (g u).isSome := by
  obtain ⟨⟨succs, hg, -⟩, -⟩ := h
  rw [hg]
  rfl

theorem Trail.path (h : Trail g r (u :: s)) : Path g r s.length u := by
  generalize hp : u :: s = p at h
  induction h generalizing u s with
  | root ho =>
    cases hp
    exact .root ho
  | step _ hlink _ ih =>
    cases hp
    obtain ⟨⟨succs, hg, hmem⟩, ho⟩ := hlink
    exact .step (ih rfl) hg hmem ho

theorem Trail.nodup (h : Trail g r s) : s.Nodup := by
  induction h with
  | root _ => exact List.nodup_singleton _
  | step _ _ hv ih => exact List.nodup_cons.mpr ⟨hv, ih⟩

theorem Trail.root_mem (h : Trail g r s) : r ∈ s := by
  induction h with
  | root _ => exact List.mem_cons_self
  | step _ _ _ ih => exact List.mem_cons_of_mem _ ih

theorem Trail.tail (h : Trail g r (v :: x :: s)) : Trail g r (x :: s) ∧ Linked g x v := by
  cases h with
  | step h hlink _ => exact ⟨h, hlink⟩

/-! ## Folds that only add -/

theorem prefix_foldl {f : List α → α → List α} (hf : ∀ V u, V <+: f V u) (l V : List α) :
    V <+: l.foldl f V := by
  induction l generalizing V with
  | nil => exact List.prefix_rfl
  | cons v l ih => exact (hf V v).trans (ih _)

theorem nodup_foldl {f : List α → α → List α} (hf : ∀ V u, V.Nodup → (f V u).Nodup) (l : List α)
    (hV : V.Nodup) : (l.foldl f V).Nodup :=
  List.foldlRecOn l f (motive := List.Nodup) hV fun W hW u _ => hf W u hW

theorem nodup_snoc (hV : V.Nodup) (hu : u ∉ V) : (V ++ [u]).Nodup :=
  List.nodup_append.mpr ⟨hV, List.nodup_singleton u, fun _ hy _ hz hyz =>
    hu (List.mem_singleton.mp hz ▸ hyz ▸ hy)⟩

/-- What a fold has entered, it has entered from one of the nodes. -/
theorem mem_foldl {l : List α} {f : List α → α → List α} (h : v ∈ l.foldl f V) :
    v ∈ V ∨ ∃ l₁ a l₂, l = l₁ ++ a :: l₂ ∧ v ∉ l₁.foldl f V ∧ v ∈ f (l₁.foldl f V) a := by
  induction l generalizing V with
  | nil => exact .inl h
  | cons b l ih =>
    rcases ih h with h | ⟨l₁, a, l₂, rfl, hnot, hmem⟩
    · by_cases hV : v ∈ V
      · exact .inl hV
      · exact .inr ⟨[], b, l, rfl, hV, h⟩
    · exact .inr ⟨b :: l₁, a, l₂, rfl, hnot, hmem⟩

/-! ## Seen nodes -/

/-- The nodes seen that are not on the way: above the greatest depth, their successors have been seen. -/
def Closed (g : α → Option (List α)) (r : α) (D : ℕ) (s V : List α) : Prop :=
  ∀ y ∈ V, y ∉ s → ∀ k < D, Path g r k y → ∀ z, Linked g y z → z ∈ V

theorem Closed.push (h : Closed g r D s V) : Closed g r D (u :: s) (V ++ [u]) := by
  intro y hy hys k hk hp z hz
  rw [List.mem_cons, not_or] at hys
  rcases List.mem_append.mp hy with hy | hy
  · exact List.mem_append_left _ (h y hy hys.2 k hk hp z hz)
  · exact absurd (List.mem_singleton.mp hy) hys.1

theorem Closed.pop (h : Closed g r D (u :: s) V)
    (hu : ∀ k < D, Path g r k u → ∀ z, Linked g u z → z ∈ V) : Closed g r D s V := by
  intro y hy hys k hk hp z hz
  rcases eq_or_ne y u with hyu | hyu
  · subst hyu
    exact hu k hk hp z hz
  · exact h y hy (by simp [hyu, hys]) k hk hp z hz

/-- From a node of the path to the next one, none of which is on the way. -/
theorem seen_along {b : α} {q : List α} (hclosed : Closed g r D (x :: s) V) (hb : b ∈ V)
    (hq : Trail g r (q ++ b :: x :: s)) (hlen : (q ++ b :: x :: s).length ≤ D + 1) :
    ∀ y ∈ q ++ [b], y ∈ V := by
  induction q with
  | nil => simpa using hb
  | cons c q ih =>
    obtain ⟨y, w, hw, hy⟩ : ∃ y w, q ++ b :: x :: s = y :: w ∧ y ∈ q ++ [b] := by
      cases q with
      | nil => exact ⟨b, x :: s, rfl, List.mem_cons_self⟩
      | cons d q => exact ⟨d, q ++ b :: x :: s, rfl, List.mem_cons_self⟩
    rw [List.cons_append, List.length_cons] at hlen
    rw [List.cons_append, hw] at hq
    have hseen := ih (hw ▸ hq.tail.1) (by omega)
    have hys : y ∉ x :: s := by
      have hnodup := hq.tail.1.nodup
      rw [← hw, ← List.singleton_append, ← List.append_assoc] at hnodup
      exact fun h => (List.nodup_append.mp hnodup).2.2 y hy y h rfl
    have hlt : w.length < D := by
      rw [hw, List.length_cons] at hlen
      omega
    intro z hz
    rcases List.mem_cons.mp hz with rfl | hz
    · exact hclosed y (hseen y hy) hys _ hlt hq.tail.1.path _ hq.tail.2
    · exact hseen z hz

/-! ## Room -/

/-- A bound on the nodes seen: where there is room for some nodes, there is room for a part of them, and
closed nodes take none. -/
structure Bound (g : α → Option (List α)) (Room : List α → Prop) : Prop where
  subperm : ∀ {V W}, V.Subperm W → Room W → Room V
  of_open : ∀ {V}, Room (V.filter fun y => (g y).isSome) → Room V

theorem Bound.of_prefix {Room : List α → Prop} {W : List α} (hb : Bound g Room) (h : V <+: W) (hW : Room W) :
    Room V :=
  hb.subperm h.sublist.subperm hW

/-- As long as there is room, the nodes seen that are not on the way are closed. -/
def Kept (g : α → Option (List α)) (Room : List α → Prop) (r : α) (D : ℕ) (s V : List α) : Prop :=
  Room V → Closed g r D s V

theorem Kept.push {Room : List α → Prop} (hb : Bound g Room) (h : Kept g Room r D s V) :
    Kept g Room r D (u :: s) (V ++ [u]) :=
  fun hroom => (h (hb.of_prefix (List.prefix_append V [u]) hroom)).push

/-! ## The search -/

section Visit

variable [DecidableEq α] {a : α} {n k : ℕ} {l m : List α} {P : List α → List α → Prop} {Room : List α → Prop}

/-- Enter `u` and what is below it, if it has not been seen; `n` levels are left. -/
def visit (g : α → Option (List α)) : ℕ → List α → α → List α
  | 0, V, _ => V
  | n + 1, V, u => if u ∈ V then V else ((g u).getD []).foldl (visit g n) (V ++ [u])

theorem visit_succ_of_mem (h : u ∈ V) : visit g (n + 1) V u = V := if_pos h

theorem visit_of_notMem (h : u ∉ V) :
    visit g (n + 1) V u = ((g u).getD []).foldl (visit g n) (V ++ [u]) := if_neg h

theorem visit_succ (h : u ∉ V) (hg : g u = some l) :
    visit g (n + 1) V u = l.foldl (visit g n) (V ++ [u]) := by
  rw [visit_of_notMem h, hg]
  rfl

theorem visit_closed (h : u ∉ V) (hg : g u = none) : visit g (n + 1) V u = V ++ [u] := by
  rw [visit_of_notMem h, hg]
  rfl

/-- With one level left, nothing below `u` is entered. -/
theorem visit_one (h : u ∉ V) : visit g 1 V u = V ++ [u] := by
  rw [visit_of_notMem h]
  exact List.foldlRecOn _ _ (motive := fun W : List α => W = V ++ [u]) rfl fun _ hW _ _ => hW

/-! ## What is entered -/

theorem prefix_visit (n : ℕ) (V : List α) (u : α) : V <+: visit g n V u := by
  induction n generalizing V u with
  | zero => exact List.prefix_rfl
  | succ n ih =>
    by_cases hu : u ∈ V
    · rw [visit_succ_of_mem hu]
    · rw [visit_of_notMem hu]
      exact (List.prefix_append V [u]).trans (prefix_foldl ih _ _)

theorem subset_visit : V ⊆ visit g n V u := (prefix_visit n V u).subset

theorem prefix_foldl_visit (l : List α) : V <+: l.foldl (visit g n) V := prefix_foldl (prefix_visit n) l V

theorem subset_foldl_visit : V ⊆ l.foldl (visit g n) V := (prefix_foldl_visit l).subset

/-- Nothing is entered twice. -/
theorem nodup_visit (n : ℕ) (V : List α) (u : α) (hV : V.Nodup) : (visit g n V u).Nodup := by
  induction n generalizing V u with
  | zero => exact hV
  | succ n ih =>
    by_cases hu : u ∈ V
    · rw [visit_succ_of_mem hu]
      exact hV
    · rw [visit_of_notMem hu]
      exact nodup_foldl ih _ (nodup_snoc hV hu)

theorem mem_visit : u ∈ visit g (n + 1) V u := by
  by_cases hu : u ∈ V
  · exact subset_visit hu
  · rw [visit_of_notMem hu]
    exact subset_foldl_visit (List.mem_append_right _ List.mem_cons_self)

theorem subset_foldl_visit_succ : l ⊆ l.foldl (visit g (n + 1)) V := by
  induction l generalizing V with
  | nil => exact List.nil_subset _
  | cons v l ih =>
    intro u hu
    rcases List.mem_cons.mp hu with rfl | hu
    · rw [List.foldl_cons]
      exact subset_foldl_visit mem_visit
    · exact ih hu

/-- What a call enters is its node, or is entered in the call for one of its successors. -/
theorem mem_visit_succ (h : v ∈ visit g (n + 1) V u) : v ∈ V ∨ u ∉ V ∧ (v = u ∨
    ∃ l₁ a l₂, g u = some (l₁ ++ a :: l₂) ∧ v ∉ l₁.foldl (visit g n) (V ++ [u]) ∧
      v ∈ visit g n (l₁.foldl (visit g n) (V ++ [u])) a) := by
  by_cases hu : u ∈ V
  · rw [visit_succ_of_mem hu] at h
    exact .inl h
  · rw [visit_of_notMem hu] at h
    rcases mem_foldl h with hv | ⟨l₁, a, l₂, hl, hnot, hmem⟩
    · rcases List.mem_append.mp hv with hv | hv
      · exact .inl hv
      · exact .inr ⟨hu, .inl (List.mem_singleton.mp hv)⟩
    · refine .inr ⟨hu, .inr ⟨l₁, a, l₂, ?_, hnot, hmem⟩⟩
      cases hg : g u with
      | none =>
        rw [hg, Option.getD_none] at hl
        exact absurd hl.symm (by simp)
      | some succs => rw [← hl, hg, Option.getD_some]

/-- The open nodes that are entered are within reach. -/
theorem reach_of_mem_visit (h : v ∈ visit g (n + 1) V u) (ho : (g v).isSome) : v ∈ V ∨ Reach g u n v := by
  induction n generalizing V u with
  | zero =>
    rcases mem_visit_succ h with hv | ⟨-, rfl | ⟨l₁, a, l₂, -, hnot, hmem⟩⟩
    · exact .inl hv
    · exact .inr ⟨0, le_rfl, .root ho⟩
    · exact absurd hmem hnot
  | succ n ih =>
    rcases mem_visit_succ h with hv | ⟨-, rfl | ⟨l₁, a, l₂, hg, hnot, hmem⟩⟩
    · exact .inl hv
    · exact .inr ⟨0, Nat.zero_le _, .root ho⟩
    · obtain ⟨k, hk, hp⟩ := (ih hmem).resolve_left hnot
      have ha : a ∈ l₁ ++ a :: l₂ := List.mem_append_right _ List.mem_cons_self
      exact .inr ⟨k + 1, Nat.succ_le_succ hk, hp.cons hg ha⟩

/-! ## The calls of a search -/

/-- The calls of the search from `r`: the node to be visited and those on the way to it, and the nodes seen.
`P` holds on the way. -/
inductive Call (g : α → Option (List α)) (r : α) (D : ℕ) (P : List α → List α → Prop) :
    List α → List α → Prop
  | root : Call g r D P [r] []
  | child {x a : α} {s V l m : List α} : Call g r D P (x :: s) V → x ∉ V → s.length < D →
      g x = some (l ++ a :: m) → P (x :: s) (l.foldl (visit g (D - s.length)) (V ++ [x])) →
      Call g r D P (a :: x :: s) (l.foldl (visit g (D - s.length)) (V ++ [x]))

/-- While there is room, the search enters at the greatest depth a node that is nearer to the root, and does
not come to its successor. -/
def Cut (g : α → Option (List α)) (Room : List α → Prop) (r : α) (D : ℕ) : Prop :=
  ∃ u s V k v, Call g r D (fun _ _ => True) (u :: s) V ∧ u ∉ V ∧ Room (V ++ [u]) ∧ s.length = D ∧ k < D ∧
    Path g r k u ∧ Linked g u v

theorem Call.subset (h : Call g r D P (u :: s) V) : s ⊆ V := by
  generalize hp : u :: s = p at h
  induction h generalizing u s with
  | root =>
    cases hp
    exact List.nil_subset _
  | child _ _ _ _ _ ih =>
    cases hp
    intro v hv
    refine subset_foldl_visit ?_
    rcases List.mem_cons.mp hv with rfl | hv
    · exact List.mem_append_right _ List.mem_cons_self
    · exact List.mem_append_left _ (ih rfl hv)

theorem Call.length_le (h : Call g r D P (u :: s) V) : s.length ≤ D := by
  cases h with
  | root => exact Nat.zero_le _
  | child _ _ hlt _ _ => exact hlt

theorem Call.mono {Q : List α → List α → Prop} (h : Call g r D P s V) (hPQ : ∀ s V, P s V → Q s V) :
    Call g r D Q s V := by
  induction h with
  | root => exact .root
  | child _ hx hlt hg hP ih => exact .child ih hx hlt hg (hPQ _ _ hP)

/-- The loop over the successors of `x`, if every call from it does as it should. -/
theorem kept_loop (hb : Bound g Room)
    (hvisit : ∀ a V', Call g r D (Kept g Room r D) (a :: x :: s) V' → Kept g Room r D (x :: s) V' →
      Kept g Room r D (x :: s) (visit g (D - s.length) V' a))
    (hcall : Call g r D (Kept g Room r D) (x :: s) V) (hx : x ∉ V) (hlt : s.length < D)
    (hV : Kept g Room r D s V) (hg : g x = some (l ++ m)) :
    Kept g Room r D (x :: s) (l.foldl (visit g (D - s.length)) (V ++ [x])) := by
  induction l using List.reverseRecOn generalizing m with
  | nil => exact hV.push hb
  | append_singleton l a ih =>
    rw [List.append_assoc] at hg
    have hl := ih hg
    rw [List.foldl_append]
    exact hvisit a _ (.child hcall hx hlt hg hl) hl

section NoCut

variable (hb : Bound g Room) (hcut : ∀ u s V k v, Call g r D (Kept g Room r D) (u :: s) V → u ∉ V →
  Room (V ++ [u]) → s.length = D → k < D → Path g r k u → ¬ Linked g u v)

include hb hcut

/-- **What a call leaves behind is closed**, unless there is no room or something is cut. -/
theorem kept_visit (hcall : Call g r D (Kept g Room r D) (u :: s) V) (hlen : s.length + n = D)
    (hV : Kept g Room r D s V) : Kept g Room r D s (visit g (n + 1) V u) := by
  induction n generalizing u s V with
  | zero =>
    by_cases hu : u ∈ V
    · rw [visit_succ_of_mem hu]
      exact hV
    · rw [visit_one hu]
      exact fun hroom => (hV.push hb hroom).pop fun k hk hp z hz =>
        absurd hz (hcut u s V k z hcall hu hroom hlen hk hp)
  | succ n ih =>
    by_cases hu : u ∈ V
    · rw [visit_succ_of_mem hu]
      exact hV
    · rcases hg : g u with _ | succs
      · rw [visit_closed hu hg]
        refine fun hroom => (hV.push hb hroom).pop fun k _ _ z hz => ?_
        obtain ⟨⟨succs, hsome, -⟩, -⟩ := hz
        rw [hg] at hsome
        cases hsome
      · have hlevels : D - s.length = n + 1 := by omega
        have hloop := kept_loop (l := succs) (m := []) hb (fun a V' ha hV' => by
          rw [hlevels]
          exact ih ha (by rw [List.length_cons]; omega) hV') hcall hu (by omega) hV (by rwa [List.append_nil])
        rw [hlevels] at hloop
        rw [visit_succ hu hg]
        refine fun hroom => (hloop hroom).pop fun k _ _ z hz => ?_
        obtain ⟨⟨succs', hsome, hz⟩, -⟩ := hz
        rw [hg, Option.some.injEq] at hsome
        subst hsome
        exact subset_foldl_visit_succ hz

/-- The seen nodes are closed in every call, as long as there is room. -/
theorem kept_of_call (h : Call g r D (fun _ _ => True) (u :: s) V) :
    Call g r D (Kept g Room r D) (u :: s) V ∧ Kept g Room r D s V := by
  generalize hp : u :: s = p at h
  induction h generalizing u s with
  | root =>
    cases hp
    exact ⟨.root, fun _ y hy => absurd hy List.not_mem_nil⟩
  | @child x a s' V l m _ hx hlt hg _ ih =>
    cases hp
    obtain ⟨hcall, hV⟩ := ih rfl
    have hloop := kept_loop (l := l) (m := a :: m) hb (fun b V' hb' hV' => by
      rw [show D - s'.length = D - (x :: s').length + 1 by rw [List.length_cons]; omega]
      exact kept_visit hb hcut hb' (by rw [List.length_cons]; omega) hV') hcall hx hlt hV hg
    exact ⟨.child hcall hx hlt hg hloop, hloop⟩

/-- **Everything within reach is entered**, unless there is no room or something is cut. -/
theorem mem_of_reach (hroom : Room (visit g (D + 1) [] r)) (h : Reach g r D v) :
    v ∈ visit g (D + 1) [] r := by
  have hclosed : Closed g r D [] (visit g (D + 1) [] r) :=
    kept_visit hb hcut .root (Nat.zero_add D) (fun _ y hy => absurd hy List.not_mem_nil) hroom
  obtain ⟨k, hk, hp⟩ := h
  induction hp with
  | root _ => exact mem_visit
  | step hp hg hmem ho ih =>
    exact hclosed _ (ih (by omega)) List.not_mem_nil _ (by omega) hp _ ⟨⟨_, hg, hmem⟩, ho⟩

end NoCut

/-! ## Which path is searched first -/

/-- The paths part at `x`, and the first one goes to the successor that is listed earlier. -/
def LeftOf (g : α → Option (List α)) (q p : List α) : Prop :=
  ∃ t b x s t' a succs, q = t ++ b :: x :: s ∧ p = t' ++ a :: x :: s ∧ g x = some succs ∧
    succs.idxOf b < succs.idxOf a

/-- The nodes of the path, and those at the end of a simple path of at most `D` steps on its left. -/
def Before (g : α → Option (List α)) (r : α) (D : ℕ) (p : List α) (y : α) : Prop :=
  y ∈ p ∨ ∃ q, Trail g r (y :: q) ∧ q.length ≤ D ∧ LeftOf g (y :: q) p

/-- If a node with open successors is at the end of a simple path of `D` steps, and nearer to the root,
then a shorter path on the left of this one leads to it, or there is no room for the nodes that come before. -/
def ShallowFirst (g : α → Option (List α)) (Room : List α → Prop) (r : α) (D : ℕ) : Prop :=
  ∀ u s k v, Trail g r (u :: s) → s.length = D → k < D → Path g r k u → Linked g u v →
    (∃ q, Trail g r (u :: q) ∧ q.length < D ∧ LeftOf g (u :: q) (u :: s)) ∨
    ∃ l : List α, l.Nodup ∧ (∀ y ∈ l, Before g r D (u :: s) y) ∧ ¬ Room l

theorem LeftOf.append {p q : List α} (h : LeftOf g q p) (w : List α) : LeftOf g q (w ++ p) := by
  obtain ⟨t, b, x, s, t', a, succs, hq, hp, hg, hlt⟩ := h
  exact ⟨t, b, x, s, w ++ t', a, succs, hq, by rw [hp, List.append_assoc], hg, hlt⟩

theorem Call.trail (h : Call g r D P (u :: s) V) (hu : u ∉ V) (ho : (g u).isSome) : Trail g r (u :: s) := by
  generalize hp : u :: s = p at h
  induction h generalizing u s with
  | root =>
    cases hp
    exact .root ho
  | @child x a s' V' l m hcall hx hlt hg hP ih =>
    cases hp
    have hsub : x :: s' ⊆ l.foldl (visit g (D - s'.length)) (V' ++ [x]) :=
      Call.subset (.child hcall hx hlt hg hP)
    refine .step (ih hx (by rw [hg]; rfl) rfl) ⟨⟨_, hg, ?_⟩, ho⟩ fun ha => hu (hsub ha)
    exact List.mem_append_right _ List.mem_cons_self

theorem mem_of_idxOf_lt {succs : List α} {b : α} (hsuccs : succs = l ++ a :: m) (ha : a ∉ l)
    (hlt : succs.idxOf b < succs.idxOf a) : b ∈ l := by
  by_contra hb
  rw [hsuccs, List.idxOf_append_of_notMem ha, List.idxOf_append_of_notMem hb, List.idxOf_cons_self] at hlt
  omega

theorem idxOf_lt_of_mem {b : α} (hb : b ∈ l) (ha : a ∉ l) :
    (l ++ a :: m).idxOf b < (l ++ a :: m).idxOf a := by
  rw [List.idxOf_append_of_mem hb, List.idxOf_append_of_notMem ha, List.idxOf_cons_self]
  exact List.idxOf_lt_length_of_mem hb

/-- **What is on the left of a call has been seen.** -/
theorem seen_of_left {b : α} {succs q : List α} (hb : Bound g Room)
    (hcall : Call g r D (Kept g Room r D) (t ++ a :: x :: s) V) (hroom : Room V)
    (hV : ∀ c p, t ++ a :: x :: s = c :: p → c ∉ V) (hg : g x = some succs)
    (hlt : succs.idxOf b < succs.idxOf a) (hq : Trail g r (q ++ b :: x :: s))
    (hlen : (q ++ b :: x :: s).length ≤ D + 1) : ∀ y ∈ q ++ [b], y ∈ V := by
  induction t generalizing V with
  | nil =>
    have ha : a ∉ V := hV a (x :: s) rfl
    cases hcall with
    | @child _ _ _ V₀ l m hcall hx hlt' hg' hkept =>
      rw [hg, Option.some.injEq] at hg'
      have hsub : l ⊆ l.foldl (visit g (D - s.length)) (V₀ ++ [x]) := by
        rw [show D - s.length = D - s.length - 1 + 1 by omega]
        exact subset_foldl_visit_succ
      exact seen_along (hkept hroom) (hsub (mem_of_idxOf_lt hg' (fun h => ha (hsub h)) hlt)) hq hlen
  | cons c t ih =>
    obtain ⟨y, w, hw⟩ : ∃ y w, t ++ a :: x :: s = y :: w := by
      cases t with
      | nil => exact ⟨a, x :: s, rfl⟩
      | cons d t => exact ⟨d, t ++ a :: x :: s, rfl⟩
    rw [List.cons_append, hw] at hcall
    cases hcall with
    | @child _ _ _ V₀ l m hcall hy hlt' hg' _ =>
      rw [hw] at ih
      have hprefix : V₀ <+: l.foldl (visit g (D - w.length)) (V₀ ++ [y]) :=
        (List.prefix_append V₀ [y]).trans (prefix_foldl_visit l)
      intro z hz
      have hz' := ih hcall (hb.of_prefix hprefix hroom) (fun c p hcp => by cases hcp; exact hy) z hz
      exact hprefix.subset hz'

/-- A path on the left of a call leads to seen nodes only, as long as there is room. -/
theorem LeftOf.mem {p q : List α} (h : LeftOf g (v :: q) (u :: p)) (hb : Bound g Room)
    (hcall : Call g r D (Kept g Room r D) (u :: p) V) (hroom : Room V) (hu : u ∉ V)
    (hq : Trail g r (v :: q)) (hlen : q.length ≤ D) : v ∈ V := by
  obtain ⟨t, b, x, s, t', a, succs, hqeq, hpeq, hg, hlt⟩ := h
  have hlen' : (v :: q).length ≤ D + 1 := by rw [List.length_cons]; omega
  rw [hpeq] at hcall
  rw [hqeq] at hq hlen'
  refine seen_of_left hb hcall hroom (fun c w hcw => ?_) hg hlt hq hlen' v ?_
  · rw [← hpeq] at hcw
    cases hcw
    exact hu
  · cases t with
    | nil =>
      rw [(List.cons.inj hqeq).1]
      exact List.mem_cons_self
    | cons c t =>
      rw [(List.cons.inj hqeq).1]
      exact List.mem_cons_self

/-- If shallow paths come first, no call is a cut. -/
theorem ShallowFirst.not_linked (h : ShallowFirst g Room r D) (hb : Bound g Room) (u : α) (s V : List α) (k : ℕ)
    (v : α) (hcall : Call g r D (Kept g Room r D) (u :: s) V) (hu : u ∉ V) (hroom : Room (V ++ [u]))
    (hlen : s.length = D) (hk : k < D) (hp : Path g r k u) : ¬ Linked g u v := by
  intro hlink
  have hV : Room V := hb.of_prefix (List.prefix_append V [u]) hroom
  rcases h u s k v (hcall.trail hu hlink.isSome_left) hlen hk hp hlink with
    ⟨q, hq, hlt, hleft⟩ | ⟨l, hnodup, hbefore, hfull⟩
  · exact hu (hleft.mem hb hcall hV hu hq hlt.le)
  · refine hfull (hb.subperm (List.subperm_of_subset hnodup fun y hy => ?_) hroom)
    rcases hbefore y hy with hmem | ⟨q, hq, hle, hleft⟩
    · rcases List.mem_cons.mp hmem with rfl | hmem
      · exact List.mem_append_right _ List.mem_cons_self
      · exact List.mem_append_left _ (hcall.subset hmem)
    · exact List.mem_append_left _ (hleft.mem hb hcall hV hu hq hle)

/-! ## What has been seen in a call -/

/-- When `W` had been seen, `v` had been entered, in a call on the way of which were the nodes of `q`. -/
def Entered (g : α → Option (List α)) (r : α) (D : ℕ) (W : List α) (v : α) (q : List α) : Prop :=
  ∃ V, Call g r D (fun _ _ => True) (v :: q) V ∧ v ∉ V ∧ V ++ [v] <+: W

theorem Entered.mono {W W' q : List α} (h : Entered g r D W v q) (hW : W <+: W') : Entered g r D W' v q := by
  obtain ⟨V, hcall, hv, hprefix⟩ := h
  exact ⟨V, hcall, hv, hprefix.trans hW⟩

theorem Call.entered (h : Call g r D (fun _ _ => True) (u :: s) V) (hu : u ∉ V) :
    Entered g r D (visit g (n + 1) V u) u s := by
  refine ⟨V, h, hu, ?_⟩
  rw [visit_of_notMem hu]
  exact prefix_foldl_visit _

/-- What a call enters is entered in a call below it. -/
theorem entered_of_mem (hcall : Call g r D (fun _ _ => True) (u :: s) V) (hlen : s.length + n = D)
    (h : v ∈ visit g (n + 1) V u) :
    v ∈ V ∨ ∃ q, Entered g r D (visit g (n + 1) V u) v q ∧ u :: s <:+ v :: q := by
  induction n generalizing u s V with
  | zero =>
    rcases mem_visit_succ h with hv | ⟨hu, rfl | ⟨l₁, a, l₂, -, hnot, hmem⟩⟩
    · exact .inl hv
    · exact .inr ⟨s, hcall.entered hu, List.suffix_rfl⟩
    · exact absurd hmem hnot
  | succ n ih =>
    rcases mem_visit_succ h with hv | ⟨hu, rfl | ⟨l₁, a, l₂, hg, hnot, hmem⟩⟩
    · exact .inl hv
    · exact .inr ⟨s, hcall.entered hu, List.suffix_rfl⟩
    · have hlevels : D - s.length = n + 1 := by omega
      have hchild : Call g r D (fun _ _ => True) (a :: u :: s) (l₁.foldl (visit g (n + 1)) (V ++ [u])) := by
        rw [← hlevels]
        exact .child hcall hu (by omega) hg trivial
      obtain ⟨q, hq, hsuffix⟩ := (ih hchild (by rw [List.length_cons]; omega) hmem).resolve_left hnot
      refine .inr ⟨q, hq.mono ?_, (List.suffix_cons a (u :: s)).trans hsuffix⟩
      rw [visit_succ hu hg, List.foldl_append]
      exact prefix_foldl_visit l₂

/-- The call for the path `p`, when `V` has been seen: all of that is on the path, or was entered in a call
on its left. -/
structure Arrives (g : α → Option (List α)) (r : α) (D : ℕ) (p V : List α) : Prop where
  call : Call g r D (fun _ _ => True) p V
  nodup : V.Nodup
  left : ∀ y ∈ V, y ∈ p.tail ∨ ∃ q, Entered g r D V y q ∧ LeftOf g (y :: q) p

/-- From a call to the call for a successor, where that is listed first. -/
theorem Arrives.child (h : Arrives g r D (x :: s) V) (hx : x ∉ V) (hlt : s.length < D)
    (hg : g x = some (l ++ a :: m)) (ha : a ∉ l) :
    Arrives g r D (a :: x :: s) (l.foldl (visit g (D - s.length)) (V ++ [x])) := by
  refine ⟨.child h.call hx hlt hg trivial, nodup_foldl (nodup_visit _) l (nodup_snoc h.nodup hx), fun y hy => ?_⟩
  rcases mem_foldl hy with hy | ⟨l₁, b, l₂, rfl, hnot, hmem⟩
  · rcases List.mem_append.mp hy with hy | hy
    · rcases h.left y hy with hys | ⟨q, hq, hleft⟩
      · exact .inl (List.mem_cons_of_mem _ hys)
      · exact .inr ⟨q, hq.mono ((List.prefix_append V [x]).trans (prefix_foldl_visit l)), hleft.append [a]⟩
    · rw [List.mem_singleton.mp hy]
      exact .inl List.mem_cons_self
  · -- entered in a call from `b`, which is listed before `a`
    have hb : b ∈ l₁ ++ b :: l₂ := List.mem_append_right _ List.mem_cons_self
    have hcall : Call g r D (fun _ _ => True) (b :: x :: s) (l₁.foldl (visit g (D - s.length)) (V ++ [x])) :=
      .child h.call hx hlt (by rw [hg, List.append_assoc]; rfl) trivial
    have hlevels : D - s.length = D - (s.length + 1) + 1 := by omega
    have hentered := entered_of_mem (n := D - (s.length + 1)) (v := y) hcall
      (by rw [List.length_cons]; omega) (by rwa [hlevels] at hmem ⊢)
    obtain ⟨q, hq, w, hw⟩ := hentered.resolve_left hnot
    rw [← hlevels] at hq
    refine .inr ⟨q, hq.mono ?_, w, b, x, s, [], a, _, hw.symm, rfl, hg, idxOf_lt_of_mem hb ha⟩
    rw [List.foldl_append]
    exact prefix_foldl_visit l₂

/-- The calls along a simple path, up to the first one for a node that has been seen. -/
theorem Trail.arrives {p : List α} (h : Trail g r p) (hlen : p.length ≤ D + 1) :
    ∃ t x s V, p = t ++ x :: s ∧ Arrives g r D (x :: s) V ∧ (x ∈ V ∨ t = []) := by
  induction h with
  | root _ =>
    exact ⟨[], r, [], [], rfl, ⟨.root, List.nodup_nil, fun y hy => absurd hy List.not_mem_nil⟩, .inr rfl⟩
  | @step x v s _ hlink _ ih =>
    rw [List.length_cons] at hlen
    obtain ⟨t, y, s', V, hp, harrives, hseen⟩ := ih (by omega)
    by_cases hy : y ∈ V
    · exact ⟨v :: t, y, s', V, by rw [hp]; rfl, harrives, .inl hy⟩
    · obtain rfl : t = [] := hseen.resolve_left hy
      cases hp
      obtain ⟨⟨succs, hg, hmem⟩, -⟩ := hlink
      obtain ⟨l, m, rfl, hv⟩ := List.eq_append_cons_of_mem hmem
      rw [List.length_cons] at hlen
      exact ⟨[], v, x :: s, _, rfl, harrives.child hy (by omega) hg hv, .inr rfl⟩

/-- What has been seen in a call along `p` comes before `p`. -/
theorem Arrives.before {p : List α} (h : Arrives g r D (x :: s) V) (hp : x :: s <:+ p) (hy : y ∈ V)
    (ho : (g y).isSome) : Before g r D p y := by
  rcases h.left y hy with hys | ⟨q, ⟨V', hcall, hyV, -⟩, hleft⟩
  · exact .inl (hp.subset (List.mem_cons_of_mem _ hys))
  · obtain ⟨w, rfl⟩ := hp
    exact .inr ⟨q, hcall.trail hyV ho, hcall.length_le, hleft.append w⟩

/-- If a node of a path has been seen in the call for it, so have those after it. -/
theorem Arrives.mem_along (h : Arrives g r D (x :: s) V) (hx : x ∈ V) (hclosed : Closed g r D s V)
    (hp : Trail g r (t ++ x :: s)) (hlen : (t ++ x :: s).length ≤ D + 1) : ∀ y ∈ t ++ [x], y ∈ V := by
  cases s with
  | nil =>
    cases h.call with
    | root => cases hx
  | cons z s => exact seen_along hclosed hx hp hlen

/-- There is room for open nodes that come before `p`, if there is for every list of such nodes. -/
theorem Bound.room {p W : List α} (hb : Bound g Room)
    (hp : ∀ l : List α, l.Nodup → (∀ y ∈ l, Before g r D p y) → Room l) (hW : W.Nodup)
    (hbefore : ∀ y ∈ W, (g y).isSome → Before g r D p y) : Room W := by
  refine hb.of_open (hp _ (hW.filter _) fun y hy => ?_)
  obtain ⟨hyW, ho⟩ := List.mem_filter.mp hy
  exact hbefore y hyW ho

/-- If nothing is cut and there is room for what comes before the path of full length to `u`, then `u` is
entered in a call on its left. -/
theorem exists_entered (hb : Bound g Room) (h : ¬ Cut g Room r D) (htrail : Trail g r (u :: s))
    (hlen : s.length = D) (hk : k < D) (hp : Path g r k u) (hlink : Linked g u v)
    (hfull : ∀ l : List α, l.Nodup → (∀ y ∈ l, Before g r D (u :: s) y) → Room l) :
    ∃ V q, Room V ∧ Entered g r D V u q ∧ LeftOf g (u :: q) (u :: s) := by
  have hcut (u : α) (s V : List α) (k : ℕ) (v : α) (hcall : Call g r D (Kept g Room r D) (u :: s) V)
      (hu : u ∉ V) (hroom : Room (V ++ [u])) (hlen : s.length = D) (hk : k < D) (hp : Path g r k u) :
      ¬ Linked g u v := fun hlink =>
    h ⟨u, s, V, k, v, hcall.mono fun _ _ _ => trivial, hu, hroom, hlen, hk, hp, hlink⟩
  obtain ⟨t, x, s', V, hpath, harrives, hseen⟩ := htrail.arrives (D := D) (by rw [List.length_cons]; omega)
  have hsuffix : x :: s' <:+ u :: s := ⟨t, hpath.symm⟩
  have hbefore : ∀ y ∈ V, (g y).isSome → Before g r D (u :: s) y := fun y hy ho =>
    harrives.before hsuffix hy ho
  have hroom : Room V := hb.room hfull harrives.nodup hbefore
  have huV : u ∈ V := by
    cases t with
    | nil =>
      cases hpath
      -- all calls along the path are made: the last one would be a cut
      by_contra hu
      refine h ⟨u, s, V, k, v, harrives.call, hu, hb.room hfull (nodup_snoc harrives.nodup hu) fun y hy ho => ?_,
        hlen, hk, hp, hlink⟩
      rcases List.mem_append.mp hy with hy | hy
      · exact hbefore y hy ho
      · rw [List.mem_singleton.mp hy]
        exact .inl List.mem_cons_self
    | cons c t =>
      obtain rfl : u = c := (List.cons.inj hpath).1
      have hx : x ∈ V := hseen.resolve_right (List.cons_ne_nil u t)
      have hclosed : Closed g r D s' V := (kept_of_call hb hcut harrives.call).2 hroom
      rw [hpath] at htrail
      exact harrives.mem_along hx hclosed htrail (by rw [← hpath, List.length_cons]; omega) u List.mem_cons_self
  have hus : u ∉ (x :: s').tail := fun hu => by
    rcases List.suffix_cons_iff.mp hsuffix with heq | hsuffix
    · cases heq
      exact (List.nodup_cons.mp htrail.nodup).1 hu
    · exact (List.nodup_cons.mp htrail.nodup).1 (hsuffix.subset (List.mem_cons_of_mem x hu))
  obtain ⟨q, hq, hleft⟩ := (harrives.left u huV).resolve_left hus
  rw [hpath]
  exact ⟨V, q, hroom, hq, hleft.append t⟩

/-- **Shallow paths come first exactly if nothing is cut.** -/
theorem shallowFirst_iff (hb : Bound g Room) : ShallowFirst g Room r D ↔ ¬ Cut g Room r D := by
  constructor
  · rintro h ⟨u, s, V, k, v, hcall, hu, hroom, hlen, hk, hp, hlink⟩
    exact h.not_linked hb u s V k v (kept_of_call hb (h.not_linked hb) hcall).1 hu hroom hlen hk hp hlink
  · intro h u s k v htrail hlen hk hp hlink
    by_cases hfull : ∀ l : List α, l.Nodup → (∀ y ∈ l, Before g r D (u :: s) y) → Room l
    · obtain ⟨V, q, hroom, ⟨V', hcall, hu, hprefix⟩, hleft⟩ := exists_entered hb h htrail hlen hk hp hlink hfull
      have hne : q.length ≠ D := fun hq =>
        h ⟨u, q, V', k, v, hcall, hu, hb.of_prefix hprefix hroom, hq, hk, hp, hlink⟩
      exact .inl ⟨q, hcall.trail hu hlink.isSome_left, lt_of_le_of_ne hcall.length_le hne, hleft⟩
    · simp only [not_forall] at hfull
      obtain ⟨l, hnodup, hbefore, hno⟩ := hfull
      exact .inr ⟨l, hnodup, hbefore, hno⟩

/-- **Everything within reach is entered**, if shallow paths come first and there is room to the end. -/
theorem mem_visit_of_reach (hb : Bound g Room) (h : ShallowFirst g Room r D)
    (hroom : Room (visit g (D + 1) [] r)) (hv : Reach g r D v) : v ∈ visit g (D + 1) [] r :=
  mem_of_reach hb (h.not_linked hb) hroom hv

end Visit

end Dfs
