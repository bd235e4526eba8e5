import FireCtrl.Lib.Run
import Mathlib.Data.List.InsertIdx
import Mathlib.Data.List.Nodup
import Mathlib.Data.List.Perm.Basic
import Mathlib.Data.UInt

/-!
# The monitor of the workers (`WorkerPool::run` in `worker.rs`)

Workers are spawned with the ids `0..num_workers`; when the task of one ends, the monitor takes all handles
out of its map, puts the others back and spawns a new worker in its place.

* `Finished`: what the libraries answer in one round of the monitor. `respawn`: the round; `monitorLts`.
* `Identified`: every handle is stored under the id it was spawned with; `identified_respawn`.
* **`identitySurvives_iff`**: the ids survive as long as the other handles come back in their order;
  `swapRemove_eq_eraseIdx`: when they do if the last one takes the place of the finished one.
-/

namespace FireCtrl

/-- The handle of a worker task: the id that it was spawned with, and which task it is. -/
structure JoinHandle where
  workerId : UInt32
  task : ℕ
deriving DecidableEq

/-- The entries of the map, in some order. -/
abbrev Workers := List (UInt32 × JoinHandle)

/-- `workers.insert(id, h)`. -/
def insertWorker (workers : Workers) (id : UInt32) (h : JoinHandle) : Workers :=
  (id, h) :: workers.filter fun w => w.1 ≠ id

/-- The map of `WorkerPool::run`, and how many tasks have been spawned. -/
structure WorkerPool where
  workers : Workers
  spawned : ℕ
deriving DecidableEq

/-- What one round of the monitor is answered: the entries in the order in which they are drained, the
position of the task that ends, and the handles of the others. -/
structure Finished where
  drained : Workers
  idx : ℕ
  remaining : List JoinHandle
deriving DecidableEq

namespace WorkerPool

/-- Spawn a worker, and insert its handle. -/
def spawn (p : WorkerPool) (id : UInt32) : WorkerPool where
  workers := insertWorker p.workers id ⟨id, p.spawned⟩
  spawned := p.spawned + 1

/-- `n` rounds of the loop that spawns the workers. -/
def spawnFrom : ℕ → UInt32 → WorkerPool → WorkerPool
  | 0, _, p => p
  | n + 1, nextId, p =>
    -- `saturating_add`
    spawnFrom n (if nextId = 4294967295 then nextId else nextId + 1) (p.spawn nextId)

def new (numWorkers : UInt32) : WorkerPool := spawnFrom numWorkers.toNat 0 ⟨[], 0⟩

end WorkerPool

def Finished.ids (e : Finished) : List UInt32 := e.drained.map Prod.fst

def Finished.handles (e : Finished) : List JoinHandle := e.drained.map Prod.snd

/-- The loop that restores the surviving handles, from the `i`-th one on. An index out of range would be a
panic. -/
def restore (ids : List UInt32) (idx : ℕ) : ℕ → List JoinHandle → Workers → Option Workers
  | _, [], workers => some workers
  | i, h :: hs, workers =>
    (if i ≥ idx then ids[i + 1]? else ids[i]?).bind fun id =>
      restore ids idx (i + 1) hs (insertWorker workers id h)

/-- One round of the monitor. -/
def WorkerPool.respawn (p : WorkerPool) (e : Finished) : Option WorkerPool := do
  let deadId ← e.ids[e.idx]?
  let workers ← restore e.ids e.idx 0 e.remaining []
  return { p with workers }.spawn deadId

/-- What the libraries may answer: they specify neither the order in which a map is drained, nor that of the
handles that `select_all` returns. -/
structure Finished.Possible (e : Finished) (p : WorkerPool) : Prop where
  drained : e.drained.Perm p.workers
  idx : e.idx < e.drained.length
  remaining : e.remaining.Perm (e.handles.eraseIdx e.idx)

/-- The pool, round by round. -/
def monitorLts (numWorkers : UInt32) : Lts WorkerPool Finished where
  init p := p = .new numWorkers
  step p e p' := e.Possible p ∧ p.respawn e = some p'

/-! ## Worker ids -/

/-- Each id in `0..num_workers` is there once, with a handle that was spawned with it. -/
structure WorkerPool.Identified (numWorkers : UInt32) (p : WorkerPool) : Prop where
  ids : (p.workers.map Prod.fst).Perm ((List.range numWorkers.toNat).map UInt32.ofNat)
  handles : ∀ w ∈ p.workers, w.2.workerId = w.1

/-- The new worker has the id of the one that finished. -/
def Finished.Replaced (e : Finished) (p p' : WorkerPool) : Prop :=
  ∃ h, e.handles[e.idx]? = some h ∧ (h.workerId, ⟨h.workerId, p.spawned⟩) ∈ p'.workers

/-- The other handles come in the order in which they were given. -/
def Finished.InOrder (e : Finished) : Prop := e.remaining = e.handles.eraseIdx e.idx

/-- In every state of the run the workers have their ids, and every round replaces the one that finished. -/
structure IdentitySurvives (numWorkers : UInt32) (es : List Finished) : Prop where
  identified : ∀ es₁ p, es₁ <+: es → (monitorLts numWorkers).Run es₁ p → p.Identified numWorkers
  replaced : ∀ es₁ e p p', es₁ ++ [e] <+: es → (monitorLts numWorkers).Run es₁ p →
    (monitorLts numWorkers).step p e p' → e.Replaced p p'

section Spawn

variable {n : ℕ} {numWorkers id nextId : UInt32} {p : WorkerPool} {workers : Workers} {h : JoinHandle}

theorem insertWorker_of_notMem (hid : id ∉ workers.map Prod.fst) :
    insertWorker workers id h = (id, h) :: workers := by
  unfold insertWorker
  congr 1
  refine List.filter_eq_self.mpr fun w hw => ?_
  simp only [ne_eq, decide_not, Bool.not_eq_eq_eq_not, Bool.not_true, decide_eq_false_iff_not]
  rintro rfl
  exact hid (List.mem_map_of_mem hw)

theorem toNat_ofNat_lt {i : ℕ} (h : i < numWorkers.toNat) : (UInt32.ofNat i).toNat = i := by
  have hlt := numWorkers.toNat_lt
  exact UInt32.toNat_ofNat_of_lt' (by unfold UInt32.size; omega)

theorem nodup_ids (numWorkers : UInt32) : ((List.range numWorkers.toNat).map UInt32.ofNat).Nodup := by
  refine List.Nodup.map_on (fun i hi j hj hij => ?_) List.nodup_range
  have h := congrArg UInt32.toNat hij
  rwa [toNat_ofNat_lt (List.mem_range.mp hi), toNat_ofNat_lt (List.mem_range.mp hj)] at h

/-- An id that has not been given out yet. -/
theorem ofNat_notMem_range {m : ℕ} (hm : m < numWorkers.toNat) :
    UInt32.ofNat m ∉ (List.range m).map UInt32.ofNat := by
  rw [List.mem_map]
  rintro ⟨i, hi, heq⟩
  have h := congrArg UInt32.toNat heq
  rw [List.mem_range] at hi
  rw [toNat_ofNat_lt hm, @toNat_ofNat_lt numWorkers i (hi.trans hm)] at h
  exact hi.ne h

/-- The loop at the start gives out the ids from `m` on. -/
theorem spawnFrom_identified {m : ℕ} (hm : m + n ≤ numWorkers.toNat)
    (hids : (p.workers.map Prod.fst).Perm ((List.range m).map UInt32.ofNat))
    (hhandles : ∀ w ∈ p.workers, w.2.workerId = w.1) :
    ((p.spawnFrom n (UInt32.ofNat m)).workers.map Prod.fst).Perm ((List.range (m + n)).map UInt32.ofNat) ∧
      ∀ w ∈ (p.spawnFrom n (UInt32.ofNat m)).workers, w.2.workerId = w.1 := by
  induction n generalizing p m with
  | zero => exact ⟨hids, hhandles⟩
  | succ n ih =>
    have hlt : m < numWorkers.toNat := by omega
    have hmax := numWorkers.toNat_lt
    have hm' : (UInt32.ofNat m).toNat = m := toNat_ofNat_lt hlt
    have hne : UInt32.ofNat m ≠ 4294967295 := by
      intro h
      rw [h] at hm'
      simp at hm'
      omega
    have hsucc : UInt32.ofNat m + 1 = UInt32.ofNat (m + 1) := by
      rw [UInt32.ofNat_add]
      rfl
    have hfresh : UInt32.ofNat m ∉ p.workers.map Prod.fst := by
      rw [hids.mem_iff]
      exact ofNat_notMem_range hlt
    have hspawn : (p.spawn (UInt32.ofNat m)).workers = (UInt32.ofNat m, ⟨UInt32.ofNat m, p.spawned⟩) :: p.workers :=
      insertWorker_of_notMem hfresh
    rw [WorkerPool.spawnFrom, if_neg hne, hsucc, show m + (n + 1) = m + 1 + n by omega]
    refine ih (by omega) ?_ fun w hw => ?_
    · rw [hspawn, List.map_cons, List.range_succ, List.map_append, List.map_singleton]
      exact (hids.cons _).trans (List.perm_append_singleton _ _).symm
    · rw [hspawn] at hw
      rcases List.mem_cons.mp hw with rfl | hw
      · rfl
      · exact hhandles w hw

theorem identified_new (numWorkers : UInt32) : (WorkerPool.new numWorkers).Identified numWorkers := by
  obtain ⟨hids, hhandles⟩ := spawnFrom_identified (n := numWorkers.toNat) (m := 0) (p := ⟨[], 0⟩)
    (Nat.zero_add numWorkers.toNat).le (List.Perm.refl _) (fun w hw => absurd hw List.not_mem_nil)
  rw [Nat.zero_add] at hids
  exact ⟨hids, hhandles⟩

end Spawn

/-! ## One round -/

section Round

variable {numWorkers : UInt32} {p p' : WorkerPool} {e : Finished} {ids : List UInt32} {idx i : ℕ}
  {hs : List JoinHandle} {workers : Workers}

/-- The handles are restored under the ids without that of the finished worker, in this order. -/
theorem restore_eq (hlen : hs.length + i = (ids.eraseIdx idx).length) (hids : ids.Nodup)
    (hfresh : ∀ id ∈ (ids.eraseIdx idx).drop i, id ∉ workers.map Prod.fst) :
    restore ids idx i hs workers = some ((((ids.eraseIdx idx).drop i).zip hs).reverse ++ workers) := by
  induction hs generalizing i workers with
  | nil => simp [restore]
  | cons h hs ih =>
    rw [List.length_cons] at hlen
    have hi : i < (ids.eraseIdx idx).length := by omega
    have hid : (if i ≥ idx then ids[i + 1]? else ids[i]?) = some (ids.eraseIdx idx)[i] := by
      rw [← List.getElem?_eq_getElem hi, List.getElem?_eraseIdx]
      by_cases hle : i < idx
      · rw [if_pos hle, if_neg (by omega)]
      · rw [if_neg hle, if_pos (by omega)]
    have hdrop : (ids.eraseIdx idx).drop i = (ids.eraseIdx idx)[i] :: (ids.eraseIdx idx).drop (i + 1) :=
      List.drop_eq_getElem_cons hi
    rw [hdrop] at hfresh
    have hnodup : ((ids.eraseIdx idx)[i] :: (ids.eraseIdx idx).drop (i + 1)).Nodup := by
      rw [← hdrop]
      exact (hids.eraseIdx idx).sublist (List.drop_sublist _ _)
    have hinsert := insertWorker_of_notMem (h := h) (hfresh _ List.mem_cons_self)
    rw [restore, hid, Option.bind_some, hinsert, ih (by omega), hdrop]
    · rw [List.zip_cons_cons, List.reverse_cons, List.append_assoc]
      rfl
    · intro id hmem
      rw [List.map_cons, List.mem_cons, not_or]
      refine ⟨?_, hfresh id (List.mem_cons_of_mem _ hmem)⟩
      rintro rfl
      exact (List.nodup_cons.mp hnodup).1 hmem

theorem length_remaining (h : e.Possible p) : e.remaining.length + 1 = e.ids.length := by
  rw [h.remaining.length_eq, Finished.ids, Finished.handles, List.length_eraseIdx, List.length_map,
    List.length_map, if_pos h.idx]
  have := h.idx
  omega

/-- The map after a round. -/
theorem respawn_workers (h : e.Possible p) (hids : e.ids.Nodup) :
    ∃ deadId p', e.ids[e.idx]? = some deadId ∧ p.respawn e = some p' ∧
      p'.workers = (deadId, ⟨deadId, p.spawned⟩) :: ((e.ids.eraseIdx e.idx).zip e.remaining).reverse := by
  have hidx : e.idx < e.ids.length := by
    rw [Finished.ids, List.length_map]
    exact h.idx
  have hlen : e.remaining.length + 0 = (e.ids.eraseIdx e.idx).length := by
    have := length_remaining h
    rw [List.length_eraseIdx, if_pos hidx]
    omega
  have hdead : e.ids[e.idx]? = some e.ids[e.idx] := List.getElem?_eq_getElem hidx
  have hrestore := @restore_eq e.ids e.idx 0 e.remaining [] hlen hids fun _ _ => List.not_mem_nil
  rw [List.drop_zero, List.append_nil] at hrestore
  refine ⟨e.ids[e.idx], .spawn ⟨((e.ids.eraseIdx e.idx).zip e.remaining).reverse, p.spawned⟩ e.ids[e.idx],
    hdead, ?_, ?_⟩
  · rw [WorkerPool.respawn, hdead, Option.bind_eq_bind, Option.bind_some, hrestore]
    rfl
  · refine insertWorker_of_notMem ?_
    rw [List.map_reverse, List.mem_reverse, List.map_fst_zip (by omega)]
    have hnodup : (e.ids[e.idx] :: e.ids.eraseIdx e.idx).Nodup :=
      (List.getElem_cons_eraseIdx_perm hidx).nodup_iff.mpr hids
    exact (List.nodup_cons.mp hnodup).1

theorem eq_of_map_eq {α β : Type} {f : α → β} {l m : List α} (hinj : ∀ x ∈ l, ∀ y ∈ m, f x = f y → x = y)
    (h : l.map f = m.map f) : l = m := by
  have hlen : l.length = m.length := by simpa using congrArg List.length h
  refine List.ext_getElem hlen fun i hi hi' => hinj _ (List.getElem_mem hi) _ (List.getElem_mem hi') ?_
  rw [← List.getElem_map f (h := by simpa using hi), ← List.getElem_map f (h := by simpa using hi')]
  simp only [h]

theorem forall_mem_zip {α β : Type} {f : β → α} {l : List α} {m : List β} (hlen : m.length = l.length) :
    (∀ w ∈ l.zip m, f w.2 = w.1) ↔ m.map f = l := by
  induction l generalizing m with
  | nil => simp [List.length_eq_zero_iff.mp hlen]
  | cons a l ih =>
    cases m with
    | nil => cases hlen
    | cons b m =>
      rw [List.zip_cons_cons, List.forall_mem_cons, ih (Nat.succ.inj hlen), List.map_cons, List.cons.injEq]

/-- **A round keeps the ids** exactly if the handles come in order. -/
theorem identified_respawn (hp : p.Identified numWorkers) (h : e.Possible p) (hp' : p.respawn e = some p') :
    e.Replaced p p' ∧ (p'.Identified numWorkers ↔ e.InOrder) := by
  have hperm : e.ids.Perm ((List.range numWorkers.toNat).map UInt32.ofNat) := (h.drained.map Prod.fst).trans hp.ids
  have hnodup : e.ids.Nodup := hperm.nodup_iff.mpr (nodup_ids numWorkers)
  have hids : e.ids = e.handles.map JoinHandle.workerId := by
    unfold Finished.ids Finished.handles
    rw [List.map_map]
    exact List.map_congr_left fun w hw => (hp.handles w (h.drained.mem_iff.mp hw)).symm
  have hlen : e.remaining.length = (e.ids.eraseIdx e.idx).length := by
    rw [h.remaining.length_eq, hids, List.eraseIdx_map, List.length_map]
  obtain ⟨deadId, q, hdead, hq, hworkers⟩ := respawn_workers h hnodup
  rw [hp', Option.some.injEq] at hq
  subst hq
  obtain ⟨hidx, hget⟩ := List.getElem?_eq_some_iff.mp hdead
  refine ⟨?_, fun hid => ?_, fun horder => ⟨?_, ?_⟩⟩
  · have hhandle := hdead
    rw [hids, List.getElem?_map, Option.map_eq_some_iff] at hhandle
    obtain ⟨dead, hdeadhandle, rfl⟩ := hhandle
    exact ⟨dead, hdeadhandle, by rw [hworkers]; exact List.mem_cons_self⟩
  · -- the handles are told apart by the ids they were spawned with
    have hzip : e.remaining.map JoinHandle.workerId = e.ids.eraseIdx e.idx := by
      refine (forall_mem_zip hlen).mp fun w hw => hid.handles w ?_
      rw [hworkers]
      exact List.mem_cons_of_mem _ (List.mem_reverse.mpr hw)
    rw [hids, List.eraseIdx_map] at hzip
    rw [hids] at hnodup
    refine eq_of_map_eq (fun x hx y hy => ?_) hzip
    exact List.inj_on_of_nodup_map hnodup (List.mem_of_mem_eraseIdx (h.remaining.mem_iff.mp hx))
      (List.mem_of_mem_eraseIdx hy)
  · rw [hworkers, List.map_cons, List.map_reverse, List.map_fst_zip hlen.ge, ← hget]
    exact (((List.reverse_perm _).cons _).trans (List.getElem_cons_eraseIdx_perm hidx)).trans hperm
  · rw [hworkers]
    intro w hw
    rcases List.mem_cons.mp hw with rfl | hw
    · rfl
    · refine (forall_mem_zip (f := JoinHandle.workerId) hlen).mpr ?_ w (List.mem_reverse.mp hw)
      rw [horder, hids, List.eraseIdx_map]

end Round

/-! ## Whole runs -/

section Run

variable {numWorkers : UInt32} {es : List Finished} {p : WorkerPool}

/-- **The ids survive a run** exactly if in every round the handles come in order. -/
theorem identitySurvives_iff (h : (monitorLts numWorkers).Run es p) :
    IdentitySurvives numWorkers es ↔ ∀ e ∈ es, e.InOrder := by
  constructor
  · intro hs e he
    obtain ⟨es₁, es₂, rfl⟩ := List.append_of_mem he
    obtain ⟨q, hq, hrest⟩ := h.split
    obtain ⟨q', hstep, -⟩ := hrest.cons
    have hq' : q'.Identified numWorkers := hs.identified (es₁ ++ [e]) q' ⟨es₂, by simp⟩ (hq.snoc hstep)
    exact (identified_respawn (hs.identified es₁ q ⟨e :: es₂, rfl⟩ hq) hstep.1 hstep.2).2.mp hq'
  · intro horder
    have hidentified (es₁ : List Finished) (q : WorkerPool) (hpre : es₁ <+: es)
        (hq : (monitorLts numWorkers).Run es₁ q) : q.Identified numWorkers := by
      refine Lts.Run.invariant (I := fun es' q => es' <+: es → q.Identified numWorkers) ?_ ?_ hq hpre
      · rintro s rfl -
        exact identified_new numWorkers
      · intro es' s e t _ hs hstep hpre
        have he : e ∈ es := hpre.subset (List.mem_append_right _ List.mem_cons_self)
        have hs' := hs ((List.prefix_append es' [e]).trans hpre)
        exact (identified_respawn hs' hstep.1 hstep.2).2.mpr (horder e he)
    refine ⟨hidentified, fun es₁ e q q' hpre hq hstep => ?_⟩
    have hq' := hidentified es₁ q ((List.prefix_append es₁ [e]).trans hpre) hq
    exact (identified_respawn hq' hstep.1 hstep.2).1

end Run

/-! ## `swap_remove` -/

/-- `Vec::swap_remove`: the last element takes the place of the removed one. -/
def swapRemove {α : Type} (l : List α) (i : ℕ) : List α :=
  match l.getLast? with
  | some a => (l.set i a).dropLast
  | none => []

/-- It keeps the order only of the last two. -/
theorem swapRemove_eq_eraseIdx {α : Type} {l : List α} {i : ℕ} (hl : l.Nodup) (hi : i < l.length) :
    swapRemove l i = l.eraseIdx i ↔ l.length ≤ i + 2 := by
  obtain ⟨m, a, rfl⟩ : ∃ m a, l = m ++ [a] :=
    (List.eq_nil_or_concat' l).resolve_left fun h => by simp [h] at hi
  have hswap : swapRemove (m ++ [a]) i = ((m ++ [a]).set i a).dropLast := by
    rw [swapRemove, List.getLast?_append_of_ne_nil _ (List.cons_ne_nil a [])]
    rfl
  rw [hswap]
  rw [List.length_append, List.length_singleton] at hi ⊢
  rcases Nat.lt_succ_iff_lt_or_eq.mp hi with hlt | rfl
  · rw [List.set_append_left _ _ hlt, List.dropLast_concat, List.eraseIdx_append_of_lt_length hlt]
    constructor
    · intro h
      by_contra hlong
      -- the element after the removed one
      have hget : (m.set i a)[i]? = (m.eraseIdx i ++ [a])[i]? := congrArg (·[i]?) h
      rw [List.getElem?_set_self hlt, List.getElem?_append_left (by rw [List.length_eraseIdx]; split <;> omega),
        List.getElem?_eraseIdx, if_neg (Nat.lt_irrefl i)] at hget
      exact (List.nodup_append.mp hl).2.2 a (List.mem_of_getElem? hget.symm) a List.mem_cons_self rfl
    · intro hlen
      obtain ⟨k, b, rfl⟩ : ∃ k b, m = k ++ [b] :=
        (List.eq_nil_or_concat' m).resolve_left fun h => by simp [h] at hlt
      rw [List.length_append, List.length_singleton] at hlt hlen
      obtain rfl : i = k.length := by omega
      simp [List.eraseIdx_append_of_length_le]
  · simp [List.eraseIdx_append_of_length_le]

/-- A pool of three, of which the first one ends. -/
def Finished.sample : Finished where
  drained := [(0, ⟨0, 0⟩), (1, ⟨1, 1⟩), (2, ⟨2, 2⟩)]
  idx := 0
  remaining := swapRemove [⟨0, 0⟩, ⟨1, 1⟩, ⟨2, 2⟩] 0

/-- The same pool, of which the second one ends. -/
theorem identitySurvives_iff_second :
    ∃ p, (monitorLts 3).Run [{ Finished.sample with idx := 1, remaining := [⟨0, 0⟩, ⟨2, 2⟩] }] p ∧
      IdentitySurvives 3 [{ Finished.sample with idx := 1, remaining := [⟨0, 0⟩, ⟨2, 2⟩] }] := by
  have hrun : (monitorLts 3).Run [{ Finished.sample with idx := 1, remaining := [⟨0, 0⟩, ⟨2, 2⟩] }]
      ⟨[(1, ⟨1, 3⟩), (2, ⟨2, 2⟩), (0, ⟨0, 0⟩)], 4⟩ :=
    ⟨_, rfl, .single ⟨⟨by decide, by decide, by decide⟩, by decide⟩⟩
  refine ⟨_, hrun, (identitySurvives_iff hrun).mpr ?_⟩
  rw [List.forall_mem_singleton]
  rfl

/-- The handles of the other two are exchanged. -/
theorem not_identitySurvives : ¬ ∀ (numWorkers : UInt32) (es : List Finished) (p : WorkerPool),
    (monitorLts numWorkers).Run es p → IdentitySurvives numWorkers es := by
  intro h
  have hrun : (monitorLts 3).Run [Finished.sample] ⟨[(0, ⟨0, 3⟩), (2, ⟨1, 1⟩), (1, ⟨2, 2⟩)], 4⟩ :=
    ⟨_, rfl, .single ⟨⟨by decide, by decide, by decide⟩, by decide⟩⟩
  have hids := (h 3 [Finished.sample] _ hrun).identified [Finished.sample] _ (List.prefix_refl _) hrun
  exact absurd (hids.handles (2, ⟨1, 1⟩) (by decide)) (by decide)

end FireCtrl
