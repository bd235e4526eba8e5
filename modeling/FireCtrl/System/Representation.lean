import FireCtrl.Queue.Invariant
import FireCtrl.System.Writers

/-!
# The queue under handlers and workers

* `namesGroup_issued`: workers and handlers write only ids of existing groups into rows.
* **`queue_representation`**: so the representation invariant of the queue holds in every state they
  reach.
-/

namespace FireCtrl

section

variable {cfg : Config} {urls : UrlCrate} {s t : Sys} {es : List Event} {owner : Owner} {g : Uuid}
  {q : Query} {a : Actor}

theorem namesGroup_issued (ho : Owned owner s) (h : Issued s a q) (env : Env)
    (hg : q.groupId? = some g) : (s.db.groups.lookup g).isSome := by
  obtain ⟨owner', -, hdb, hq⟩ := issued_respects ho h env
  refine hdb.groups g ?_
  cases q with
  | enqueue | enqueueCompleted => exact RowOwned.owner_isSome hq hg
  | updateJobGroup id createdAt g' =>
    cases hg
    rw [hq.1]
    rfl
  | _ => cases hg

/-- What a run does to the tables, it does with statements that name existing groups. -/
theorem namesGroup_run (h : (sysLts cfg urls).Run es t) :
    (queueLts.restrict NamesGroup).Steps .empty (es.filterMap Event.executed) t.db := by
  let I (es : List Event) (t : Sys) : Prop :=
    (queueLts.restrict NamesGroup).Steps .empty (es.filterMap Event.executed) t.db
  refine Lts.Run.invariant (I := I) ?_ ?_ h
  · rintro s rfl
    exact .nil
  · intro es s ev t hrun ih hstep
    obtain ⟨owner, ho⟩ := owned_run hrun
    show (queueLts.restrict NamesGroup).Steps .empty ((es ++ [ev]).filterMap Event.executed) t.db
    rw [List.filterMap_append]
    rcases issued_of_step ho hstep with ⟨a, x, env, rfl, hi, ht⟩ | ⟨hev, ht⟩
    · rcases step_db hstep with ⟨a', env', q, hx, ht'⟩ | ⟨hx, -⟩
      · cases hx
        exact ih.snoc ⟨⟨env', rfl, ht'⟩, fun g hg => namesGroup_issued ho hi env hg⟩
      · cases hx
    · rw [ht]
      simpa [hev] using ih

end

/-- **The representation invariant.** It holds of the tables after any statements that write existing
groups, and in every state that handlers and workers reach. -/
theorem queue_representation :
    (∀ es db, (queueLts.restrict NamesGroup).Steps .empty es db → QueueInv es db) ∧
      ∀ cfg urls es t, (sysLts cfg urls).Run es t → QueueInv (es.filterMap Event.executed) t.db :=
  ⟨fun _ _ h => queueInv_steps h, fun _ _ _ _ h => queueInv_steps (namesGroup_run h)⟩

/-- A batch job that is claimed and requeued. -/
theorem queue_representation_requeued : ∃ es t r, (sysLts .sample .sample).Run es t ∧
    t.db.queue.lookup (1, 0) = some r ∧ r.stalls = some 1 ∧
    QueueInv (es.filterMap Event.executed) t.db := by
  obtain ⟨es, s, -, -, hs, -, hobs, -⟩ := sampleRun_split
    [.request 0 .sampleBatch, .handle 0 (.ok 0 1), .work 8 (.ok 1 0), .stall (.ok 400000000 0)] []
    (f := fun s => (s.db.queue.lookup (1, 0)).map Row.stalls) (g := fun _ => ())
    (a := some (some 1)) (b := ()) rfl rfl
  obtain ⟨r, hr, hst⟩ := Option.map_eq_some_iff.mp hobs
  exact ⟨es, s, r, hs, hr, hst, queue_representation.2 _ _ _ _ hs⟩

end FireCtrl
