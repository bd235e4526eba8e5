import FireCtrl.System.Status
import FireCtrl.System.Writers

/-!
# The errors of a crawl

Only the job row of a group can fail, and its pages come after it, so the first rows of a group hold
whatever has failed in it.

* `InsertsLater`: the steps whose new rows are newer than every other; `PagesLater`: the pages of a
  group are then newer than its job; `pagesLater_run`.
* **`errors_complete`**: the errors of a group are its failed rows, each once, however many rows the
  group has.
-/

namespace FireCtrl

/-- A row that the step inserts is newer than all rows before. -/
def InsertsLater (s : Sys) (_ : Event) (t : Sys) : Prop :=
  ∀ r' ∈ t.db.queue.rows, (s.db.queue.lookup r'.key).isNone = true →
    ∀ r ∈ s.db.queue.rows, r.createdAt < r'.createdAt

instance (s : Sys) (ev : Event) (t : Sys) : Decidable (InsertsLater s ev t) := by
  unfold InsertsLater
  infer_instance

/-- The rows of a group are the row of its job and newer ones. -/
def PagesLater (owner : Owner) (db : Db) : Prop :=
  ∀ r ∈ db.queue, ∀ g k, r.groupId = some g → owner g = some k → r.key = k ∨ k.2 < r.createdAt

section Steps

variable {cfg : Config} {urls : UrlCrate} {s t : Sys} {ev : Event} {es : List Event}
  {owner owner' : Owner} {q : Query} {a : Actor} {r r' : Row} {g : Uuid} {k : Key} {env : Env}

/-- A row is put into a group only by its job. -/
theorem attach_issued {id : Uuid} {createdAt : Timestamp} (ho : Owned owner s)
    (h : Issued s a (.updateJobGroup id createdAt g)) : owner g = some (id, createdAt) := by
  cases h with
  | job w hw hallow =>
    have hg := (ho.executing hw).group
    generalize jobPhase _ = ph at hallow hg
    cases hallow with
    | attach => exact hg _ rfl
  | request n hn hallow =>
    generalize handlerPhase _ = ph at hallow
    cases hallow

/-- The pages of a job are stored while its row is there. -/
theorem store_issued {data rv : Json} {priority : Int32} {ownerId groupId : Option Uuid}
    {ch : Option String} (ho : Owned owner s)
    (h : Issued s a (.enqueueCompleted data rv priority ownerId groupId ch)) :
    ∃ g k r, groupId = some g ∧ owner g = some k ∧ s.db.queue.lookup k = some r := by
  cases h with
  | @job w k e log q p hw hallow =>
    have he := ho.executing hw
    have hg := he.group
    generalize jobPhase _ = ph at hallow hg
    obtain ⟨r, hr, -⟩ := he.job
    cases hallow with
    | store => exact ⟨_, k, r, rfl, hg _ rfl, hr⟩
  | request n hn hallow =>
    generalize handlerPhase _ = ph at hallow
    cases hallow

/-- A row of a group belongs to the owner that the group had before. -/
theorem owner_of_extends (ho : Owned owner s) (hext : Extends owner owner') (hr : r ∈ s.db.queue)
    (hg : r.groupId = some g) (hk : owner' g = some k) : owner g = some k := by
  obtain ⟨k', hk'⟩ := Option.isSome_iff_exists.mp ((ho.db.rows r hr).owner_isSome hg)
  rw [hext g k' hk', Option.some.injEq] at hk
  exact hk ▸ hk'

theorem pagesLater_step (ho : Owned owner s) (hext : Extends owner owner') (ho' : Owned owner' t)
    (hp : PagesLater owner s.db) (hstep : (sysLts cfg urls).step s ev t) (hlater : InsertsLater s ev t) :
    PagesLater owner' t.db := by
  intro r' hr' g k hg hk
  have hold (r : Row) (hr : r ∈ s.db.queue) (hg : r.groupId = some g) :
      r.key = k ∨ k.2 < r.createdAt := hp r hr g k hg (owner_of_extends ho hext hr hg hk)
  rcases issued_of_step ho hstep with ⟨a, x, env, -, hi, ht⟩ | ⟨-, ht⟩
  · have hl := KTable.lookup_key hr'
    rcases hr : s.db.queue.lookup r'.key with _ | r
    · -- a new row
      have hnew : x.query.newRow env = some r' := by
        rw [ht] at hl
        exact (Query.lookup_exec_of_none hr hl).1
      generalize x.query = q at hnew hi
      cases q with
      | enqueue data priority ownerId groupId ch =>
        cases hnew
        have hj := (ho'.db.rows _ hr').job_of_status (by simp [queuedRow])
        rw [hj.owner_eq hg, Option.some.injEq] at hk
        exact .inl hk
      | enqueueCompleted data rv priority ownerId groupId ch =>
        cases hnew
        obtain ⟨g', k', r, hg', hk', hr₀⟩ := store_issued ho hi
        have hgg : some g' = some g := hg'.symm.trans hg
        cases hgg
        rw [hext g k' hk', Option.some.injEq] at hk
        subst hk
        rw [← KTable.key_of_lookup hr₀]
        exact .inr (hlater _ hr' (by rw [hr]; rfl) r (KTable.mem_of_lookup hr₀))
      | _ => cases hnew
    · rw [ht, Query.lookup_exec hr, Option.some.injEq] at hl
      have hmem := KTable.mem_of_lookup hr
      have hkey : r.key = r'.key := KTable.key_of_lookup hr
      rcases Query.touch_step x.query env hr with ⟨-, heq⟩ | ⟨-, hs⟩
      · rw [← hl, heq] at hg ⊢
        exact hold r hmem hg
      · rw [hl] at hs
        generalize x.query = q at hs hi
        cases hs with
        | attach g' =>
          obtain rfl : g' = g := by simpa using hg
          rw [hext g' _ (attach_issued ho hi), Option.some.injEq] at hk
          exact .inl hk
        | claim | complete | fail | cancel | cancelGroup | requeue | failOver => exact hold r hmem hg
  · rw [ht] at hr'
    exact hold r' hr' hg

theorem pagesLater_run (h : ((sysLts cfg urls).restrict InsertsLater).Run es t) :
    ∃ owner, Owned owner t ∧ PagesLater owner t.db := by
  let I (_ : List Event) (t : Sys) : Prop := ∃ owner, Owned owner t ∧ PagesLater owner t.db
  refine Lts.Run.invariant (I := I) ?_ ?_ h
  · rintro s rfl
    obtain ⟨owner, ho⟩ := owned_init
    exact ⟨owner, ho, fun r hr => (KTable.not_mem_empty r hr).elim⟩
  · rintro es s ev t - ⟨owner, ho, hp⟩ ⟨hstep, hlater⟩
    obtain ⟨owner', hext, ho'⟩ := owned_step ho hstep
    exact ⟨owner', ho', pagesLater_step ho hext ho' hp hstep hlater⟩

end Steps

/-! ## The first rows of a group -/

section Rows

variable {owner : Owner} {db : Db} {g : Uuid} {r r' : Row}

/-- What has failed in a group is listed before everything else in it. -/
theorem failed_le (ho : DbOwned owner db) (hp : PagesLater owner db) (hr : r ∈ db.queue)
    (hg : r.groupId = some g) (hf : r.status = .failed) (hr' : r' ∈ db.queue)
    (hg' : r'.groupId = some g) : pageOrder r ≤ pageOrder r' := by
  have hj : JobRow owner r := (ho.rows r hr).job_of_status (by rw [hf]; simp)
  rcases hp r' hr' g r.key hg' (hj.owner_eq hg) with hk | hlt
  · rw [KTable.eq_of_key_eq hr' hr hk]
  · exact (Prod.Lex.toLex_lt_toLex.mpr (.inl hlt)).le

/-- So the first rows of the group hold all that has failed in it. -/
theorem filter_failed_take (ho : DbOwned owner db) (hp : PagesLater owner db) {n : ℕ} (hn : 0 < n) :
    ((db.groupRows g).take n).filter (fun r => r.status = .failed) =
      (db.groupRows g).filter fun r => r.status = .failed := by
  have hmem (r : Row) (hr : r ∈ db.groupRows g) : r ∈ db.queue ∧ r.groupId = some g := by
    simpa using (KTable.mem_orderBy pageOrder).mp hr
  have hsplit := groupRows_strict db g
  rw [← List.take_append_drop n (db.groupRows g), List.pairwise_append] at hsplit
  have hrest : ((db.groupRows g).drop n).filter (fun r => r.status = .failed) = [] := by
    refine List.filter_eq_nil_iff.mpr fun r hr hf => ?_
    have hlen : 0 < ((db.groupRows g).take n).length := by
      have := List.length_pos_of_mem hr
      rw [List.length_drop] at this
      rw [List.length_take]
      omega
    -- a row among the first ones is listed before `r`
    obtain ⟨r', hr'⟩ := List.exists_mem_of_length_pos hlen
    obtain ⟨hmem₁, hg₁⟩ := hmem r (List.mem_of_mem_drop hr)
    obtain ⟨hmem₂, hg₂⟩ := hmem r' (List.mem_of_mem_take hr')
    exact absurd (failed_le ho hp hmem₁ hg₁ (by simpa using hf) hmem₂ hg₂)
      (not_le.mpr (hsplit.2.2 r' hr' r hr))
  conv_rhs => rw [← List.take_append_drop n (db.groupRows g), List.filter_append, hrest]
  rw [List.append_nil]

end Rows

section Read

variable {ρ : Reply} {job : Uuid → Except AppError QueueScrapeRow} {db : Db} {g : Uuid}
  {group : GroupCrawlRow}

theorem crawlErrors_read (hg : db.groups.lookup g = some group) :
    (crawlErrorsHandler (.ok ()) g).read ρ job db =
      .ok ⟨((((db.groupRows g).take 1000).map mapQueueRow).filter fun r => r.status = .failed).map
        QueueScrapeRow.crawlError, []⟩ := by
  have hrows : readOp ρ job (.db (.getGroupResults g 1000 none none)) db =
    (.ok (((db.groupRows g).take 1000).map mapQueueRow), db) := rfl
  unfold crawlErrorsHandler
  refine (read_pure_bind () _).trans ?_
  have hattempt (f : Except AppError GroupCrawlRow → Call CrawlErrorsResponse) :
    ((Call.db (.getCrawlGroup g)).attempt >>= f).read ρ job db =
      (f (readOp ρ job (.db (.getCrawlGroup g)) db).1).read ρ job db := rfl
  simp only [hattempt, readOp_getCrawlGroup hg]
  exact read_db_bind _ hrows

end Read

/-- **The errors of a group are its failed rows, each once**, when every row is newer than the rows
inserted before it. -/
theorem errors_complete {cfg : Config} {urls : UrlCrate} {es : List Event} {t : Sys}
    (h : ((sysLts cfg urls).restrict InsertsLater).Run es t) (ρ : Reply)
    (job : Uuid → Except AppError QueueScrapeRow) {g : Uuid} (hg : (t.db.groups.lookup g).isSome) :
    ∃ (body : CrawlErrorsResponse) (rows : List Row),
      (crawlErrorsHandler (.ok ()) g).read ρ job t.db = .ok body ∧
      body.errors = rows.map (fun r => (mapQueueRow r).crawlError) ∧
      rows.Perm (t.db.queue.rows.filter fun r => r.groupId = some g ∧ r.status = .failed) := by
  obtain ⟨owner, ho, hp⟩ := pagesLater_run h
  obtain ⟨group, hgroup⟩ := Option.isSome_iff_exists.mp hg
  refine ⟨_, (t.db.groupRows g).filter fun r => r.status = .failed, crawlErrors_read hgroup, ?_, ?_⟩
  · rw [← filter_failed_take ho.db hp (by decide : 0 < 1000), List.filter_map, List.map_map]
    rfl
  · refine ((KTable.orderBy_perm pageOrder t.db.queue _).filter _).trans (.of_eq ?_)
    rw [List.filter_filter]
    refine List.filter_congr fun r _ => ?_
    rw [Bool.decide_and, Bool.and_comm]

/-- A crawl whose database fails after its first page. -/
def failedAfterPage : List Choice :=
  [.request 0 .sampleCrawl, .handle 0 (.ok 0 1), .handle 0 (.ok 0 2), .work 9 (.ok 1 0),
    .work 9 (.ok 2 0), .work 9 (.ok 3 0 [samplePage]), .work 9 (.ok 4 5),
    .work 9 { Reply.ok 5 0 with fault := some (false, .timeout) }, .work 9 (.ok 6 0),
    .work 9 (.ok 7 0)]

theorem errors_complete_failedAfterPage : ∃ es t,
    ((sysLts .sample .sample).restrict InsertsLater).Run es t ∧
      t.db.queue.rows.map Row.status = [.failed, .completed] ∧
      ∃ (body : CrawlErrorsResponse) (rows : List Row),
        (crawlErrorsHandler (.ok ()) 1).read (.ok 8 0) t.db.latestJob t.db = .ok body ∧
          body.errors = rows.map (fun r => (mapQueueRow r).crawlError) ∧
          rows.Perm (t.db.queue.rows.filter fun r => r.groupId = some 1 ∧ r.status = .failed) := by
  obtain ⟨es, t, h, hobs⟩ := sampleRun_restrict InsertsLater failedAfterPage
    (f := fun p => (p.2.db.queue.rows.map Row.status, (p.2.db.groups.lookup 1).isSome))
    (a := ([.failed, .completed], true)) rfl
  simp only [Prod.mk.injEq] at hobs
  exact ⟨es, t, h, hobs.1, errors_complete h (.ok 8 0) t.db.latestJob hobs.2⟩

end FireCtrl
