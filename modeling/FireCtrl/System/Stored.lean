import FireCtrl.System.Writers

/-!
# Which pages a job has stored

* `scrapedUrls`, `storedPages`: the pages a job has scraped and those it has stored, by its log;
  `Tracked`, `tracked_next`: what its phase says about them.
* `storedInv_run`: the stored pages are rows, of pages that the job has scraped.
* `pageRow_frozen`: no statement changes a page row.
-/

namespace FireCtrl

open Query (RowStep)

/-- The URLs of the pages that an answer delivers. -/
def answeredUrls : (o : Op) → o.Ans → List String
  | .ext (.crawl _), .ok results => results.map ScrapeResult.url
  | .ext (.joinNext t ts), (i, some (.ok _)) => [((t :: ts).get i).url]
  | _, _ => []

/-- The page that an answer reports as stored: its key and its data. -/
def answeredPage : (o : Op) → o.Ans → Option (Key × Json)
  | .db (.enqueueCompleted data ..), .ok row => some ((row.id, row.createdAt), data)
  | _, _ => none

def scrapedUrls (log : Log) : List String := log.flatMap fun x => answeredUrls x.1 x.2

def storedPages (log : Log) : List (Key × Json) := log.filterMap fun x => answeredPage x.1 x.2

@[simp] theorem scrapedUrls_append_singleton (log : Log) (o : Op) (a : o.Ans) :
    scrapedUrls (log ++ [⟨o, a⟩]) = scrapedUrls log ++ answeredUrls o a := by
  simp [scrapedUrls]

@[simp] theorem storedPages_append_singleton (log : Log) (o : Op) (a : o.Ans) :
    storedPages (log ++ [⟨o, a⟩]) = storedPages log ++ (answeredPage o a).toList := by
  unfold storedPages
  rw [List.filterMap_append]
  cases h : answeredPage o a <;> simp [h]

/-- What the phase of a job with pages says about its log. -/
def Tracked (log : Log) : Phase → Prop
  | .start | .fresh _ => scrapedUrls log = [] ∧ storedPages log = []
  | .pages _ todo stored =>
    scrapedUrls log = stored ++ todo ∧ (storedPages log).map Prod.snd = stored.map subData
  | .closing _ stored =>
    scrapedUrls log = stored ∧ (storedPages log).map Prod.snd = stored.map subData
  | .closed => (storedPages log).map Prod.snd = (scrapedUrls log).map subData
  | .failed => True

section Tracked

variable {k : Key} {e : JobEnvelope} {ph : Phase} {o : Op} {log : Log}

theorem tracked_next (he : e.grouped = true) (h : Tracked log ph) (hallow : JobAllows k e ph o)
    (a : o.Ans) : Tracked (log ++ [⟨o, a⟩]) (jobNext ph o a) := by
  cases hallow with
  | lookup | create | attach =>
    rcases a with err | _
    · trivial
    · simpa [Tracked, jobNext, answeredUrls, answeredPage] using h
  | crawl =>
    rcases a with err | results
    · simpa [Tracked, jobNext, answeredUrls, answeredPage] using h
    · simpa [Tracked, jobNext, answeredUrls, answeredPage] using h
  | join =>
    obtain ⟨i, _ | _ | r⟩ := a
    · simpa [Tracked, jobNext, answeredUrls, answeredPage] using h
    · simpa [Tracked, jobNext, answeredUrls, answeredPage] using h
    · obtain ⟨h₁, h₂⟩ := h
      exact ⟨by simp [answeredUrls, h₁], by simpa [answeredPage] using h₂⟩
  | store =>
    rcases a with err | row
    · trivial
    · obtain ⟨h₁, h₂⟩ := h
      exact ⟨by simp [answeredUrls, h₁], by simp [answeredPage, h₂]⟩
  | close =>
    rcases a with err | _
    · trivial
    · simpa [Tracked, jobNext, answeredUrls, answeredPage] using h
  | finishGroup =>
    rcases a with err | _
    · trivial
    · obtain ⟨h₁, h₂⟩ := h
      simp [Tracked, jobNext, answeredUrls, answeredPage, h₁, h₂]
  | await hn | finish hn => rw [he] at hn; cases hn
  | notify | notifyClosed => simpa [Tracked, jobNext, answeredUrls, answeredPage] using h

end Tracked

/-! ## Stored pages are rows -/

section Rows

variable {cfg : Config} {urls : UrlCrate} {s t : Sys} {ev : Event} {es : List Event} {owner : Owner}
  {db : Db} {env : Env} {q : Query} {r r' : Row} {g : Uuid} {ρ : Reply} {o : Op}

/-- A page that an answer reports as stored is a new row. -/
theorem answeredPage_run {p : Key × Json} (h : answeredPage o (o.run ρ db).1 = some p) :
    ∃ r, (o.run ρ db).2.queue.lookup p.1 = some r ∧ r.data = some p.2 := by
  unfold answeredPage at h
  split at h
  · rename_i data rv priority ownerId groupId ch row heq
    cases h
    obtain ⟨hx, hok⟩ := Op.run_ok heq
    rw [Op.run_snd_of_executes hx]
    obtain ⟨hrow, -, hl⟩ := Query.insertRow_ok ρ.env hok
    subst hrow
    exact ⟨_, hl, rfl⟩
  · cases h

/-- What the log of a job with pages says about it. -/
structure StoredInv (db : Db) (e : JobEnvelope) (log : Log) : Prop where
  tracked : e.grouped = true → Tracked log (jobPhase log)
  rows : ∀ p ∈ storedPages log, ∃ r, db.queue.lookup p.1 = some r ∧ r.data = some p.2

theorem storedInv_step (ho : Owned owner s) (h : LogInv (fun db _ e log => StoredInv db e log) s)
    (hstep : (sysLts cfg urls).step s ev t) : LogInv (fun db _ e log => StoredInv db e log) t := by
  refine logInv_step ho h hstep (fun db k e => ⟨fun _ => ⟨rfl, rfl⟩, by simp [storedPages]⟩) ?_ ?_
  · rintro db db' k e log hk ⟨htracked, hrows⟩
    refine ⟨htracked, fun p hp => ?_⟩
    obtain ⟨r, hr, hd⟩ := hrows p hp
    obtain ⟨r', hr', hd'⟩ := hk.rows p.1 r hr
    exact ⟨r', hr', hd'.trans hd⟩
  · rintro w ρ k e log o p - - hallow ⟨htracked, hrows⟩
    refine ⟨fun he => ?_, fun p hp => ?_⟩
    · rw [jobPhase_append_singleton]
      exact tracked_next he (htracked he) hallow _
    · rw [storedPages_append_singleton, List.mem_append, Option.mem_toList] at hp
      rcases hp with hp | hp
      · obtain ⟨r, hr, hd⟩ := hrows p hp
        obtain ⟨r', hr', hd'⟩ := (kept_run ρ o).rows p.1 r hr
        exact ⟨r', hr', hd'.trans hd⟩
      · exact answeredPage_run hp

theorem storedInv_run (h : (sysLts cfg urls).Run es t) :
    LogInv (fun db _ e log => StoredInv db e log) t := by
  refine Lts.Run.invariant (I := fun _ t => LogInv (fun db _ e log => StoredInv db e log) t) ?_ ?_ h
  · rintro s rfl w k e log rest hw
    cases hw
  · intro es s ev t hrun hi hstep
    obtain ⟨owner, ho⟩ := owned_run hrun
    exact storedInv_step ho hi hstep

/-! ## Page rows -/

theorem subData_inj {u v : String} (h : subData u = subData v) : u = v := by
  simpa [subData] using h

theorem PageRow.not_job (h : PageRow owner r) : ¬ JobRow owner r := fun hj =>
  let ⟨u, hu⟩ := h.data
  hj.not_page u hu

/-- **No statement changes a page row.** -/
theorem pageRow_frozen (hr : db.queue.lookup r.key = some r) (hp : PageRow owner r)
    (hq : Respects owner env db q) : q.touch env db r = r := by
  rcases Query.touch_step q env hr with ⟨-, heq⟩ | ⟨-, hs⟩
  · exact heq
  · have hst := hp.status
    generalize Query.touch env db q r = r' at hs
    exfalso
    cases hs with
    | claim lockId h => rw [h] at hst; cases hst
    | complete | fail => exact hp.not_job (hq r hr)
    | cancel h | cancelGroup g hg h => rcases h with h | h <;> rw [h] at hst <;> cases hst
    | attach g =>
      obtain ⟨job, hd⟩ := hq.2 r hr
      obtain ⟨u, hu⟩ := hp.data
      rw [hu] at hd
      simp [subData, toValue, JobEnvelope.tagged] at hd
    | requeue _ _ h | failOver _ _ h => rw [h] at hst; cases hst

/-- A row with the data of a page was there before, or is the one that is stored. -/
theorem page_source (h : DbOwned owner db) (hq : Respects owner env db q)
    (hr' : r' ∈ (q.exec env db).2.queue) {u : String} (hd : r'.data = some (subData u)) :
    r' ∈ db.queue ∨ ∃ rv priority ownerId groupId ch,
      q = .enqueueCompleted (subData u) rv priority ownerId groupId ch ∧ r'.groupId = groupId ∧
        r'.key = (env.uuid, env.now) := by
  rcases Query.mem_exec hr' with ⟨-, hnew⟩ | ⟨r, hr, hl⟩
  · cases q with
    | enqueueCompleted data rv priority ownerId groupId ch =>
      cases hnew
      cases hd
      exact .inr ⟨rv, priority, ownerId, groupId, ch, rfl, rfl, rfl⟩
    | enqueue data priority ownerId groupId ch =>
      cases hnew
      have hj : JobRow owner (queuedRow env data priority ownerId groupId ch) :=
        RowOwned.job_of_status hq (by simp [queuedRow])
      exact absurd hd (hj.not_page u)
    | _ => cases hnew
  · have hmem := KTable.mem_of_lookup hr
    have hdata : r'.data = r.data := hl ▸ (Query.touch_fixed q env hr).2.2.1
    rcases h.rows r hmem with hj | hp
    · exact absurd (hdata ▸ hd) (hj.not_page u)
    · rw [← KTable.key_of_lookup hr] at hr
      rw [pageRow_frozen hr hp hq] at hl
      exact .inl (hl ▸ hmem)

end Rows

end FireCtrl
