import FireCtrl.System.Accepted

/-!
# Nothing is executed that nobody asked for

* `Request.Asks`: the job that a request asks for, once its gates have let it through; `submission`,
  **`handler_asks`**: a handler enqueues this job, and no second one.
* `Db.JobAt`: the jobs in the tables. `jobAt_run`, `jobAt_enqueue`: they are there from before, or a request has
  just enqueued them.
* `Origins`: each job comes from a request of its own. **`executed_as_asked`**: so it is in every run, and workers
  execute the jobs as they were asked for.
-/

namespace FireCtrl

open Prog (Follows FollowsE Protocol)

/-! ## What a request asks for -/

/-- The job of a request that its gates have let through. -/
def Request.Asks (cfg : Config) (urls : UrlCrate) : Request → JobEnvelope → Prop
  | .crawl gate req, e => gate = .ok () ∧ ∃ g, e = .crawl (req.jobData cfg g)
  | .batchScrape gate req, e => gate = .ok () ∧ e = .batchScrape (req.jobData urls)
  | .extract gate req, e => gate = .ok () ∧ e = .extract req.jobData
  | .cancel .., _ => False

/-- The body of the request is decoded JSON. -/
def Request.Decoded : Request → Prop
  | .crawl _ req => ∃ v, CrawlRequest.ofValue v = some req
  | .batchScrape _ req => ∃ v, BatchScrapeRequest.ofValue v = some req
  | .extract _ req => ∃ v, ExtractRequest.ofValue v = some req
  | .cancel .. => True

/-- The data of a job that an operation enqueues. -/
def Op.enqueues : Op → Option Json
  | .db (.enqueue data ..) => some data
  | _ => none

/-- What a request may do that has enqueued its job or not. -/
inductive SubmissionAllows (cfg : Config) (urls : UrlCrate) (req : Request) : Bool → Op → Prop
  | enqueue {e priority ownerId groupId ch} : req.Asks cfg urls e →
      SubmissionAllows cfg urls req false (.db (.enqueue (toValue e) priority ownerId groupId ch))
  | other {b o} : o.enqueues = none → SubmissionAllows cfg urls req b o

/-- One job at most is enqueued, the one that is asked for. -/
def submission (cfg : Config) (urls : UrlCrate) (req : Request) : Protocol Op Op.Ans where
  Phase := Bool
  allows := SubmissionAllows cfg urls req
  next b o _ := b || o.enqueues.isSome
  valid := ValidAnswer

/-- Whether the operations have enqueued a job. -/
def Log.submitted (log : Log) : Bool := log.any fun x => x.1.enqueues.isSome

section Handlers

variable {cfg : Config} {urls : UrlCrate} {gate : Except AppError Unit}

theorem crawlHandler_asks (req : CrawlRequest) :
    FollowsE (submission cfg urls (.crawl gate req)) (fun _ _ => True) false (crawlHandler cfg gate req) := by
  unfold crawlHandler
  refine FollowsE.bind (R := fun b _ => b = false ∧ gate = .ok ()) (followsE_ofExcept gate fun _ h => ⟨rfl, h⟩) ?_
  rintro _ _ ⟨rfl, hgate⟩
  refine FollowsE.bind (R := fun b _ => b = false) (followsE_db (.other rfl) fun _ _ => rfl) ?_
  rintro _ group rfl
  have hasks : (Request.crawl gate req).Asks cfg urls (.crawl (req.jobData cfg group.id)) := ⟨hgate, group.id, rfl⟩
  exact FollowsE.bind (R := fun _ _ => True) (followsE_db (.enqueue hasks) fun _ _ => trivial)
    fun _ _ _ => FollowsE.pure trivial

theorem batchScrapeHandler_asks (req : BatchScrapeRequest) :
    FollowsE (submission cfg urls (.batchScrape gate req)) (fun _ _ => True) false
      (batchScrapeHandler urls gate req) := by
  unfold batchScrapeHandler
  refine FollowsE.bind (R := fun b _ => b = false ∧ gate = .ok ()) (followsE_ofExcept gate fun _ h => ⟨rfl, h⟩) ?_
  rintro _ _ ⟨rfl, hgate⟩
  have hasks : (Request.batchScrape gate req).Asks cfg urls (.batchScrape (req.jobData urls)) := ⟨hgate, rfl⟩
  exact FollowsE.bind (R := fun _ _ => True) (followsE_db (.enqueue hasks) fun _ _ => trivial)
    fun _ _ _ => FollowsE.pure trivial

theorem extractHandler_asks (req : ExtractRequest) :
    FollowsE (submission cfg urls (.extract gate req)) (fun _ _ => True) false (extractHandler gate req) := by
  unfold extractHandler
  refine FollowsE.bind (R := fun b _ => b = false ∧ gate = .ok ()) (followsE_ofExcept gate fun _ h => ⟨rfl, h⟩) ?_
  rintro _ _ ⟨rfl, hgate⟩
  have hasks : (Request.extract gate req).Asks cfg urls (.extract req.jobData) := ⟨hgate, rfl⟩
  exact FollowsE.bind (R := fun _ _ => True) (followsE_db (.enqueue hasks) fun _ _ => trivial)
    fun _ _ _ => FollowsE.pure trivial

/-- Cancelling enqueues nothing. -/
theorem crawlCancelHandler_asks (id : Uuid) :
    FollowsE (submission cfg urls (.cancel gate id)) (fun _ _ => True) false (crawlCancelHandler gate id) := by
  have hdb (b : Bool) {q : Query} (hq : (Op.db q).enqueues = none) :
      FollowsE (submission cfg urls (.cancel gate id)) (fun _ _ => True) b (Call.db q) :=
    followsE_db (.other hq) fun _ _ => trivial
  have hcancel (b : Bool) (g : Uuid) :
      FollowsE (submission cfg urls (.cancel gate id)) (fun _ _ => True) b (Call.cancelGroup g) :=
    FollowsE.bind (hdb b rfl) fun b _ _ => hdb b rfl
  unfold crawlCancelHandler
  refine FollowsE.bind (R := fun _ _ => True) (followsE_ofExcept gate fun _ _ => trivial) fun b _ _ => ?_
  refine FollowsE.bind (P := submission cfg urls (.cancel gate id)) (R := fun _ _ => True)
    (FollowsE.lift (o := Op.db (.getCrawlGroup id)) (.other rfl) fun _ _ => trivial) ?_
  intro b found _
  cases found with
  | ok group => exact hcancel b id
  | error err =>
    cases err with
    | notFound what =>
      refine FollowsE.bind (hdb b rfl) fun b job _ => ?_
      cases hg : job.groupId with
      | none => exact hdb b rfl
      | some g => exact FollowsE.bind (hcancel b g) fun b _ _ => hdb b rfl
    | _ => exact FollowsE.throw _

/-- **A request enqueues the job it asks for, and nothing else.** -/
theorem handler_asks (cfg : Config) (urls : UrlCrate) (req : Request) :
    FollowsE (submission cfg urls req) (fun _ _ => True) false (req.handler cfg urls) := by
  cases req with
  | crawl gate req => exact (crawlHandler_asks req).map _
  | batchScrape gate req => exact (batchScrapeHandler_asks req).map _
  | extract gate req => exact (extractHandler_asks req).map _
  | cancel gate id => exact (crawlCancelHandler_asks id).map _

/-- What a decoded request asks for is read back as it is. -/
theorem Request.Asks.roundTrips {req : Request} {e : JobEnvelope} (h : req.Asks cfg urls e) (hreq : req.Decoded) :
    fromValue (toValue e) = some e := by
  cases req with
  | crawl gate req =>
    obtain ⟨-, g, rfl⟩ := h
    obtain ⟨v, hv⟩ := hreq
    obtain ⟨hoptions, hwebhook⟩ := CrawlRequest.settled hv
    exact roundTrips_iff.mpr (reread_crawl hoptions hwebhook)
  | batchScrape gate req =>
    obtain ⟨-, rfl⟩ := h
    obtain ⟨v, hv⟩ := hreq
    obtain ⟨hoptions, hwebhook⟩ := BatchScrapeRequest.settled hv
    exact roundTrips_iff.mpr (reread_batchScrape hoptions hwebhook)
  | extract gate req =>
    obtain ⟨-, rfl⟩ := h
    obtain ⟨v, hv⟩ := hreq
    exact roundTrips_iff.mpr (reread_extract (ExtractRequest.settled hv))
  | cancel gate id => exact h.elim

end Handlers

/-! ## Jobs in the tables -/

section Jobs

variable {db : Db} {k : Key} {e : JobEnvelope} {env : Env} {q : Query} {ρ : Reply} {o : Op}

/-- Row `k` holds job `e`; it is not the page of one. -/
def Db.JobAt (db : Db) (k : Key) (e : JobEnvelope) : Prop :=
  ∃ r, db.queue.lookup k = some r ∧ (∀ u, r.data ≠ some (subData u)) ∧ r.data.bind fromValue = some e

/-- A job is there from before a statement, or the statement has inserted its row. -/
theorem jobAt_exec (h : (q.exec env db).2.JobAt k e) :
    db.JobAt k e ∨ db.queue.lookup k = none ∧ ∃ r, q.newRow env = some r ∧ r.key = k ∧
      (∀ u, r.data ≠ some (subData u)) ∧ r.data.bind fromValue = some e := by
  obtain ⟨r', hr', hpage, he⟩ := h
  obtain rfl := KTable.key_of_lookup hr'
  rcases Query.mem_exec (KTable.mem_of_lookup hr') with ⟨hnone, hnew⟩ | ⟨r, hr, htouch⟩
  · exact .inr ⟨hnone, r', hnew, rfl, hpage, he⟩
  · have hdata : r'.data = r.data := by
      rw [← htouch]
      exact (Query.touch_fixed q env hr).2.2.1
    exact .inl ⟨r, hr, hdata ▸ hpage, hdata ▸ he⟩

/-- What enqueues nothing, and stores but pages, brings no jobs. -/
theorem jobAt_run (hnone : o.enqueues = none)
    (hpage : ∀ data rv priority owner group ch, o = .db (.enqueueCompleted data rv priority owner group ch) →
      ∃ u, data = subData u)
    (h : (o.run ρ db).2.JobAt k e) : db.JobAt k e := by
  cases hx : o.executes ρ with
  | none => rwa [Op.run_snd_of_not_executes hx] at h
  | some q =>
    rw [Op.run_snd_of_executes hx] at h
    obtain rfl := eq_db_of_executes hx
    rcases jobAt_exec h with hold | ⟨-, r, hnew, -, hr, -⟩
    · exact hold
    · cases q with
      | enqueueCompleted data rv priority owner group ch =>
        obtain ⟨u, rfl⟩ := hpage _ _ _ _ _ _ rfl
        cases hnew
        exact absurd rfl (hr u)
      | enqueue => cases hnone
      | _ => cases hnew

/-- An enqueued job has a key of its own. -/
theorem jobAt_enqueue {data : Json} {priority : Int32} {owner group : Option Uuid} {ch : Option String}
    (h : (Op.run ρ (.db (.enqueue data priority owner group ch)) db).2.JobAt k e) :
    db.JobAt k e ∨ db.queue.lookup k = none ∧ k = (ρ.env.uuid, ρ.env.now) ∧ fromValue data = some e := by
  cases hx : (Op.db (.enqueue data priority owner group ch)).executes ρ with
  | none =>
    rw [Op.run_snd_of_not_executes hx] at h
    exact .inl h
  | some q =>
    rw [Op.run_snd_of_executes hx] at h
    cases eq_db_of_executes hx
    rcases jobAt_exec h with hold | ⟨hnone, r, hnew, rfl, -, he⟩
    · exact .inl hold
    · cases hnew
      exact .inr ⟨hnone, rfl, he⟩

end Jobs

/-! ## Where jobs come from -/

/-- The request has not enqueued its job, or has not come in yet. -/
def HandlerState.Pending : HandlerState → Prop
  | .waiting => True
  | .running _ log _ => log.submitted = false
  | .gone => False

/-- Each job comes from a request of its own. -/
structure Origins (cfg : Config) (urls : UrlCrate) (cs : List Choice) (s : Sys) (origin : Key → ℕ) : Prop where
  asked : ∀ k e, s.db.JobAt k e → ∃ req e₀, Choice.request (origin k) req ∈ cs ∧ req.Asks cfg urls e₀ ∧
    fromValue (toValue e₀) = some e
  distinct : ∀ k k' e e', s.db.JobAt k e → s.db.JobAt k' e' → origin k = origin k' → k = k'
  pending : ∀ n, (s.handlers n).Pending → ∀ k e, s.db.JobAt k e → origin k ≠ n
  running : ∀ n req log rest, s.handlers n = .running req log rest → Choice.request n req ∈ cs ∧
    Follows (submission cfg urls req) (fun _ _ => True) log.submitted rest

section Origins

variable {cfg : Config} {urls : UrlCrate} {cs : List Choice} {c : Choice} {s t : Sys} {ev : Event} {origin : Key → ℕ}
  {k : Key} {e : JobEnvelope} {o : Op} {ρ : Reply} {w : Uuid} {n : ℕ}

/-- A step that brings no job, and of no request that goes on. -/
theorem Origins.keep (h : Origins cfg urls cs s origin) (c : Choice)
    (hjobs : ∀ k e, t.db.JobAt k e → s.db.JobAt k e)
    (hhandlers : ∀ n, t.handlers n = s.handlers n ∨ t.handlers n = .gone) :
    Origins cfg urls (cs ++ [c]) t origin where
  asked k e hk := by
    obtain ⟨req, e₀, hreq, hasks, he⟩ := h.asked k e (hjobs k e hk)
    exact ⟨req, e₀, List.mem_append_left _ hreq, hasks, he⟩
  distinct k k' e e' hk hk' := h.distinct k k' e e' (hjobs k e hk) (hjobs k' e' hk')
  pending n hn k e hk := by
    rcases hhandlers n with heq | heq
    · rw [heq] at hn
      exact h.pending n hn k e (hjobs k e hk)
    · rw [heq] at hn
      exact hn.elim
  running n req log rest hn := by
    rcases hhandlers n with heq | heq
    · rw [heq] at hn
      obtain ⟨hreq, hf⟩ := h.running n req log rest hn
      exact ⟨List.mem_append_left _ hreq, hf⟩
    · rw [heq] at hn
      cases hn

/-- A request comes in. -/
theorem Origins.request (h : Origins cfg urls cs s origin) (req : Request) (hn : s.handlers n = .waiting) :
    Origins cfg urls (cs ++ [.request n req])
      (s.setHandler n (.running req [] (req.handler cfg urls).run)) origin where
  asked k e hk := by
    obtain ⟨req', e₀, hreq, hasks, he⟩ := h.asked k e hk
    exact ⟨req', e₀, List.mem_append_left _ hreq, hasks, he⟩
  distinct := h.distinct
  pending n' hn' k e hk := by
    by_cases hnn : n' = n
    · subst hnn
      have hwaiting : (s.handlers n').Pending := by
        rw [hn]
        trivial
      exact h.pending n' hwaiting k e hk
    · rw [setHandler_handlers, if_neg hnn] at hn'
      exact h.pending n' hn' k e hk
  running n' req' log rest hn' := by
    by_cases hnn : n' = n
    · rw [setHandler_handlers, if_pos hnn] at hn'
      cases hn'
      subst hnn
      refine ⟨List.mem_append_right _ (List.mem_singleton_self _), ?_⟩
      exact Follows.mono (handler_asks cfg urls req) fun _ _ _ => trivial
    · rw [setHandler_handlers, if_neg hnn] at hn'
      obtain ⟨hreq, hf⟩ := h.running n' req' log rest hn'
      exact ⟨List.mem_append_left _ hreq, hf⟩

theorem submitted_append (log : Log) (o : Op) (a : o.Ans) :
    Log.submitted (log ++ [⟨o, a⟩]) = (log.submitted || o.enqueues.isSome) := by
  simp [Log.submitted]

section Handle

variable {req : Request} {log : Log} {p : o.Ans → Prog Op Op.Ans (Except AppError Response)}

/-- After an operation the request still keeps to what it asks for. -/
theorem Origins.running_handle (h : Origins cfg urls cs s origin) (hn : s.handlers n = .running req log (.op o p))
    (c : Choice) (n' : ℕ) (req' : Request) (log' : Log) (rest : Prog Op Op.Ans (Except AppError Response))
    (hn' : ((s.perform ρ o).setHandler n (.running req (log ++ [⟨o, (o.run ρ s.db).1⟩])
      (p (o.run ρ s.db).1))).handlers n' = .running req' log' rest) :
    Choice.request n' req' ∈ cs ++ [c] ∧
      Follows (submission cfg urls req') (fun _ _ => True) log'.submitted rest := by
  rw [setHandler_handlers] at hn'
  by_cases hnn : n' = n
  · rw [if_pos hnn] at hn'
    cases hn'
    subst hnn
    obtain ⟨hreq, hf⟩ := h.running n' req log _ hn
    rw [submitted_append]
    exact ⟨List.mem_append_left _ hreq, hf.2 _ (validAnswer_run ρ o s.db)⟩
  · rw [if_neg hnn] at hn'
    obtain ⟨hreq, hf⟩ := h.running n' req' log' rest hn'
    exact ⟨List.mem_append_left _ hreq, hf⟩

/-- A request performs an operation that brings no job. -/
theorem Origins.handle (h : Origins cfg urls cs s origin) (hn : s.handlers n = .running req log (.op o p))
    (c : Choice) (hjobs : ∀ k e, (o.run ρ s.db).2.JobAt k e → s.db.JobAt k e) :
    Origins cfg urls (cs ++ [c]) ((s.perform ρ o).setHandler n
      (.running req (log ++ [⟨o, (o.run ρ s.db).1⟩]) (p (o.run ρ s.db).1))) origin where
  asked k e hk := by
    obtain ⟨req', e₀, hreq', hasks, he⟩ := h.asked k e (hjobs k e hk)
    exact ⟨req', e₀, List.mem_append_left _ hreq', hasks, he⟩
  distinct k k' e e' hk hk' := h.distinct k k' e e' (hjobs k e hk) (hjobs k' e' hk')
  pending n' hn' k e hk := by
    rw [setHandler_handlers] at hn'
    by_cases hnn : n' = n
    · subst hnn
      have hpending : (s.handlers n').Pending := by
        rw [if_pos rfl] at hn'
        have hsub : Log.submitted (log ++ [⟨o, (o.run ρ s.db).1⟩]) = false := hn'
        rw [submitted_append] at hsub
        rw [hn]
        exact (Bool.or_eq_false_iff.mp hsub).1
      exact h.pending n' hpending k e (hjobs k e hk)
    · rw [if_neg hnn] at hn'
      exact h.pending n' hn' k e (hjobs k e hk)
  running := h.running_handle hn c

end Handle

/-- A request enqueues its job, at a free key. -/
theorem Origins.enqueue {req : Request} {log : Log} {e₀ : JobEnvelope} {priority : Int32} {owner group : Option Uuid}
    {ch : Option String}
    {p : (Op.db (.enqueue (toValue e₀) priority owner group ch)).Ans → Prog Op Op.Ans (Except AppError Response)}
    (h : Origins cfg urls cs s origin)
    (hn : s.handlers n = .running req log (.op (.db (.enqueue (toValue e₀) priority owner group ch)) p))
    (c : Choice) (hlog : log.submitted = false) (hasks : req.Asks cfg urls e₀)
    (hfree : s.db.queue.lookup (ρ.env.uuid, ρ.env.now) = none) :
    Origins cfg urls (cs ++ [c]) ((s.perform ρ (.db (.enqueue (toValue e₀) priority owner group ch))).setHandler n
      (.running req (log ++ [⟨_, (Op.run ρ (.db (.enqueue (toValue e₀) priority owner group ch)) s.db).1⟩])
        (p (Op.run ρ (.db (.enqueue (toValue e₀) priority owner group ch)) s.db).1)))
      (Function.update origin (ρ.env.uuid, ρ.env.now) n) := by
  have hold {k : Key} {e : JobEnvelope} (hk : s.db.JobAt k e) :
      Function.update origin (ρ.env.uuid, ρ.env.now) n k = origin k := by
    refine Function.update_of_ne ?_ _ _
    rintro rfl
    obtain ⟨r, hr, -⟩ := hk
    rw [hfree] at hr
    cases hr
  have hpending : (s.handlers n).Pending := by
    rw [hn]
    exact hlog
  constructor
  · intro k e hk
    rcases jobAt_enqueue hk with hk | ⟨-, rfl, he⟩
    · obtain ⟨req', e₁, hreq', hasks', he⟩ := h.asked k e hk
      rw [hold hk]
      exact ⟨req', e₁, List.mem_append_left _ hreq', hasks', he⟩
    · rw [Function.update_self]
      exact ⟨req, e₀, List.mem_append_left _ (h.running n req log _ hn).1, hasks, he⟩
  · intro k k' e e' hk hk' heq
    rcases jobAt_enqueue hk with hk | ⟨-, rfl, -⟩
    · rcases jobAt_enqueue hk' with hk' | ⟨-, rfl, -⟩
      · rw [hold hk, hold hk'] at heq
        exact h.distinct k k' e e' hk hk' heq
      · rw [hold hk, Function.update_self] at heq
        exact absurd heq (h.pending n hpending k e hk)
    · rcases jobAt_enqueue hk' with hk' | ⟨-, rfl, -⟩
      · rw [hold hk', Function.update_self] at heq
        exact absurd heq.symm (h.pending n hpending k' e' hk')
      · rfl
  · intro n' hn' k e hk
    rw [setHandler_handlers] at hn'
    by_cases hnn : n' = n
    · rw [if_pos hnn] at hn'
      have hsub : Log.submitted (log ++ [⟨_, _⟩]) = false := hn'
      rw [submitted_append] at hsub
      cases (Bool.or_eq_false_iff.mp hsub).2
    · rw [if_neg hnn] at hn'
      rcases jobAt_enqueue hk with hk | ⟨-, rfl, -⟩
      · rw [hold hk]
        exact h.pending n' hn' k e hk
      · rw [Function.update_self]
        exact Ne.symm hnn
  · exact h.running_handle hn c

/-! ## One step -/

/-- A job enqueues nothing, and stores pages. -/
theorem JobAllows.pages {ph : Phase} (h : JobAllows k e ph o) : o.enqueues = none ∧
    ∀ data rv priority owner group ch, o = .db (.enqueueCompleted data rv priority owner group ch) →
      ∃ u, data = subData u := by
  cases h with
  | store => exact ⟨rfl, fun _ _ _ _ _ _ ho => by cases ho; exact ⟨_, rfl⟩⟩
  | lookup | create | attach | crawl | join | close | finishGroup | await | finish | notify | notifyClosed =>
    exact ⟨rfl, fun _ _ _ _ _ _ ho => by cases ho⟩

/-- A request stores no pages. -/
theorem HandlerAllows.not_page {ph : HandlerPhase} (h : HandlerAllows ph o) {data rv : Json} {priority : Int32}
    {owner group : Option Uuid} {ch : Option String} :
    o ≠ .db (.enqueueCompleted data rv priority owner group ch) := by
  rintro rfl
  cases h

/-- What is neither a job nor a page brings no job. -/
theorem jobAt_run_of_newRow_none {db : Db} {q : Query} (hq : ∀ env, q.newRow env = none)
    (h : (Op.run ρ (.db q) db).2.JobAt k e) : db.JobAt k e := by
  have hnone : (Op.db q).enqueues = none := by
    cases q with
    | enqueue => cases hq ρ.env
    | _ => rfl
  refine jobAt_run hnone (fun data rv priority owner group ch ho => ?_) h
  cases ho
  cases hq ρ.env

theorem origins_work {owner : Owner} (ho : Owned owner s) (h : Origins cfg urls cs s origin)
    (hc : next cfg urls s (.work w ρ) = some (ev, t)) : Origins cfg urls (cs ++ [.work w ρ]) t origin := by
  simp only [next, workerStep] at hc
  cases hw : s.workers w with
  | idle =>
    simp only [hw] at hc
    cases hc
    exact h.keep _ (fun _ _ hk => jobAt_run_of_newRow_none (fun _ => rfl) hk) fun _ => .inl rfl
  | executing k e log rest =>
    cases rest with
    | op o p =>
      simp only [hw] at hc
      cases hc
      obtain ⟨hnone, hpage⟩ := (ho.executing hw).allows.pages
      exact h.keep _ (fun _ _ hk => jobAt_run hnone hpage hk) fun _ => .inl rfl
    | ret res =>
      cases res with
      | ok u =>
        simp only [hw] at hc
        cases hc
        exact h.keep _ (fun _ _ hk => hk) fun _ => .inl rfl
      | error err =>
        simp only [hw] at hc
        cases hc
        exact h.keep _ (fun _ _ hk => hk) fun _ => .inl rfl
  | failing k reason =>
    simp only [hw] at hc
    cases hc
    exact h.keep _ (fun _ _ hk => jobAt_run_of_newRow_none (fun _ => rfl) hk) fun _ => .inl rfl
  | stopped =>
    simp only [hw] at hc
    cases hc

theorem origins_timeout {owner : Owner} (ho : Owned owner s) (h : Origins cfg urls cs s origin)
    (hc : next cfg urls s (.timeout w ρ) = some (ev, t)) : Origins cfg urls (cs ++ [.timeout w ρ]) t origin := by
  simp only [next, timeoutStep] at hc
  cases hw : s.workers w with
  | executing k e log rest =>
    cases rest with
    | op o p =>
      simp only [hw] at hc
      cases hc
      obtain ⟨hnone, hpage⟩ := (ho.executing hw).allows.pages
      exact h.keep _ (fun _ _ hk => jobAt_run hnone hpage hk) fun _ => .inl rfl
    | ret res =>
      simp only [hw] at hc
      cases hc
  | idle | failing | stopped =>
    simp only [hw] at hc
    cases hc

theorem origins_handle {owner : Owner} (ho : Owned owner s) (h : Origins cfg urls cs s origin)
    (hc : next cfg urls s (.handle n ρ) = some (ev, t)) :
    ∃ origin', Origins cfg urls (cs ++ [.handle n ρ]) t origin' := by
  simp only [next, handlerStep] at hc
  cases hn : s.handlers n with
  | waiting | gone =>
    simp only [hn] at hc
    cases hc
  | running req log rest =>
    cases rest with
    | ret res =>
      simp only [hn] at hc
      cases hc
      refine ⟨origin, h.keep _ (fun _ _ hk => hk) fun n' => ?_⟩
      rw [setHandler_handlers]
      by_cases hnn : n' = n
      · exact .inr (if_pos hnn)
      · exact .inl (if_neg hnn)
    | op o p =>
      simp only [hn] at hc
      cases hc
      obtain ⟨hreq, hf⟩ := h.running n req log _ hn
      have hallow : SubmissionAllows cfg urls req log.submitted o := hf.1
      generalize hlog : log.submitted = b at hallow
      cases hallow with
      | other hnone =>
        exact ⟨origin, h.handle hn _ fun _ _ hk =>
          jobAt_run hnone (fun _ _ _ _ _ _ heq => absurd heq (ho.running hn).1.not_page) hk⟩
      | enqueue hasks =>
        by_cases hfree : s.db.queue.lookup (ρ.env.uuid, ρ.env.now) = none
        · exact ⟨_, h.enqueue hn _ hlog hasks hfree⟩
        · refine ⟨origin, h.handle hn _ fun k e hk => ?_⟩
          rcases jobAt_enqueue hk with hold | ⟨hnone, rfl, -⟩
          · exact hold
          · exact absurd hnone hfree

/-- **Every step keeps the origins**, though a new job gets one. -/
theorem origins_step {owner : Owner} (ho : Owned owner s) (h : Origins cfg urls cs s origin)
    (hc : next cfg urls s c = some (ev, t)) : ∃ origin', Origins cfg urls (cs ++ [c]) t origin' := by
  cases c with
  | work w ρ => exact ⟨origin, origins_work ho h hc⟩
  | timeout w ρ => exact ⟨origin, origins_timeout ho h hc⟩
  | handle n ρ => exact origins_handle ho h hc
  | crash w =>
    cases hc
    exact ⟨origin, h.keep _ (fun _ _ hk => hk) fun _ => .inl rfl⟩
  | request n req =>
    simp only [next] at hc
    cases hn : s.handlers n with
    | waiting =>
      simp only [hn] at hc
      cases hc
      exact ⟨origin, h.request req hn⟩
    | running | gone =>
      simp only [hn] at hc
      cases hc
  | drop n =>
    cases hc
    refine ⟨origin, h.keep _ (fun _ _ hk => hk) fun n' => ?_⟩
    rw [setHandler_handlers]
    by_cases hnn : n' = n
    · exact .inr (if_pos hnn)
    · exact .inl (if_neg hnn)
  | stall ρ =>
    simp only [next, stallStep] at hc
    cases hst : s.stall with
    | requeue =>
      simp only [hst] at hc
      cases hc
      exact ⟨origin, h.keep _ (fun _ _ hk => jobAt_run_of_newRow_none (fun _ => rfl) hk) fun _ => .inl rfl⟩
    | failOver =>
      simp only [hst] at hc
      cases hc
      exact ⟨origin, h.keep _ (fun _ _ hk => jobAt_run_of_newRow_none (fun _ => rfl) hk) fun _ => .inl rfl⟩

theorem origins_init : Origins cfg urls [] Sys.init origin where
  asked k e hk := by
    obtain ⟨r, hr, -⟩ := hk
    cases hr
  distinct k k' e e' hk := by
    obtain ⟨r, hr, -⟩ := hk
    cases hr
  pending n _ k e hk := by
    obtain ⟨r, hr, -⟩ := hk
    cases hr
  running n req log rest hn := by cases hn

/-! ## Every run -/

theorem run_of_play {es : List Event} (h : Lts.play (next cfg urls) Sys.init cs = some (es, s)) :
    (sysLts cfg urls).Run es s :=
  ⟨Sys.init, rfl, Lts.of_play cs h⟩

theorem origins_play {es : List Event} (h : Lts.play (next cfg urls) Sys.init cs = some (es, s)) :
    ∃ origin, Origins cfg urls cs s origin := by
  refine Lts.play_invariant (I := fun cs s => ∃ origin, Origins cfg urls cs s origin)
    ⟨fun _ => 0, origins_init⟩ ?_ cs h
  intro cs es u c ev v hu hI hc
  obtain ⟨origin, hI⟩ := hI
  obtain ⟨owner, ho⟩ := owned_run (run_of_play hu)
  exact origins_step ho hI hc

/-- A worker executes the job of its row. -/
theorem jobAt_of_executing {owner : Owner} {log : Log} {rest : Prog Op Op.Ans (Except AppError Unit)}
    (ho : Owned owner s) (hw : s.workers w = .executing k e log rest) : s.db.JobAt k e := by
  obtain ⟨r, hr, hj, he⟩ := (ho.executing hw).job
  exact ⟨r, hr, fun u hu => hj.not_page u hu, he⟩

/-- Every row holds a job, or it is the page of one. -/
theorem page_or_jobAt {owner : Owner} {r : Row} (ho : Owned owner s) (hr : r ∈ s.db.queue) :
    (∃ u, r.data = some (subData u)) ∨ ∃ e, s.db.JobAt r.key e := by
  rcases ho.db.rows r hr with hj | hp
  · obtain ⟨e, he⟩ := Option.isSome_iff_exists.mp hj.decodes
    exact .inr ⟨e, r, KTable.lookup_key hr, hj.not_page, he⟩
  · exact .inl hp.data

/-- **Nothing is executed that nobody asked for.** However workers, requests, cancellations, timeouts, crashes and
stall recovery interleave, every row but those of pages holds a job, which comes from a request of its own, which its
gates let through, and has the data that this request asks for; and the jobs that workers execute are these. -/
theorem executed_as_asked {es : List Event} (h : Lts.play (next cfg urls) Sys.init cs = some (es, s))
    (hcs : ∀ n req, Choice.request n req ∈ cs → req.Decoded) :
    ∃ origin : Key → ℕ, (∀ r ∈ s.db.queue, (∃ u, r.data = some (subData u)) ∨ ∃ e, s.db.JobAt r.key e) ∧
      (∀ k e, s.db.JobAt k e → ∃ req, Choice.request (origin k) req ∈ cs ∧ req.Asks cfg urls e) ∧
      (∀ k k' e e', s.db.JobAt k e → s.db.JobAt k' e' → origin k = origin k' → k = k') ∧
      ∀ w k e log rest, s.workers w = .executing k e log rest → s.db.JobAt k e := by
  obtain ⟨owner, ho⟩ := owned_run (run_of_play h)
  obtain ⟨origin, hI⟩ := origins_play h
  refine ⟨origin, fun r hr => page_or_jobAt ho hr, fun k e hk => ?_, hI.distinct,
    fun w k e log rest hw => jobAt_of_executing ho hw⟩
  obtain ⟨req, e₀, hreq, hasks, he⟩ := hI.asked k e hk
  have heq : e₀ = e := Option.some.inj ((hasks.roundTrips (hcs _ _ hreq)).symm.trans he)
  exact ⟨req, hreq, heq ▸ hasks⟩

theorem decoded_sampleCrawl : Request.sampleCrawl.Decoded :=
  ⟨.obj [("url", .str "https://example.com"), ("maxDepth", .int 1), ("limit", .int 10),
    ("ignoreSitemap", .bool true)], rfl⟩

/-- A crawl is asked for, and a worker executes it. -/
theorem executed_as_asked_crawl : ∃ (cs : List Choice) (es : List Event) (s : Sys) (origin : Key → ℕ) (k : Key)
    (e : JobEnvelope) (req : Request), Lts.play (next .sample .sample) Sys.init cs = some (es, s) ∧
      s.db.JobAt k e ∧ Choice.request (origin k) req ∈ cs ∧ req.Asks .sample .sample e := by
  have hobs : (sampleRun [.request 0 .sampleCrawl, .handle 0 (.ok 0 1), .handle 0 (.ok 0 2), .work 9 (.ok 1 0)]).map
      (fun p => (p.2.db.queue.lookup (2, 0)).bind Row.data) =
        some (some (toValue (JobEnvelope.crawl sampleCrawlJob))) := rfl
  obtain ⟨⟨es, s⟩, hplay, hdata⟩ := Option.map_eq_some_iff.mp hobs
  obtain ⟨r, hr, hd⟩ := Option.bind_eq_some_iff.mp hdata
  have hk : s.db.JobAt (2, 0) (.crawl sampleCrawlJob) := by
    refine ⟨r, hr, fun u hu => ?_, ?_⟩
    · rw [hd] at hu
      simp [subData, toValue, JobEnvelope.tagged] at hu
    · rw [hd]
      rfl
  have hcs : ∀ n req, Choice.request n req ∈ [Choice.request 0 .sampleCrawl, .handle 0 (.ok 0 1),
      .handle 0 (.ok 0 2), .work 9 (.ok 1 0)] → req.Decoded := by
    intro n req hreq
    simp only [List.mem_cons, Choice.request.injEq, reduceCtorEq, List.not_mem_nil, or_false] at hreq
    rw [hreq.2]
    exact decoded_sampleCrawl
  obtain ⟨origin, -, hasked, -⟩ := executed_as_asked hplay hcs
  obtain ⟨req, hreq, hasks⟩ := hasked _ _ hk
  exact ⟨_, es, s, origin, (2, 0), _, req, hplay, hk, hreq, hasks⟩

end Origins

end FireCtrl
