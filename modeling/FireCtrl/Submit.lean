import FireCtrl.Api
import FireCtrl.Delete

/-!
# Submitting a crawl

`POST /v2/crawl` writes the group of the crawl and the row of its job in two statements, each committed by
itself.

* `NewGroup`, `NewRow`: what they add; `Query.takesEffect`: a statement that has been executed without an error,
  whether or not its call returns.
* **`crawlHandler_submits`**: a response comes with both, and an error with those whose statements took effect.
-/

namespace FireCtrl

open Call (db)

/-! ## The two statements -/

/-- A statement that the server has executed without an error. -/
def Query.takesEffect (q : Query) (ρ : Reply) (db : Db) : Prop :=
  (Op.db q).executes ρ = some q ∧ ∃ v, (q.exec ρ.env db).1 = .ok v

/-- There is one new group, which is active. -/
def NewGroup (id : Uuid) (db db' : Db) : Prop :=
  db.groups.lookup id = none ∧ ∃ g, g.id = id ∧ g.status = .active ∧ db'.groups.rows = db.groups.rows ++ [g]

/-- There is one new row, which is queued and names the group, also inside its data. -/
def NewRow (id : Uuid) (db db' : Db) : Prop :=
  ∃ r, db.queue.lookup r.key = none ∧ db'.queue.rows = db.queue.rows ++ [r] ∧ r.status = .queued ∧
    r.groupId = some id ∧
    ∃ job : CrawlJobData, r.data = some (toValue (JobEnvelope.crawl job)) ∧ job.groupId = some id

namespace CrawlRequest

/-- The statement that creates the group. -/
def creating : Query := .createCrawlGroup .nil 86400000

/-- The statement that enqueues the job. -/
def enqueueing (cfg : Config) (req : CrawlRequest) (group : Uuid) : Query :=
  .enqueue (toValue (JobEnvelope.crawl (req.jobData cfg group))) req.priority none (some group) none

end CrawlRequest

open CrawlRequest (creating)

section Statements

variable {ρ : Op → Reply} {env : Env} {tables : Db} {cfg : Config} {req : CrawlRequest} {group : Uuid}

theorem creating_ok {g : GroupCrawlRow} (h : (creating.exec env tables).1 = .ok g) :
    NewGroup g.id tables (creating.exec env tables).2 ∧ (creating.exec env tables).2.queue = tables.queue := by
  simp only [creating, Query.exec, Db.createCrawlGroup] at h ⊢
  split_ifs at h ⊢
  rcases hi : tables.groups.insert? _ with _ | groups
  · rw [hi] at h
    cases h
  · rw [hi] at h
    simp only [Except.ok.injEq] at h
    subst h
    obtain ⟨hfree, hrows⟩ := KTable.insert?_eq_some.mp hi
    exact ⟨⟨hfree, _, rfl, rfl, hrows⟩, rfl⟩

theorem creating_error {e : AppError} (h : (creating.exec env tables).1 = .error e) :
    (creating.exec env tables).2 = tables := Query.createCrawlGroup_error h

theorem enqueueing_ok {row : QueueScrapeRow} (h : ((req.enqueueing cfg group).exec env tables).1 = .ok row) :
    NewRow group tables ((req.enqueueing cfg group).exec env tables).2 ∧
      ((req.enqueueing cfg group).exec env tables).2.groups = tables.groups := by
  obtain ⟨hfree, hrows⟩ := KTable.insert?_eq_some.mp (Query.insertRow_ok_insert env h)
  exact ⟨⟨_, hfree, hrows, rfl, rfl, req.jobData cfg group, rfl, rfl⟩, Query.insertRow_groups _ env tables⟩

theorem enqueueing_error {e : AppError} (h : ((req.enqueueing cfg group).exec env tables).1 = .error e) :
    ((req.enqueueing cfg group).exec env tables).2 = tables := by
  simp only [CrawlRequest.enqueueing, Query.exec, Db.enqueue, Db.insertRow] at h ⊢
  split at h
  · cases h
  · rfl

/-- A call of a statement that leaves the tables alone when it fails: it returns what the statement does, or it
fails though the statement took effect, or nothing has happened. -/
theorem alone_db_cases {q : Query}
    (hq : ∀ e, (q.exec (ρ (.db q)).env tables).1 = .error e → (q.exec (ρ (.db q)).env tables).2 = tables) :
    (∃ v, q.takesEffect (ρ (.db q)) tables ∧ (q.exec (ρ (.db q)).env tables).1 = .ok v ∧
        (db q).alone ρ tables = (.ok v, (q.exec (ρ (.db q)).env tables).2)) ∨
      (∃ v e, q.takesEffect (ρ (.db q)) tables ∧ (q.exec (ρ (.db q)).env tables).1 = .ok v ∧
        (ρ (.db q)).fault = some (true, e) ∧
        (db q).alone ρ tables = (.error e, (q.exec (ρ (.db q)).env tables).2)) ∨
      ¬ q.takesEffect (ρ (.db q)) tables ∧ ∃ e, (db q).alone ρ tables = (.error e, tables) := by
  have hrun : (db q).alone ρ tables = (Op.db q).run (ρ (.db q)) tables := rfl
  rcases ha : (q.exec (ρ (.db q)).env tables).1 with e | v
  · -- the statement has an error, so the call has one in any case
    refine .inr (.inr ⟨fun h => ?_, ?_⟩)
    · obtain ⟨-, v, hv⟩ := h
      rw [ha] at hv
      cases hv
    · rcases hf : (ρ (.db q)).fault with _ | ⟨_ | _, e'⟩
      all_goals simp only [Op.run, hf] at hrun
      · exact ⟨e, hrun.trans (Prod.ext ha (hq e ha))⟩
      · exact ⟨e', hrun⟩
      · exact ⟨e', hrun.trans (Prod.ext rfl (hq e ha))⟩
  · rcases hf : (ρ (.db q)).fault with _ | ⟨_ | _, e⟩
    all_goals simp only [Op.run, hf] at hrun
    · exact .inl ⟨v, ⟨by simp only [Op.executes, hf], v, ha⟩, rfl, hrun.trans (Prod.ext ha rfl)⟩
    · refine .inr (.inr ⟨fun h => ?_, e, hrun⟩)
      have hnot := h.1
      simp only [Op.executes, hf, reduceCtorEq] at hnot
    · exact .inr (.inl ⟨v, e, ⟨by simp only [Op.executes, hf], v, ha⟩, rfl, rfl, hrun⟩)

/-- Both statements. -/
theorem submitted {env' : Env} {g : GroupCrawlRow} {row : QueueScrapeRow} (hg : (creating.exec env tables).1 = .ok g)
    (hrow : ((req.enqueueing cfg g.id).exec env' (creating.exec env tables).2).1 = .ok row) :
    NewGroup g.id tables ((req.enqueueing cfg g.id).exec env' (creating.exec env tables).2).2 ∧
      NewRow g.id tables ((req.enqueueing cfg g.id).exec env' (creating.exec env tables).2).2 := by
  obtain ⟨⟨hfree, g', hid, hst, hrows⟩, hqueue⟩ := creating_ok hg
  obtain ⟨hnew, hgroups⟩ := enqueueing_ok hrow
  refine ⟨⟨hfree, g', hid, hst, (congrArg KTable.rows hgroups).trans hrows⟩, ?_⟩
  unfold NewRow at hnew ⊢
  rw [hqueue] at hnew
  exact hnew

end Statements

/-! ## The handler -/

/-- **What a submission leaves behind**: with a response one new active group and one new queued row that
carries its id; with an error neither, unless the statement that creates the group took effect. Then there is
the group, and the row only if the call of the second statement failed after it took effect. -/
theorem crawlHandler_submits (cfg : Config) (gate : Except AppError Unit) (req : CrawlRequest) (ρ : Op → Reply)
    (tables : Db) :
    let res := (crawlHandler cfg gate req).alone ρ tables
    (∀ r, res.1 = .ok r → NewGroup r.id tables res.2 ∧ NewRow r.id tables res.2) ∧
      ∀ e, res.1 = .error e →
        (gate ≠ .ok () ∨ ¬ creating.takesEffect (ρ (.db creating)) tables) ∧ res.2 = tables ∨
          ∃ id, NewGroup id tables res.2 ∧ creating.takesEffect (ρ (.db creating)) tables ∧
            (res.2.queue = tables.queue ∨
              NewRow id tables res.2 ∧ ∃ e, (ρ (.db (req.enqueueing cfg id))).fault = some (true, e)) := by
  intro res
  have hres : res = (do
      Call.ofExcept gate
      let group ← db creating
      let _ ← db (req.enqueueing cfg group.id)
      return { id := group.id, url := "/v2/crawl/" ++ group.id.toString } : Call CrawlResponse).alone ρ tables := rfl
  rcases gate with e | u
  · have hgate : res = (.error e, tables) := rfl
    rw [hgate]
    exact ⟨fun r hr => (by cases hr), fun e' _ => .inl ⟨.inl (by simp), rfl⟩⟩
  · rw [Call.ofExcept, alone_bind, alone_pure] at hres
    dsimp only at hres
    rw [alone_bind] at hres
    rcases @alone_db_cases ρ tables creating (fun e => creating_error) with ⟨g, htakes, hg, hcall⟩ |
      ⟨g, e, htakes, hg, hf, hcall⟩ | ⟨hnot, e, hcall⟩
    · rw [hcall] at hres
      dsimp only at hres
      rw [alone_bind] at hres
      rcases @alone_db_cases ρ (creating.exec (ρ (.db creating)).env tables).2 (req.enqueueing cfg g.id)
        (fun e => enqueueing_error) with ⟨row, -, hrow, hcall'⟩ | ⟨row, e, -, hrow, hf, hcall'⟩ | ⟨-, e, hcall'⟩
      all_goals rw [hcall'] at hres; rw [hres]
      · obtain ⟨hgroup, hnew⟩ := submitted hg hrow
        exact ⟨fun r hr => by cases hr; exact ⟨hgroup, hnew⟩, fun e he => by cases he⟩
      · obtain ⟨hgroup, hnew⟩ := submitted hg hrow
        exact ⟨fun r hr => (by cases hr), fun e' _ => .inr ⟨g.id, hgroup, htakes, .inr ⟨hnew, e, hf⟩⟩⟩
      · -- the group is left alone
        obtain ⟨hgroup, hqueue⟩ := creating_ok hg
        exact ⟨fun r hr => (by cases hr), fun e' _ => .inr ⟨g.id, hgroup, htakes, .inl hqueue⟩⟩
    · rw [hcall] at hres
      obtain ⟨hgroup, hqueue⟩ := creating_ok hg
      rw [hres]
      exact ⟨fun r hr => (by cases hr), fun e' _ => .inr ⟨g.id, hgroup, htakes, .inl hqueue⟩⟩
    · rw [hcall] at hres
      rw [hres]
      exact ⟨fun r hr => (by cases hr), fun e' _ => .inl ⟨.inr hnot, rfl⟩⟩

/-- The connection is lost before the second statement. -/
theorem not_crawlHandler_atomic : ¬ ∀ (cfg : Config) (gate : Except AppError Unit) (req : CrawlRequest)
    (ρ : Op → Reply) (tables : Db),
    let res := (crawlHandler cfg gate req).alone ρ tables
    (∀ e, res.1 = .error e → res.2 = tables) ∧
      ∀ r, res.1 = .ok r → NewGroup r.id tables res.2 ∧ NewRow r.id tables res.2 := by
  intro h
  -- the statement that inserts a row is not executed
  let ρ (o : Op) : Reply :=
    { Reply.ok 0 1 with
      fault := if ((o.executes (.ok 0 1)).bind (Query.newRow ⟨0, 1⟩)).isSome then some (false, .timeout) else none }
  let req : CrawlRequest :=
    { url := "https://example.com", maxDepth := 1, limit := 10, scrapeOptions := .default,
      allowBackwardLinks := false, allowExternalLinks := false, ignoreSitemap := true,
      includePaths := [], excludePaths := [], webhook := none, priority := 0 }
  have hsame := (h .sample (.ok ()) req ρ ⟨.empty, .empty⟩).1 .timeout rfl
  exact absurd (congrArg (fun db => db.groups.rows.length) hsame) (by decide)

end FireCtrl
