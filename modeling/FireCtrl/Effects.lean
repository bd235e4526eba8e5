import FireCtrl.Lib.Prog
import FireCtrl.Queue.Database

/-!
# What a running job or request does to the world

A worker or a handler alternates between its own code and awaits: a database call, a webhook, a
scrape, a crawl, the end of one of several concurrent scrapes, a call of the model.

* `Op`: these operations, and `Op.Ans`, their answers; `Call α`: a computation that performs them and
  may return an `AppError`.
* `Reply`: what the surroundings decide about one operation; `Op.run`: the operation's answer and the
  tables after it. A database call may fail without or after having executed its statement.
-/

namespace FireCtrl

/-- `CrawlParams`. -/
structure CrawlParams where
  rootUrl : String
  maxDepth : UInt32
  limit : UInt32
  scrapeOptions : ScrapeOptions
  allowExternalLinks : Bool
  ignoreSitemap : Bool
  includePaths : List String
  excludePaths : List String

structure ExtractionRequest where
  content : String
  prompt : String
  schema : Option Json
  systemPrompt : Option String

/-- `ExtractionResult`, without its metadata. -/
structure ExtractionResult where
  data : Json
  warning : Option String

/-- A scrape task of a `JoinSet`. -/
structure Task where
  url : String
  job : ScrapeJobData

/-- An await outside the database. `joinNext t ts` waits for one of the tasks `t :: ts`. -/
inductive Ext
  | fireWebhook (url : String) (payload : Json)
  | scrape (job : ScrapeJobData)
  | crawl (params : CrawlParams)
  | joinNext (t : Task) (ts : List Task)
  | llmExtract (req : ExtractionRequest)

/-- The answers. A `joinNext` returns the position of the finished task and its result, or `none` if
it panicked. -/
@[reducible] def Ext.Ans : Ext → Type
  | fireWebhook .. => Bool
  | scrape _ => Except AppError ScrapeResult
  | crawl _ => Except AppError (List ScrapeResult)
  | joinNext _ ts => Fin (ts.length + 1) × Option (Except AppError ScrapeResult)
  | llmExtract _ => Except String ExtractionResult

inductive Op
  | db (q : Query)
  | ext (x : Ext)

@[reducible] def Op.Ans : Op → Type
  | db q => Except AppError q.Out
  | ext x => x.Ans

/-- The operations of one execution, with their answers. -/
abbrev Log := List ((o : Op) × o.Ans)

/-- A computation that awaits operations and may fail. -/
abbrev Call := ExceptT AppError (Prog Op Op.Ans)

namespace Call

/-- A call of the database client. -/
def db (q : Query) : Call q.Out := ExceptT.mk (Prog.perform (Op.db q))

/-- Any other await. -/
def ext (x : Ext) : Call x.Ans := ExceptT.lift (Prog.perform (Op.ext x))

/-- `?` on a value at hand. -/
def ofExcept {α : Type} : Except AppError α → Call α
  | .ok a => pure a
  | .error e => throw e

/-- `DbClient::cancel_group`. -/
def cancelGroup (id : Uuid) : Call Unit := do
  db (.cancelGroupJobs id)
  db (.cancelGroupRow id)

/-- `eval` and `?`: after an error nothing is run. -/
theorem eval_bind {σ α β : Type} (h : (o : Op) → σ → o.Ans × σ) (c : Call α) (f : α → Call β) (s : σ) :
    (c >>= f).run.eval h s =
      match c.run.eval h s with
      | (.ok a, s') => (f a).run.eval h s'
      | (.error e, s') => (.error e, s') := by
  show Prog.eval h (c.run >>= ExceptT.bindCont f) s = _
  rw [Prog.eval_bind]
  rcases hc : Prog.eval h c.run s with ⟨_ | a, s'⟩ <;> rfl

end Call

/-! ## Performing an operation -/

/-- What the surroundings decide about one operation: the server's clock and next UUID, whether a
database call fails and whether its statement was executed all the same, and every answer from
outside the database. -/
structure Reply where
  env : Env
  fault : Option (Bool × AppError)
  ext : (x : Ext) → x.Ans

/-- Database calls succeed at `now`, with `uuid` as the next UUID; webhooks are delivered, a crawl
returns `pages`, and everything else fails. -/
def Reply.ok (now : Timestamp) (uuid : Uuid) (pages : List ScrapeResult := []) : Reply where
  env := ⟨now, uuid⟩
  fault := none
  ext
    | .fireWebhook .. => true
    | .scrape _ => .error .timeout
    | .crawl _ => .ok pages
    | .joinNext .. => (0, none)
    | .llmExtract _ => .error ""

/-- Perform an operation. -/
def Op.run (ρ : Reply) : (o : Op) → Db → o.Ans × Db
  | db q, s =>
    match ρ.fault with
    | none => q.exec ρ.env s
    | some (true, e) => (.error e, (q.exec ρ.env s).2)
    | some (false, e) => (.error e, s)
  | ext x, s => (ρ.ext x, s)

/-- The statement that an operation executes, if any. -/
def Op.executes (ρ : Reply) : Op → Option Query
  | db q =>
    match ρ.fault with
    | some (false, _) => none
    | _ => some q
  | ext _ => none

theorem Op.run_snd_of_executes {ρ : Reply} {o : Op} {q : Query} {s : Db}
    (h : o.executes ρ = some q) : (o.run ρ s).2 = (q.exec ρ.env s).2 := by
  cases o with
  | db q' =>
    rcases hf : ρ.fault with _ | ⟨_ | _, e⟩
    all_goals simp only [executes, hf, Option.some.injEq, reduceCtorEq] at h
    all_goals subst h; simp only [run, hf]
  | ext x => simp only [executes, reduceCtorEq] at h

theorem Op.run_snd_of_not_executes {ρ : Reply} {o : Op} {s : Db} (h : o.executes ρ = none) :
    (o.run ρ s).2 = s := by
  cases o with
  | db q =>
    rcases hf : ρ.fault with _ | ⟨_ | _, e⟩
    all_goals simp only [executes, hf, reduceCtorEq] at h
    simp only [run, hf]
  | ext x => rfl

/-- A call that returns a value has executed its statement. -/
theorem Op.run_ok {ρ : Reply} {q : Query} {s : Db} {a : q.Out}
    (h : ((Op.db q).run ρ s).1 = .ok a) :
    (Op.db q).executes ρ = some q ∧ (q.exec ρ.env s).1 = .ok a := by
  rcases hf : ρ.fault with _ | ⟨_ | _, e⟩
  all_goals simp only [run, hf, reduceCtorEq] at h
  exact ⟨by simp only [executes, hf], h⟩

end FireCtrl
