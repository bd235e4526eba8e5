import FireCtrl.Lib.Run
import FireCtrl.Queue.History
import FireCtrl.Api

/-!
# The running system

Workers, requests and the stall ticker share the tables; each step performs one operation of one of
them.

* `WorkerState`: where a worker's loop (`Worker::run`) stands. A worker is known by its lock id, so a
  respawned worker is a new one. `HandlerState`: where a request stands.
* `next`: the step that a `Choice` makes. A job can time out, and a worker or a request can be
  dropped, at any await; the statement then under way has been executed or never is.
* `sysLts`: the system started on empty tables. `Log` is bookkeeping: no step depends on it.
* `step_db`: a step executes at most one statement; `executed_run`: what a run does to the tables is
  a run of `queueLts`.
-/

namespace FireCtrl

inductive WorkerState
  | idle
  | executing (job : Key) (envelope : JobEnvelope) (log : Log)
      (rest : Prog Op Op.Ans (Except AppError Unit))
  | failing (job : Key) (reason : String)
  | stopped

inductive HandlerState
  | waiting
  | running (req : Request) (log : Log) (rest : Prog Op Op.Ans (Except AppError Response))
  | gone

/-- The next statement of the stall-recovery loop. -/
inductive StallState
  | requeue
  | failOver
deriving DecidableEq

structure Sys where
  db : Db
  workers : Uuid → WorkerState
  handlers : ℕ → HandlerState
  stall : StallState

/-- Empty tables, idle workers, no request yet. -/
def Sys.init : Sys where
  db := ⟨.empty, .empty⟩
  workers _ := .idle
  handlers _ := .waiting
  stall := .requeue

inductive Actor
  | worker (w : Uuid)
  | handler (n : ℕ)
  | stall
deriving DecidableEq

/-- What a step shows: an executed statement, an answer from outside the database, or neither; a job
that ends without an error, and a response. -/
inductive Event
  | statement (a : Actor) (x : Executed)
  | external (a : Actor) (x : (x : Ext) × x.Ans)
  | other (a : Actor)
  | finished (w : Uuid) (job : Key) (log : Log)
  | responded (n : ℕ) (log : Log) (res : Except AppError Response)

/-- The statement that an event reports. -/
def Event.executed : Event → Option Executed
  | statement _ x => some x
  | _ => none

namespace Sys

variable (s : Sys)

def setWorker (w : Uuid) (ws : WorkerState) : Sys :=
  { s with workers := Function.update s.workers w ws }

def setHandler (n : ℕ) (hs : HandlerState) : Sys :=
  { s with handlers := Function.update s.handlers n hs }

/-- The event of performing `o`. -/
def event (a : Actor) (ρ : Reply) (o : Op) : Event :=
  match o.executes ρ, o with
  | some q, _ => .statement a ⟨q, q.affected ρ.env s.db⟩
  | none, .ext x => .external a ⟨x, ρ.ext x⟩
  | none, .db _ => .other a

/-- The system with the tables that `o` leaves behind. -/
def perform (ρ : Reply) (o : Op) : Sys := { s with db := (o.run ρ s.db).2 }

end Sys

/-- What happens next. -/
inductive Choice
  | work (w : Uuid) (ρ : Reply)
  | timeout (w : Uuid) (ρ : Reply)
  | crash (w : Uuid)
  | request (n : ℕ) (req : Request)
  | handle (n : ℕ) (ρ : Reply)
  | drop (n : ℕ)
  | stall (ρ : Reply)

section Step

variable (cfg : Config) (urls : UrlCrate)

/-- A worker after its claim. -/
def afterClaim : Except AppError (Option QueueScrapeRow) → WorkerState
  | .ok (some row) =>
    match row.data.bind fromValue with
    | some envelope =>
      .executing (row.id, row.createdAt) envelope []
        (execute cfg urls row.id row.createdAt envelope).run
    | none => .failing (row.id, row.createdAt) "invalid job envelope"
  | .ok none => .idle
  | .error _ => .idle

/-- `stale_after` of `stall_recovery_loop`. -/
def staleAfter : UInt64 := cfg.jobTimeoutSeconds + 30

/-- One iteration step of `Worker::run`. -/
def workerStep (s : Sys) (w : Uuid) (ρ : Reply) : Option (Event × Sys) :=
  match s.workers w with
  | .idle =>
    let o : Op := .db (.claimNextJob w)
    some (s.event (.worker w) ρ o,
      (s.perform ρ o).setWorker w (afterClaim cfg urls (o.run ρ s.db).1))
  | .executing job envelope log (.op o k) =>
    let a := (o.run ρ s.db).1
    some (s.event (.worker w) ρ o,
      (s.perform ρ o).setWorker w (.executing job envelope (log ++ [⟨o, a⟩]) (k a)))
  | .executing job _ log (.ret (.ok ())) => some (.finished w job log, s.setWorker w .idle)
  | .executing job _ _ (.ret (.error e)) =>
    some (.other (.worker w), s.setWorker w (.failing job e.toString))
  | .failing job reason =>
    let o : Op := .db (.failJob job.1 job.2 reason)
    some (s.event (.worker w) ρ o, (s.perform ρ o).setWorker w .idle)
  | .stopped => none

/-- A timeout strikes at an await. Whether the statement under way has been executed is up to `ρ`. -/
def timeoutStep (s : Sys) (w : Uuid) (ρ : Reply) : Option (Event × Sys) :=
  match s.workers w with
  | .executing job _ _ (.op o _) =>
    some (s.event (.worker w) ρ o,
      (s.perform ρ o).setWorker w (.failing job "job timeout"))
  | _ => none

def handlerStep (s : Sys) (n : ℕ) (ρ : Reply) : Option (Event × Sys) :=
  match s.handlers n with
  | .running req log (.op o k) =>
    let a := (o.run ρ s.db).1
    some (s.event (.handler n) ρ o,
      (s.perform ρ o).setHandler n (.running req (log ++ [⟨o, a⟩]) (k a)))
  | .running _ log (.ret res) => some (.responded n log res, s.setHandler n .gone)
  | .waiting => none
  | .gone => none

/-- One statement of `stall_recovery_loop`; after an error the fail-over is skipped. -/
def stallStep (s : Sys) (ρ : Reply) : Event × Sys :=
  match s.stall with
  | .requeue =>
    let o : Op := .db (.requeueStalledJobs (staleAfter cfg))
    (s.event .stall ρ o,
      { s.perform ρ o with
        stall := match (o.run ρ s.db).1 with
          | .ok _ => .failOver
          | .error _ => .requeue })
  | .failOver =>
    let o : Op := .db (.failOverStalledJobs cfg.maxStalls.toInt32)
    (s.event .stall ρ o, { s.perform ρ o with stall := .requeue })

def next (s : Sys) : Choice → Option (Event × Sys)
  | .work w ρ => workerStep cfg urls s w ρ
  | .timeout w ρ => timeoutStep s w ρ
  | .crash w => some (.other (.worker w), s.setWorker w .stopped)
  | .request n req =>
    match s.handlers n with
    | .waiting =>
      some (.other (.handler n), s.setHandler n (.running req [] (req.handler cfg urls).run))
    | _ => none
  | .handle n ρ => handlerStep s n ρ
  | .drop n => some (.other (.handler n), s.setHandler n .gone)
  | .stall ρ => some (stallStep cfg s ρ)

/-- The system, from empty tables on. -/
def sysLts : Lts Sys Event := .ofFun (· = Sys.init) (next cfg urls)

end Step

/-! ## Schedules

The settings, requests and replies that the schedules of the counterexamples use. -/

def Config.sample : Config where
  crawlerMaxDepth := 5
  crawlerMaxPages := 100
  jobTimeoutSeconds := 300
  maxStalls := 3
  llmMaxInputChars := 1000

/-- URLs taken as they are. -/
def UrlCrate.sample : UrlCrate where
  Url := String
  parse := .ok
  hostStr _ := none

def Request.sampleBatch : Request :=
  .batchScrape (.ok ())
    { urls := [], scrapeOptions := .default, priority := 0,
      webhook := some { url := "https://example.com", headers := none, events := [] } }

def Request.sampleCrawl : Request :=
  .crawl (.ok ())
    { url := "https://example.com", maxDepth := 1, limit := 10, scrapeOptions := .default,
      allowBackwardLinks := false, allowExternalLinks := false, ignoreSitemap := true,
      includePaths := [], excludePaths := [], webhook := none, priority := 0 }

/-- The job that `Request.sampleCrawl` enqueues with group 1. -/
def sampleCrawlJob : CrawlJobData where
  url := "https://example.com"
  maxDepth := 1
  limit := 10
  scrapeOptions := .default
  allowBackwardLinks := false
  allowExternalLinks := false
  ignoreSitemap := true
  includePaths := []
  excludePaths := []
  webhook := none
  priority := 0
  ttlMs := 86400000
  groupId := some 1

/-- Follow a schedule from the initial state. -/
def sampleRun (cs : List Choice) : Option (List Event × Sys) :=
  Lts.play (next .sample .sample) Sys.init cs

/-- What is observed at two points of a schedule is observed on a run of the system. -/
theorem sampleRun_split {α β : Type} (cs ds : List Choice) {f : Sys → α} {g : List Event × Sys → β}
    {a : α} {b : β} (h₁ : (sampleRun cs).map (fun p => f p.2) = some a)
    (h₂ : (sampleRun (cs ++ ds)).map g = some b) :
    ∃ es s es' t, (sysLts .sample .sample).Run es s ∧ (sysLts .sample .sample).Steps s es' t ∧
      f s = a ∧ g (es ++ es', t) = b := by
  unfold sampleRun at h₁ h₂
  rw [Lts.play_append] at h₂
  rcases hc : Lts.play (next .sample .sample) Sys.init cs with _ | ⟨es, s⟩
  · rw [hc] at h₁; cases h₁
  · rw [hc] at h₁ h₂
    rcases hd : Lts.play (next .sample .sample) s ds with _ | ⟨es', t⟩
    · simp [hd] at h₂
    · simp only [Option.bind_some, hd, Option.map_some, Option.some.injEq] at h₁ h₂
      exact ⟨es, s, es', t, ⟨_, rfl, Lts.of_play _ hc⟩, Lts.of_play _ hd, h₁, h₂⟩

/-- The same for a schedule whose steps meet a condition. -/
theorem sampleRun_restrict {α : Type} (ok : Sys → Event → Sys → Prop) [∀ s e t, Decidable (ok s e t)]
    (cs : List Choice) {f : List Event × Sys → α} {a : α}
    (h : (Lts.play (Lts.nextIf (next .sample .sample) ok) Sys.init cs).map f = some a) :
    ∃ es t, ((sysLts .sample .sample).restrict ok).Run es t ∧ f (es, t) = a := by
  obtain ⟨⟨es, t⟩, hp, ha⟩ := Option.map_eq_some_iff.mp h
  have hs : (Lts.ofFun (· = Sys.init) (Lts.nextIf (next .sample .sample) ok)).Steps Sys.init es t :=
    Lts.of_play cs hp
  exact ⟨es, t, ⟨_, rfl, hs.of_nextIf⟩, ha⟩

/-! ## What a step can do -/

section Cases

variable {cfg : Config} {urls : UrlCrate} {s t : Sys} {ev : Event} {es : List Event}

theorem setWorker_workers (s : Sys) (w w' : Uuid) (ws : WorkerState) :
    (s.setWorker w ws).workers w' = if w' = w then ws else s.workers w' := by
  simp [Sys.setWorker, Function.update_apply]

theorem setHandler_handlers (s : Sys) (n n' : ℕ) (hs : HandlerState) :
    (s.setHandler n hs).handlers n' = if n' = n then hs else s.handlers n' := by
  simp [Sys.setHandler, Function.update_apply]

/-- The steps, one constructor for each thing that can happen. -/
inductive SysStep (cfg : Config) (urls : UrlCrate) (s : Sys) : Event → Sys → Prop
  | claim (w : Uuid) (ρ : Reply) : s.workers w = .idle →
      SysStep cfg urls s (s.event (.worker w) ρ (.db (.claimNextJob w)))
        ((s.perform ρ (.db (.claimNextJob w))).setWorker w
          (afterClaim cfg urls (Op.run ρ (.db (.claimNextJob w)) s.db).1))
  | work (w : Uuid) (ρ : Reply) {job envelope log o k} :
      s.workers w = .executing job envelope log (.op o k) →
      SysStep cfg urls s (s.event (.worker w) ρ o)
        ((s.perform ρ o).setWorker w (.executing job envelope
          (log ++ [⟨o, (o.run ρ s.db).1⟩]) (k (o.run ρ s.db).1)))
  | finish (w : Uuid) {job envelope log} :
      s.workers w = .executing job envelope log (.ret (.ok ())) →
      SysStep cfg urls s (.finished w job log) (s.setWorker w .idle)
  | giveUp (w : Uuid) {job envelope log} {e : AppError} :
      s.workers w = .executing job envelope log (.ret (.error e)) →
      SysStep cfg urls s (.other (.worker w)) (s.setWorker w (.failing job e.toString))
  | fail (w : Uuid) (ρ : Reply) {job reason} : s.workers w = .failing job reason →
      SysStep cfg urls s (s.event (.worker w) ρ (.db (.failJob job.1 job.2 reason)))
        ((s.perform ρ (.db (.failJob job.1 job.2 reason))).setWorker w .idle)
  | timeout (w : Uuid) (ρ : Reply) {job envelope log o k} :
      s.workers w = .executing job envelope log (.op o k) →
      SysStep cfg urls s (s.event (.worker w) ρ o)
        ((s.perform ρ o).setWorker w (.failing job "job timeout"))
  | crash (w : Uuid) : SysStep cfg urls s (.other (.worker w)) (s.setWorker w .stopped)
  | request (n : ℕ) (req : Request) : s.handlers n = .waiting →
      SysStep cfg urls s (.other (.handler n))
        (s.setHandler n (.running req [] (req.handler cfg urls).run))
  | handle (n : ℕ) (ρ : Reply) {req log o k} : s.handlers n = .running req log (.op o k) →
      SysStep cfg urls s (s.event (.handler n) ρ o)
        ((s.perform ρ o).setHandler n (.running req
          (log ++ [⟨o, (o.run ρ s.db).1⟩]) (k (o.run ρ s.db).1)))
  | respond (n : ℕ) {req log res} : s.handlers n = .running req log (.ret res) →
      SysStep cfg urls s (.responded n log res) (s.setHandler n .gone)
  | drop (n : ℕ) : SysStep cfg urls s (.other (.handler n)) (s.setHandler n .gone)
  | requeue (ρ : Reply) (st : StallState) : s.stall = .requeue →
      SysStep cfg urls s (s.event .stall ρ (.db (.requeueStalledJobs (staleAfter cfg))))
        { s.perform ρ (.db (.requeueStalledJobs (staleAfter cfg))) with stall := st }
  | failOver (ρ : Reply) (st : StallState) : s.stall = .failOver →
      SysStep cfg urls s (s.event .stall ρ (.db (.failOverStalledJobs cfg.maxStalls.toInt32)))
        { s.perform ρ (.db (.failOverStalledJobs cfg.maxStalls.toInt32)) with stall := st }

theorem sysStep_of_step (h : (sysLts cfg urls).step s ev t) : SysStep cfg urls s ev t := by
  obtain ⟨c, hc⟩ := h
  cases c with
  | work w ρ =>
    simp only [next, workerStep] at hc
    split at hc
    · rename_i hw; cases hc; exact .claim w ρ hw
    · rename_i hw; cases hc; exact .work w ρ hw
    · rename_i hw; cases hc; exact .finish w hw
    · rename_i hw; cases hc; exact .giveUp w hw
    · rename_i hw; cases hc; exact .fail w ρ hw
    · cases hc
  | timeout w ρ =>
    simp only [next, timeoutStep] at hc
    split at hc
    · rename_i hw; cases hc; exact .timeout w ρ hw
    · cases hc
  | crash w => cases hc; exact .crash w
  | request n req =>
    simp only [next] at hc
    split at hc
    · rename_i hn; cases hc; exact .request n req hn
    · cases hc
  | handle n ρ =>
    simp only [next, handlerStep] at hc
    split at hc
    · rename_i hn; cases hc; exact .handle n ρ hn
    · rename_i hn; cases hc; exact .respond n hn
    · cases hc
    · cases hc
  | drop n => cases hc; exact .drop n
  | stall ρ =>
    simp only [next, stallStep] at hc
    split at hc
    · rename_i hst; cases hc; exact .requeue ρ _ hst
    · rename_i hst; cases hc; exact .failOver ρ _ hst

theorem finished_of_step {w : Uuid} {job : Key} {log : Log}
    (h : (sysLts cfg urls).step s (.finished w job log) t) :
    ∃ envelope, s.workers w = .executing job envelope log (.ret (.ok ())) ∧ t = s.setWorker w .idle := by
  generalize hev : Event.finished w job log = ev at h
  cases sysStep_of_step h with
  | finish w' hw => cases hev; exact ⟨_, hw, rfl⟩
  | claim | work | fail | timeout | handle | requeue | failOver =>
    unfold Sys.event at hev
    split at hev <;> cases hev
  | giveUp | crash | request | respond | drop => cases hev

theorem responded_of_step {n : ℕ} {log : Log} {res : Except AppError Response}
    (h : (sysLts cfg urls).step s (.responded n log res) t) :
    ∃ req, s.handlers n = .running req log (.ret res) := by
  generalize hev : Event.responded n log res = ev at h
  cases sysStep_of_step h with
  | respond n' hn => cases hev; exact ⟨_, hn⟩
  | claim | work | fail | timeout | handle | requeue | failOver =>
    unfold Sys.event at hev
    split at hev <;> cases hev
  | finish | giveUp | crash | request | drop => cases hev

/-! ## The tables -/

/-- Either a step executes one statement, or it leaves the tables alone. -/
def DbStep (s : Sys) (ev : Event) (db : Db) : Prop :=
  (∃ a env q, ev = .statement a ⟨q, q.affected env s.db⟩ ∧ db = (q.exec env s.db).2) ∨
    ev.executed = none ∧ db = s.db

theorem event_of_executes {a : Actor} {ρ : Reply} {o : Op} {q : Query} (h : o.executes ρ = some q) :
    s.event a ρ o = .statement a ⟨q, q.affected ρ.env s.db⟩ := by
  unfold Sys.event
  rw [h]

theorem event_of_not_executes {a : Actor} {ρ : Reply} {o : Op} (h : o.executes ρ = none) :
    (s.event a ρ o).executed = none := by
  unfold Sys.event
  rw [h]
  cases o <;> rfl

theorem dbStep_perform (s : Sys) (a : Actor) (ρ : Reply) (o : Op) :
    DbStep s (s.event a ρ o) (s.perform ρ o).db := by
  rcases hx : o.executes ρ with _ | q
  · exact .inr ⟨event_of_not_executes hx, Op.run_snd_of_not_executes hx⟩
  · exact .inl ⟨a, ρ.env, q, event_of_executes hx, Op.run_snd_of_executes hx⟩

theorem step_db (h : (sysLts cfg urls).step s ev t) : DbStep s ev t.db := by
  cases sysStep_of_step h with
  | claim | work | fail | timeout | handle | requeue | failOver => exact dbStep_perform _ _ _ _
  | finish | giveUp | crash | request | respond | drop => exact .inr ⟨rfl, rfl⟩

theorem executed_steps (h : (sysLts cfg urls).Steps s es t) :
    queueLts.Steps s.db (es.filterMap Event.executed) t.db := by
  induction h with
  | nil => exact .nil
  | @snoc es t ev u _ hstep ih =>
    rw [List.filterMap_append]
    rcases step_db hstep with ⟨a, env, q, rfl, hu⟩ | ⟨hev, hu⟩
    · exact ih.snoc ⟨env, rfl, hu⟩
    · have hnil : [ev].filterMap Event.executed = [] := by simp [hev]
      rw [hnil, hu, List.append_nil]
      exact ih

/-- **What a run of the system does to the tables is a run of `queueLts`.** -/
theorem executed_run (h : (sysLts cfg urls).Run es t) :
    queueLts.Run (es.filterMap Event.executed) t.db :=
  let ⟨s, _, hs⟩ := h
  ⟨s.db, trivial, executed_steps hs⟩

end Cases

end FireCtrl
