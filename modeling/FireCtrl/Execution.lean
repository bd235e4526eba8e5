import FireCtrl.Effects

/-!
# Executions

A whole execution of a job or a request, its operations answered by a function of what has happened.

* `Answers`, `Call.execution`: the answers, and the result with the log of what was done.
* `Log.asked`, `Log.stored`, `Log.scraped`, `Log.joined`: what a log tells.
-/

namespace FireCtrl

open Call (db ext)

/-- What the operations are answered, given what has happened. -/
abbrev Answers := Log → (o : Op) → o.Ans

/-- Answer an operation and write it down. -/
def Answers.record (ρ : Answers) (o : Op) (log : Log) : o.Ans × Log := (ρ log o, log ++ [⟨o, ρ log o⟩])

/-- The result of a call, and the log after it. -/
def Call.execution {α : Type} (ρ : Answers) (c : Call α) (log : Log) : Except AppError α × Log :=
  c.run.eval ρ.record log

section Execution

variable {α β : Type} {ρ : Answers} {log : Log}

theorem execution_pure (a : α) : (pure a : Call α).execution ρ log = (.ok a, log) := rfl

theorem execution_bind (c : Call α) (f : α → Call β) :
    (c >>= f).execution ρ log =
      match c.execution ρ log with
      | (.ok a, log') => (f a).execution ρ log'
      | (.error e, log') => (.error e, log') := by
  unfold Call.execution
  rw [Call.eval_bind]
  rcases c.run.eval ρ.record log with ⟨_ | a, log'⟩ <;> rfl

theorem execution_map (c : Call α) (f : α → β) :
    (do let a ← c; return f a : Call β).execution ρ log =
      ((c.execution ρ log).1.map f, (c.execution ρ log).2) := by
  rw [execution_bind]
  rcases c.execution ρ log with ⟨_ | a, log'⟩ <;> rfl

theorem execution_ofExcept (r : Except AppError α) : (Call.ofExcept r).execution ρ log = (r, log) := by
  cases r <;> rfl

theorem execution_db (q : Query) :
    (db q).execution ρ log = (ρ log (.db q), log ++ [⟨.db q, ρ log (.db q)⟩]) := rfl

theorem execution_ext_bind (x : Ext) (f : x.Ans → Call β) :
    (ext x >>= f).execution ρ log =
      (f (ρ log (.ext x))).execution ρ (log ++ [⟨.ext x, ρ log (.ext x)⟩]) := rfl

end Execution

/-! ## Logs -/

namespace Log

variable (log : Log)

/-- The requests to the model. -/
def asked : List ExtractionRequest :=
  log.filterMap fun x =>
    match x.1 with
    | .ext (.llmExtract req) => some req
    | _ => none

/-- The results that jobs were completed with. -/
def stored : List Json :=
  log.filterMap fun x =>
    match x.1 with
    | .db (.completeJob _ _ v) => some v
    | _ => none

/-- What an operation is answered, if it is a scrape that succeeds. -/
def scrapedBy : (o : Op) → o.Ans → Option ScrapeResult
  | .ext (.scrape _), .ok r => some r
  | _, _ => none

/-- What an operation is answered, if it is a joined page with Markdown. -/
def joinedBy : (o : Op) → o.Ans → Option (String × String)
  | .ext (.joinNext t ts), (i, some (.ok r)) => r.markdown.map fun md => (((t :: ts).get i).url, md)
  | _, _ => none

/-- The scraped page. -/
def scraped : Option ScrapeResult := (log.filterMap fun x => scrapedBy x.1 x.2).head?

/-- The joined pages, with their URLs. -/
def joined : List (String × String) := log.filterMap fun x => joinedBy x.1 x.2

variable {log} {l : Log} {o : Op} {a : o.Ans}

@[simp] theorem asked_append : (log ++ l).asked = log.asked ++ l.asked := List.filterMap_append

@[simp] theorem stored_append : (log ++ l).stored = log.stored ++ l.stored := List.filterMap_append

@[simp] theorem joined_append : (log ++ l).joined = log.joined ++ l.joined := List.filterMap_append

/-- What follows the scraped page does not matter. -/
theorem scraped_append {r : ScrapeResult} (h : log.scraped = some r) : (log ++ l).scraped = some r := by
  unfold scraped at h ⊢
  rw [List.filterMap_append, List.head?_append, h]
  rfl

end Log

end FireCtrl
