import FireCtrl.Lib.Sql
import FireCtrl.Queue.History
import Mathlib.Data.String.Basic

/-!
# The texts of the statements (`database.rs`)

`Queue/Database.lean` says what each statement is for; here are the texts that the source writes
out, and what their clauses compute.

* `continued`: what the compiler makes of a literal over several lines; `Texts.getJobText` and its
  siblings: the texts. `Texts.spelled`: the statements that they spell.
* `server`: the queue and its values as the statements see them; `Db.rowsOf`: the answer to a text;
  `mapQueueRecord`: what the client makes of a row of it.
* `truth_isRow` and its siblings: the conditions, row by row; `rows_selectJobs`, `truth_isFirst`:
  the queries, in terms of the ordered selections of the model.
-/

namespace FireCtrl

open Sql

namespace Texts

/-! ## Literals -/

/-- A backslash at the end of a line drops the line break and the blanks that follow it. -/
def continuedFrom : Bool → List Char → List Char
  | _, '\\' :: '\n' :: cs => continuedFrom true cs
  | _, [] => []
  | skip, c :: cs =>
    if skip && Sql.isSpace c then continuedFrom true cs else c :: continuedFrom false cs

def continued (literal : String) : String := String.ofList (continuedFrom false literal.toList)

def QS_COLS : String :=
  "id, status::text AS status, data, created_at, returnvalue, failedreason, group_id"

/-- The text of `get_job`. -/
def getJobText : String := continued <|
  "SELECT " ++ QS_COLS ++ " FROM nuq.queue_scrape \\\n" ++
  "             WHERE (id, created_at) = (\\\n" ++
  "               SELECT id, created_at FROM nuq.queue_scrape\\\n" ++
  "               WHERE id = $1\\\n" ++
  "               ORDER BY created_at DESC\\\n" ++
  "               LIMIT 1\\\n" ++
  "             )"

/-- The text of `get_job` with a blank before each line end, as its siblings have it. -/
def getJobSpacedText : String := continued <|
  "SELECT " ++ QS_COLS ++ " FROM nuq.queue_scrape \\\n" ++
  "             WHERE (id, created_at) = (\\\n" ++
  "               SELECT id, created_at FROM nuq.queue_scrape \\\n" ++
  "               WHERE id = $1 \\\n" ++
  "               ORDER BY created_at DESC \\\n" ++
  "               LIMIT 1 \\\n" ++
  "             )"

def claimNextJobText : String := continued <|
  "UPDATE nuq.queue_scrape \\\n" ++
  "             SET status = 'active', lock = $1, locked_at = now() \\\n" ++
  "             WHERE (id, created_at) = ( \\\n" ++
  "               SELECT id, created_at FROM nuq.queue_scrape \\\n" ++
  "               WHERE status = 'queued' \\\n" ++
  "               ORDER BY priority ASC, created_at ASC, id ASC \\\n" ++
  "               LIMIT 1 \\\n" ++
  "               FOR UPDATE SKIP LOCKED \\\n" ++
  "             ) \\\n" ++
  "             RETURNING " ++ QS_COLS

/-- The texts of `get_group_results`, from a cursor on and from the start. -/
def getGroupResultsAfterText : String := continued <|
  "SELECT " ++ QS_COLS ++ " FROM nuq.queue_scrape \\\n" ++
  "                     WHERE group_id = $1 \\\n" ++
  "                       AND (created_at, id) > ($3, $2) \\\n" ++
  "                     ORDER BY created_at ASC, id ASC \\\n" ++
  "                     LIMIT $4"

def getGroupResultsText : String := continued <|
  "SELECT " ++ QS_COLS ++ " FROM nuq.queue_scrape \\\n" ++
  "                     WHERE group_id = $1 \\\n" ++
  "                     ORDER BY created_at ASC, id ASC \\\n" ++
  "                     LIMIT $2"

def sqlCompleteJobText : String := continued <|
  "UPDATE nuq.queue_scrape \\\n" ++
  "     SET status = 'completed', returnvalue = $3, finished_at = now(), \\\n" ++
  "         lock = NULL, locked_at = NULL \\\n" ++
  "     WHERE id = $1 AND created_at = $2"

def sqlFailJobText : String := continued <|
  "UPDATE nuq.queue_scrape \\\n" ++
  "     SET status = 'failed', failedreason = $3, finished_at = now(), \\\n" ++
  "         lock = NULL, locked_at = NULL \\\n" ++
  "     WHERE id = $1 AND created_at = $2"

def sqlCancelJobLatestByIdText : String := continued <|
  "UPDATE nuq.queue_scrape \\\n" ++
  "     SET status = 'cancelled', finished_at = now(), \\\n" ++
  "         lock = NULL, locked_at = NULL \\\n" ++
  "     WHERE (id, created_at) = (\\\n" ++
  "       SELECT id, created_at FROM nuq.queue_scrape \\\n" ++
  "       WHERE id = $1 \\\n" ++
  "       ORDER BY created_at DESC \\\n" ++
  "       LIMIT 1\\\n" ++
  "     ) \\\n" ++
  "       AND status IN ('queued', 'active')"

/-- The first text of `cancel_group`. -/
def sqlCancelGroupJobsText : String := continued <|
  "UPDATE nuq.queue_scrape \\\n" ++
  "             SET status = 'cancelled', finished_at = now(), lock = NULL, locked_at = NULL" ++
  " \\\n" ++
  "             WHERE group_id = $1 AND status IN ('queued', 'active')"

def sqlUpdateJobGroupText : String := continued
  "UPDATE nuq.queue_scrape SET group_id = $3 WHERE id = $1 AND created_at = $2"

def sqlFailOverStalledJobsText : String := continued <|
  "UPDATE nuq.queue_scrape \\\n" ++
  "     SET status = 'failed', \\\n" ++
  "         failedreason = 'exceeded maximum stall count', \\\n" ++
  "         finished_at = now() \\\n" ++
  "     WHERE status = 'queued' AND stalls >= $1"

/-! ## What they spell -/

def queueScrape : List String := ["nuq", "queue_scrape"]

def qsNames : List String :=
  ["id", "status", "data", "created_at", "returnvalue", "failedreason", "group_id"]

/-- The output columns `QS_COLS`. -/
def qsItems : Exprs :=
  .of [.col "id", .cast (.col "status") ["text"], .col "data", .col "created_at",
    .col "returnvalue", .col "failedreason", .col "group_id"]

/-- `SELECT QS_COLS FROM nuq.queue_scrape ..`. -/
def selectJobs (cond : Expr) (desc : List Bool) (keys : Exprs) (limit : Expr) : Select :=
  .mk qsNames qsItems queueScrape cond desc keys limit

/-- `UPDATE nuq.queue_scrape SET .. WHERE cond`. -/
def updateJobs (set : List (String × Expr)) (cond : Expr) : Update where
  table := queueScrape
  cols := set.map Prod.fst
  exprs := .of (set.map Prod.snd)
  cond := cond
  names := []
  items := .nil

/-- `(id, created_at) = (SELECT id, created_at FROM nuq.queue_scrape .. LIMIT 1)`. -/
def isFirst (cond : Expr) (desc : List Bool) (keys : Exprs) : Expr :=
  .cmp .eq (.row (.of [.col "id", .col "created_at"])) <| .query <|
    .mk ["id", "created_at"] (.of [.col "id", .col "created_at"]) queueScrape cond desc keys
      (.num 1)

/-- The condition under which a row is the newest of the id `$1`. -/
def isNewest : Expr := isFirst (.cmp .eq (.col "id") (.param 1)) [true] (.of [.col "created_at"])

def isNextQueued : Expr :=
  isFirst (.cmp .eq (.col "status") (.str "queued")) [false, false, false]
    (.of [.col "priority", .col "created_at", .col "id"])

/-- `id = $1 AND created_at = $2`. -/
def isRow : Expr :=
  .and (.cmp .eq (.col "id") (.param 1)) (.cmp .eq (.col "created_at") (.param 2))

/-- `group_id = $1`. -/
def inGroup : Expr := .cmp .eq (.col "group_id") (.param 1)

/-- `(created_at, id) > ($3, $2)`. -/
def isAfter : Expr :=
  .cmp .gt (.row (.of [.col "created_at", .col "id"])) (.row (.of [.param 3, .param 2]))

/-- `status IN ('queued', 'active')`. -/
def isPending : Expr := .isIn (.col "status") (.of [.str "queued", .str "active"])

def isExhausted : Expr :=
  .and (.cmp .eq (.col "status") (.str "queued")) (.cmp .ge (.col "stalls") (.param 1))

/-- `ORDER BY created_at ASC, id ASC`. -/
def pageKeys : Exprs := .of [.col "created_at", .col "id"]

def setActive : List (String × Expr) :=
  [("status", .str "active"), ("lock", .param 1), ("locked_at", .call "now" .nil)]

def setCompleted : List (String × Expr) :=
  [("status", .str "completed"), ("returnvalue", .param 3), ("finished_at", .call "now" .nil),
    ("lock", .null), ("locked_at", .null)]

def setFailed : List (String × Expr) :=
  [("status", .str "failed"), ("failedreason", .param 3), ("finished_at", .call "now" .nil),
    ("lock", .null), ("locked_at", .null)]

def setCancelled : List (String × Expr) :=
  [("status", .str "cancelled"), ("finished_at", .call "now" .nil), ("lock", .null),
    ("locked_at", .null)]

def setExhausted : List (String × Expr) :=
  [("status", .str "failed"), ("failedreason", .str "exceeded maximum stall count"),
    ("finished_at", .call "now" .nil)]

/-- The statements that the texts spell. -/
structure Spelled : Prop where
  getJobSpaced : parse getJobSpacedText = .ok (.select (selectJobs isNewest [] .nil .null))
  getGroupResultsAfter : parse getGroupResultsAfterText =
    .ok (.select (selectJobs (.and inGroup isAfter) [false, false] pageKeys (.param 4)))
  getGroupResults : parse getGroupResultsText =
    .ok (.select (selectJobs inGroup [false, false] pageKeys (.param 2)))
  claimNextJob : parse claimNextJobText =
    .ok (.update { updateJobs setActive isNextQueued with names := qsNames, items := qsItems })
  sqlCompleteJob : parse sqlCompleteJobText = .ok (.update (updateJobs setCompleted isRow))
  sqlFailJob : parse sqlFailJobText = .ok (.update (updateJobs setFailed isRow))
  sqlCancelJobLatestById : parse sqlCancelJobLatestByIdText =
    .ok (.update (updateJobs setCancelled (.and isNewest isPending)))
  sqlCancelGroupJobs : parse sqlCancelGroupJobsText =
    .ok (.update (updateJobs setCancelled (.and inGroup isPending)))
  sqlUpdateJobGroup : parse sqlUpdateJobGroupText =
    .ok (.update (updateJobs [("group_id", .param 3)] isRow))
  sqlFailOverStalledJobs : parse sqlFailOverStalledJobsText =
    .ok (.update (updateJobs setExhausted isExhausted))

theorem parse_continued (literal : String) :
    parse (continued literal) = parseChars (continuedFrom false literal.toList) := by
  rw [continued, parse_ofList]

theorem spelled : Spelled := by
  constructor
  all_goals
    simp only [getJobSpacedText, getGroupResultsAfterText, getGroupResultsText, claimNextJobText,
      sqlCompleteJobText, sqlFailJobText, sqlCancelJobLatestByIdText, sqlCancelGroupJobsText,
      sqlUpdateJobGroupText, sqlFailOverStalledJobsText, parse_continued, QS_COLS,
      String.toList_append]
    repeat rw [String.toList_ofList]
    decide +kernel

/-- Without a blank, `FROM` names a table `queue_scrapewhere` under the alias `id`, and no clause of
a query starts with `=`. -/
theorem parse_getJobText : parse getJobText = .error (.malformed (some (.symbol .eq))) := by
  rw [getJobText, parse_continued, QS_COLS]
  simp only [String.toList_append]
  repeat rw [String.toList_ofList]
  decide +kernel

end Texts

open Texts

/-! ## The server -/

/-- The values of the columns. An enum column reads as its label. -/
inductive Value
  | uuid (u : Uuid)
  | timestamptz (t : Timestamp)
  | text (s : String)
  | int (n : ℤ)
  | jsonb (j : Json)

/-- Values of different types do not compare. -/
def Value.compare : Value → Value → Option Ordering
  | uuid a, uuid b => some (Ord.compare a b)
  | timestamptz a, timestamptz b => some (Ord.compare a b)
  | text a, text b => some (Ord.compare a b)
  | int a, int b => some (Ord.compare a b)
  | _, _ => none

/-- `Display for JobStatus`, which is also the label in `nuq.job_status`. -/
def JobStatus.label : JobStatus → String
  | queued => "queued"
  | scraping => "scraping"
  | active => "active"
  | completed => "completed"
  | failed => "failed"
  | cancelled => "cancelled"

def Row.record (r : Row) : Record Value
  | "id" => some (some (.uuid r.id))
  | "status" => some (some (.text r.status.label))
  | "data" => some (r.data.map .jsonb)
  | "created_at" => some (some (.timestamptz r.createdAt))
  | "priority" => some (some (.int r.priority.toInt))
  | "lock" => some (r.lock.map .uuid)
  | "locked_at" => some (r.lockedAt.map .timestamptz)
  | "stalls" => some (r.stalls.map .int)
  | "finished_at" => some (r.finishedAt.map .timestamptz)
  | "listen_channel_id" => some (r.listenChannelId.map .text)
  | "returnvalue" => some (r.returnvalue.map .jsonb)
  | "failedreason" => some (r.failedreason.map .text)
  | "owner_id" => some (r.ownerId.map .uuid)
  | "group_id" => some (r.groupId.map .uuid)
  | _ => none

/-- The queue and its values as the statements see them. -/
def server (env : Env) (db : Db) : Server Value where
  num n := .int n
  str := .text
  compare := Value.compare
  cast
    | ["text"], .text s => some (.text s)
    | _, _ => none
  call
    | "now", [] => some (some (.timestamptz env.now))
    | _, _ => none
  limit
    | .int n => if n < 0 then none else some n.toNat
    | _ => none
  tables
    | ["nuq", "queue_scrape"] => some (db.queue.rows.map Row.record)
    | _ => none

/-- The rows that the server answers a text with, by the names of their columns. Its messages are
cut short. -/
def Db.rowsOf (env : Env) (db : Db) (sql : String) (params : Cells Value) :
    Except AppError (List (Record Value)) :=
  match parse sql with
  | .error _ => .error (dbError "syntax error")
  | .ok s =>
    match s.rows (server env db) params with
    | none => .error (dbError "the statement cannot be executed")
    | some rows => .ok (rows.map fun vs c => (s.names.zip vs).lookup c)

/-! ## Row mappers -/

def mapJobStatus : String → JobStatus
  | "scraping" => .scraping
  | "active" => .active
  | "completed" => .completed
  | "failed" => .failed
  | "cancelled" => .cancelled
  | _ => .queued

@[simp] theorem mapJobStatus_label (s : JobStatus) : mapJobStatus s.label = s := by
  cases s <;> rfl

def Value.uuid? : Value → Option Uuid
  | uuid u => some u
  | _ => none

def Value.timestamptz? : Value → Option Timestamp
  | timestamptz t => some t
  | _ => none

def Value.text? : Value → Option String
  | text s => some s
  | _ => none

def Value.jsonb? : Value → Option Json
  | jsonb j => some j
  | _ => none

section Get

variable {α : Type} (decode : Value → Option α) (r : Record Value) (c : String)

/-- `row.get` at a type without `NULL`; `none` is a panic. -/
def rowGet : Option α :=
  match r c with
  | some (some v) => decode v
  | _ => none

/-- `row.get` at an `Option`. -/
def rowGetOption : Option (Option α) :=
  match r c with
  | some none => some none
  | some (some v) => (decode v).map some
  | none => none

variable {decode r c}

theorem rowGet_of {v : Value} {a : α} (h : r c = some (some v)) (hv : decode v = some a) :
    rowGet decode r c = some a := by
  rw [rowGet, h]
  exact hv

theorem rowGetOption_map {f : α → Value} {o : Option α} (h : r c = some (o.map f))
    (hf : ∀ a, decode (f a) = some a) : rowGetOption decode r c = some o := by
  rw [rowGetOption, h]
  cases o with
  | none => rfl
  | some a => simp only [Option.map_some, hf]

end Get

/-- `map_queue_row`. -/
def mapQueueRecord (r : Record Value) : Option QueueScrapeRow := do
  let status ← rowGet Value.text? r "status"
  return { id := ← rowGet Value.uuid? r "id"
           status := mapJobStatus status
           data := ← rowGetOption Value.jsonb? r "data"
           createdAt := ← rowGet Value.timestamptz? r "created_at"
           returnvalue := ← rowGetOption Value.jsonb? r "returnvalue"
           failedreason := ← rowGetOption Value.text? r "failedreason"
           groupId := ← rowGetOption Value.uuid? r "group_id" }

/-- The jobs that the client reads from the answer to a text; `none` is a panic. -/
def Db.jobsOf (env : Env) (db : Db) (sql : String) (params : Cells Value) :
    Option (Except AppError (List QueueScrapeRow)) :=
  match db.rowsOf env sql params with
  | .error e => some (.error e)
  | .ok rows => (rows.mapM mapQueueRecord).map .ok

/-- `get_job` with the text `sql`; `none` is a panic. -/
def getJobBy (sql : String) (env : Env) (db : Db) (id : Uuid) :
    Option (Except AppError QueueScrapeRow) :=
  match db.rowsOf env sql [some (.uuid id)] with
  | .error e => some (.error e)
  | .ok rows =>
    match rows.head? with
    | some r => (mapQueueRecord r).map .ok
    | none => some (.error (.notFound id.toString))

/-! ## What the clauses compute -/

section Clauses

variable {env : Env} {db : Db} {ps : Cells Value} {outer : Record Value} {p : Row → Bool}
  {cond limit : Expr} {desc : List Bool} {keys : Exprs} {k : Row → Cells Value} {id g : Uuid}
  {t t' : Timestamp}

@[simp] theorem server_str (s : String) : (server env db).str s = .text s := rfl

@[simp] theorem cellOrder_uuid (a b : Uuid) :
    (server env db).cellOrder (some (.uuid a)) (some (.uuid b)) = some (some (compare a b)) := rfl

@[simp] theorem cellOrder_timestamptz (a b : Timestamp) :
    (server env db).cellOrder (some (.timestamptz a)) (some (.timestamptz b)) =
      some (some (compare a b)) := rfl

@[simp] theorem cellOrder_text (a b : String) :
    (server env db).cellOrder (some (.text a)) (some (.text b)) = some (some (compare a b)) := rfl

@[simp] theorem cellOrder_int (a b : ℤ) :
    (server env db).cellOrder (some (.int a)) (some (.int b)) = some (some (compare a b)) := rfl

theorem truth_isId {R : Record Value} (h : R "id" = some (some (.uuid id))) :
    (Expr.cmp .eq (.col "id") (.param 1)).truth (server env db) [some (.uuid g)] R =
      some (some (decide (id = g))) := by
  simp [h]

theorem truth_isRow {R : Record Value} (hid : R "id" = some (some (.uuid id)))
    (ht : R "created_at" = some (some (.timestamptz t))) (cs : Cells Value) :
    isRow.truth (server env db) (some (.uuid g) :: some (.timestamptz t') :: cs) R =
      some (some (decide (id = g ∧ t = t'))) := by
  simp [isRow, hid, ht]

theorem truth_isQueued {R : Record Value} {s : JobStatus}
    (h : R "status" = some (some (.text s.label))) :
    (Expr.cmp .eq (.col "status") (.str "queued")).truth (server env db) ps R =
      some (some (decide (s = .queued))) := by
  have hlabel : s.label = "queued" ↔ s = .queued := by cases s <;> decide
  simp [h, hlabel]

theorem truth_isPending {R : Record Value} {s : JobStatus}
    (h : R "status" = some (some (.text s.label))) :
    isPending.truth (server env db) ps R = some (some (decide (s = .queued ∨ s = .active))) := by
  have hlabel : s.label = "queued" ∨ s.label = "active" ↔ s = .queued ∨ s = .active := by
    cases s <;> decide
  simp [isPending, h, ← hlabel]

theorem truth_inGroup {R : Record Value} {o : Option Uuid} (h : R "group_id" = some (o.map .uuid))
    (cs : Cells Value) :
    inGroup.truth (server env db) (some (.uuid g) :: cs) R =
      some (o.map fun a => decide (a = g)) := by
  cases o <;> simp [inGroup, h]

theorem truth_isStalled {R : Record Value} {o : Option ℤ} (h : R "stalls" = some (o.map .int))
    (n : ℤ) :
    (Expr.cmp .ge (.col "stalls") (.param 1)).truth (server env db) [some (.int n)] R =
      some (o.map fun m => decide (n ≤ m)) := by
  cases o with
  | none => simp [h]
  | some m =>
    have hge : compare m n ≠ .lt ↔ n ≤ m := compare_ge_iff_ge
    simp [h, ← hge]

theorem truth_isAfter {R : Record Value} (hid : R "id" = some (some (.uuid id)))
    (ht : R "created_at" = some (some (.timestamptz t))) (c l : Option Value) :
    isAfter.truth (server env db) [c, some (.uuid g), some (.timestamptz t'), l] R =
      some (some (decide (toLex (t', g) < toLex (t, id)))) := by
  have hrow : (server env db).rowOrder [some (.timestamptz t), some (.uuid id)]
      [some (.timestamptz t'), some (.uuid g)] =
        some (some (if t = t' then compare id g else compare t t')) := by
    rw [Server.rowOrder_cons _ (cellOrder_timestamptz _ _), Server.rowOrder_singleton,
      cellOrder_uuid]
    split_ifs <;> rfl
  have hlt : toLex (t', g) < toLex (t, id) ↔
      (if t = t' then compare id g else compare t t') = .gt := by
    rw [Prod.Lex.toLex_lt_toLex]
    split_ifs with heq
    · simp [heq, compare_gt_iff_gt]
    · simp [Ne.symm heq, compare_gt_iff_gt]
  simp [isAfter, hid, ht, hrow, hlt]

/-- The order of the newest rows. -/
theorem keysLe_newest (a b : Row) :
    OrderDual.toDual a.createdAt ≤ OrderDual.toDual b.createdAt ↔
      (server env db).keysLe [true] [some (.timestamptz a.createdAt)]
        [some (.timestamptz b.createdAt)] = true := by
  rw [Server.keysLe_cons (x := a.createdAt) (y := b.createdAt) _ rfl]
  simp [Server.keysLe, le_iff_lt_or_eq]

theorem keysLe_pageOrder (a b : Row) :
    pageOrder a ≤ pageOrder b ↔
      (server env db).keysLe [false, false] [some (.timestamptz a.createdAt), some (.uuid a.id)]
        [some (.timestamptz b.createdAt), some (.uuid b.id)] = true := by
  rw [Server.keysLe_cons (x := a.createdAt) (y := b.createdAt) _ rfl,
    Server.keysLe_cons (x := a.id) (y := b.id) _ rfl]
  simp only [pageOrder, Prod.Lex.toLex_le_toLex, le_iff_lt_or_eq (a := a.id)]
  simp [Server.keysLe]

theorem keysLe_claimOrder (a b : Row) :
    claimOrder a ≤ claimOrder b ↔
      (server env db).keysLe [false, false, false]
        [some (.int a.priority.toInt), some (.timestamptz a.createdAt), some (.uuid a.id)]
        [some (.int b.priority.toInt), some (.timestamptz b.createdAt), some (.uuid b.id)] =
          true := by
  rw [Server.keysLe_cons (x := a.priority.toInt) (y := b.priority.toInt) _ rfl, ← keysLe_pageOrder]
  simp [claimOrder, pageOrder, Prod.Lex.toLex_le_toLex]

/-! ## What the queries answer -/

/-- The cells of a key. -/
def keyCells (k : Key) : Cells Value := [some (.uuid k.1), some (.timestamptz k.2)]

variable (env db) in
theorem rowEq_keyCells (k k' : Key) :
    (server env db).rowEq (keyCells k) (keyCells k') = some (some (decide (k' = k))) := by
  have heq : k' = k ↔ k.1 = k'.1 ∧ k.2 = k'.2 := by rw [eq_comm, Prod.ext_iff]
  simp [keyCells, heq]

/-- The cells of `QS_COLS`. -/
def Row.cells (r : Row) : Cells Value :=
  [some (.uuid r.id), some (.text r.status.label), r.data.map .jsonb,
   some (.timestamptz r.createdAt), r.returnvalue.map .jsonb, r.failedreason.map .text,
   r.groupId.map .uuid]

theorem cells_qsItems (r : Row) :
    qsItems.cells (server env db) ps (r.record.within outer) = some r.cells := rfl

variable {β : Type} [LinearOrder β] {f : Row → β}

theorem rows_selectJobs {n : Option ℕ}
    (hc : ∀ r ∈ db.queue, cond.selects (server env db) ps (r.record.within outer) = some (p r))
    (hk : ∀ r ∈ db.queue, keys.cells (server env db) ps (r.record.within outer) = some (k r))
    (hle : ∀ a b, f a ≤ f b ↔ (server env db).keysLe desc (k a) (k b) = true)
    (hn : (limit.cells (server env db) ps fun _ => none).bind (server env db).limitOf = some n) :
    (selectJobs cond desc keys limit).rows (server env db) ps outer =
      some ((takeLimit (db.queue.orderBy f p) n).map Row.cells) :=
  Select.rows_eq _ _ rfl hc hk (fun a _ b _ => hle a b) hn fun r _ => cells_qsItems r

/-- Whether a row has the key of the first one that `cond` selects; unknown when there is none. -/
theorem truth_isFirst (r : Row)
    (hc : ∀ r' ∈ db.queue,
      cond.selects (server env db) ps (r'.record.within r.record) = some (p r'))
    (hk : ∀ r' ∈ db.queue,
      keys.cells (server env db) ps (r'.record.within r.record) = some (k r'))
    (hle : ∀ a b, f a ≤ f b ↔ (server env db).keysLe desc (k a) (k b) = true) :
    (isFirst cond desc keys).truth (server env db) ps r.record =
      some ((db.queue.orderBy f p).head?.map fun r' => decide (r'.key = r.key)) := by
  have hrow : (Expr.row (.of [.col "id", .col "created_at"])).cells (server env db) ps r.record =
      some (keyCells r.key) := rfl
  have hquery : (Select.mk ["id", "created_at"] (.of [.col "id", .col "created_at"]) queueScrape
      cond desc keys (.num 1)).rows (server env db) ps r.record =
        some ((takeLimit (db.queue.orderBy f p) (some 1)).map fun r' => keyCells r'.key) :=
    Select.rows_eq _ _ rfl hc hk (fun a _ b _ => hle a b) rfl fun r' _ => rfl
  rw [isFirst, Expr.truth, hrow, Expr.cells, hquery, takeLimit, List.take_one]
  cases (db.queue.orderBy f p).head? with
  | none => rfl
  | some r' => exact rowEq_keyCells env db r.key r'.key

theorem truth_isNewest (r : Row) :
    isNewest.truth (server env db) [some (.uuid id)] r.record =
      some ((db.latestById id).map fun r' => decide (r'.key = r.key)) :=
  truth_isFirst r (fun _ _ => Expr.selects_eq _ _ (truth_isId rfl) (by simp)) (fun _ _ => rfl)
    keysLe_newest

theorem truth_isNextQueued (r : Row) :
    isNextQueued.truth (server env db) ps r.record =
      some (db.nextQueued.map fun r' => decide (r'.key = r.key)) :=
  truth_isFirst r (fun _ _ => Expr.selects_eq _ _ (truth_isQueued rfl) (by simp)) (fun _ _ => rfl)
    keysLe_claimOrder

end Clauses

end FireCtrl
