import FireCtrl.Lib.Table
import FireCtrl.Models
import Mathlib.Data.Prod.Lex
import Mathlib.Order.OrderDual

/-!
# The database client (`database.rs`)

* `Row`, `GroupCrawlRow`: the rows of `nuq.queue_scrape` and `nuq.group_crawl`; `Db`: both tables,
  with their primary keys.
* `QueueUpdate`: an `UPDATE` of the queue, by the rows it selects and what it makes of one;
  `sqlCompleteJob` and its siblings are the statements the source writes out as text.
* `Db.enqueue`, .., `Db.getActiveGroups`: the methods of `DbClient`, each one atomic statement, except
  `cancel_group`, whose two statements are `Db.cancelGroupJobs` and `Db.cancelGroupRow`.
* `Query`: a statement with its arguments, and `Query.exec`, what it answers and leaves behind.
-/

namespace FireCtrl

/-- A row of `nuq.queue_scrape`. -/
structure Row where
  id : Uuid
  status : JobStatus
  data : Option Json
  createdAt : Timestamp
  priority : Int32
  lock : Option Uuid
  lockedAt : Option Timestamp
  stalls : Option ℤ
  finishedAt : Option Timestamp
  listenChannelId : Option String
  returnvalue : Option Json
  failedreason : Option String
  ownerId : Option Uuid
  groupId : Option Uuid

/-- The primary key of the queue. -/
abbrev Key := Uuid × Timestamp

def Row.key (r : Row) : Key := (r.id, r.createdAt)

/-- Both tables. -/
structure Db where
  queue : KTable Row.key
  groups : KTable GroupCrawlRow.id

/-- What a statement reads of the server: its clock, and the next `gen_random_uuid()`. -/
structure Env where
  now : Timestamp
  uuid : Uuid

def mapQueueRow (r : Row) : QueueScrapeRow where
  id := r.id
  status := r.status
  data := r.data
  createdAt := r.createdAt
  returnvalue := r.returnvalue
  failedreason := r.failedreason
  groupId := r.groupId

structure GroupCounts where
  completed : UInt32
  failed : UInt32
  pending : UInt32
  total : UInt32

/-- An error the server reports; its text leaves out what the server says. -/
def dbError (_message : String) : AppError := .postgres "db error"

/-- The range of `timestamptz`. -/
def minTimestamp : Timestamp := -210866803200000000
def maxTimestamp : Timestamp := 9224318015999999999

/-- The row that `enqueue` inserts, with the defaults of its columns. -/
def queuedRow (env : Env) (data : Json) (priority : Int32) (ownerId groupId : Option Uuid)
    (listenChannelId : Option String) : Row where
  id := env.uuid
  status := .queued
  data := some data
  createdAt := env.now
  priority := priority
  lock := none
  lockedAt := none
  stalls := none
  finishedAt := none
  listenChannelId := listenChannelId
  returnvalue := none
  failedreason := none
  ownerId := ownerId
  groupId := groupId

/-- The row that `enqueue_completed` inserts. -/
def completedRow (env : Env) (data returnvalue : Json) (priority : Int32)
    (ownerId groupId : Option Uuid) (listenChannelId : Option String) : Row :=
  { queuedRow env data priority ownerId groupId listenChannelId with
    status := .completed, returnvalue := some returnvalue, finishedAt := some env.now }

/-! ## Updates of the queue -/

/-- `UPDATE nuq.queue_scrape SET .. WHERE ..`. -/
structure QueueUpdate where
  selects : Row → Bool
  set : Row → Row
  key_set : ∀ r, (set r).key = r.key

namespace QueueUpdate

/-- What the update makes of a row. -/
def apply (u : QueueUpdate) (r : Row) : Row := if u.selects r then u.set r else r

/-- The tables after the update. -/
def run (u : QueueUpdate) (db : Db) : Db :=
  { db with queue := db.queue.update u.selects u.set u.key_set }

/-- The keys of the rows the update writes. -/
def affected (u : QueueUpdate) (db : Db) : List Key := db.queue.keysWhere u.selects

/-- The rows of `RETURNING`. -/
def returning (u : QueueUpdate) (db : Db) : List Row := (db.queue.rows.filter u.selects).map u.set

end QueueUpdate

/-- The order in which jobs are claimed. -/
def claimOrder (r : Row) : ℤ ×ₗ Timestamp ×ₗ Uuid := toLex (r.priority.toInt, toLex (r.createdAt, r.id))

/-- The order in which the rows of a group are listed. -/
def pageOrder (r : Row) : Timestamp ×ₗ Uuid := toLex (r.createdAt, r.id)

/-- The row that the subselect of `claim_next_job` finds. -/
def Db.nextQueued (db : Db) : Option Row :=
  (db.queue.orderBy claimOrder fun r => r.status = .queued).head?

/-- The newest row of an id. -/
def Db.latestById (db : Db) (id : Uuid) : Option Row :=
  (db.queue.orderBy (fun r => OrderDual.toDual r.createdAt) fun r => r.id = id).head?

def sqlClaimNextJob (env : Env) (lockId : Uuid) (db : Db) : QueueUpdate where
  selects r := db.nextQueued.map Row.key = some r.key
  set r := { r with status := .active, lock := some lockId, lockedAt := some env.now }
  key_set _ := rfl

def sqlCompleteJob (env : Env) (id : Uuid) (createdAt : Timestamp) (returnvalue : Json) :
    QueueUpdate where
  selects r := r.id = id ∧ r.createdAt = createdAt
  set r :=
    { r with status := .completed, returnvalue := some returnvalue, finishedAt := some env.now,
             lock := none, lockedAt := none }
  key_set _ := rfl

def sqlFailJob (env : Env) (id : Uuid) (createdAt : Timestamp) (reason : String) :
    QueueUpdate where
  selects r := r.id = id ∧ r.createdAt = createdAt
  set r :=
    { r with status := .failed, failedreason := some reason, finishedAt := some env.now,
             lock := none, lockedAt := none }
  key_set _ := rfl

def sqlCancelJobLatestById (env : Env) (id : Uuid) (db : Db) : QueueUpdate where
  selects r := (db.latestById id).map Row.key = some r.key ∧ (r.status = .queued ∨ r.status = .active)
  set r :=
    { r with status := .cancelled, finishedAt := some env.now, lock := none, lockedAt := none }
  key_set _ := rfl

/-- The first statement of `cancel_group`. -/
def sqlCancelGroupJobs (env : Env) (id : Uuid) : QueueUpdate where
  selects r := r.groupId = some id ∧ (r.status = .queued ∨ r.status = .active)
  set r :=
    { r with status := .cancelled, finishedAt := some env.now, lock := none, lockedAt := none }
  key_set _ := rfl

def sqlUpdateJobGroup (id : Uuid) (createdAt : Timestamp) (groupId : Uuid) : QueueUpdate where
  selects r := r.id = id ∧ r.createdAt = createdAt
  set r := { r with groupId := some groupId }
  key_set _ := rfl

/-- `staleAfter` in seconds. -/
def sqlRequeueStalledJobs (env : Env) (staleAfter : UInt64) : QueueUpdate where
  selects r := r.status = .active ∧ r.lockedAt.any fun t => t < env.now - staleAfter.toNat * 10 ^ 6
  set r :=
    { r with status := .queued, lock := none, lockedAt := none,
             stalls := some (r.stalls.getD 0 + 1) }
  key_set _ := rfl

/-- The statement fails as a whole when the cutoff leaves the range of timestamps or a stall count
the range of `int`. -/
def requeueError (env : Env) (staleAfter : UInt64) (db : Db) : Option AppError :=
  if env.now - staleAfter.toNat * 10 ^ 6 < minTimestamp then
    some (dbError "timestamp out of range")
  else if db.queue.rows.any fun r =>
      (sqlRequeueStalledJobs env staleAfter).selects r ∧ 2 ^ 31 - 1 ≤ r.stalls.getD 0 then
    some (dbError "integer out of range")
  else none

def sqlFailOverStalledJobs (env : Env) (maxStalls : Int32) : QueueUpdate where
  selects r := r.status = .queued ∧ r.stalls.any fun n => maxStalls.toInt ≤ n
  set r :=
    { r with status := .failed, failedreason := some "exceeded maximum stall count",
             finishedAt := some env.now }
  key_set _ := rfl

/-! ## `DbClient` -/

namespace Db

/-- A statement: its answer and the tables it leaves behind. -/
abbrev Stmt (α : Type) := Env → Db → Except AppError α × Db

/-- Insert a row into the queue. -/
def insertRow (r : Row) : Stmt QueueScrapeRow := fun _ db =>
  match db.queue.insert? r with
  | some queue => (.ok (mapQueueRow r), { db with queue })
  | none => (.error (dbError "duplicate key value violates unique constraint"), db)

def enqueue (data : Json) (priority : Int32) (ownerId groupId : Option Uuid)
    (listenChannelId : Option String) : Stmt QueueScrapeRow := fun env =>
  insertRow (queuedRow env data priority ownerId groupId listenChannelId) env

def enqueueCompleted (data returnvalue : Json) (priority : Int32) (ownerId groupId : Option Uuid)
    (listenChannelId : Option String) : Stmt QueueScrapeRow := fun env =>
  insertRow (completedRow env data returnvalue priority ownerId groupId listenChannelId) env

def claimNextJob (lockId : Uuid) : Stmt (Option QueueScrapeRow) := fun env db =>
  let u := sqlClaimNextJob env lockId db
  (.ok ((u.returning db).head?.map mapQueueRow), u.run db)

def completeJob (id : Uuid) (createdAt : Timestamp) (returnvalue : Json) : Stmt Unit :=
  fun env db =>
    let u := sqlCompleteJob env id createdAt returnvalue
    (if (u.affected db).length = 0 then .error (.notFound id.toString) else .ok (), u.run db)

def failJob (id : Uuid) (createdAt : Timestamp) (reason : String) : Stmt Unit := fun env db =>
  (.ok (), (sqlFailJob env id createdAt reason).run db)

def cancelJob (id : Uuid) : Stmt Unit := fun env db =>
  let u := sqlCancelJobLatestById env id db
  (if (u.affected db).length = 0 then .error (.notFound id.toString) else .ok (), u.run db)

/-- The lookup that the statement of `get_job` is written for; as the source assembles its text,
three line ends leave no blank between two words. -/
def getJob (id : Uuid) : Stmt QueueScrapeRow := fun _ db =>
  (match db.latestById id with
    | some r => .ok (mapQueueRow r)
    | none => .error (.notFound id.toString), db)

/-- A negative `LIMIT` is an error of the server. -/
def getGroupResults (groupId : Uuid) (limit : Int64) (afterId : Option Uuid)
    (afterCreatedAt : Option Timestamp) : Stmt (List QueueScrapeRow) := fun _ db =>
  if limit.toInt < 0 then (.error (dbError "LIMIT must not be negative"), db)
  else
    let rows :=
      match afterId, afterCreatedAt with
      | some aid, some ats => db.queue.orderBy pageOrder fun r =>
          r.groupId = some groupId ∧ toLex (ats, aid) < pageOrder r
      | _, _ => db.queue.orderBy pageOrder fun r => r.groupId = some groupId
    (.ok ((rows.take limit.toInt.toNat).map mapQueueRow), db)

/-- The counts of a group, cast to `u32`. -/
def groupCounts (db : Db) (groupId : Uuid) : GroupCounts :=
  let count (p : JobStatus → Bool) := db.queue.count fun r => r.groupId = some groupId ∧ p r.status
  { completed := .ofNat (count fun s => s = .completed)
    failed := .ofNat (count fun s => s = .failed)
    pending := .ofNat (count fun s => s = .queued ∨ s = .active)
    total := .ofNat (count fun _ => true) }

def getGroupCounts (groupId : Uuid) : Stmt GroupCounts := fun _ db =>
  (.ok (db.groupCounts groupId), db)

def createCrawlGroup (ownerId : Uuid) (ttlMs : Int64) : Stmt GroupCrawlRow := fun env db =>
  let expiresAt := env.now + ttlMs.toInt * 10 ^ 3
  if expiresAt < minTimestamp ∨ maxTimestamp < expiresAt then
    (.error (dbError "timestamp out of range"), db)
  else
    let g : GroupCrawlRow :=
      { id := env.uuid, status := .active, createdAt := env.now, ownerId, ttl := ttlMs.toInt,
        expiresAt := some expiresAt }
    match db.groups.insert? g with
    | some groups => (.ok g, { db with groups })
    | none => (.error (dbError "duplicate key value violates unique constraint"), db)

def getCrawlGroup (id : Uuid) : Stmt GroupCrawlRow := fun _ db =>
  (match db.groups.lookup id with
    | some g => .ok g
    | none => .error (.notFound id.toString), db)

/-- `UPDATE nuq.group_crawl SET status = .. WHERE id = ..`. -/
def updateGroup (id : Uuid) (status : GroupStatus) (db : Db) : Db :=
  { db with
    groups := db.groups.update (fun g => g.id = id) (fun g => { g with status }) fun _ => rfl }

def setGroupStatus (id : Uuid) (status : GroupStatus) : Stmt Unit := fun _ db =>
  (.ok (), db.updateGroup id status)

def cancelGroupJobs (id : Uuid) : Stmt Unit := fun env db =>
  (.ok (), (sqlCancelGroupJobs env id).run db)

/-- The second statement of `cancel_group`. -/
def cancelGroupRow (id : Uuid) : Stmt Unit := fun _ db => (.ok (), db.updateGroup id .cancelled)

def updateJobGroup (id : Uuid) (createdAt : Timestamp) (groupId : Uuid) : Stmt Unit :=
  fun _ db => (.ok (), (sqlUpdateJobGroup id createdAt groupId).run db)

def requeueStalledJobs (staleAfter : UInt64) : Stmt ℕ := fun env db =>
  let u := sqlRequeueStalledJobs env staleAfter
  match requeueError env staleAfter db with
  | some e => (.error e, db)
  | none => (.ok (u.affected db).length, u.run db)

def failOverStalledJobs (maxStalls : Int32) : Stmt ℕ := fun env db =>
  let u := sqlFailOverStalledJobs env maxStalls
  (.ok (u.affected db).length, u.run db)

def getActiveGroups : Stmt (List GroupCrawlRow) := fun _ db =>
  (.ok (db.groups.orderBy (fun g => OrderDual.toDual g.createdAt) fun g => g.status = .active), db)

end Db

/-! ## Statements as data -/

inductive Query
  | enqueue (data : Json) (priority : Int32) (ownerId groupId : Option Uuid)
      (listenChannelId : Option String)
  | enqueueCompleted (data returnvalue : Json) (priority : Int32) (ownerId groupId : Option Uuid)
      (listenChannelId : Option String)
  | claimNextJob (lockId : Uuid)
  | completeJob (id : Uuid) (createdAt : Timestamp) (returnvalue : Json)
  | failJob (id : Uuid) (createdAt : Timestamp) (reason : String)
  | cancelJob (id : Uuid)
  | getJob (id : Uuid)
  | getGroupResults (groupId : Uuid) (limit : Int64) (afterId : Option Uuid)
      (afterCreatedAt : Option Timestamp)
  | getGroupCounts (groupId : Uuid)
  | createCrawlGroup (ownerId : Uuid) (ttlMs : Int64)
  | getCrawlGroup (id : Uuid)
  | setGroupStatus (id : Uuid) (status : GroupStatus)
  | cancelGroupJobs (id : Uuid)
  | cancelGroupRow (id : Uuid)
  | updateJobGroup (id : Uuid) (createdAt : Timestamp) (groupId : Uuid)
  | requeueStalledJobs (staleAfter : UInt64)
  | failOverStalledJobs (maxStalls : Int32)
  | getActiveGroups

namespace Query

/-- What a statement returns when it succeeds. -/
@[reducible] def Out : Query → Type
  | enqueue .. | enqueueCompleted .. | getJob _ => QueueScrapeRow
  | claimNextJob _ => Option QueueScrapeRow
  | getGroupResults .. => List QueueScrapeRow
  | getGroupCounts _ => GroupCounts
  | createCrawlGroup .. | getCrawlGroup _ => GroupCrawlRow
  | requeueStalledJobs _ | failOverStalledJobs _ => ℕ
  | getActiveGroups => List GroupCrawlRow
  | _ => Unit

/-- Execute a statement. -/
def exec : (q : Query) → Db.Stmt q.Out
  | enqueue data priority ownerId groupId ch => Db.enqueue data priority ownerId groupId ch
  | enqueueCompleted data rv priority ownerId groupId ch =>
    Db.enqueueCompleted data rv priority ownerId groupId ch
  | claimNextJob lockId => Db.claimNextJob lockId
  | completeJob id createdAt rv => Db.completeJob id createdAt rv
  | failJob id createdAt reason => Db.failJob id createdAt reason
  | cancelJob id => Db.cancelJob id
  | getJob id => Db.getJob id
  | getGroupResults g limit aid ats => Db.getGroupResults g limit aid ats
  | getGroupCounts g => Db.getGroupCounts g
  | createCrawlGroup ownerId ttlMs => Db.createCrawlGroup ownerId ttlMs
  | getCrawlGroup id => Db.getCrawlGroup id
  | setGroupStatus id status => Db.setGroupStatus id status
  | cancelGroupJobs id => Db.cancelGroupJobs id
  | cancelGroupRow id => Db.cancelGroupRow id
  | updateJobGroup id createdAt g => Db.updateJobGroup id createdAt g
  | requeueStalledJobs staleAfter => Db.requeueStalledJobs staleAfter
  | failOverStalledJobs maxStalls => Db.failOverStalledJobs maxStalls
  | getActiveGroups => Db.getActiveGroups

end Query

end FireCtrl
