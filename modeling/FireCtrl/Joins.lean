import FireCtrl.Execution
import FireCtrl.Lib.JoinSet
import FireCtrl.Worker

/-!
# Joining the scrapes of several URLs

A job or a request spawns a task for each URL, and joins them in the order in which they finish.

* `joinEach`: a `join_next` loop; `joinEach_execution`: it joins every task once.
* `Answers.joining`: answers with which the tasks finish in a given order and with given outcomes;
  `joinEach_joining`: what the loop makes of these.
-/

namespace FireCtrl

open Call (ext)
open JoinSet (left)

/-- What became of a task; `none` if it panicked. -/
abbrev Outcome := Option (Except AppError ScrapeResult)

/-- A `join_next` loop, where `f` makes something of each outcome. -/
def joinEach {σ : Type} (f : σ → Task → Outcome → σ) : ℕ → List Task → σ → Call σ
  | n + 1, t :: ts, s => do
    let (i, joined) ← ext (.joinNext t ts)
    joinEach f n ((t :: ts).eraseIdx i) (f s ((t :: ts).get i) joined)
  | _, _, s => pure s

namespace Log

/-- What an operation is answered, if it joins a task. -/
def outcomeBy : (o : Op) → o.Ans → Option (Task × Outcome)
  | .ext (.joinNext t ts), (i, outcome) => some ((t :: ts).get i, outcome)
  | _, _ => none

/-- The joined tasks and their outcomes, in order. -/
def outcomes (log : Log) : List (Task × Outcome) := log.filterMap fun x => outcomeBy x.1 x.2

/-- There are only joins in the log. -/
def Joining (log : Log) : Prop := ∀ x ∈ log, ∃ t ts, x.1 = .ext (.joinNext t ts)

variable {log l : Log}

@[simp] theorem outcomes_append : (log ++ l).outcomes = log.outcomes ++ l.outcomes := List.filterMap_append

theorem Joining.cons {t : Task} {ts : List Task} {a : (Op.ext (.joinNext t ts)).Ans} (h : Joining l) :
    Joining (⟨.ext (.joinNext t ts), a⟩ :: l) := by
  intro x hx
  rcases List.mem_cons.mp hx with rfl | hx
  · exact ⟨t, ts, rfl⟩
  · exact h x hx

theorem Joining.asked (h : Joining log) : log.asked = [] := by
  refine List.filterMap_eq_nil_iff.mpr fun x hx => ?_
  obtain ⟨t, ts, ht⟩ := h x hx
  rw [ht]

theorem Joining.stored (h : Joining log) : log.stored = [] := by
  refine List.filterMap_eq_nil_iff.mpr fun x hx => ?_
  obtain ⟨t, ts, ht⟩ := h x hx
  rw [ht]

end Log

/-! ## The loop -/

section Loop

variable {σ : Type} {f : σ → Task → Outcome → σ} {n : ℕ} {t : Task} {ts : List Task} {s : σ} {ρ : Answers}
  {log : Log}

/-- One round. -/
theorem joinEach_round {i : Fin (ts.length + 1)} {joined : Outcome}
    (h : ρ log (.ext (.joinNext t ts)) = (i, joined)) :
    (joinEach f (n + 1) (t :: ts) s).execution ρ log =
      (joinEach f n ((t :: ts).eraseIdx i) (f s ((t :: ts).get i) joined)).execution ρ
        (log ++ [⟨.ext (.joinNext t ts), (i, joined)⟩]) := by
  rw [joinEach, execution_ext_bind, h]

/-- **Every task is joined once**, and something is made of each outcome in turn. -/
theorem joinEach_execution (f : σ → Task → Outcome → σ) (ts : List Task) (s : σ) (ρ : Answers) (log : Log) :
    ∃ l : Log, (joinEach f ts.length ts s).execution ρ log =
        (.ok (l.outcomes.foldl (fun s x => f s x.1 x.2) s), log ++ l) ∧
      (l.outcomes.map Prod.fst).Perm ts ∧ l.Joining := by
  generalize hn : ts.length = n
  induction n generalizing ts s log with
  | zero =>
    rw [List.length_eq_zero_iff.mp hn]
    exact ⟨[], by rw [List.append_nil]; rfl, .nil, fun _ hx => absurd hx List.not_mem_nil⟩
  | succ n ih =>
    cases ts with
    | nil => cases hn
    | cons t ts =>
      rcases hans : ρ log (.ext (.joinNext t ts)) with ⟨i, joined⟩
      have hlen : ((t :: ts).eraseIdx i).length = n := by
        rw [List.length_eraseIdx_of_lt i.isLt, hn, Nat.add_sub_cancel]
      obtain ⟨l, hl, hperm, hjoins⟩ := ih ((t :: ts).eraseIdx i) (f s ((t :: ts).get i) joined)
        (log ++ [⟨.ext (.joinNext t ts), (i, joined)⟩]) hlen
      refine ⟨⟨.ext (.joinNext t ts), (i, joined)⟩ :: l, ?_, ?_, hjoins.cons⟩
      · rw [joinEach_round hans, hl, List.append_assoc]
        rfl
      · exact (hperm.cons _).trans (List.getElem_cons_eraseIdx_perm i.isLt)

end Loop

/-! ## Joining in a given order -/

section Order

variable {α : Type} [DecidableEq α]

/-- The tasks of `spawned` finish in the given order and with the given outcomes; all else is answered by
`ρ`. -/
def Answers.joining (ρ : Answers) (spawned order : List α) (outcome : α → Outcome) : Answers
  | log, .ext (.joinNext _ ts) =>
    let next := order[log.outcomes.length]?
    let i := (next.map fun a => (left spawned order log.outcomes.length).idxOf a).getD 0
    (⟨i % (ts.length + 1), Nat.mod_lt _ (Nat.succ_pos _)⟩, next.bind outcome)
  | log, o => ρ log o

variable {σ : Type} {f : σ → Task → Outcome → σ} {n k : ℕ} {s : σ} {ρ : Answers} {log : Log}
  {spawned order : List α} {outcome : α → Outcome} {task : α → Task}

/-- The next task to be joined. -/
theorem joining_next {t : Task} {ts : List Task} {a : α} (ρ : Answers) (outcome : α → Outcome)
    (horder : order.Perm spawned) (ha : order[log.outcomes.length]? = some a)
    (hts : t :: ts = (left spawned order log.outcomes.length).map task) :
    ∃ i : Fin (ts.length + 1), ρ.joining spawned order outcome log (.ext (.joinNext t ts)) = (i, outcome a) ∧
      (t :: ts).get i = task a ∧
      (t :: ts).eraseIdx i = (left spawned order (log.outcomes.length + 1)).map task := by
  obtain ⟨hlt, hsucc⟩ := JoinSet.left_succ horder ha
  have hlen : (left spawned order log.outcomes.length).length = ts.length + 1 := by
    rw [← List.length_map (f := task), ← hts, List.length_cons]
  have hval : (left spawned order log.outcomes.length).idxOf a % (ts.length + 1) =
      (left spawned order log.outcomes.length).idxOf a := Nat.mod_eq_of_lt (hlen ▸ hlt)
  refine ⟨⟨(left spawned order log.outcomes.length).idxOf a % (ts.length + 1), Nat.mod_lt _ (Nat.succ_pos _)⟩,
    by simp only [Answers.joining, ha, Option.map_some, Option.getD_some, Option.bind_some], ?_, ?_⟩
  · rw [List.get_eq_getElem]
    simp only [hts, hval, List.getElem_map, List.getElem_idxOf]
  · simp only [hval]
    rw [hts, List.eraseIdx_map, hsucc]

/-- The loop, when `k` tasks have been joined. -/
theorem joinEach_joining_drop (s : σ) (log : Log) (horder : order.Perm spawned)
    (hn : n = (left spawned order log.outcomes.length).length) :
    ∃ l : Log, (joinEach f n ((left spawned order log.outcomes.length).map task) s).execution
        (ρ.joining spawned order outcome) log =
        (.ok ((order.drop log.outcomes.length).foldl (fun s a => f s (task a) (outcome a)) s), log ++ l) ∧
      l.outcomes = (order.drop log.outcomes.length).map (fun a => (task a, outcome a)) ∧ l.Joining := by
  induction n generalizing s log with
  | zero =>
    have hleft := List.eq_nil_of_length_eq_zero hn.symm
    have hdrop : order.drop log.outcomes.length = [] :=
      List.perm_nil.mp (hleft ▸ JoinSet.left_perm horder log.outcomes.length).symm
    rw [hleft, hdrop]
    exact ⟨[], by rw [List.append_nil]; rfl, rfl, fun _ hx => absurd hx List.not_mem_nil⟩
  | succ n ih =>
    obtain ⟨t, ts, hts⟩ : ∃ t ts, (left spawned order log.outcomes.length).map task = t :: ts :=
      List.exists_cons_of_length_pos (by rw [List.length_map]; omega)
    have hlt : log.outcomes.length < order.length := by
      rw [JoinSet.length_left horder] at hn
      rw [horder.length_eq]
      omega
    have ha := List.getElem?_eq_getElem hlt
    obtain ⟨i, hans, hget, herase⟩ := joining_next ρ outcome horder ha hts.symm
    have hcount : (log ++ [⟨.ext (.joinNext t ts), (i, outcome order[log.outcomes.length])⟩] : Log).outcomes.length =
        log.outcomes.length + 1 := by
      rw [Log.outcomes_append, List.length_append]
      rfl
    have hlen : n = (left spawned order (log.outcomes.length + 1)).length := by
      rw [JoinSet.length_left horder] at hn ⊢
      omega
    obtain ⟨l, hl, houtcomes, hjoins⟩ := ih
      (f s (task order[log.outcomes.length]) (outcome order[log.outcomes.length]))
      (log ++ [⟨.ext (.joinNext t ts), (i, outcome order[log.outcomes.length])⟩]) (by rw [hcount]; exact hlen)
    rw [hcount] at hl houtcomes
    refine ⟨⟨.ext (.joinNext t ts), (i, outcome order[log.outcomes.length])⟩ :: l, ?_, ?_, hjoins.cons⟩
    · rw [hts, joinEach_round hans, hget, herase, hl, List.append_assoc, List.drop_eq_getElem_cons hlt]
      rfl
    · rw [List.drop_eq_getElem_cons hlt, List.map_cons, ← houtcomes, ← hget]
      rfl

variable (f s ρ outcome task) in
theorem joinEach_joining (horder : order.Perm spawned) :
    ∃ l : Log, (joinEach f spawned.length (spawned.map task) s).execution
        (ρ.joining spawned order outcome) [] =
        (.ok (order.foldl (fun s a => f s (task a) (outcome a)) s), l) ∧
      l.outcomes = order.map (fun a => (task a, outcome a)) ∧ l.Joining :=
  joinEach_joining_drop s [] horder rfl

end Order

/-- A page that says `md`. -/
def ScrapeResult.sample (url md : String) : ScrapeResult where
  url := url
  title := none
  markdown := some md
  html := none
  rawHtml := none
  screenshot := none
  links := none
  extract := none
  json := none
  warning := none
  metadata := { statusCode := 200, contentType := none, sourceUrl := url, scrapeId := none, error := none }

end FireCtrl
