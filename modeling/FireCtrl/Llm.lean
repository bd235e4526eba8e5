import FireCtrl.ExtractJob
import FireCtrl.ExtractJson
import FireCtrl.Lib.Retry
import Mathlib.Algebra.Group.Action.Defs
import Mathlib.Algebra.Order.BigOperators.Group.List

/-!
# The client of the model (`llm.rs`)

* `rawChatComplete`: one completion, for which the provider is asked once or twice.
* `LlmClient.extract`: the attempts to get a completion, each with less of the content, and what is read of
  the first one; `extractFrom_eq`: they are a loop of `Retry`.
* **`extract_events`**: what is sent, and when the client waits. **`extract_eq_iff`**: what it returns.
* `extractJson_isInfix`: what is read is a part of the completion; **`runExtract_stored`**: what an extract
  job stores has been read of one.
-/

namespace FireCtrl

open Retry (Verdict retry attempts Undecided)
open Text

/-! ## Settings and requests -/

structure LlmConfig where
  baseUrl : String
  apiKey : String
  modelName : String
  embeddingModel : Option String
  ollamaBaseUrl : Option String
  timeoutSeconds : UInt64
  maxRetries : UInt32
  maxInputChars : ℕ

def LlmConfig.isConfigured (cfg : LlmConfig) : Bool := cfg.apiKey ≠ "" || cfg.ollamaBaseUrl.isSome

/-- What the client uses of `serde_json` and of `http`. -/
structure LlmCrates where
  numbers : NumberText
  toStringPretty : Json → String
  headerValue : String → Except String String

/-- A `POST` to the provider. -/
structure ChatRequest where
  url : String
  headers : List (String × String)
  body : Json

/-- What becomes of a request: it fails or its status is an error, its body cannot be read, it is answered, or
the timeout of the attempt is over. -/
inductive ChatAnswer
  | refused (e : String)
  | unreadable (e : String)
  | answered (resp : Json)
  | elapsed

/-- The answers of the provider, by attempt; in an attempt, to the request without the tuning parameter, or
to the one with it. -/
abbrev Provider := ℕ → Bool → ChatAnswer

structure LlmCompletion where
  text : String
  warning : Option String

/-- What becomes of an attempt. -/
inductive Attempt
  | completed (c : LlmCompletion)
  | failed (e : String)
  | elapsed

/-- The error of an attempt without a completion. -/
def Attempt.failure : Attempt → String
  | completed _ => ""
  | failed e => "LLM request failed: " ++ e
  | elapsed => "LLM request timed out"

/-! ## Completions -/

/-- `Value::get` with an index. -/
def Json.nth? : Json → ℕ → Option Json
  | .arr xs, i => xs[i]?
  | _, _ => none

/-- `choices[0].message.content` of a response. -/
def completionText (resp : Json) : Option String :=
  ((((resp.get? "choices").bind (·.nth? 0)).bind (·.get? "message")).bind (·.get? "content")).bind Json.asStr

/-- The completion in an answer after which the provider is not asked again. -/
def settle (warning : Option String) : ChatAnswer → Attempt
  | .refused e => .failed e
  | .unreadable e => .failed e
  | .elapsed => .elapsed
  | .answered resp =>
    match completionText resp with
    | some text => .completed ⟨text, warning⟩
    | none => .failed "LLM returned empty response"

def reasoningWarning : String :=
  "Provider rejected optional reasoning tuning parameter; request retried without it."

section Client

variable (crates : LlmCrates) (cfg : LlmConfig)

def chatHeaders : Except String (List (String × String)) :=
  let contentType := ("content-type", "application/json")
  if cfg.apiKey ≠ "" then
    (crates.headerValue ("Bearer " ++ cfg.apiKey)).map fun value => [contentType, ("authorization", value)]
  else .ok [contentType]

def chatBody (reasoning : Bool) (system user : String) : Json :=
  let message (role content : String) : Json := .obj [("role", .str role), ("content", .str content)]
  .obj ([("model", .str cfg.modelName),
    -- the double that is written 0.1
    ("temperature", .num (.float 0x3fb999999999999a))] ++
    (if reasoning then [("reasoning_effort", .str "none")] else []) ++
    [("messages", .arr [message "system" system, message "user" user])])

/-- The request for a completion, with or without the tuning parameter. -/
def chatRequest (headers : List (String × String)) (system user : String) (reasoning : Bool) : ChatRequest where
  url := String.ofList (cfg.baseUrl.toList.rdropWhile (· = '/')) ++ "/chat/completions"
  headers := headers
  body := chatBody cfg reasoning system user

def rawChatComplete (system user : String) (answer : Bool → ChatAnswer) : Attempt × List ChatRequest :=
  match chatHeaders crates cfg with
  | .error e => (.failed e, [])
  | .ok headers =>
    let request := chatRequest cfg headers system user
    if containsStr cfg.baseUrl "api.groq.com" then (settle none (answer false), [request false])
    else
      match answer true with
      | .refused _ => (settle (some reasoningWarning) (answer false), [request true, request false])
      | a => (settle none a, [request true])

end Client

/-! ## Attempts -/

namespace ExtractionRequest

variable (crates : LlmCrates) (req : ExtractionRequest)

def effectiveSystemPrompt : String :=
  req.systemPrompt.getD <|
    match req.schema with
    | some schema =>
      "You are a data extraction assistant. Extract information from the provided content according to this " ++
        "JSON schema:\n" ++ crates.toStringPretty schema ++ "\n\nReturn ONLY valid JSON that matches the " ++
        "schema, with no markdown fences or prose."
    | none =>
      "You are a data extraction assistant. Extract the requested information from the provided content and " ++
        "return it as valid JSON only, with no markdown fences or additional prose."

/-- How much of the content is sent in a later attempt. -/
def maxChars (attempt : ℕ) : ℕ := max (24000 / (attempt + 1)) 6000

/-- The content of an attempt. -/
def attemptContent (attempt : ℕ) : String :=
  if attempt = 0 then req.content else String.ofList (req.content.toList.take (maxChars attempt))

def userMessage (attempt : ℕ) : String :=
  "Content:\n" ++ req.attemptContent attempt ++ "\n\nExtraction Request:\n" ++ req.effective.prompt

variable {req}

/-- A later attempt sends a part of the content. -/
theorem attemptContent_isPrefix {j k : ℕ} (h : j ≤ k) :
    (req.attemptContent k).toList <+: (req.attemptContent j).toList := by
  unfold attemptContent
  by_cases hj : j = 0
  · rw [if_pos hj]
    split_ifs
    · exact List.prefix_refl _
    · rw [String.toList_ofList]
      exact List.take_prefix _ _
  · have hk : k ≠ 0 := by omega
    have hmax : maxChars k ≤ maxChars j :=
      max_le_max_right 6000 (Nat.div_le_div_left (Nat.succ_le_succ h) (Nat.succ_pos j))
    rw [if_neg hj, if_neg hk, String.toList_ofList, String.toList_ofList]
    exact (List.take_prefix_take_left hmax)

theorem length_attemptContent_le {k : ℕ} (hk : k ≠ 0) :
    (req.attemptContent k).length ≤ maxChars k := by
  rw [attemptContent, if_neg hk, String.length_ofList, List.length_take]
  exact Nat.min_le_left _ _

end ExtractionRequest

/-- What the client does: it sends a request, or waits for some seconds. -/
inductive LlmEvent
  | post (r : ChatRequest)
  | sleep (seconds : UInt64)

def LlmEvent.request? : LlmEvent → Option ChatRequest
  | post r => some r
  | sleep _ => none

namespace LlmClient

variable (crates : LlmCrates) (cfg : LlmConfig) (provider : Provider) (req : ExtractionRequest)

/-- An attempt, and its requests. -/
def chatComplete (attempt : ℕ) : Attempt × List ChatRequest :=
  rawChatComplete crates cfg (req.effectiveSystemPrompt crates) (req.userMessage attempt) (provider attempt)

/-- What is read of a completion; `none` is a panic. -/
def readCompletion (c : LlmCompletion) : Option (Except String ExtractionResult) :=
  match extractJson c.text.toList with
  | none => none
  | some (.error e) => some (.error e)
  | some (.ok t) =>
    match fromStr crates.numbers t with
    | some data => some (.ok ⟨data, c.warning⟩)
    | none => some (.error "Failed to parse LLM response as JSON")

/-- The attempts that are left, `n` of them from `attempt` on, with what the client does. -/
def extractFrom : ℕ → ℕ → String → Option (Except String ExtractionResult) × List LlmEvent
  | 0, _, lastErr => (some (.error lastErr), [])
  | n + 1, attempt, _ =>
    let sent := (chatComplete crates cfg provider req attempt).2.map LlmEvent.post
    -- `2u64.pow(attempt)`, in release builds
    let pause := if attempt + 1 < cfg.maxRetries.toNat then [LlmEvent.sleep (2 ^ attempt)] else []
    match (chatComplete crates cfg provider req attempt).1 with
    | .completed c => (readCompletion crates c, sent)
    | a =>
      let rest := extractFrom n (attempt + 1) a.failure
      (rest.1, sent ++ pause ++ rest.2)

/-- `LlmClient::extract`; `none` is a panic. -/
def extract : Option (Except String ExtractionResult) × List LlmEvent :=
  extractFrom crates cfg provider req cfg.maxRetries.toNat 0 "LLM extraction failed"

/-! ## The loop -/

/-- What an attempt comes to. -/
def verdict (attempt : ℕ) : Verdict String LlmCompletion :=
  match (chatComplete crates cfg provider req attempt).1 with
  | .completed c => .stop c
  | a => .again a.failure

/-- What the loop returns. -/
def result : Except String LlmCompletion → Option (Except String ExtractionResult)
  | .ok c => readCompletion crates c
  | .error e => some (.error e)

/-- What is sent in an attempt, and the pause behind it if there is another one. -/
def eventsOf (more : Bool) (attempt : ℕ) : List LlmEvent :=
  (chatComplete crates cfg provider req attempt).2.map .post ++ if more then [.sleep (2 ^ attempt)] else []

section Loop

variable {crates cfg provider req} {c : LlmCompletion} {k : ℕ}

theorem verdict_eq_stop :
    verdict crates cfg provider req k = .stop c ↔ (chatComplete crates cfg provider req k).1 = .completed c := by
  unfold verdict
  cases (chatComplete crates cfg provider req k).1 with
  | completed c' => simp
  | failed | elapsed => exact iff_of_false (fun h => by cases h) (fun h => by cases h)

theorem verdict_eq_again {e : String} : verdict crates cfg provider req k = .again e ↔
    (∀ c, (chatComplete crates cfg provider req k).1 ≠ .completed c) ∧
      e = (chatComplete crates cfg provider req k).1.failure := by
  unfold verdict
  cases (chatComplete crates cfg provider req k).1 with
  | completed c => exact iff_of_false (fun h => by cases h) fun h => h.1 c rfl
  | failed | elapsed =>
    refine ⟨fun h => ?_, fun h => by rw [h.2]⟩
    cases h
    exact ⟨fun _ h => (by cases h), rfl⟩

theorem extractFrom_stop (hv : verdict crates cfg provider req k = .stop c) (n : ℕ) (lastErr : String) :
    extractFrom crates cfg provider req (n + 1) k lastErr =
      (readCompletion crates c, eventsOf crates cfg provider req false k) := by
  rw [extractFrom, verdict_eq_stop.mp hv]
  simp [eventsOf]

theorem extractFrom_again {e : String} (hv : verdict crates cfg provider req k = .again e) (n : ℕ)
    (lastErr : String) : extractFrom crates cfg provider req (n + 1) k lastErr =
      ((extractFrom crates cfg provider req n (k + 1) e).1,
        eventsOf crates cfg provider req (k + 1 < cfg.maxRetries.toNat) k ++
          (extractFrom crates cfg provider req n (k + 1) e).2) := by
  obtain ⟨hno, rfl⟩ := verdict_eq_again.mp hv
  rw [extractFrom]
  split
  · rename_i heq
    exact absurd heq (hno _)
  · simp [eventsOf]

/-- The loop is one of `Retry`. -/
theorem extractFrom_eq (n k : ℕ) (lastErr : String) (hn : k + n = cfg.maxRetries.toNat) :
    let made := attempts (verdict crates cfg provider req) n k
    extractFrom crates cfg provider req n k lastErr =
      (result crates (retry (verdict crates cfg provider req) n k lastErr),
        made.flatMap fun i => eventsOf crates cfg provider req (i + 1 < k + made.length) i) := by
  induction n generalizing k lastErr with
  | zero => rfl
  | succ n ih =>
    intro made
    cases hv : verdict crates cfg provider req k with
    | stop c =>
      have hmade : made = [k] := by
        show attempts _ (n + 1) k = _
        rw [attempts, hv]
      rw [hmade, extractFrom_stop hv, retry, hv]
      simp [result]
    | again e =>
      have hmade : made = k :: attempts (verdict crates cfg provider req) n (k + 1) := by
        show attempts _ (n + 1) k = _
        rw [attempts, hv]
      -- there is another attempt exactly if the client waits for it
      have hmore : k + 1 < cfg.maxRetries.toNat ↔ k + 1 < k + made.length := by
        have hpos := Retry.length_attempts_pos (verdict crates cfg provider req) n (k + 1)
        rw [hmade, List.length_cons]
        omega
      have hlen : k + made.length = k + 1 + (attempts (verdict crates cfg provider req) n (k + 1)).length := by
        rw [hmade, List.length_cons]
        omega
      rw [extractFrom_again hv, ih (k + 1) e (by omega), retry, hv]
      simp only [hmore, hlen]
      rw [hmade, List.flatMap_cons]

end Loop

/-! ## What is sent -/

section Sent

/-- The requests of an attempt, if all of them are sent. -/
def requests (attempt : ℕ) : List ChatRequest :=
  match chatHeaders crates cfg with
  | .error _ => []
  | .ok headers =>
    [true, false].map (chatRequest cfg headers (req.effectiveSystemPrompt crates) (req.userMessage attempt))

variable {crates cfg provider req}

theorem length_requests_le (k : ℕ) : (requests crates cfg req k).length ≤ 2 := by
  unfold requests
  split
  · exact Nat.zero_le 2
  · exact Nat.le_refl 2

theorem chatComplete_sublist (k : ℕ) :
    (chatComplete crates cfg provider req k).2.Sublist (requests crates cfg req k) := by
  unfold chatComplete rawChatComplete requests
  split
  · exact List.Sublist.refl _
  · dsimp only
    split_ifs
    · exact (List.Sublist.refl _).cons _
    · split
      · exact List.Sublist.refl _
      · exact (List.nil_sublist _).cons_cons _

theorem requests_eventsOf (more : Bool) (k : ℕ) :
    (eventsOf crates cfg provider req more k).filterMap LlmEvent.request? =
      (chatComplete crates cfg provider req k).2 := by
  have hpause : (if more then [LlmEvent.sleep (2 ^ k)] else []).filterMap LlmEvent.request? = [] := by
    cases more <;> rfl
  rw [eventsOf, List.filterMap_append, hpause, List.append_nil, List.filterMap_map]
  exact List.filterMap_some

end Sent

/-- **What the client does**: attempts one after the other until one has a completion, or `max_retries` are made;
in attempt `k` it sends at most two requests, and before the next one it waits for `2 ^ k` seconds. No attempt
sends more of the content than those before it. -/
theorem extract_events : ∃ m ≤ cfg.maxRetries.toNat,
    (extract crates cfg provider req).2 =
        (List.range m).flatMap (fun k => eventsOf crates cfg provider req (k + 1 < m) k) ∧
      (∀ k, k + 1 < m → ∀ c, (chatComplete crates cfg provider req k).1 ≠ .completed c) ∧
      (m < cfg.maxRetries.toNat → ∃ k c, m = k + 1 ∧ (chatComplete crates cfg provider req k).1 = .completed c) ∧
      (∀ k, (chatComplete crates cfg provider req k).2.Sublist (requests crates cfg req k)) ∧
      ((extract crates cfg provider req).2.filterMap LlmEvent.request?).length ≤ 2 * m ∧
      ∀ j k, j < k → (req.attemptContent k).toList <+: (req.attemptContent j).toList ∧
        (req.attemptContent k).length ≤ ExtractionRequest.maxChars k := by
  let made := attempts (verdict crates cfg provider req) cfg.maxRetries.toNat 0
  have hmade : made = List.range made.length := by
    rw [List.range_eq_range']
    exact Retry.attempts_eq_range' _ _ _
  have hevents : (extract crates cfg provider req).2 =
      (List.range made.length).flatMap fun k => eventsOf crates cfg provider req (k + 1 < made.length) k := by
    have h := congrArg Prod.snd (@extractFrom_eq crates cfg provider req cfg.maxRetries.toNat 0
      "LLM extraction failed" (Nat.zero_add _))
    simp only [Nat.zero_add] at h
    rw [← hmade]
    exact h
  refine ⟨made.length, Retry.length_attempts_le _ _ _, hevents, fun k hk c => ?_, fun hlt => ?_,
    chatComplete_sublist, ?_,
    fun j k hjk => ⟨req.attemptContent_isPrefix hjk.le, req.length_attemptContent_le (by omega)⟩⟩
  · obtain ⟨e, he⟩ := Retry.exists_again hk
    rw [Nat.zero_add] at he
    exact (verdict_eq_again.mp he).1 c
  · obtain ⟨k, c, hlen, hstop⟩ := Retry.exists_stop hlt
    rw [Nat.zero_add] at hstop
    exact ⟨k, c, hlen, verdict_eq_stop.mp hstop⟩
  · rw [hevents, List.filterMap_flatMap]
    simp only [requests_eventsOf]
    rw [List.length_flatMap]
    have hsum := List.sum_le_card_nsmul
      ((List.range made.length).map fun k => (chatComplete crates cfg provider req k).2.length) 2 fun x hx => by
        obtain ⟨k, -, rfl⟩ := List.mem_map.mp hx
        exact (chatComplete_sublist k).length_le.trans (length_requests_le k)
    rw [List.length_map, List.length_range, smul_eq_mul] at hsum
    rw [Nat.mul_comm]
    exact hsum

/-! ## What is returned -/

/-- The error after `n` attempts without a completion. -/
def lastError : ℕ → String
  | 0 => "LLM extraction failed"
  | n + 1 => (chatComplete crates cfg provider req n).1.failure

/-- Either an attempt has a completion, and the first one is read, or the error of the last one is returned. -/
theorem extract_cases :
    (∃ k < cfg.maxRetries.toNat, (∀ j < k, ∀ c, (chatComplete crates cfg provider req j).1 ≠ .completed c) ∧
        ∃ c, (chatComplete crates cfg provider req k).1 = .completed c ∧
          (extract crates cfg provider req).1 = readCompletion crates c) ∨
      (∀ k < cfg.maxRetries.toNat, ∀ c, (chatComplete crates cfg provider req k).1 ≠ .completed c) ∧
        (extract crates cfg provider req).1 =
          some (.error (lastError crates cfg provider req cfg.maxRetries.toNat)) := by
  have hund (n : ℕ) : Undecided (verdict crates cfg provider req) 0 n ↔
      ∀ j < n, ∀ c, (chatComplete crates cfg provider req j).1 ≠ .completed c := by
    refine forall_congr' fun j => imp_congr_right fun _ => ?_
    rw [Nat.zero_add]
    constructor
    · rintro ⟨e, he⟩
      exact (verdict_eq_again.mp he).1
    · exact fun h => ⟨_, verdict_eq_again.mpr ⟨h, rfl⟩⟩
  have hres : (extract crates cfg provider req).1 = result crates
      (retry (verdict crates cfg provider req) cfg.maxRetries.toNat 0 "LLM extraction failed") :=
    congrArg Prod.fst (extractFrom_eq _ 0 _ (Nat.zero_add _))
  rw [hres]
  rcases Retry.retry_cases (verdict crates cfg provider req) cfg.maxRetries.toNat 0 with
    ⟨i, c, hi, hno, hstop⟩ | hno
  · rw [Retry.retry_of_stop hno hstop hi]
    rw [Nat.zero_add, verdict_eq_stop] at hstop
    exact .inl ⟨i, hi, (hund i).mp hno, c, hstop, rfl⟩
  · have herror : retry (verdict crates cfg provider req) cfg.maxRetries.toNat 0 "LLM extraction failed" =
        .error (lastError crates cfg provider req cfg.maxRetries.toNat) := by
      refine Retry.retry_eq_error_iff.mpr ⟨hno, ?_⟩
      cases hn : cfg.maxRetries.toNat with
      | zero => exact .inl ⟨rfl, rfl⟩
      | succ n =>
        refine .inr ⟨n, rfl, ?_⟩
        rw [Nat.zero_add, verdict_eq_again]
        exact ⟨(hund _).mp hno n (by omega), rfl⟩
    rw [herror]
    exact .inr ⟨(hund _).mp hno, rfl⟩

/-- **What `extract` returns**: what is read of the first completion, even if that is an error, or else the
error of the last attempt. -/
theorem extract_eq_iff {res : Option (Except String ExtractionResult)} :
    (extract crates cfg provider req).1 = res ↔
      (∃ k < cfg.maxRetries.toNat, (∀ j < k, ∀ c, (chatComplete crates cfg provider req j).1 ≠ .completed c) ∧
        ∃ c, (chatComplete crates cfg provider req k).1 = .completed c ∧ readCompletion crates c = res) ∨
      (∀ k < cfg.maxRetries.toNat, ∀ c, (chatComplete crates cfg provider req k).1 ≠ .completed c) ∧
        some (.error (lastError crates cfg provider req cfg.maxRetries.toNat)) = res := by
  rcases @extract_cases crates cfg provider req with ⟨i, hi, hno, c, hc, heq⟩ | ⟨hno, heq⟩
  · rw [heq]
    constructor
    · intro h
      exact .inl ⟨i, hi, hno, c, hc, h⟩
    · rintro (⟨k, hk, hbefore, c', hc', hread⟩ | ⟨hnone, -⟩)
      · -- there is only one first completion
        have hik : k = i := by
          by_contra hne
          rcases Nat.lt_or_gt_of_ne hne with hlt | hlt
          · exact hno k hlt c' hc'
          · exact hbefore i hlt c hc
        subst hik
        rw [hc] at hc'
        cases hc'
        exact hread
      · exact absurd hc (hnone i hi c)
  · rw [heq]
    constructor
    · intro h
      exact .inr ⟨hno, h⟩
    · rintro (⟨k, hk, -, c, hc, -⟩ | ⟨-, h⟩)
      · exact absurd hc (hno k hk c)
      · exact h

end LlmClient

/-! ## Where the data comes from -/

section Parts

variable {t x : List Char}

theorem between_isInfix {fence : List Char} {s : List Char × List Char} (h : between fence t = some s) :
    s.1 <:+: t := by
  obtain ⟨⟨a, b⟩, ha, hb⟩ := Option.bind_eq_some_iff.mp h
  have hb : b = s.1 ++ (mark ++ s.2) := cut_spec hb
  have hpart : s.1 <:+: b := hb ▸ (List.prefix_append s.1 _).isInfix
  have hrest : b <:+: t := cut_spec ha ▸ (((List.suffix_append fence b).trans (List.suffix_append a _)).isInfix)
  exact hpart.trans hrest

theorem embedded_isInfix {o c : Char} (h : embedded o c t = some (some x)) : x <:+: t := by
  unfold embedded at h
  split at h
  · obtain ⟨y, hy, hxy⟩ := Option.map_eq_some_iff.mp h
    cases hxy
    exact slice?_isInfix hy
  · cases h

theorem extractEmbedded_isInfix (h : extractEmbedded t = some (.ok x)) : x <:+: t := by
  unfold extractEmbedded at h
  rcases hobj : embedded '{' '}' t with _ | _ | y
  · rw [hobj] at h
    cases h
  · rw [hobj] at h
    rcases harr : embedded '[' ']' t with _ | _ | z
    · rw [harr] at h
      cases h
    · rw [harr] at h
      cases h
    · rw [harr] at h
      cases h
      exact embedded_isInfix harr
  · rw [hobj] at h
    cases h
    exact embedded_isInfix hobj

/-- What is extracted is a part of the text. -/
theorem extractJson_isInfix {content : List Char} (h : extractJson content = some (.ok x)) : x <:+: content := by
  have htrim := trim_isInfix isWhitespace content
  rw [extractJson_eq rfl] at h
  refine List.IsInfix.trans ?_ htrim
  split_ifs at h with hstart
  · cases h
    exact List.infix_refl _
  · split at h
    · rename_i s hs
      cases h
      exact (trim_isInfix _ _).trans (between_isInfix hs)
    · split at h
      · rename_i y hy
        split_ifs at h
        · cases h
          obtain ⟨s, hs, rfl⟩ := Option.map_eq_some_iff.mp hy
          exact (trim_isInfix _ _).trans (between_isInfix hs)
        · exact extractEmbedded_isInfix h
      · exact extractEmbedded_isInfix h

end Parts

section Served

variable {crates : LlmCrates} {cfg : LlmConfig}

/-- A completion is the text of an answer; the warning tells that the tuning parameter was refused. -/
theorem rawChatComplete_completed {system user : String} {answer : Bool → ChatAnswer} {c : LlmCompletion}
    (h : (rawChatComplete crates cfg system user answer).1 = .completed c) :
    ∃ reasoning resp, answer reasoning = .answered resp ∧ completionText resp = some c.text ∧
      (c.warning.isSome → ∃ e, answer true = .refused e) := by
  have hsettle {w : Option String} {a : ChatAnswer} (hs : settle w a = .completed c) :
      ∃ resp, a = .answered resp ∧ completionText resp = some c.text ∧ c.warning = w := by
    unfold settle at hs
    split at hs
    · cases hs
    · cases hs
    · cases hs
    · split at hs
      · rename_i htext
        cases hs
        exact ⟨_, rfl, htext, rfl⟩
      · cases hs
  unfold rawChatComplete at h
  split at h
  · cases h
  · dsimp only at h
    split_ifs at h
    · obtain ⟨resp, ha, htext, hw⟩ := hsettle h
      exact ⟨false, resp, ha, htext, fun hsome => by rw [hw] at hsome; cases hsome⟩
    · split at h
      · rename_i e hrefused
        obtain ⟨resp, ha, htext, -⟩ := hsettle h
        exact ⟨false, resp, ha, htext, fun _ => ⟨e, hrefused⟩⟩
      · obtain ⟨resp, ha, htext, hw⟩ := hsettle h
        exact ⟨true, resp, ha, htext, fun hsome => by rw [hw] at hsome; cases hsome⟩

/-- Data is read of a part of an answer, to one of the first `max_retries` attempts. -/
theorem LlmClient.extract_ok {provider : Provider} {req : ExtractionRequest} {x : ExtractionResult}
    (h : (extract crates cfg provider req).1 = some (.ok x)) :
    ∃ k < cfg.maxRetries.toNat, ∃ reasoning resp text t, provider k reasoning = .answered resp ∧
      completionText resp = some text ∧ t <:+: text.toList ∧ fromStr crates.numbers t = some x.data ∧
      (x.warning.isSome → ∃ e, provider k true = .refused e) := by
  rcases extract_cases crates cfg provider req with ⟨k, hk, -, c, hc, heq⟩ | ⟨-, herror⟩
  · have hread := heq.symm.trans h
    obtain ⟨reasoning, resp, ha, htext, hwarning⟩ := rawChatComplete_completed hc
    unfold readCompletion at hread
    split at hread
    · cases hread
    · cases hread
    · rename_i t ht
      split at hread
      · rename_i data hdata
        cases hread
        exact ⟨k, hk, reasoning, resp, c.text, t, ha, htext, extractJson_isInfix ht, hdata, hwarning⟩
      · cases hread
  · rw [h] at herror
    cases herror

/-- The model is asked through the client, which does not panic. -/
def ServedBy (ρ : Answers) (crates : LlmCrates) (cfg : LlmConfig) (provider : Log → Provider) : Prop :=
  ∀ log req, (LlmClient.extract crates cfg (provider log) req).1 = some (ρ log (.ext (.llmExtract req)))

/-- **What an extract job stores** has been read of a part of an answer of the provider, which was asked about
the joined pages. -/
theorem runExtract_stored {urls : UrlCrate} {jobId : Uuid} {createdAt : Timestamp} {job : ExtractJobData}
    {ρ : Answers} {provider : Log → Provider} {v : Json} (hρ : ServedBy ρ crates cfg provider)
    (hv : v ∈ ((runExtract urls jobId createdAt job).execution ρ []).2.stored) :
    ∃ log data, v = .obj [("data", data)] ∧ log <+: ((runExtract urls jobId createdAt job).execution ρ []).2 ∧
      ((runExtract urls jobId createdAt job).execution ρ []).2.asked =
        [extractRequest job (ExtractionPath.joinedText log)] ∧
      ∃ k < cfg.maxRetries.toNat, ∃ reasoning resp text t, provider log k reasoning = .answered resp ∧
        completionText resp = some text ∧ t <:+: text.toList ∧ fromStr crates.numbers t = some data := by
  obtain ⟨l, x, hl, hjoins, ha, rfl⟩ := exists_extracted hv
  have hserved := hρ l (extractRequest job (ExtractionPath.joinedText l))
  rw [ha] at hserved
  obtain ⟨k, hk, reasoning, resp, text, t, hanswer, htext, hpart, hdata, -⟩ := LlmClient.extract_ok hserved
  rw [runExtract_of_ok hl ha]
  refine ⟨l, x.data, rfl, ?_, ?_, k, hk, reasoning, resp, text, t, hanswer, htext, hpart, hdata⟩
  · rw [extractedLog, List.append_assoc]
    exact List.prefix_append _ _
  · rw [extractedLog, Log.asked_append, Log.asked_append, hjoins.asked]
    rfl

end Served

/-! ## A provider -/

/-- One attempt, without a key. -/
def LlmConfig.sample : LlmConfig where
  baseUrl := "http://localhost:11434/v1"
  apiKey := ""
  modelName := "llama3"
  embeddingModel := none
  ollamaBaseUrl := some "http://localhost:11434/v1"
  timeoutSeconds := 10
  maxRetries := 1
  maxInputChars := 24000

def LlmCrates.sample : LlmCrates where
  numbers := .sample
  toStringPretty _ := "\x7b\x7d"
  headerValue := .ok

/-- A provider that answers with an empty object in prose. -/
def Provider.sample : Provider := fun _ _ =>
  .answered (.obj [("choices", .arr [.obj [("message", .obj [("content", .str "Here: \x7b\x7d.")])]])])

/-- The model is asked through the client. -/
def Answers.served : Answers
  | _, .ext (.llmExtract req) => (LlmClient.extract .sample .sample .sample req).1.getD (.error "")
  | log, o => Answers.sample log o

theorem runExtract_stored_sample : ∃ log data, (.obj [("data", .obj [])] : Json) = .obj [("data", data)] ∧
    log <+: ((runExtract .sample 1 0 (.sample ["https://example.com/"])).execution .served []).2 ∧
    ((runExtract .sample 1 0 (.sample ["https://example.com/"])).execution .served []).2.asked =
      [extractRequest (.sample ["https://example.com/"]) (ExtractionPath.joinedText log)] ∧
    ∃ k < LlmConfig.sample.maxRetries.toNat, ∃ reasoning resp text t, Provider.sample k reasoning = .answered resp ∧
      completionText resp = some text ∧ t <:+: text.toList ∧
        fromStr LlmCrates.sample.numbers t = some data :=
  runExtract_stored (fun _ _ => rfl) (List.mem_singleton.mpr rfl)

end FireCtrl
