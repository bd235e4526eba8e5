import FireCtrl.Extraction
import FireCtrl.Lib.Decimal
import FireCtrl.Lib.Text

/-!
# Following a `next` link

The handlers write the cursor into the text of a link; `Query<PaginationParams>` reads it from the query
of a request. `chrono` is a parameter.

* `NextLink.text`, `decodeQuery`; `decodeQuery_cursorQuery`: what a query with a cursor is read as.
* **`not_cursorRoundTrips`**: no link is read back: its offset `+00:00` is read as ` 00:00`.
* **`decodeQuery_escaped`**: with the plus escaped every link would be.
-/

namespace FireCtrl

open Text

/-! ## Timestamps -/

/-- A sign of an offset, or the beginning of a name of UTC. -/
def startsOffset (c : Char) : Bool := c ∈ ['Z', 'z', 'U', 'u', '+', '-', '−']

/-- `DateTime<Utc>`: `to_rfc3339` writes a date, a `T`, a time of day and the offset `+00:00`; `from_str`
reads nothing without an offset at its end, and no offset has a `T` unless it is a name. -/
structure TimestampText where
  toRfc3339 : Timestamp → List Char
  fromStr : List Char → Option Timestamp
  toRfc3339_eq : ∀ t, ∃ date time, toRfc3339 t = date ++ 'T' :: (time ++ ['+', '0', '0', ':', '0', '0']) ∧
    (∀ c ∈ date, c.isDigit ∨ c = '-' ∨ c = '+') ∧ ∀ c ∈ time, c.isDigit ∨ c = ':' ∨ c = '.'
  offset_of_fromStr : ∀ s t, fromStr s = some t → ∃ a c o, s = a ++ c :: o ∧ startsOffset c ∧
    (c ∈ ['+', '-', '−'] → 'T' ∉ o)

/-! ## Links -/

/-- The query of a cursor, with its timestamp as it stands in the link. -/
def cursorQuery (afterId : Uuid) (createdAt : List Char) (limit : Int64) : List Char :=
  "after".toList ++ '=' :: (afterId.toString.toList ++ '&' :: ("after_created_at".toList ++ '=' ::
    (createdAt ++ '&' :: ("limit".toList ++ '=' :: decimal limit.toInt))))

/-- `"{path}?after={}&after_created_at={}&limit={}"`. -/
def NextLink.text (T : TimestampText) (link : NextLink) : List Char :=
  link.path.toList ++ '?' :: cursorQuery link.afterId (T.toRfc3339 link.afterCreatedAt) link.limit

/-- `Uri::query`. -/
def queryOf (uri : List Char) : List Char := ((cut ['?'] uri).map Prod.snd).getD []

/-! ## Forms -/

/-- `replace_plus`. -/
def replacePlus (t : List Char) : List Char := t.map fun c => if c = '+' then ' ' else c

/-- An escaped byte; one that is not a character by itself is replaced. -/
def byteChar (n : ℕ) : Char := if n < 0x80 then Char.ofNat n else '\ufffd'

/-- `percent_decode`. -/
def percentDecode : List Char → List Char
  | [] => []
  | [c] => [c]
  | [c, d] => [c, d]
  | c :: a :: b :: t =>
    if c = '%' then
      match Uuid.hexVal a, Uuid.hexVal b with
      | some x, some y => byteChar (16 * x + y) :: percentDecode t
      | _, _ => c :: percentDecode (a :: b :: t)
    else c :: percentDecode (a :: b :: t)

def formDecode (t : List Char) : List Char := percentDecode (replacePlus t)

/-- `form_urlencoded::parse`. -/
def formPairs (query : List Char) : List (String × List Char) :=
  ((query.splitOn '&').filter fun s => !s.isEmpty).map fun s =>
    match cut ['='] s with
    | some (name, value) => (String.ofList (formDecode name), formDecode value)
    | none => (String.ofList (formDecode s), [])

/-- `i64::from_str`. -/
def parseInt64 (t : List Char) : Option Int64 :=
  (readDecimal t).bind fun n => if -2 ^ 63 ≤ n ∧ n < 2 ^ 63 then some (.ofInt n) else none

/-- One field of `PaginationParams`; a field that is there twice is an error, another one is ignored. -/
def PaginationParams.setField (T : TimestampText) (params : PaginationParams)
    (pair : String × List Char) : Option PaginationParams :=
  if pair.1 = "limit" then
    if params.limit.isSome then none
    else (parseInt64 pair.2).map fun limit => { params with limit := some limit }
  else if pair.1 = "after" then
    if params.afterId.isSome then none
    else (Uuid.parse (String.ofList pair.2)).map fun id => { params with afterId := some id }
  else if pair.1 = "after_created_at" then
    if params.afterCreatedAt.isSome then none
    else (T.fromStr pair.2).map fun t => { params with afterCreatedAt := some t }
  else some params

/-- `Query<PaginationParams>`; `none` is a rejection. -/
def decodeQuery (T : TimestampText) (query : List Char) : Option PaginationParams :=
  (formPairs query).foldlM (PaginationParams.setField T) ⟨none, none, none⟩

/-! ## What a query with a cursor is read as -/

section Decode

variable {T : TimestampText} {t name value query : List Char} {c : Char}

theorem percentDecode_cons (hc : c ≠ '%') (t : List Char) : percentDecode (c :: t) = c :: percentDecode t := by
  rcases t with _ | ⟨a, _ | ⟨b, t⟩⟩
  · rfl
  · rfl
  · rw [percentDecode, if_neg hc]

theorem percentDecode_append (h : '%' ∉ t) (rest : List Char) :
    percentDecode (t ++ rest) = t ++ percentDecode rest := by
  induction t with
  | nil => rfl
  | cons c t ih =>
    rw [List.mem_cons, not_or] at h
    rw [List.cons_append, percentDecode_cons (Ne.symm h.1), ih h.2, List.cons_append]

theorem replacePlus_eq_self (h : '+' ∉ t) : replacePlus t = t := by
  refine (List.map_congr_left fun c hc => ?_).trans (List.map_id t)
  rw [if_neg]
  · rfl
  · rintro rfl
    exact h hc

/-- Without escapes a form loses its pluses only. -/
theorem formDecode_eq_replacePlus (h : '%' ∉ t) : formDecode t = replacePlus t := by
  have hpercent : '%' ∉ replacePlus t := by
    intro hmem
    obtain ⟨c, hc, heq⟩ := List.mem_map.mp hmem
    split_ifs at heq
    · exact absurd heq (by decide)
    · exact h (heq ▸ hc)
  have happend := percentDecode_append hpercent []
  rw [List.append_nil] at happend
  exact happend.trans (List.append_nil _)

theorem formDecode_eq_self (hplus : '+' ∉ t) (hpercent : '%' ∉ t) : formDecode t = t := by
  rw [formDecode_eq_replacePlus hpercent, replacePlus_eq_self hplus]

theorem formPairs_pair (hname : '=' ∉ name) (hname' : '&' ∉ name) (hvalue : '&' ∉ value) :
    formPairs (name ++ '=' :: value) = [(String.ofList (formDecode name), formDecode value)] := by
  have hpair : '&' ∉ name ++ '=' :: value := by simp [hname', hvalue]
  rw [formPairs, List.splitOn_eq_singleton hpair]
  simp [cut_singleton_append hname]

theorem formPairs_cons (hname : '=' ∉ name) (hname' : '&' ∉ name) (hvalue : '&' ∉ value)
    (query : List Char) : formPairs (name ++ '=' :: (value ++ '&' :: query)) =
      (String.ofList (formDecode name), formDecode value) :: formPairs query := by
  have hpair : '&' ∉ name ++ '=' :: value := by simp [hname', hvalue]
  have hsplit := List.splitOn_append_cons_self_of_not_mem hpair query
  rw [List.append_assoc, List.cons_append] at hsplit
  rw [formPairs, hsplit]
  simp [cut_singleton_append hname, formPairs]

theorem mem_toString {u : Uuid} (hc : c ∈ u.toString.toList) : c = '-' ∨ ∃ d < 16, c = Nat.digitChar d := by
  rw [Uuid.toString, String.toList_ofList, Uuid.hyphenated] at hc
  simp only [List.mem_append, List.mem_cons] at hc
  rcases hc with hc | hc | hc | hc | hc | hc | hc | hc | hc
  · exact .inr (Uuid.mem_nibbles (List.mem_of_mem_take hc))
  · exact .inl hc
  · exact .inr (Uuid.mem_nibbles (List.mem_of_mem_drop (List.mem_of_mem_take hc)))
  · exact .inl hc
  · exact .inr (Uuid.mem_nibbles (List.mem_of_mem_drop (List.mem_of_mem_take hc)))
  · exact .inl hc
  · exact .inr (Uuid.mem_nibbles (List.mem_of_mem_drop (List.mem_of_mem_take hc)))
  · exact .inl hc
  · exact .inr (Uuid.mem_nibbles (List.mem_of_mem_drop hc))

/-- A UUID is written without any character that separates or escapes. -/
theorem notMem_toString (u : Uuid) {c : Char} (hc : c ∈ ['&', '+', '%', '?']) : c ∉ u.toString.toList := by
  intro h
  have hdigits : ∀ d < 16, Nat.digitChar d ∉ ['&', '+', '%', '?'] := by decide
  rcases mem_toString h with rfl | ⟨d, hd, rfl⟩
  · exact absurd hc (by decide)
  · exact hdigits d hd hc

theorem notMem_decimal (n : ℤ) {c : Char} (hc : c ∈ ['&', '+', '%']) : c ∉ decimal n := by
  intro h
  rcases mem_decimal h with rfl | h
  · exact absurd hc (by decide)
  · simp only [List.mem_cons, List.not_mem_nil, or_false] at hc
    rcases hc with rfl | rfl | rfl <;> exact absurd h (by decide)

theorem parseInt64_decimal (n : Int64) : parseInt64 (decimal n.toInt) = some n := by
  have hlo := n.le_toInt
  have hhi := n.toInt_lt
  rw [parseInt64, readDecimal_decimal, Option.bind_some, if_pos ⟨hlo, hhi⟩, Int64.ofInt_toInt]

/-- The three fields, each for the first time. -/
theorem setField_after (params : PaginationParams) (h : params.afterId = none) (u : Uuid) :
    params.setField T ("after", u.toString.toList) = some { params with afterId := some u } := by
  simp [PaginationParams.setField, h, Uuid.parse_toString]

theorem setField_afterCreatedAt (params : PaginationParams) (h : params.afterCreatedAt = none)
    (t : List Char) : params.setField T ("after_created_at", t) =
      (T.fromStr t).map fun createdAt => { params with afterCreatedAt := some createdAt } := by
  simp [PaginationParams.setField, h]

theorem setField_limit (params : PaginationParams) (h : params.limit = none) (limit : Int64) :
    params.setField T ("limit", decimal limit.toInt) = some { params with limit := some limit } := by
  simp [PaginationParams.setField, h, parseInt64_decimal]

theorem formPairs_cursorQuery (u : Uuid) (ht : '&' ∉ t) (limit : Int64) :
    formPairs (cursorQuery u t limit) = [("after", u.toString.toList), ("after_created_at", formDecode t),
      ("limit", decimal limit.toInt)] := by
  have hid : formDecode u.toString.toList = u.toString.toList :=
    formDecode_eq_self (notMem_toString u (by decide)) (notMem_toString u (by decide))
  have hlimit : formDecode (decimal limit.toInt) = decimal limit.toInt :=
    formDecode_eq_self (notMem_decimal _ (by decide)) (notMem_decimal _ (by decide))
  have hname (s : String) (hplus : '+' ∉ s.toList) (hpercent : '%' ∉ s.toList) :
      String.ofList (formDecode s.toList) = s := by
    rw [formDecode_eq_self hplus hpercent, String.ofList_toList]
  unfold cursorQuery
  rw [formPairs_cons (by decide) (by decide) (notMem_toString u (by decide)),
    formPairs_cons (by decide) (by decide) ht,
    formPairs_pair (by decide) (by decide) (notMem_decimal _ (by decide)), hid, hlimit,
    hname "after" (by decide) (by decide), hname "after_created_at" (by decide) (by decide),
    hname "limit" (by decide) (by decide)]

/-- **A query with a cursor**: everything depends on its timestamp. -/
theorem decodeQuery_cursorQuery (u : Uuid) (ht : '&' ∉ t) (limit : Int64) :
    decodeQuery T (cursorQuery u t limit) = (T.fromStr (formDecode t)).map fun createdAt =>
      ⟨some limit, some u, some createdAt⟩ := by
  rw [decodeQuery, formPairs_cursorQuery u ht, List.foldlM_cons, setField_after _ rfl, Option.bind_eq_bind,
    Option.bind_some, List.foldlM_cons, setField_afterCreatedAt _ rfl]
  rcases T.fromStr (formDecode t) with _ | createdAt
  · rfl
  · simp only [Option.map_some, Option.bind_eq_bind, Option.bind_some, List.foldlM_cons, List.foldlM_nil]
    rw [setField_limit _ rfl]
    rfl

end Decode

/-! ## Following a link -/

/-- The two routes that emit links. -/
inductive StatusRoute
  | crawl
  | batchScrape

def StatusRoute.path (id : Uuid) : StatusRoute → String
  | crawl => "/v2/crawl/" ++ id.toString
  | batchScrape => "/v2/batch/scrape/" ++ id.toString

/-- The query of the link is read as the cursor and the limit that it was made of. -/
def CursorRoundTrips (T : TimestampText) (link : NextLink) : Prop :=
  decodeQuery T (queryOf (link.text T)) = some ⟨some link.limit, some link.afterId, some link.afterCreatedAt⟩

section Follow

variable {T : TimestampText} {id afterId : Uuid} {createdAt : Timestamp} {limit : Int64}

theorem notMem_path (route : StatusRoute) (id : Uuid) : '?' ∉ (route.path id).toList := by
  have hid := notMem_toString id (c := '?') (by decide)
  cases route with
  | crawl =>
    show '?' ∉ ("/v2/crawl/" ++ id.toString).toList
    rw [String.toList_append, List.mem_append, not_or]
    exact ⟨by decide, hid⟩
  | batchScrape =>
    show '?' ∉ ("/v2/batch/scrape/" ++ id.toString).toList
    rw [String.toList_append, List.mem_append, not_or]
    exact ⟨by decide, hid⟩

theorem queryOf_text (route : StatusRoute) : queryOf (NextLink.text T ⟨route.path id, afterId, createdAt, limit⟩) =
    cursorQuery afterId (T.toRfc3339 createdAt) limit := by
  rw [queryOf, NextLink.text, cut_singleton_append (notMem_path route id)]
  rfl

theorem notMem_toRfc3339 (T : TimestampText) (t : Timestamp) {c : Char} (hc : c ∈ ['&', '%']) :
    c ∉ T.toRfc3339 t := by
  obtain ⟨date, time, ht, hdate, htime⟩ := T.toRfc3339_eq t
  have hothers : ∀ d, d.isDigit ∨ d ∈ ['-', '+', ':', '.', 'T', '0'] → d ∉ ['&', '%'] := by
    rintro d (h | h) hd
    · simp only [List.mem_cons, List.not_mem_nil, or_false] at hd
      rcases hd with rfl | rfl <;> exact absurd h (by decide)
    · simp only [List.mem_cons, List.not_mem_nil, or_false] at h
      rcases h with rfl | rfl | rfl | rfl | rfl | rfl <;> exact absurd hd (by decide)
  rw [ht, List.mem_append, List.mem_cons, List.mem_append]
  rintro (h | rfl | h | h)
  · refine hothers c ((hdate c h).imp_right fun h => ?_) hc
    rcases h with rfl | rfl <;> decide
  · exact absurd hc (by decide)
  · refine hothers c ((htime c h).imp_right fun h => ?_) hc
    rcases h with rfl | rfl <;> decide
  · refine hothers c (.inr ?_) hc
    simp only [List.mem_cons, List.not_mem_nil, or_false] at h
    rcases h with rfl | rfl | rfl | rfl | rfl | rfl <;> decide

/-- A timestamp as it is read from a form: the sign of its offset is lost. -/
theorem formDecode_toRfc3339 (T : TimestampText) (t : Timestamp) : ∃ date time,
    formDecode (T.toRfc3339 t) = date ++ 'T' :: (time ++ [' ', '0', '0', ':', '0', '0']) ∧
      (∀ c ∈ date, c.isDigit ∨ c = '-' ∨ c = ' ') ∧ ∀ c ∈ time, c.isDigit ∨ c = ':' ∨ c = '.' := by
  obtain ⟨date, time, ht, hdate, htime⟩ := T.toRfc3339_eq t
  have hdate' : ∀ c ∈ replacePlus date, c.isDigit ∨ c = '-' ∨ c = ' ' := by
    intro c hc
    obtain ⟨d, hd, rfl⟩ := List.mem_map.mp hc
    split_ifs with hplus
    · exact .inr (.inr rfl)
    · exact (hdate d hd).imp_right fun h => .inl (h.resolve_right hplus)
  have hplus : '+' ∉ time := by
    intro h
    rcases htime _ h with h | h | h <;> exact absurd h (by decide)
  refine ⟨replacePlus date, time, ?_, hdate', htime⟩
  rw [formDecode_eq_replacePlus (notMem_toRfc3339 T t (by decide)), ht]
  have hmap : replacePlus (date ++ 'T' :: (time ++ ['+', '0', '0', ':', '0', '0'])) =
      replacePlus date ++ 'T' :: (replacePlus time ++ [' ', '0', '0', ':', '0', '0']) := by
    simp [replacePlus]
  rw [hmap, replacePlus_eq_self hplus]

theorem not_startsOffset {c : Char} (h : c.isDigit ∨ c = ':' ∨ c = '.' ∨ c = ' ' ∨ c = 'T') :
    ¬ startsOffset c := by
  intro hstart
  simp only [startsOffset, decide_eq_true_eq, List.mem_cons, List.not_mem_nil, or_false] at hstart
  rcases hstart with rfl | rfl | rfl | rfl | rfl | rfl | rfl <;> revert h <;> decide

/-- It has no offset any more, and is refused. -/
theorem fromStr_formDecode (T : TimestampText) (t : Timestamp) : T.fromStr (formDecode (T.toRfc3339 t)) = none := by
  obtain ⟨date, time, ht, hdate, htime⟩ := formDecode_toRfc3339 T t
  rw [Option.eq_none_iff_forall_ne_some]
  intro u hu
  obtain ⟨a, c, o, heq, hstart, hsign⟩ := T.offset_of_fromStr _ u hu
  rw [ht] at heq
  rcases List.append_eq_append_iff.mp heq with ⟨m, -, hm⟩ | ⟨m, hm, ho⟩
  · -- the offset would begin behind the date
    rcases m with _ | ⟨d, m⟩
    · cases hm
      exact not_startsOffset (by decide) hstart
    · have hmem : c ∈ time ++ [' ', '0', '0', ':', '0', '0'] := by
        rw [(List.cons.inj hm).2]
        simp
      rcases List.mem_append.mp hmem with h | h
      · exact not_startsOffset ((htime c h).imp_right (Or.imp_right .inl)) hstart
      · have htail : ∀ c ∈ [' ', '0', '0', ':', '0', '0'], ¬ startsOffset c := by simp [startsOffset]
        exact htail c h hstart
  · -- it would begin in the date, at a hyphen, and go on over the `T`
    rcases m with _ | ⟨d, m⟩
    · cases ho
      exact not_startsOffset (by decide) hstart
    · obtain ⟨rfl, rfl⟩ := List.cons.inj ho
      have hc := hdate c (by rw [hm]; simp)
      rcases hc with h | rfl | rfl
      · exact not_startsOffset (.inl h) hstart
      · exact hsign (by decide) (by simp)
      · exact not_startsOffset (by decide) hstart

/-- A link is refused. -/
theorem decodeQuery_text (T : TimestampText) (route : StatusRoute) (id afterId : Uuid)
    (createdAt : Timestamp) (limit : Int64) :
    decodeQuery T (queryOf (NextLink.text T ⟨route.path id, afterId, createdAt, limit⟩)) = none := by
  rw [queryOf_text, decodeQuery_cursorQuery afterId (notMem_toRfc3339 T createdAt (by decide)),
    fromStr_formDecode]
  rfl

/-- **No cursor round-trips**, whatever the link is made of. -/
theorem not_cursorRoundTrips (T : TimestampText) (route : StatusRoute) (id afterId : Uuid)
    (createdAt : Timestamp) (limit : Int64) :
    ¬ CursorRoundTrips T ⟨route.path id, afterId, createdAt, limit⟩ := by
  rw [CursorRoundTrips, decodeQuery_text]
  exact fun h => by cases h

/-- The text with its pluses escaped. -/
def escapePlus (t : List Char) : List Char := t.flatMap fun c => if c = '+' then ['%', '2', 'B'] else [c]

theorem formDecode_escapePlus {t : List Char} (h : '%' ∉ t) : formDecode (escapePlus t) = t := by
  have hplus : '+' ∉ escapePlus t := by
    intro hmem
    obtain ⟨c, -, hc⟩ := List.mem_flatMap.mp hmem
    split_ifs at hc with hne
    · exact absurd hc (by decide)
    · exact hne (List.mem_singleton.mp hc).symm
  rw [formDecode, replacePlus_eq_self hplus]
  clear hplus
  induction t with
  | nil => rfl
  | cons c t ih =>
    rw [List.mem_cons, not_or] at h
    have ih := ih h.2
    unfold escapePlus at ih ⊢
    rw [List.flatMap_cons]
    split_ifs with hc
    · have hbyte : ∀ t, percentDecode ('%' :: '2' :: 'B' :: t) = '+' :: percentDecode t := fun _ => rfl
      rw [List.cons_append, List.cons_append, List.cons_append, List.nil_append, hbyte, ih, hc]
    · rw [List.singleton_append, percentDecode_cons (Ne.symm h.1), ih]

/-- **With its plus escaped** a link is read back, if timestamps are. -/
theorem decodeQuery_escaped (hT : T.fromStr (T.toRfc3339 createdAt) = some createdAt) :
    decodeQuery T (cursorQuery afterId (escapePlus (T.toRfc3339 createdAt)) limit) =
      some ⟨some limit, some afterId, some createdAt⟩ := by
  have hamp : '&' ∉ escapePlus (T.toRfc3339 createdAt) := by
    intro hmem
    obtain ⟨c, hc, heq⟩ := List.mem_flatMap.mp hmem
    split_ifs at heq
    · exact absurd heq (by decide)
    · exact notMem_toRfc3339 T createdAt (by decide) (List.mem_singleton.mp heq ▸ hc)
  rw [decodeQuery_cursorQuery afterId hamp, formDecode_escapePlus (notMem_toRfc3339 T createdAt (by decide)), hT]
  rfl

/-! ### Emitted links -/

variable {ρ : Answers} {gate : Except AppError Unit} {params : PaginationParams} {log : Log}
  {res : CrawlStatusResponse} {link : NextLink}

theorem ok_of_bind {α β : Type} {c : Call α} {f : α → Call β} {b : β}
    (h : ((c >>= f).execution ρ log).1 = .ok b) :
    ∃ a log', c.execution ρ log = (.ok a, log') ∧ ((f a).execution ρ log').1 = .ok b := by
  rw [execution_bind] at h
  rcases hc : c.execution ρ log with ⟨e | a, log'⟩
  · rw [hc] at h
    cases h
  · rw [hc] at h
    exact ⟨a, log', rfl, h⟩

theorem link_of_next {rows : List QueueScrapeRow} {path : String} {P : Prop} [Decidable P]
    (h : (if P then rows.getLast?.map fun r => (⟨path, r.id, r.createdAt, limit⟩ : NextLink) else none) =
      some link) : ∃ afterId createdAt, link = ⟨path, afterId, createdAt, limit⟩ := by
  split_ifs at h
  obtain ⟨r, -, rfl⟩ := Option.map_eq_some_iff.mp h
  exact ⟨r.id, r.createdAt, rfl⟩

/-- The links of `crawl_status_handler`, whatever the database answers. -/
theorem next_of_crawlStatus (h : ((crawlStatusHandler gate id params).execution ρ log).1 = .ok res)
    (hnext : res.next = some link) :
    ∃ afterId createdAt, link = ⟨StatusRoute.crawl.path id, afterId, createdAt, params.pageLimit⟩ := by
  unfold crawlStatusHandler at h
  obtain ⟨-, l₁, -, h⟩ := ok_of_bind h
  obtain ⟨group, l₂, -, h⟩ := ok_of_bind h
  obtain ⟨counts, l₃, -, h⟩ := ok_of_bind h
  obtain ⟨rows, l₄, -, h⟩ := ok_of_bind h
  cases h
  exact link_of_next hnext

/-- Those of `batch_status_handler`. -/
theorem next_of_batchStatus (h : ((batchStatusHandler gate id params).execution ρ log).1 = .ok res)
    (hnext : res.next = some link) :
    ∃ afterId createdAt, link = ⟨StatusRoute.batchScrape.path id, afterId, createdAt, params.pageLimit⟩ := by
  unfold batchStatusHandler at h
  obtain ⟨-, l₁, -, h⟩ := ok_of_bind h
  obtain ⟨job, l₂, -, h⟩ := ok_of_bind h
  rcases hgroup : job.groupId with _ | groupId
  · rw [hgroup] at h
    cases h
    cases hnext
  · rw [hgroup] at h
    obtain ⟨group, l₃, -, h⟩ := ok_of_bind h
    obtain ⟨counts, l₄, -, h⟩ := ok_of_bind h
    obtain ⟨rows, l₅, -, h⟩ := ok_of_bind h
    cases h
    exact link_of_next hnext

end Follow

/-! ## RFC 3339 -/

namespace Rfc3339

/-- The last `k` digits of `n`. -/
def padded : ℕ → ℕ → List Char
  | 0, _ => []
  | k + 1, n => padded k (n / 10) ++ [Nat.digitChar (n % 10)]

/-- Year, month and day of a day counted from the epoch, by years that begin in March. -/
def civil (days : ℤ) : ℤ × ℕ × ℕ :=
  let z := days + 719468
  let doe := z % 146097
  let yoe := (doe - doe / 1460 + doe / 36524 - doe / 146096) / 365
  let doy := doe - (365 * yoe + yoe / 4 - yoe / 100)
  let mp := (5 * doy + 2) / 153
  let day := doy - (153 * mp + 2) / 5 + 1
  let month := if mp < 10 then mp + 3 else mp - 9
  (yoe + z / 146097 * 400 + (if month ≤ 2 then 1 else 0), month.toNat, day.toNat)

def daysOfCivil (year : ℤ) (month day : ℕ) : ℤ :=
  let y := if month ≤ 2 then year - 1 else year
  let yoe := y % 400
  let doy := (153 * (if 2 < month then (month : ℤ) - 3 else month + 9) + 2) / 5 + day - 1
  y / 400 * 146097 + (yoe * 365 + yoe / 4 - yoe / 100 + doy) - 719468

/-- Years outside of four digits have a sign. -/
def yearText (year : ℤ) : List Char :=
  if 0 ≤ year ∧ year ≤ 9999 then padded 4 year.toNat
  else
    (if year < 0 then '-' else '+') ::
      (if year.natAbs ≤ 9999 then padded 4 year.natAbs else Nat.toDigits 10 year.natAbs)

def dateText (days : ℤ) : List Char :=
  let date := civil days
  yearText date.1 ++ '-' :: (padded 2 date.2.1 ++ '-' :: padded 2 date.2.2)

/-- A time of day, with as many digits of the microseconds as are needed of none, three and six. -/
def timeText (micros : ℕ) : List Char :=
  let secs := micros / 1000000
  let frac := micros % 1000000
  padded 2 (secs / 3600) ++ ':' :: (padded 2 (secs / 60 % 60) ++ ':' :: (padded 2 (secs % 60) ++
    (if frac = 0 then [] else if frac % 1000 = 0 then '.' :: padded 3 (frac / 1000) else '.' :: padded 6 frac)))

def toRfc3339 (t : Timestamp) : List Char :=
  dateText (t / 86400000000) ++ 'T' :: (timeText (t % 86400000000).toNat ++ ['+', '0', '0', ':', '0', '0'])

def readDate (t : List Char) : Option ℤ := do
  let (sign, digits) : ℤ × List Char :=
    if t.head? = some '-' then (-1, t.tail) else if t.head? = some '+' then (1, t.tail) else (1, t)
  match digits.splitOn '-' with
  | [y, m, d] => do
    let date := (sign * (← readDigits y), ← readDigits m, ← readDigits d)
    let days := daysOfCivil date.1 date.2.1 date.2.2
    if civil days = date then some days else none
  | _ => none

def readTime (t : List Char) : Option ℕ :=
  match t.splitOn ':' with
  | [h, m, s] => do
    let hours ← readDigits h
    let minutes ← readDigits m
    let secs ← readDigits (s.takeWhile (· != '.'))
    let frac ← readDigits (((s.dropWhile (· != '.')).tail ++ ['0', '0', '0', '0', '0', '0']).take 6)
    if hours < 24 ∧ minutes < 60 ∧ secs < 60 then
      some (((hours * 60 + minutes) * 60 + secs) * 1000000 + frac)
    else none
  | _ => none

/-- `Z`, or a sign, hours and minutes. -/
def readOffset : List Char → Option ℤ
  | [c] => if c = 'Z' ∨ c = 'z' then some 0 else none
  | [c, h, h', d, m, m'] =>
    if c ∈ ['+', '-', '−'] ∧ d = ':' ∧ h.isDigit ∧ h'.isDigit ∧ m.isDigit ∧ m'.isDigit then do
      let minutes : ℤ := (← readDigits [h, h']) * 60 + (← readDigits [m, m'])
      some (if c = '+' then minutes else -minutes)
    else none
  | _ => none

def fromStr (t : List Char) : Option Timestamp :=
  match cut ['T'] t with
  | none => none
  | some (date, rest) => do
    let clock : Char → Bool := fun c => c.isDigit || c == ':' || c == '.'
    let days ← readDate date
    let micros ← readTime (rest.takeWhile clock)
    let offset ← readOffset (rest.dropWhile clock)
    some (days * 86400000000 + micros - offset * 60000000)

theorem isDigit_padded {k n : ℕ} {c : Char} (hc : c ∈ padded k n) : c.isDigit := by
  have hdigits : ∀ d < 10, (Nat.digitChar d).isDigit := by decide
  induction k generalizing n with
  | zero => cases hc
  | succ k ih =>
    rcases List.mem_append.mp hc with hc | hc
    · exact ih hc
    · rw [List.mem_singleton.mp hc]
      exact hdigits _ (Nat.mod_lt n (by decide))

theorem mem_dateText {days : ℤ} {c : Char} (hc : c ∈ dateText days) : c.isDigit ∨ c = '-' ∨ c = '+' := by
  have hyear (y : ℤ) (hc : c ∈ yearText y) : c.isDigit ∨ c = '-' ∨ c = '+' := by
    unfold yearText at hc
    split_ifs at hc
    · exact .inl (isDigit_padded hc)
    · exact (List.mem_cons.mp hc).symm.imp isDigit_padded .inl
    · exact (List.mem_cons.mp hc).symm.imp isDigit_of_mem_toDigits .inl
    · exact (List.mem_cons.mp hc).symm.imp isDigit_padded .inr
    · exact (List.mem_cons.mp hc).symm.imp isDigit_of_mem_toDigits .inr
  rw [dateText, List.mem_append, List.mem_cons, List.mem_append, List.mem_cons] at hc
  rcases hc with hc | hc | hc | hc | hc
  · exact hyear _ hc
  · exact .inr (.inl hc)
  · exact .inl (isDigit_padded hc)
  · exact .inr (.inl hc)
  · exact .inl (isDigit_padded hc)

theorem mem_timeText {micros : ℕ} {c : Char} (hc : c ∈ timeText micros) : c.isDigit ∨ c = ':' ∨ c = '.' := by
  rw [timeText, List.mem_append, List.mem_cons, List.mem_append, List.mem_cons, List.mem_append] at hc
  rcases hc with hc | hc | hc | hc | hc | hc
  · exact .inl (isDigit_padded hc)
  · exact .inr (.inl hc)
  · exact .inl (isDigit_padded hc)
  · exact .inr (.inl hc)
  · exact .inl (isDigit_padded hc)
  · split_ifs at hc
    · cases hc
    · exact (List.mem_cons.mp hc).symm.imp isDigit_padded .inr
    · exact (List.mem_cons.mp hc).symm.imp isDigit_padded .inr

theorem startsOffset_of_readOffset {t : List Char} {m : ℤ} (h : readOffset t = some m) :
    ∃ c o, t = c :: o ∧ startsOffset c ∧ (c ∈ ['+', '-', '−'] → 'T' ∉ o) := by
  unfold readOffset at h
  split at h
  · rename_i c
    split_ifs at h with hc
    refine ⟨c, [], rfl, ?_, fun _ => List.not_mem_nil⟩
    rcases hc with rfl | rfl <;> decide
  · rename_i c h₁ h₂ d m₁ m₂
    split at h
    swap
    · cases h
    rename_i hc
    obtain ⟨hsign, rfl, hh₁, hh₂, hm₁, hm₂⟩ := hc
    have hT (x : Char) (hx : x.isDigit) : ¬ 'T' = x := by
      rintro rfl
      exact absurd hx (by decide)
    refine ⟨c, _, rfl, ?_, fun _ => ?_⟩
    · simp only [List.mem_cons, List.not_mem_nil, or_false] at hsign
      rcases hsign with rfl | rfl | rfl <;> decide
    · simp [hT _ hh₁, hT _ hh₂, hT _ hm₁, hT _ hm₂]
  · cases h

end Rfc3339

/-- Timestamps as `chrono` writes them, read strictly. -/
def TimestampText.sample : TimestampText where
  toRfc3339 := Rfc3339.toRfc3339
  fromStr := Rfc3339.fromStr
  toRfc3339_eq t := ⟨_, _, rfl, fun _ => Rfc3339.mem_dateText, fun _ => Rfc3339.mem_timeText⟩
  offset_of_fromStr s t h := by
    unfold Rfc3339.fromStr at h
    split at h
    · cases h
    rename_i date rest hcut
    simp only [Option.bind_eq_bind, Option.bind_eq_some_iff] at h
    obtain ⟨-, -, -, -, offset, hoffset, -⟩ := h
    obtain ⟨c, o, ho, hstart, hsign⟩ := Rfc3339.startsOffset_of_readOffset hoffset
    refine ⟨date ++ 'T' :: rest.takeWhile fun c => c.isDigit || c == ':' || c == '.', c, o, ?_, hstart, hsign⟩
    rw [(cut_singleton hcut).1, List.append_assoc, List.cons_append, ← ho, List.takeWhile_append_dropWhile]

example : TimestampText.sample.fromStr (TimestampText.sample.toRfc3339 1735689599123456) =
    some 1735689599123456 := by
  decide +kernel

/-- A row of the epoch, on a page of 25. -/
theorem not_allCursorsRoundTrip : ¬ ∀ (T : TimestampText) (route : StatusRoute) (id afterId : Uuid)
    (createdAt : Timestamp) (limit : Int64),
    CursorRoundTrips T ⟨route.path id, afterId, createdAt, limit⟩ := by
  intro h
  have hlink := h .sample .crawl Uuid.nil Uuid.nil 0 25
  rw [CursorRoundTrips, decodeQuery_text] at hlink
  cases hlink

end FireCtrl
