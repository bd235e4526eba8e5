import FireCtrl.Crawl

/-!
# The crawl, round by round

The loop of `Scraper::crawl` on a web that may answer differently in every round.

* `Network`: what is fetched while a page is scraped. `crawlRound`: one round of the loop;
  `crawlAfter`: the state after some rounds. `crawlIn`: the whole crawl, the network given for each round;
  `crawlIn_network`: where it never changes this is `crawl`.
* **`crawl_leaves`**: the loop is left after finitely many rounds.
* `CrawlInv`: what every round keeps; **`crawl_sound`**: what the result of a crawl is.
* **`depthBound_iff`**: when no URL below the greatest depth is scraped.
-/

namespace FireCtrl

/-- What the robots check and the two ways to fetch a page answer. -/
structure Network (urls : UrlCrate) where
  oneAgentAllowedByRobots : urls.Url → Bool
  fetch : String → Except AppError (UInt16 × Option String × String)
  fetchPage : String → UInt32 → UInt64 → Except AppError (String × Option String)

/-- The web behind another network. -/
def Web.at (web : Web) (net : Network web.urls) : Web :=
  { web with
    oneAgentAllowedByRobots := net.oneAgentAllowedByRobots
    fetch := net.fetch
    fetchPage := net.fetchPage }

def Web.network (web : Web) : Network web.urls where
  oneAgentAllowedByRobots := web.oneAgentAllowedByRobots
  fetch := web.fetch
  fetchPage := web.fetchPage

/-- The variables of the loop. -/
structure CrawlState where
  visited : Finset String
  queue : List (String × UInt32)
  results : List ScrapeResult

section Rounds

variable (web : Web) (cfg : CrawlerConfig) (params : CrawlParams)

/-- The URLs of the sitemap, if they are asked for. -/
def sitemapUrls (base : web.urls.Url) : List String :=
  if params.ignoreSitemap then [] else web.fetchSitemapUrls base params.limit.toNat

/-- Before the loop: the URLs of the sitemap at depth 1, and the root at depth 0 unless it is among
them. -/
def crawlStart (base : web.urls.Url) : CrawlState :=
  let seeded : Finset String × List (String × UInt32) :=
    Bfs.discover 1 (∅, []) (sitemapUrls web params base)
  if params.rootUrl ∈ seeded.1 then ⟨seeded.1, seeded.2, []⟩
  else ⟨insert params.rootUrl seeded.1, (params.rootUrl, 0) :: seeded.2, []⟩

/-- One round of the loop; `none` if it is left instead. -/
def crawlRound (baseHost : String) (s : CrawlState) : Option CrawlState :=
  match s.queue with
  | [] => none
  | (url, depth) :: queue =>
    if params.limit.toNat ≤ s.results.length then none
    else if filteredOut web params baseHost url then some { s with queue }
    else
      match scrape web cfg (params.bfsJob url depth) with
      | .ok result =>
        let pushed := pushLinks web params s.visited queue url depth result
        some ⟨pushed.1, pushed.2, s.results ++ [params.strip result]⟩
      | .error _ => some { s with queue }

variable {web} (net : ℕ → Network web.urls) (baseHost : String)

/-- The state `s` after `n` rounds, the `i`-th of them on the network `net i`. -/
def crawlAfter (s : CrawlState) : ℕ → Option CrawlState
  | 0 => some s
  | n + 1 => (crawlAfter s n).bind (crawlRound (web.at (net n)) cfg params baseHost)

variable {cfg params net baseHost} {s s' : CrawlState}

/-- Every round finds a page or shortens the queue. -/
theorem crawlRound_decreases (h : crawlRound web cfg params baseHost s = some s') :
    Prod.Lex (· < ·) (· < ·) (params.limit.toNat - s'.results.length, s'.queue.length)
      (params.limit.toNat - s.results.length, s.queue.length) := by
  unfold crawlRound at h
  rcases hq : s.queue with _ | ⟨⟨url, depth⟩, queue⟩
  · rw [hq] at h; cases h
  · simp only [hq] at h
    by_cases hle : params.limit.toNat ≤ s.results.length
    · rw [if_pos hle] at h; cases h
    · rw [if_neg hle] at h
      split at h
      · cases h
        exact .right _ (Nat.lt_succ_self _)
      · split at h
        · cases h
          refine .left _ _ ?_
          simp only [List.length_append, List.length_singleton]
          omega
        · cases h
          exact .right _ (Nat.lt_succ_self _)

variable (cfg params net baseHost)

/-- The loop from round `n` on. -/
def crawlLoopIn (n : ℕ) (s : CrawlState) : List ScrapeResult :=
  match h : crawlRound (web.at (net n)) cfg params baseHost s with
  | none => s.results
  | some s' => crawlLoopIn (n + 1) s'
termination_by (params.limit.toNat - s.results.length, s.queue.length)
decreasing_by exact crawlRound_decreases h

/-- `Scraper::crawl` on a changing web. -/
def crawlIn : Except AppError (List ScrapeResult) :=
  match web.urls.parse params.rootUrl with
  | .error e => .error (.invalidUrl e)
  | .ok base =>
    .ok (crawlLoopIn cfg params net ((web.urls.hostStr base).getD "") 0 (crawlStart web params base))

end Rounds

section Loop

variable {web : Web} {cfg : CrawlerConfig} {params : CrawlParams} {net : ℕ → Network web.urls}
  {baseHost : String} {s s' t : CrawlState} {n : ℕ}

theorem crawlLoopIn_eq (n : ℕ) (s : CrawlState) : crawlLoopIn cfg params net baseHost n s =
    match crawlRound (web.at (net n)) cfg params baseHost s with
    | none => s.results
    | some s' => crawlLoopIn cfg params net baseHost (n + 1) s' := by
  rw [crawlLoopIn]
  split <;> simp [*]

/-- On a web that does not change the rounds make up `crawlLoop`. -/
theorem crawlLoopIn_network (n : ℕ) (s : CrawlState) :
    crawlLoopIn cfg params (fun _ => web.network) baseHost n s =
      crawlLoop web cfg params baseHost s.visited s.queue s.results := by
  obtain ⟨visited, queue, results⟩ := s
  fun_induction crawlLoop web cfg params baseHost visited queue results generalizing n with
  | case1 visited results => rw [crawlLoopIn_eq]; rfl
  | case2 visited results url depth queue hle =>
    have hround : crawlRound web cfg params baseHost ⟨visited, (url, depth) :: queue, results⟩ = none := by
      simp [crawlRound, hle]
    rw [crawlLoopIn_eq]
    simp only [Web.at, Web.network, hround]
  | case3 visited results url depth queue hle hf ih =>
    have hround : crawlRound web cfg params baseHost ⟨visited, (url, depth) :: queue, results⟩ =
        some ⟨visited, queue, results⟩ := by
      simp [crawlRound, hle, hf]
    rw [crawlLoopIn_eq]
    simp only [Web.at, Web.network, hround]
    exact ih (n + 1)
  | case4 visited results url depth queue hle hf result hs ih =>
    have hround : crawlRound web cfg params baseHost ⟨visited, (url, depth) :: queue, results⟩ =
        some ⟨(pushLinks web params visited queue url depth result).1,
          (pushLinks web params visited queue url depth result).2, results ++ [params.strip result]⟩ := by
      simp [crawlRound, hle, hf, hs]
    rw [crawlLoopIn_eq]
    simp only [Web.at, Web.network, hround]
    exact ih (n + 1)
  | case5 visited results url depth queue hle hf e hs ih =>
    have hround : crawlRound web cfg params baseHost ⟨visited, (url, depth) :: queue, results⟩ =
        some ⟨visited, queue, results⟩ := by
      simp [crawlRound, hle, hf, hs]
    rw [crawlLoopIn_eq]
    simp only [Web.at, Web.network, hround]
    exact ih (n + 1)

/-- `crawl` is the crawl on a web that does not change. -/
theorem crawlIn_network : crawlIn cfg params (fun _ => web.network) = crawl web cfg params := by
  unfold crawlIn crawl
  rcases web.urls.parse params.rootUrl with e | base
  · rfl
  · simp only [crawlLoopIn_network, crawlStart, sitemapUrls]
    split_ifs <;> rfl

/-- From every state the loop is left after finitely many rounds, with its results. -/
theorem exists_left (h : crawlAfter cfg params net baseHost s n = some t) :
    ∃ m u, crawlAfter cfg params net baseHost s m = some u ∧
      crawlRound (web.at (net m)) cfg params baseHost u = none ∧
      crawlLoopIn cfg params net baseHost n t = u.results := by
  fun_induction crawlLoopIn cfg params net baseHost n t with
  | case1 n t hround => exact ⟨n, t, h, hround, rfl⟩
  | case2 n t t' hround ih =>
    refine ih ?_
    rw [crawlAfter, h]
    exact hround

/-- **The loop is left after finitely many rounds**, whatever the network answers in each of them. -/
theorem crawl_leaves (web : Web) (cfg : CrawlerConfig) (params : CrawlParams)
    (net : ℕ → Network web.urls) (base : web.urls.Url) :
    ∃ n t, crawlAfter cfg params net ((web.urls.hostStr base).getD "") (crawlStart web params base) n =
        some t ∧
      crawlRound (web.at (net n)) cfg params ((web.urls.hostStr base).getD "") t = none := by
  have hstart : crawlAfter cfg params net ((web.urls.hostStr base).getD "") (crawlStart web params base) 0 =
      some (crawlStart web params base) := rfl
  obtain ⟨n, t, hafter, hleft, -⟩ := exists_left hstart
  exact ⟨n, t, hafter, hleft⟩

end Loop

/-! ## What a round does -/

section Step

variable {web : Web} {cfg : CrawlerConfig} {params : CrawlParams} {baseHost : String}
  {s s' : CrawlState}

/-- The next round scrapes `url`. -/
def CrawlState.Scrapes (web : Web) (params : CrawlParams) (baseHost : String) (s : CrawlState)
    (url : String) (depth : UInt32) : Prop :=
  (∃ queue, s.queue = (url, depth) :: queue) ∧ s.results.length < params.limit.toNat ∧
    filteredOut web params baseHost url = false

/-- The filters do not ask the network. -/
theorem scrapes_at {net : Network web.urls} {url : String} {depth : UInt32} :
    s.Scrapes (web.at net) params baseHost url depth ↔ s.Scrapes web params baseHost url depth := by
  have hf : filteredOut (web.at net) params baseHost url = filteredOut web params baseHost url := by
    have hparse : (web.at net).urls.parse url = web.urls.parse url := rfl
    unfold filteredOut
    rw [hparse]
    rcases web.urls.parse url with e | parsed <;> rfl
  unfold CrawlState.Scrapes
  rw [hf]

/-- A round drops the first URL of the queue, or it stores its page and pushes its links. -/
theorem crawlRound_cases (h : crawlRound web cfg params baseHost s = some s') :
    ∃ url depth queue, s.queue = (url, depth) :: queue ∧ s.results.length < params.limit.toNat ∧
      (s' = { s with queue } ∨
        ∃ page result, s.Scrapes web params baseHost url depth ∧
          loadPage web cfg (params.bfsJob url depth) = .ok page ∧
          scrape web cfg (params.bfsJob url depth) = .ok result ∧
          s' = ⟨(pushLinks web params s.visited queue url depth result).1,
            (pushLinks web params s.visited queue url depth result).2,
            s.results ++ [params.strip result]⟩) := by
  unfold crawlRound at h
  rcases hq : s.queue with _ | ⟨⟨url, depth⟩, queue⟩
  · rw [hq] at h; cases h
  · simp only [hq] at h
    refine ⟨url, depth, queue, rfl, ?_⟩
    by_cases hle : params.limit.toNat ≤ s.results.length
    · rw [if_pos hle] at h; cases h
    · rw [if_neg hle] at h
      refine ⟨not_le.mp hle, ?_⟩
      by_cases hf : filteredOut web params baseHost url = true
      · rw [if_pos hf, Option.some.injEq] at h
        exact .inl h.symm
      · rw [if_neg hf] at h
        rcases hp : loadPage web cfg (params.bfsJob url depth) with e | page
        · rw [scrape_error hp, Option.some.injEq] at h
          exact .inl h.symm
        · obtain ⟨result, hs, -⟩ := scrape_ok hp
          rw [hs, Option.some.injEq] at h
          have hscrapes : s.Scrapes web params baseHost url depth :=
            ⟨⟨queue, hq⟩, not_le.mp hle, by simpa using hf⟩
          exact .inr ⟨page, result, hscrapes, rfl, hs, h.symm⟩

/-- What is pushed are links of the page, one deeper and above the greatest depth. -/
theorem pushLinks_fresh {url : String} {depth : UInt32} {page : Page web} {result : ScrapeResult}
    (hp : loadPage web cfg (params.bfsJob url depth) = .ok page)
    (hs : scrape web cfg (params.bfsJob url depth) = .ok result) (V : Finset String)
    (Q : List (String × UInt32)) :
    ∃ (fresh : List String) (V' : Finset String),
      pushLinks web params V Q url depth result = (V', Q ++ fresh.map (·, depth + 1)) ∧
      fresh.Nodup ∧ (∀ u, u ∈ V' ↔ u ∈ V ∨ u ∈ fresh) ∧
      ∀ u ∈ fresh, u ∉ V ∧ depth < params.maxDepth ∧ u ∈ extractLinks web page.html page.url := by
  obtain ⟨fresh, V', heq, hf⟩ := Bfs.discover_fresh (depth + 1) V Q (childLinks web params url depth result)
  refine ⟨fresh, V', heq, hf.nodup, hf.mem, fun u hu => ?_⟩
  obtain ⟨hmem, hV⟩ := hf.unseen u hu
  by_cases hd : depth < params.maxDepth
  · rw [loadPage_bfsJob] at hp
    rw [childLinks_of_scrape hp hs hd] at hmem
    exact ⟨hV, hd, hmem⟩
  · simp [childLinks, hd] at hmem

end Step

/-! ## The result of a crawl -/

section Sound

variable {web : Web} (cfg : CrawlerConfig) (params : CrawlParams) (net : ℕ → Network web.urls)
  (base : web.urls.Url)

/-- The state after `n` rounds of the crawl. -/
def CrawlReaches (n : ℕ) (s : CrawlState) : Prop :=
  crawlAfter cfg params net ((web.urls.hostStr base).getD "") (crawlStart web params base) n = some s

/-- In round `n` the crawl loads `page` and stores `r`. -/
def StoredIn (n : ℕ) (page : Page (web.at (net n))) (r : ScrapeResult) : Prop :=
  ∃ s depth result, CrawlReaches cfg params net base n s ∧
    s.Scrapes web params ((web.urls.hostStr base).getD "") r.url depth ∧
    loadPage (web.at (net n)) cfg (params.bfsJob r.url depth) = .ok page ∧
    scrape (web.at (net n)) cfg (params.bfsJob r.url depth) = .ok result ∧ r = params.strip result

/-- `url` is where the crawl starts, or a link of a page that was stored. -/
def Discovered (results : List ScrapeResult) (url : String) : Prop :=
  url = params.rootUrl ∨ url ∈ sitemapUrls web params base ∨
    ∃ r ∈ results, ∃ n page, StoredIn cfg params net base n page r ∧
      url ∈ extractLinks (web.at (net n)) page.html page.url

/-- What every round keeps. -/
structure CrawlInv (s : CrawlState) : Prop where
  length : s.results.length ≤ params.limit.toNat
  nodup : (s.results.map ScrapeResult.url ++ s.queue.map Prod.fst).Nodup
  visited : ∀ url ∈ s.results.map ScrapeResult.url ++ s.queue.map Prod.fst, url ∈ s.visited
  discovered : ∀ url ∈ s.visited, Discovered cfg params net base s.results url
  stored : ∀ r ∈ s.results, ∃ n page, StoredIn cfg params net base n page r

/-- The results of a crawl. -/
structure CrawlSound (results : List ScrapeResult) : Prop where
  length : results.length ≤ params.limit.toNat
  nodup : (results.map ScrapeResult.url).Nodup
  included : params.includePaths ≠ [] →
    ∀ r ∈ results, ∃ p ∈ params.includePaths, containsStr r.url p = true
  excluded : ∀ r ∈ results, ∀ p ∈ params.excludePaths, containsStr r.url p = false
  host : params.allowExternalLinks = false → ∀ r ∈ results, ∃ url, web.urls.parse r.url = .ok url ∧
    (web.urls.hostStr url).getD "" = (web.urls.hostStr base).getD ""
  allowed : ∀ r ∈ results, ∃ n page, StoredIn cfg params net base n page r ∧
    web.urls.parse r.url = .ok page.url ∧ isAllowedByRobots (web.at (net n)) cfg page.url = true
  discovered : ∀ r ∈ results, Discovered cfg params net base results r.url

variable {cfg params net base} {s s' : CrawlState} {results results' : List ScrapeResult} {url : String}
  {n : ℕ}

theorem Discovered.mono (h : Discovered cfg params net base results url)
    (hsub : results ⊆ results') : Discovered cfg params net base results' url := by
  rcases h with h | h | ⟨r, hr, hstored⟩
  · exact .inl h
  · exact .inr (.inl h)
  · exact .inr (.inr ⟨r, hsub hr, hstored⟩)

theorem crawlInv_start : CrawlInv cfg params net base (crawlStart web params base) := by
  obtain ⟨fresh, V, heq, hf⟩ := Bfs.discover_fresh (1 : UInt32) ∅ [] (sitemapUrls web params base)
  have hV (u : String) : u ∈ V ↔ u ∈ fresh := by simpa using hf.mem u
  have hseeds (u : String) (hu : u ∈ fresh) : Discovered cfg params net base [] u :=
    .inr (.inl (hf.unseen u hu).1)
  have hmap : (fresh.map fun u => (u, (1 : UInt32))).map Prod.fst = fresh := by
    simp [Function.comp_def]
  unfold crawlStart
  simp only [heq, List.nil_append]
  by_cases hroot : params.rootUrl ∈ V
  · rw [if_pos hroot]
    refine ⟨Nat.zero_le _, ?_, ?_, fun u hu => hseeds u ((hV u).mp hu), by simp⟩
    · simpa only [hmap, List.map_nil, List.nil_append] using hf.nodup
    · simpa only [hmap, List.map_nil, List.nil_append] using fun u hu => (hV u).mpr hu
  · rw [if_neg hroot]
    refine ⟨Nat.zero_le _, ?_, ?_, fun u hu => ?_, by simp⟩
    · simp only [List.map_cons, hmap, List.map_nil, List.nil_append, List.nodup_cons]
      exact ⟨mt (hV _).mpr hroot, hf.nodup⟩
    · simp only [List.map_cons, hmap, List.map_nil, List.nil_append]
      intro u hu
      rcases List.mem_cons.mp hu with rfl | hu
      · exact Finset.mem_insert_self _ _
      · exact Finset.mem_insert_of_mem ((hV u).mpr hu)
    · rcases Finset.mem_insert.mp hu with rfl | hu
      · exact .inl rfl
      · exact hseeds u ((hV u).mp hu)

theorem crawlInv_round (hinv : CrawlInv cfg params net base s) (hs : CrawlReaches cfg params net base n s)
    (h : crawlRound (web.at (net n)) cfg params ((web.urls.hostStr base).getD "") s = some s') :
    CrawlInv cfg params net base s' := by
  obtain ⟨url, depth, queue, hq, hlt, rfl | ⟨page, result, hscrapes, hp, hok, rfl⟩⟩ := crawlRound_cases h
  · have hsub : (s.results.map ScrapeResult.url ++ queue.map Prod.fst).Sublist
        (s.results.map ScrapeResult.url ++ s.queue.map Prod.fst) := by
      rw [hq]
      exact (List.sublist_cons_self _ _).append_left _
    exact ⟨hinv.length, hinv.nodup.sublist hsub, fun u hu => hinv.visited u (hsub.subset hu),
      hinv.discovered, hinv.stored⟩
  · obtain ⟨fresh, V', hpush, hnodup, hV, hfresh⟩ := pushLinks_fresh hp hok s.visited queue
    have hurl : (params.strip result).url = url := by
      rw [strip_url, scrape_url hok, bfsJob_url]
    have hstored : StoredIn cfg params net base n page (params.strip result) := by
      refine ⟨s, depth, result, hs, ?_, ?_, ?_, rfl⟩
      · rw [hurl]; exact scrapes_at.mp hscrapes
      · rw [hurl]; exact hp
      · rw [hurl]; exact hok
    -- the URL of the page moves from the queue to the results, and fresh links follow
    have hmap : (s.results ++ [params.strip result]).map ScrapeResult.url ++
        (queue ++ fresh.map (·, depth + 1)).map Prod.fst =
        (s.results.map ScrapeResult.url ++ s.queue.map Prod.fst) ++ fresh := by
      rw [hq]
      simp [hurl, Function.comp_def]
    rw [hpush]
    refine ⟨?_, ?_, ?_, fun u hu => ?_, fun r hr => ?_⟩
    · simp only [List.length_append, List.length_singleton]
      omega
    · simp only [hmap]
      refine List.nodup_append.mpr ⟨hinv.nodup, hnodup, fun u hu v hv huv => ?_⟩
      exact (hfresh v hv).1 (huv ▸ hinv.visited u hu)
    · simp only [hmap]
      intro u hu
      rcases List.mem_append.mp hu with hu | hu
      · exact (hV u).mpr (.inl (hinv.visited u hu))
      · exact (hV u).mpr (.inr hu)
    · rcases (hV u).mp hu with hu | hu
      · exact (hinv.discovered u hu).mono (List.subset_append_left _ _)
      · exact .inr (.inr ⟨_, List.mem_append_right _ (List.mem_singleton_self _), n, page, hstored,
          (hfresh u hu).2.2⟩)
    · rcases List.mem_append.mp hr with hr | hr
      · exact hinv.stored r hr
      · rw [List.mem_singleton.mp hr]
        exact ⟨n, page, hstored⟩

theorem crawlInv_reaches (h : CrawlReaches cfg params net base n s) : CrawlInv cfg params net base s := by
  induction n generalizing s with
  | zero =>
    cases h
    exact crawlInv_start
  | succ n ih =>
    obtain ⟨t, ht, hround⟩ := Option.bind_eq_some_iff.mp h
    exact crawlInv_round (ih ht) ht hround

theorem loadPage_allowed {job : ScrapeJobData} {page : Page web} (h : loadPage web cfg job = .ok page) :
    isAllowedByRobots web cfg page.url = true := by
  have hparse := loadPage_url h
  unfold loadPage at h
  rw [hparse] at h
  by_contra hb
  rw [Bool.not_eq_true] at hb
  simp [hb] at h

/-- What the filters let through. -/
theorem of_not_filteredOut {baseHost : String} (h : filteredOut web params baseHost url = false) :
    (params.includePaths ≠ [] → ∃ p ∈ params.includePaths, containsStr url p = true) ∧
      (∀ p ∈ params.excludePaths, containsStr url p = false) ∧
      (params.allowExternalLinks = false → ∀ parsed, web.urls.parse url = .ok parsed →
        (web.urls.hostStr parsed).getD "" = baseHost) := by
  unfold filteredOut at h
  rw [Bool.or_eq_false_iff, Bool.or_eq_false_iff] at h
  obtain ⟨⟨hin, hex⟩, hhost⟩ := h
  refine ⟨fun hne => ?_, fun p hp => ?_, fun hext parsed hparsed => ?_⟩
  · have hany : params.includePaths.any (containsStr url) = true := by simpa [hne] using hin
    simpa using List.any_eq_true.mp hany
  · simpa using List.any_eq_false.mp hex p hp
  · simpa [hext, hparsed] using hhost

theorem crawlSound_of_inv (h : CrawlInv cfg params net base s) :
    CrawlSound cfg params net base s.results := by
  have hpass (r : ScrapeResult) (hr : r ∈ s.results) :
      filteredOut web params ((web.urls.hostStr base).getD "") r.url = false := by
    obtain ⟨n, page, t, depth, result, -, hscrapes, -⟩ := h.stored r hr
    exact hscrapes.2.2
  have hloaded (r : ScrapeResult) (hr : r ∈ s.results) : ∃ n page, StoredIn cfg params net base n page r ∧
      web.urls.parse r.url = .ok page.url ∧ isAllowedByRobots (web.at (net n)) cfg page.url = true := by
    obtain ⟨n, page, hstored⟩ := h.stored r hr
    have hstored' := hstored
    obtain ⟨t, depth, result, ht, hscrapes, hp, -⟩ := hstored'
    have hparse := loadPage_url hp
    rw [bfsJob_url] at hparse
    exact ⟨n, page, hstored, hparse, loadPage_allowed hp⟩
  exact {
    length := h.length
    nodup := h.nodup.sublist (List.sublist_append_left _ _)
    included := fun hne r hr => (of_not_filteredOut (hpass r hr)).1 hne
    excluded := fun r hr => (of_not_filteredOut (hpass r hr)).2.1
    host := fun hext r hr => by
      obtain ⟨n, page, -, hparse, -⟩ := hloaded r hr
      exact ⟨page.url, hparse, (of_not_filteredOut (hpass r hr)).2.2 hext _ hparse⟩
    allowed := hloaded
    discovered := fun r hr =>
      h.discovered _ (h.visited _ (List.mem_append_left _ (List.mem_map_of_mem hr))) }

/-- **What a crawl returns** is within the limit, without repetition, past the filters, allowed, and
discovered from the root and the sitemap through pages that it also returns. -/
theorem crawl_sound (h : crawlIn cfg params net = .ok results) :
    ∃ base, web.urls.parse params.rootUrl = .ok base ∧ CrawlSound cfg params net base results := by
  unfold crawlIn at h
  rcases hroot : web.urls.parse params.rootUrl with e | base
  · rw [hroot] at h; cases h
  · rw [hroot] at h
    have hstart : CrawlReaches cfg params net base 0 (crawlStart web params base) := rfl
    obtain ⟨n, t, ht, -, heq⟩ := exists_left hstart
    cases h
    refine ⟨base, rfl, ?_⟩
    rw [heq]
    exact crawlSound_of_inv (crawlInv_reaches ht)

end Sound

/-- The crawl of the sample web. -/
theorem crawl_sound_sample : ∃ results,
    crawlIn .sample .sample (fun _ => Web.sample.network) = .ok results ∧
      CrawlSound .sample .sample (fun _ => Web.sample.network) "https://example.com/" results :=
  let ⟨_, rfl, hsound⟩ := @crawl_sound .sample .sample .sample (fun _ => Web.sample.network) _ rfl
  ⟨_, rfl, hsound⟩

/-! ## Depths -/

section Depth

variable {web : Web} {cfg : CrawlerConfig} {params : CrawlParams} {net : ℕ → Network web.urls}
  {base : web.urls.Url} {s s' : CrawlState} {n : ℕ}

/-- Why a URL is in the queue at a depth: it is the root, or one of the sitemap, or a link of a page
one above. -/
inductive QueuedAt (cfg : CrawlerConfig) (params : CrawlParams) (net : ℕ → Network web.urls)
    (base : web.urls.Url) : String → UInt32 → Prop
  | root : QueuedAt cfg params net base params.rootUrl 0
  | sitemap {url : String} : url ∈ sitemapUrls web params base → QueuedAt cfg params net base url 1
  | link {n : ℕ} {s : CrawlState} {url link : String} {depth : UInt32} {page : Page (web.at (net n))} :
      CrawlReaches cfg params net base n s →
      s.Scrapes web params ((web.urls.hostStr base).getD "") url depth →
      loadPage (web.at (net n)) cfg (params.bfsJob url depth) = .ok page →
      link ∈ extractLinks (web.at (net n)) page.html page.url → depth < params.maxDepth →
      QueuedAt cfg params net base link (depth + 1)

theorem queuedAt_start : ∀ p ∈ (crawlStart web params base).queue, QueuedAt cfg params net base p.1 p.2 := by
  obtain ⟨fresh, V, heq, hf⟩ := Bfs.discover_fresh (1 : UInt32) ∅ [] (sitemapUrls web params base)
  have hseeds : ∀ p ∈ fresh.map (·, (1 : UInt32)), QueuedAt cfg params net base p.1 p.2 := by
    intro p hp
    obtain ⟨u, hu, rfl⟩ := List.mem_map.mp hp
    exact .sitemap (hf.unseen u hu).1
  intro p hp
  unfold crawlStart at hp
  simp only [heq, List.nil_append] at hp
  split_ifs at hp
  · exact hseeds p hp
  · rcases List.mem_cons.mp hp with rfl | hp
    · exact .root
    · exact hseeds p hp

theorem queuedAt_reaches (h : CrawlReaches cfg params net base n s) :
    ∀ p ∈ s.queue, QueuedAt cfg params net base p.1 p.2 := by
  induction n generalizing s with
  | zero =>
    cases h
    exact queuedAt_start
  | succ n ih =>
    obtain ⟨t, ht, hround⟩ := Option.bind_eq_some_iff.mp h
    obtain ⟨url, depth, queue, hq, -, rfl | ⟨page, result, hscrapes, hp, hok, rfl⟩⟩ :=
      crawlRound_cases hround
    · exact fun p hmem => ih ht p (hq ▸ List.mem_cons_of_mem _ hmem)
    · obtain ⟨fresh, V', hpush, -, -, hfresh⟩ := pushLinks_fresh hp hok t.visited queue
      rw [hpush]
      intro p hmem
      rcases List.mem_append.mp hmem with hmem | hmem
      · exact ih ht p (hq ▸ List.mem_cons_of_mem _ hmem)
      · obtain ⟨u, hu, rfl⟩ := List.mem_map.mp hmem
        exact .link ht (scrapes_at.mp hscrapes) hp (hfresh u hu).2.2 (hfresh u hu).2.1

/-- Above depth 0 only the start of the queue could be too deep. -/
theorem QueuedAt.le {url : String} {depth : UInt32} (h : QueuedAt cfg params net base url depth)
    (hmax : 1 ≤ params.maxDepth) : depth ≤ params.maxDepth := by
  cases h with
  | root => exact UInt32.zero_le
  | sitemap _ => exact hmax
  | @link n s url _ depth page _ _ _ _ hlt =>
    have hsucc := depth_succ hlt
    have hlt := UInt32.lt_iff_toNat_lt.mp hlt
    rw [UInt32.le_iff_toNat_le]
    omega

/-! ### With depth 0 only -/

/-- With depth 0 only, a round takes the first URL and pushes nothing. -/
theorem crawlRound_of_zero (web : Web) (cfg : CrawlerConfig) (baseHost : String) (hzero : params.maxDepth = 0)
    {url : String} {depth : UInt32} {queue : List (String × UInt32)} (hq : s.queue = (url, depth) :: queue)
    (hlt : s.results.length < params.limit.toNat) :
    ∃ t, crawlRound web cfg params baseHost s = some t ∧ t.queue = queue ∧
      t.results.length = s.results.length +
        if (admissibleLinks web cfg params baseHost url).isSome then 1 else 0 := by
  unfold crawlRound
  simp only [hq, if_neg (not_le.mpr hlt)]
  by_cases hf : filteredOut web params baseHost url = true
  · have hg : admissibleLinks web cfg params baseHost url = none := if_pos hf
    exact ⟨_, if_pos hf, rfl, by simp [hg]⟩
  · rw [if_neg hf]
    rcases hp : loadPage web cfg (params.job url) with e | page
    · have hg : admissibleLinks web cfg params baseHost url = none := by
        rw [admissibleLinks, if_neg hf, hp]
      rw [← loadPage_bfsJob depth] at hp
      rw [scrape_error hp]
      exact ⟨_, rfl, rfl, by simp [hg]⟩
    · have hg : (admissibleLinks web cfg params baseHost url).isSome := by
        rw [admissibleLinks, if_neg hf, hp]
        rfl
      rw [← loadPage_bfsJob depth] at hp
      obtain ⟨result, hs, -⟩ := scrape_ok hp
      have hnone : ¬ depth < params.maxDepth := by simp [hzero]
      rw [hs]
      refine ⟨_, rfl, ?_, by simp [hg]⟩
      simp [pushLinks, childLinks, hnone, Bfs.discover]

/-- The URLs that pass the filters and load. -/
def admissible (web : Web) (cfg : CrawlerConfig) (params : CrawlParams) (base : web.urls.Url)
    (url : String) : Bool :=
  (admissibleLinks web cfg params ((web.urls.hostStr base).getD "") url).isSome

/-- The URLs that the crawl starts with, in order. -/
def startUrls (web : Web) (params : CrawlParams) (base : web.urls.Url) : List String :=
  (crawlStart web params base).queue.map Prod.fst

/-- With depth 0 only, the crawl works off the queue it starts with. -/
theorem start_split (hzero : params.maxDepth = 0)
    (h : CrawlReaches cfg params (fun _ => web.network) base n s) :
    ∃ done, startUrls web params base = done ++ s.queue.map Prod.fst ∧
      s.results.length = done.countP (admissible web cfg params base) := by
  induction n generalizing s with
  | zero =>
    cases h
    refine ⟨[], rfl, ?_⟩
    unfold crawlStart
    simp only
    split_ifs <;> rfl
  | succ n ih =>
    obtain ⟨t, ht, hround⟩ := Option.bind_eq_some_iff.mp h
    obtain ⟨done, hsplit, hlen⟩ := ih ht
    obtain ⟨url, depth, queue, hq, hlt, -⟩ := crawlRound_cases hround
    obtain ⟨t', ht', hqueue, hres⟩ := crawlRound_of_zero web cfg _ hzero hq hlt
    obtain rfl : t' = s := Option.some.inj (ht'.symm.trans hround)
    refine ⟨done ++ [url], ?_, ?_⟩
    · rw [hsplit, hq, hqueue]
      simp
    · rw [hres, hlen, List.countP_append, List.countP_singleton]
      rfl

/-- Until the limit is reached every URL of that queue has its turn. -/
theorem reaches_split (cfg : CrawlerConfig) (hzero : params.maxDepth = 0) {done rest : List (String × UInt32)}
    (hsplit : (crawlStart web params base).queue = done ++ rest)
    (hlt : (done.map Prod.fst).countP (admissible web cfg params base) < params.limit.toNat) :
    ∃ s, CrawlReaches cfg params (fun _ => web.network) base done.length s ∧ s.queue = rest ∧
      s.results.length = (done.map Prod.fst).countP (admissible web cfg params base) := by
  induction done using List.reverseRecOn generalizing rest with
  | nil =>
    refine ⟨_, rfl, hsplit, ?_⟩
    unfold crawlStart
    simp only
    split_ifs <;> rfl
  | append_singleton done p ih =>
    obtain ⟨url, depth⟩ := p
    rw [List.map_append, List.countP_append] at hlt
    rw [List.append_assoc, List.singleton_append] at hsplit
    obtain ⟨s, hs, hq, hlen⟩ := ih hsplit (by omega)
    obtain ⟨t, ht, hqueue, hres⟩ := crawlRound_of_zero web cfg ((web.urls.hostStr base).getD "") hzero hq
      (by omega)
    refine ⟨t, ?_, hqueue, ?_⟩
    · rw [List.length_append, List.length_singleton, CrawlReaches, crawlAfter]
      exact Option.bind_eq_some_iff.mpr ⟨s, hs, ht⟩
    · rw [hres, hlen, List.map_append, List.countP_append, List.map_cons, List.map_nil,
        List.countP_singleton]
      rfl

/-! ### The bound -/

/-- The crawl scrapes `url` at some time, taken from the queue with `depth`. -/
def ScrapedAt (web : Web) (cfg : CrawlerConfig) (params : CrawlParams) (base : web.urls.Url)
    (url : String) (depth : UInt32) : Prop :=
  ∃ n s, CrawlReaches cfg params (fun _ => web.network) base n s ∧
    s.Scrapes web params ((web.urls.hostStr base).getD "") url depth

/-- The depth of a URL taken from the queue: the root has depth 0 even where the sitemap lists it. -/
def CrawlParams.depthOf (params : CrawlParams) (url : String) (depth : UInt32) : UInt32 :=
  if url = params.rootUrl then 0 else depth

/-- Nothing below the greatest depth is scraped. -/
def DepthBound (web : Web) (cfg : CrawlerConfig) (params : CrawlParams) (base : web.urls.Url) : Prop :=
  ∀ url depth, ScrapedAt web cfg params base url depth → params.depthOf url depth ≤ params.maxDepth

theorem depth_of_start {p : String × UInt32} (hp : p ∈ (crawlStart web params base).queue)
    (hne : p.1 ≠ params.rootUrl) : p.2 = 1 := by
  obtain ⟨fresh, V, heq, -⟩ := Bfs.discover_fresh (1 : UInt32) ∅ [] (sitemapUrls web params base)
  have hseeds (hp : p ∈ fresh.map (·, (1 : UInt32))) : p.2 = 1 := by
    obtain ⟨u, -, rfl⟩ := List.mem_map.mp hp
    rfl
  unfold crawlStart at hp
  simp only [heq, List.nil_append] at hp
  split_ifs at hp
  · exact hseeds hp
  · rcases List.mem_cons.mp hp with rfl | hp
    · exact absurd rfl hne
    · exact hseeds hp

/-- With depth 0 only, a URL of the sitemap that passes the filters must come after the limit. -/
theorem DepthBound.limit_le (hbound : DepthBound web cfg params base) (hzero : params.maxDepth = 0)
    {done rest : List String} {url : String}
    (hsplit : startUrls web params base = done ++ url :: rest) (hne : url ≠ params.rootUrl)
    (hf : filteredOut web params ((web.urls.hostStr base).getD "") url = false) :
    params.limit.toNat ≤ done.countP (admissible web cfg params base) := by
  by_contra hlt
  obtain ⟨done', rest', hqueue, rfl, hrest⟩ := List.map_eq_append_iff.mp hsplit
  obtain ⟨⟨url', depth⟩, queue, rfl, rfl, -⟩ := List.map_eq_cons_iff.mp hrest
  obtain ⟨s, hs, hq, hlen⟩ := reaches_split cfg hzero hqueue (by omega)
  have hdepth : depth = 1 := depth_of_start (p := (url', depth)) (by rw [hqueue]; simp) hne
  have hle := hbound url' depth ⟨_, s, hs, ⟨queue, hq⟩, by omega, hf⟩
  rw [CrawlParams.depthOf, if_neg hne, hdepth, hzero] at hle
  exact absurd hle (by decide)

/-- **The depth bound holds** if the greatest depth is at least 1, or the limit is reached before the
first URL of the sitemap that passes the filters. -/
theorem depthBound_iff (web : Web) (cfg : CrawlerConfig) (params : CrawlParams) (base : web.urls.Url) :
    DepthBound web cfg params base ↔
      1 ≤ params.maxDepth ∨
        ∀ done url rest, startUrls web params base = done ++ url :: rest → url ≠ params.rootUrl →
          filteredOut web params ((web.urls.hostStr base).getD "") url = false →
          params.limit.toNat ≤ done.countP (admissible web cfg params base) := by
  by_cases hmax : 1 ≤ params.maxDepth
  · refine ⟨fun _ => .inl hmax, ?_⟩
    rintro - url depth ⟨n, s, hs, ⟨queue, hq⟩, -⟩
    have hle : depth ≤ params.maxDepth := (queuedAt_reaches hs (url, depth) (by simp [hq])).le hmax
    unfold CrawlParams.depthOf
    split_ifs
    · exact UInt32.zero_le
    · exact hle
  · have hzero : params.maxDepth = 0 := by
      rw [UInt32.le_iff_toNat_le, UInt32.toNat_one] at hmax
      exact UInt32.toNat_inj.mp (by rw [UInt32.toNat_zero]; omega)
    rw [or_iff_right hmax]
    constructor
    · intro hbound done url rest hsplit hne hf
      exact hbound.limit_le hzero hsplit hne hf
    · rintro hlimit url depth ⟨n, s, hs, ⟨queue, hq⟩, hlt, hf⟩
      obtain ⟨done, hsplit, hlen⟩ := start_split hzero hs
      rw [hq, List.map_cons] at hsplit
      unfold CrawlParams.depthOf
      split_ifs with hroot
      · exact UInt32.zero_le
      · have hle := hlimit done url _ hsplit hroot hf
        omega

end Depth

/-- A crawl of the root alone scrapes a page that the sitemap lists. -/
theorem not_depthBound : ¬ ∀ (web : Web) (cfg : CrawlerConfig) (params : CrawlParams)
    (base : web.urls.Url), web.urls.parse params.rootUrl = .ok base → DepthBound web cfg params base := by
  intro h
  have hbound := h { Web.sample with fetchSitemapUrls := fun _ _ => ["https://example.com/b"] } .sample
    { CrawlParams.sample with maxDepth := 0, ignoreSitemap := false } "https://example.com/" rfl
  have hsplit : startUrls { Web.sample with fetchSitemapUrls := fun _ _ => ["https://example.com/b"] }
      { CrawlParams.sample with maxDepth := 0, ignoreSitemap := false } "https://example.com/" =
        ["https://example.com/"] ++ "https://example.com/b" :: [] := by
    decide +kernel
  have hle := hbound.limit_le rfl hsplit (by decide) (by decide +kernel)
  exact absurd hle (by decide +kernel)

end FireCtrl
