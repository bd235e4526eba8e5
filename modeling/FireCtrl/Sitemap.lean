import FireCtrl.Lib.Levels
import FireCtrl.Rounds

/-!
# Crawls that start from a sitemap

* `collectSitemapUrls`, `fetchSitemapUrls`: the walk through a sitemap of sitemaps;
  `collected_fetchSitemapUrls`: it returns serialised URLs, and not more than the limit.
* `crawlOrder`: the URLs of a crawl in breadth-first order; `crawl_urls`: the crawl returns the first ones.
* **`sitemapAdds_iff`**: when seeding from the sitemap loses no page.
* **`noPageTwice_iff`**: when no two results are about the same URL.
-/

namespace FireCtrl

/-! ## The walk through the sitemap -/

/-- What a sitemap lists; the location may be missing. -/
inductive SiteMapEntity (Url : Type)
  | url (loc : Option Url)
  | siteMap (loc : Option Url)
  | err

/-- The sitemaps of a web, and their reader. A body is there if the request succeeds. -/
structure Sitemaps (Url : Type) where
  get : String → Option String
  entities : String → List (SiteMapEntity Url)

def defaultSitemapMaxDepth : ℕ := 5

section Walk

variable {Url : Type} (maps : Sitemaps Url) (urlString : Url → String) (limit : ℕ)

/-- One entity of a sitemap: the URLs collected and the sitemaps below. -/
def readEntity (s : List String × List String) (e : SiteMapEntity Url) : List String × List String :=
  if limit ≤ s.1.length then s
  else
    match e with
    | .url (some loc) => (s.1 ++ [urlString loc], s.2)
    | .siteMap (some loc) => (s.1, s.2 ++ [urlString loc])
    | .url none => s
    | .siteMap none => s
    | .err => s

/-- The loop over the entities of a sitemap. -/
def readEntities (collected : List String) (entities : List (SiteMapEntity Url)) :
    List String × List String :=
  entities.foldl (readEntity urlString limit) (collected, [])

/-- `collect_sitemap_urls` with `levels` levels of nesting left; the state is what has been collected and
the sitemaps visited. -/
def collectSitemapUrls (levels : ℕ) (url : String) (s : List String × Finset String) :
    List String × Finset String :=
  match levels with
  | 0 => s
  | levels + 1 =>
    if limit ≤ s.1.length ∨ url ∈ s.2 then s
    else
      match maps.get url with
      | none => (s.1, insert url s.2)
      | some body =>
        let read := readEntities urlString limit s.1 (maps.entities body)
        read.2.foldl (fun s child =>
          if limit ≤ s.1.length then s else collectSitemapUrls levels child s) (read.1, insert url s.2)

end Walk

/-- `fetch_sitemap_urls`. -/
def fetchSitemapUrls (web : Web) (maps : Sitemaps web.urls.Url) (baseUrl : web.urls.Url) (limit : ℕ) :
    List String :=
  let sitemapUrl := web.scheme baseUrl ++ "://" ++ (web.urls.hostStr baseUrl).getD "" ++ "/sitemap.xml"
  (collectSitemapUrls maps web.urlString limit (defaultSitemapMaxDepth + 1) sitemapUrl ([], ∅)).1

/-- The web with these sitemaps. -/
def Web.withSitemaps (web : Web) (maps : Sitemaps web.urls.Url) : Web :=
  { web with fetchSitemapUrls := FireCtrl.fetchSitemapUrls web maps }

section Walk

variable {Url : Type} {maps : Sitemaps Url} {urlString : Url → String} {limit : ℕ}

/-- What the walk has collected: serialised URLs, not more than the limit. -/
structure Collected (urlString : Url → String) (limit : ℕ) (collected : List String) : Prop where
  length : collected.length ≤ limit
  serialised : ∀ s ∈ collected, ∃ u, s = urlString u

theorem Collected.snoc {collected : List String} (h : Collected urlString limit collected)
    (hlt : collected.length < limit) (u : Url) : Collected urlString limit (collected ++ [urlString u]) := by
  refine ⟨?_, fun s hs => ?_⟩
  · rw [List.length_append, List.length_singleton]
    omega
  · rcases List.mem_append.mp hs with hs | hs
    · exact h.serialised s hs
    · exact ⟨u, List.mem_singleton.mp hs⟩

theorem collected_readEntity {s : List String × List String} (h : Collected urlString limit s.1)
    (e : SiteMapEntity Url) : Collected urlString limit (readEntity urlString limit s e).1 := by
  unfold readEntity
  by_cases hle : limit ≤ s.1.length
  · rw [if_pos hle]
    exact h
  · rw [if_neg hle]
    rcases e with (_ | loc) | (_ | loc) | _
    · exact h
    · exact h.snoc (not_le.mp hle) loc
    · exact h
    · exact h
    · exact h

theorem collected_readEntities {collected : List String} (h : Collected urlString limit collected)
    (entities : List (SiteMapEntity Url)) :
    Collected urlString limit (readEntities urlString limit collected entities).1 :=
  List.foldlRecOn entities _ (motive := fun s : List String × List String => Collected urlString limit s.1) h
    fun _ hs e _ => collected_readEntity hs e

theorem collected_collectSitemapUrls {levels : ℕ} {url : String} {s : List String × Finset String}
    (h : Collected urlString limit s.1) :
    Collected urlString limit (collectSitemapUrls maps urlString limit levels url s).1 := by
  induction levels generalizing url s with
  | zero => exact h
  | succ levels ih =>
    unfold collectSitemapUrls
    split_ifs
    · exact h
    · rcases maps.get url with _ | body
      · exact h
      · simp only
        have hread := collected_readEntities h (maps.entities body)
        refine List.foldlRecOn _ _ (motive := fun s : List String × Finset String =>
          Collected urlString limit s.1) hread fun t ht child _ => ?_
        split_ifs
        · exact ht
        · exact ih ht

/-- **What the sitemap walk returns** are serialised URLs, not more than the limit. -/
theorem collected_fetchSitemapUrls (web : Web) (maps : Sitemaps web.urls.Url) (base : web.urls.Url)
    (limit : ℕ) : Collected web.urlString limit (fetchSitemapUrls web maps base limit) :=
  collected_collectSitemapUrls ⟨Nat.zero_le _, by simp⟩

end Walk

/-! ## Breadth-first order -/

section Order

variable (web : Web) (cfg : CrawlerConfig) (params : CrawlParams) (base : web.urls.Url)

/-- The links of admissible URLs. -/
def crawlLinks : String → Option (List String) :=
  admissibleLinks web cfg params ((web.urls.hostStr base).getD "")

/-- The URLs at depth 0: the root, unless the sitemap lists it. -/
def crawlRoots : List String :=
  if params.rootUrl ∈ sitemapUrls web params base then [] else [params.rootUrl]

/-- The URLs of the sitemap, each once. -/
def crawlSeeds : List String := (Bfs.enter (∅, []) (sitemapUrls web params base)).2

/-- The URLs that a crawl without limit would return, in order. -/
def crawlOrder : List String :=
  Bfs.levelOrder (crawlLinks web cfg params base) params.maxDepth.toNat (crawlStart web params base).visited
    (crawlRoots web params base) (crawlSeeds web params base)

variable {web cfg params base} {results : List ScrapeResult} {url : String}

/-- The start of the crawl in terms of its sources. -/
theorem crawlStart_sources (web : Web) (params : CrawlParams) (base : web.urls.Url) :
    (crawlStart web params base).queue.map (fun p => (p.1, p.2.toNat)) =
        (crawlRoots web params base).map (·, 0) ++ (crawlSeeds web params base).map (·, 0 + 1) ∧
      (∀ u, u ∈ (crawlStart web params base).visited ↔
        u ∈ crawlRoots web params base ∨ u ∈ crawlSeeds web params base) ∧
      (crawlRoots web params base ++ crawlSeeds web params base).Nodup ∧
      ∀ u, u ∈ crawlSeeds web params base ↔ u ∈ sitemapUrls web params base := by
  obtain ⟨fresh, V, heq, hf⟩ := Bfs.enter_fresh ∅ [] (sitemapUrls web params base)
  have hV (u : String) : u ∈ V ↔ u ∈ fresh := by simpa using hf.mem u
  have hmem (u : String) : u ∈ fresh ↔ u ∈ sitemapUrls web params base :=
    ⟨fun hu => (hf.unseen u hu).1, fun hu => (hV u).mp (hf.seen u hu)⟩
  have hdisc := Bfs.discover_enter (1 : UInt32) ∅ [] [] (sitemapUrls web params base)
  rw [heq, List.map_nil, List.nil_append] at hdisc
  have hmap : (fresh.map (·, (1 : UInt32))).map (fun p => (p.1, p.2.toNat)) = fresh.map (·, 0 + 1) := by
    simp [Function.comp_def]
  unfold crawlStart crawlRoots crawlSeeds
  simp only [hdisc, heq, List.nil_append]
  by_cases hroot : params.rootUrl ∈ sitemapUrls web params base
  · rw [if_pos ((hV _).mpr ((hmem _).mpr hroot)), if_pos hroot]
    exact ⟨hmap, fun u => by simp [hV], by simpa using hf.nodup, hmem⟩
  · have hrootV : params.rootUrl ∉ V := fun h => hroot ((hmem _).mp ((hV _).mp h))
    rw [if_neg hrootV, if_neg hroot]
    refine ⟨by rw [List.map_cons, hmap]; rfl, fun u => ?_, ?_, hmem⟩
    · rw [Finset.mem_insert, List.mem_singleton, hV]
    · exact List.nodup_cons.mpr ⟨fun h => hroot ((hmem _).mp h), hf.nodup⟩

/-- **The crawl returns the first URLs in breadth-first order**, up to the limit. -/
theorem crawl_urls (hroot : web.urls.parse params.rootUrl = .ok base)
    (h : crawl web cfg params = .ok results) :
    results.map ScrapeResult.url = (crawlOrder web cfg params base).take params.limit.toNat := by
  have hcrawl : crawl web cfg params = .ok (crawlLoop web cfg params ((web.urls.hostStr base).getD "")
      (crawlStart web params base).visited (crawlStart web params base).queue []) := by
    unfold crawl crawlStart sitemapUrls
    simp only [hroot]
    split_ifs <;> rfl
  rw [hcrawl, Except.ok.injEq] at h
  have hloop := @crawlLoop_urls web cfg params ((web.urls.hostStr base).getD "")
    (crawlStart web params base).visited (crawlStart web params base).queue [] [] rfl
  rw [h, (crawlStart_sources web params base).1, Bfs.loop_levelOrder (Nat.zero_add _) (Nat.zero_le _)] at hloop
  exact hloop

theorem nodup_crawlOrder : (crawlOrder web cfg params base).Nodup := by
  obtain ⟨-, hV, hnodup, -⟩ := crawlStart_sources web params base
  exact Bfs.nodup_levelOrder hnodup fun u hu => (hV u).mpr (List.mem_append.mp hu)

/-- The URLs within reach of the root and of the sitemap. -/
def crawlReach (web : Web) (cfg : CrawlerConfig) (params : CrawlParams) (base : web.urls.Url) :
    Set String :=
  {url | Bfs.ReachFrom (crawlLinks web cfg params base) (crawlRoots web params base)
    (sitemapUrls web params base) params.maxDepth.toNat url}

theorem mem_crawlOrder : url ∈ crawlOrder web cfg params base ↔ url ∈ crawlReach web cfg params base := by
  obtain ⟨-, hV, -, hseeds⟩ := crawlStart_sources web params base
  unfold crawlOrder
  rw [Bfs.mem_levelOrder fun u hu => (hV u).mp hu]
  simp only [crawlReach, Bfs.ReachFrom, Set.mem_ofPred_eq, hseeds]

theorem encard_crawlReach :
    (crawlReach web cfg params base).encard = (crawlOrder web cfg params base).length := by
  have hset : crawlReach web cfg params base = {u | u ∈ crawlOrder web cfg params base} :=
    Set.ext fun u => mem_crawlOrder.symm
  rw [hset, ← List.coe_toFinset, Set.encard_coe_eq_coe_finsetCard,
    List.toFinset_card_of_nodup nodup_crawlOrder]

theorem encard_crawlReach_le {n : ℕ} (h : (crawlOrder web cfg params base).length ≤ n) :
    (crawlReach web cfg params base).encard ≤ n := by
  rw [encard_crawlReach]
  exact_mod_cast h

/-- A crawl whose limit is large enough returns everything within reach. -/
theorem mem_crawl (hroot : web.urls.parse params.rootUrl = .ok base)
    (hlimit : (crawlReach web cfg params base).encard ≤ params.limit.toNat)
    (h : crawl web cfg params = .ok results) :
    url ∈ results.map ScrapeResult.url ↔ url ∈ crawlReach web cfg params base := by
  rw [encard_crawlReach] at hlimit
  have hlen : (crawlOrder web cfg params base).length ≤ params.limit.toNat := by exact_mod_cast hlimit
  rw [crawl_urls hroot h, List.take_of_length_le hlen]
  exact mem_crawlOrder

/-! ## With and without the sitemap -/

/-- Every URL of the crawl without the sitemap is also in the crawl with it. -/
def SitemapAdds (web : Web) (cfg : CrawlerConfig) (params : CrawlParams) : Prop :=
  ∀ without seeded, crawl web cfg { params with ignoreSitemap := true } = .ok without →
    crawl web cfg { params with ignoreSitemap := false } = .ok seeded →
    ∀ r ∈ without, r.url ∈ seeded.map ScrapeResult.url

theorem crawlReach_without (b : web.urls.Url) :
    crawlReach web cfg { params with ignoreSitemap := true } b =
      {url | Bfs.Reach (crawlLinks web cfg params b) params.rootUrl params.maxDepth.toNat url} := by
  have hlinks : crawlLinks web cfg { params with ignoreSitemap := true } b = crawlLinks web cfg params b := rfl
  ext url
  simp [crawlReach, crawlRoots, sitemapUrls, Bfs.ReachFrom, hlinks]

theorem mem_crawlReach_seeded (b : web.urls.Url) :
    url ∈ crawlReach web cfg { params with ignoreSitemap := false } b ↔
      (params.rootUrl ∉ web.fetchSitemapUrls b params.limit.toNat ∧
        Bfs.Reach (crawlLinks web cfg params b) params.rootUrl params.maxDepth.toNat url) ∨
      ∃ s ∈ web.fetchSitemapUrls b params.limit.toNat,
        Bfs.Reach (crawlLinks web cfg params b) s (params.maxDepth.toNat - 1) url := by
  have hlinks : crawlLinks web cfg { params with ignoreSitemap := false } b = crawlLinks web cfg params b := rfl
  by_cases hroot : params.rootUrl ∈ web.fetchSitemapUrls b params.limit.toNat
  · simp [crawlReach, crawlRoots, sitemapUrls, Bfs.ReachFrom, hlinks, hroot]
  · simp [crawlReach, crawlRoots, sitemapUrls, Bfs.ReachFrom, hlinks, hroot]

/-- With a limit large enough the two crawls compare as their reaches do. -/
theorem sitemapAdds_reach (hroot : web.urls.parse params.rootUrl = .ok base)
    (hwithout : (crawlReach web cfg { params with ignoreSitemap := true } base).encard ≤ params.limit.toNat)
    (hseeded : (crawlReach web cfg { params with ignoreSitemap := false } base).encard ≤ params.limit.toNat) :
    SitemapAdds web cfg params ↔ crawlReach web cfg { params with ignoreSitemap := true } base ⊆
      crawlReach web cfg { params with ignoreSitemap := false } base := by
  obtain ⟨without, hw⟩ : ∃ rs, crawl web cfg { params with ignoreSitemap := true } = .ok rs := by
    simp [crawl, hroot]
  obtain ⟨seeded, hs⟩ : ∃ rs, crawl web cfg { params with ignoreSitemap := false } = .ok rs := by
    simp [crawl, hroot]
  have hroot' (b : Bool) : web.urls.parse { params with ignoreSitemap := b }.rootUrl = .ok base := hroot
  have hmw (url : String) : url ∈ without.map ScrapeResult.url ↔
      url ∈ crawlReach web cfg { params with ignoreSitemap := true } base :=
    mem_crawl (hroot' true) hwithout hw
  have hms (url : String) : url ∈ seeded.map ScrapeResult.url ↔
      url ∈ crawlReach web cfg { params with ignoreSitemap := false } base :=
    mem_crawl (hroot' false) hseeded hs
  constructor
  · intro hadds url hreach
    obtain ⟨r, hr, rfl⟩ := List.mem_map.mp ((hmw url).mpr hreach)
    exact (hms _).mp (hadds without seeded hw hs r hr)
  · intro hall without' seeded' hw' hs' r hr
    rw [hw, Except.ok.injEq] at hw'
    rw [hs, Except.ok.injEq] at hs'
    subst hw' hs'
    exact (hms _).mpr (hall ((hmw _).mp (List.mem_map_of_mem hr)))

/-- **Seeding from the sitemap only adds pages** if the sitemap does not list the root, or if every page
at the greatest depth is one step nearer to a URL of the sitemap. With the greatest depth 0 this is so: `0 - 1`
is 0, and no page is meant. -/
theorem sitemapAdds_iff (hroot : web.urls.parse params.rootUrl = .ok base)
    (hwithout : (crawlReach web cfg { params with ignoreSitemap := true } base).encard ≤ params.limit.toNat)
    (hseeded : (crawlReach web cfg { params with ignoreSitemap := false } base).encard ≤ params.limit.toNat) :
    SitemapAdds web cfg params ↔
      params.rootUrl ∉ web.fetchSitemapUrls base params.limit.toNat ∨
        ∀ url, Bfs.Reach (crawlLinks web cfg params base) params.rootUrl params.maxDepth.toNat url →
          ¬ Bfs.Reach (crawlLinks web cfg params base) params.rootUrl (params.maxDepth.toNat - 1) url →
          ∃ s ∈ web.fetchSitemapUrls base params.limit.toNat,
            Bfs.Reach (crawlLinks web cfg params base) s (params.maxDepth.toNat - 1) url := by
  rw [sitemapAdds_reach hroot hwithout hseeded, crawlReach_without]
  constructor
  · intro hall
    by_cases hlisted : params.rootUrl ∈ web.fetchSitemapUrls base params.limit.toNat
    · refine .inr fun url hreach _ => ?_
      exact ((mem_crawlReach_seeded base).mp (hall hreach)).resolve_left fun h => h.1 hlisted
    · exact .inl hlisted
  · intro hcond url hreach
    rw [mem_crawlReach_seeded]
    by_cases hlisted : params.rootUrl ∈ web.fetchSitemapUrls base params.limit.toNat
    · right
      by_cases hnear : Bfs.Reach (crawlLinks web cfg params base) params.rootUrl
          (params.maxDepth.toNat - 1) url
      · exact ⟨_, hlisted, hnear⟩
      · exact (hcond.resolve_left (not_not.mpr hlisted)) url hreach hnear
    · exact .inl ⟨hlisted, hreach⟩

/-! ## No page twice -/

/-- A serialised URL can be read again, and is written as it was. -/
def Web.Reparses (web : Web) : Prop :=
  ∀ u, ∃ u', web.urls.parse (web.urlString u) = .ok u' ∧ web.urlString u' = web.urlString u

/-- No two results have URLs with the same serialised form. -/
def NoPageTwice (web : Web) (results : List ScrapeResult) : Prop :=
  results.Pairwise fun r r' => ∀ u u', web.urls.parse r.url = .ok u → web.urls.parse r'.url = .ok u' →
    web.urlString u ≠ web.urlString u'

theorem serialised_of_extractLinks {html link : String} {b : web.urls.Url}
    (h : link ∈ extractLinks web html b) : ∃ u, link = web.urlString u := by
  obtain ⟨href, -, heq⟩ := List.mem_filterMap.mp h
  split at heq
  · split_ifs at heq
    exact ⟨_, (Option.some.inj heq).symm⟩
  · cases heq

/-- Apart from the root, a crawl that starts from serialised URLs takes only serialised ones. -/
theorem root_or_serialised (hsitemap : ∀ s ∈ sitemapUrls web params base, ∃ u, s = web.urlString u)
    (h : url ∈ crawlOrder web cfg params base) :
    url = params.rootUrl ∨ ∃ u, url = web.urlString u := by
  have hpath {s : String} {n : ℕ} (hp : Bfs.Path (crawlLinks web cfg params base) s n url) :
      url = s ∨ ∃ u, url = web.urlString u := by
    cases hp with
    | root _ => exact .inl rfl
    | step _ hg hmem _ =>
      right
      unfold crawlLinks admissibleLinks at hg
      split_ifs at hg
      split at hg
      · cases hg
        exact serialised_of_extractLinks hmem
      · cases hg
  rcases mem_crawlOrder.mp h with ⟨s, hs, n, -, hp⟩ | ⟨s, hs, n, -, hp⟩
  · unfold crawlRoots at hs
    split_ifs at hs
    · cases hs
    · rw [← List.mem_singleton.mp hs]
      exact hpath hp
  · rcases hpath hp with rfl | hu
    · exact .inr (hsitemap _ hs)
    · exact .inr hu

theorem admissible_of_mem_crawlOrder (h : url ∈ crawlOrder web cfg params base) :
    admissible web cfg params base url = true := by
  rcases mem_crawlOrder.mp h with ⟨s, -, n, -, hp⟩ | ⟨s, -, n, -, hp⟩
  · exact hp.isSome
  · exact hp.isSome

/-- An admissible root that the sitemap does not list comes first. -/
theorem crawlOrder_root (hroots : params.rootUrl ∉ sitemapUrls web params base)
    (hadm : admissible web cfg params base params.rootUrl = true) :
    ∃ rest, crawlOrder web cfg params base = params.rootUrl :: rest := by
  have hfilter (l : List String) :
      (params.rootUrl :: l).filter (fun u => (crawlLinks web cfg params base u).isSome) =
        params.rootUrl :: l.filter fun u => (crawlLinks web cfg params base u).isSome :=
    List.filter_cons_of_pos hadm
  unfold crawlOrder crawlRoots
  rw [if_neg hroots]
  rcases params.maxDepth.toNat with _ | n
  · rw [Bfs.levelOrder, List.cons_append, hfilter]
    exact ⟨_, rfl⟩
  · rw [Bfs.levelOrder, hfilter]
    exact ⟨_, rfl⟩

theorem Web.Reparses.urlString_eq (hser : web.Reparses) {u u' : web.urls.Url}
    (h : web.urls.parse (web.urlString u) = .ok u') : web.urlString u' = web.urlString u := by
  obtain ⟨v, hv, heq⟩ := hser u
  rw [hv, Except.ok.injEq] at h
  exact h ▸ heq

section Serialised

variable (hser : web.Reparses) (hroot : web.urls.parse params.rootUrl = .ok base)
  (hsitemap : ∀ s ∈ sitemapUrls web params base, ∃ u, s = web.urlString u)

include hser hroot in
/-- Two URLs with the same serialised form are the root as it was given and its serialised form. -/
theorem root_of_same_form {url' : String} {u u' : web.urls.Url}
    (h : url = params.rootUrl ∨ ∃ v, url = web.urlString v)
    (h' : url' = params.rootUrl ∨ ∃ v, url' = web.urlString v) (hne : url ≠ url')
    (hu : web.urls.parse url = .ok u) (hu' : web.urls.parse url' = .ok u')
    (heq : web.urlString u = web.urlString u') :
    url = params.rootUrl ∧ url' = web.urlString base ∨ url' = params.rootUrl ∧ url = web.urlString base := by
  rcases h with rfl | ⟨v, rfl⟩
  · rw [hroot, Except.ok.injEq] at hu
    subst hu
    rcases h' with rfl | ⟨v', rfl⟩
    · exact absurd rfl hne
    · exact .inl ⟨rfl, by rw [heq, hser.urlString_eq hu']⟩
  · rcases h' with rfl | ⟨v', rfl⟩
    · rw [hroot, Except.ok.injEq] at hu'
      subst hu'
      exact .inr ⟨rfl, by rw [← heq, hser.urlString_eq hu]⟩
    · rw [hser.urlString_eq hu, hser.urlString_eq hu'] at heq
      exact absurd heq hne

include hser hroot hsitemap in
/-- A root that is not in its serialised form is crawled again in that form. -/
theorem not_noPageTwice_of_ne {results : List ScrapeResult} (hcrawl : crawl web cfg params = .ok results)
    (hne : web.urlString base ≠ params.rootUrl) (hadm : admissible web cfg params base params.rootUrl = true)
    (hmem : web.urlString base ∈ (crawlOrder web cfg params base).take params.limit.toNat) :
    ¬ NoPageTwice web results := by
  intro hno
  have hurls := crawl_urls hroot hcrawl
  -- a listed root would be serialised
  have hroots : params.rootUrl ∉ sitemapUrls web params base := by
    intro h
    obtain ⟨u, hu⟩ := hsitemap _ h
    have hroot' := hroot
    rw [hu] at hroot'
    exact hne ((hser.urlString_eq hroot').trans hu.symm)
  obtain ⟨rest, horder⟩ := crawlOrder_root hroots hadm
  rw [horder] at hurls hmem
  generalize params.limit.toNat = l at hurls hmem
  rcases l with _ | l
  · rw [List.take_zero] at hmem
    cases hmem
  · rw [List.take_succ_cons] at hurls hmem
    obtain ⟨r, rs, rfl, hrurl, hrs⟩ := List.map_eq_cons_iff.mp hurls
    rw [← hrs] at hmem
    obtain ⟨r', hr', hrurl'⟩ := List.mem_map.mp ((List.mem_cons.mp hmem).resolve_left hne)
    obtain ⟨u, hu, heq⟩ := hser base
    refine List.rel_of_pairwise_cons hno hr' base u ?_ ?_ heq.symm
    · rw [hrurl, hroot]
    · rw [hrurl', hu]

include hser hroot hsitemap in
/-- When a crawl that starts from serialised URLs returns no page twice. -/
theorem noPageTwice_of_serialised :
    (∀ results, crawl web cfg params = .ok results → NoPageTwice web results) ↔
      web.urlString base = params.rootUrl ∨ admissible web cfg params base params.rootUrl = false ∨
        web.urlString base ∉ (crawlOrder web cfg params base).take params.limit.toNat := by
  obtain ⟨results, hcrawl⟩ : ∃ results, crawl web cfg params = .ok results := by
    simp [crawl, hroot]
  have hurls := crawl_urls hroot hcrawl
  constructor
  · intro hall
    by_contra hno
    simp only [not_or, not_not, Bool.not_eq_false] at hno
    obtain ⟨hne, hadm, hmem⟩ := hno
    exact not_noPageTwice_of_ne hser hroot hsitemap hcrawl hne hadm hmem (hall _ hcrawl)
  · intro hcond results' hcrawl'
    rw [hcrawl, Except.ok.injEq] at hcrawl'
    subst hcrawl'
    have hnodup : (results.map ScrapeResult.url).Nodup := by
      rw [hurls]
      exact nodup_crawlOrder.sublist (List.take_sublist _ _)
    have hmem {r : ScrapeResult} (hr : r ∈ results) :
        r.url ∈ (crawlOrder web cfg params base).take params.limit.toNat := by
      rw [← hurls]
      exact List.mem_map_of_mem hr
    have hnot {r r' : ScrapeResult} (hr : r ∈ results) (hr' : r' ∈ results) (hne : r.url ≠ r'.url)
        (h₁ : r.url = params.rootUrl) (h₂ : r'.url = web.urlString base) : False := by
      rcases hcond with h | h | h
      · exact hne (by rw [h₁, h₂, h])
      · have hadm := admissible_of_mem_crawlOrder (List.mem_of_mem_take (hmem hr))
        rw [h₁, h] at hadm
        cases hadm
      · exact h (h₂ ▸ hmem hr')
    refine (List.pairwise_map.mp hnodup).imp_of_mem fun {r r'} hr hr' hne u u' hu hu' heq => ?_
    have hform {r : ScrapeResult} (hr : r ∈ results) := root_or_serialised hsitemap
      (List.mem_of_mem_take (hmem hr))
    rcases root_of_same_form hser hroot (hform hr) (hform hr') hne hu hu' heq with ⟨h₁, h₂⟩ | ⟨h₁, h₂⟩
    · exact hnot hr hr' hne h₁ h₂
    · exact hnot hr' hr (Ne.symm hne) h₁ h₂

end Serialised

end Order

/-- **No page is returned twice** exactly if the root is given in its serialised form, or is left out or
fails to load, or its serialised form is not among the first URLs in breadth-first order. -/
theorem noPageTwice_iff {web : Web} {maps : Sitemaps web.urls.Url} {cfg : CrawlerConfig}
    {params : CrawlParams} {base : web.urls.Url} (hser : web.Reparses)
    (hroot : web.urls.parse params.rootUrl = .ok base) :
    (∀ results, crawl (web.withSitemaps maps) cfg params = .ok results → NoPageTwice web results) ↔
      web.urlString base = params.rootUrl ∨
        admissible (web.withSitemaps maps) cfg params base params.rootUrl = false ∨
        web.urlString base ∉
          (crawlOrder (web.withSitemaps maps) cfg params base).take params.limit.toNat := by
  refine @noPageTwice_of_serialised (web.withSitemaps maps) cfg params base hser hroot ?_
  intro s hs
  unfold sitemapUrls at hs
  split_ifs at hs
  · cases hs
  · exact (collected_fetchSitemapUrls web maps base _).serialised s hs

/-! ## Examples -/

/-- Every page links to the front page, whose URL is written with a slash. -/
def Web.sampleSlash : Web where
  urls :=
    { Url := { s : String // s ≠ "https://example.com" }
      parse := fun s => if h : s = "https://example.com" then .ok ⟨"https://example.com/", by decide⟩ else .ok ⟨s, h⟩
      hostStr := fun _ => some "example.com" }
  scheme _ := "https"
  join _ _ := .ok ⟨"https://example.com/", by decide⟩
  urlString := Subtype.val
  oneAgentAllowedByRobots _ := true
  fetch url := .ok (200, none, url)
  fetchPage _ _ _ := .error .timeout
  fetchSitemapUrls _ _ := []
  hrefs _ := ["/"]
  extractTitle _ := none
  htmlToMarkdown html := html
  extractText html _ := html
  htmlToStructuredJson _ _ := .null

theorem reparses_sampleSlash : Web.sampleSlash.Reparses := by
  rintro ⟨s, hs⟩
  exact ⟨⟨s, hs⟩, dif_neg hs, rfl⟩

/-- The crawl from the front page, its URL written as it is serialised. -/
theorem noPageTwice_iff_slash :
    Web.sampleSlash.urls.parse "https://example.com/" = .ok ⟨"https://example.com/", by decide⟩ ∧
      ∀ results, crawl (Web.sampleSlash.withSitemaps ⟨fun _ => none, fun _ => []⟩) .sample
          { CrawlParams.sample with rootUrl := "https://example.com/" } = .ok results →
        NoPageTwice .sampleSlash results :=
  ⟨rfl, (noPageTwice_iff reparses_sampleSlash rfl).mpr (.inl rfl)⟩

/-- Without the slash, the front page is scraped as the root and as a link. -/
theorem not_noPageTwice : ¬ ∀ (web : Web) (maps : Sitemaps web.urls.Url) (cfg : CrawlerConfig)
    (params : CrawlParams) (base : web.urls.Url), web.Reparses →
    web.urls.parse params.rootUrl = .ok base → ∀ results,
      crawl (web.withSitemaps maps) cfg params = .ok results → NoPageTwice web results := by
  intro h
  have hroot : Web.sampleSlash.urls.parse "https://example.com" =
      .ok ⟨"https://example.com/", by decide⟩ := rfl
  have hall := h .sampleSlash ⟨fun _ => none, fun _ => []⟩ .sample
    { CrawlParams.sample with rootUrl := "https://example.com" } _ reparses_sampleSlash hroot
  have hcond := (@noPageTwice_of_serialised (Web.sampleSlash.withSitemaps ⟨fun _ => none, fun _ => []⟩)
    .sample { CrawlParams.sample with rootUrl := "https://example.com" } _ reparses_sampleSlash hroot
    (fun s hs => by cases hs)).mp hall
  rcases hcond with h | h | h
  · exact absurd h (by decide +kernel)
  · exact absurd h (by decide +kernel)
  · exact h (by decide +kernel)

/-- The sample web with a sitemap. -/
def Web.sampleListing (listed : List String) : Web :=
  { Web.sample with fetchSitemapUrls := fun _ _ => listed }

/-- The sitemap lists a page that the root links to. -/
theorem sitemapAdds_iff_listed : SitemapAdds (.sampleListing ["https://example.com/b"]) .sample .sample :=
  (@sitemapAdds_iff (.sampleListing ["https://example.com/b"]) .sample .sample "https://example.com/" rfl
    (encard_crawlReach_le (by decide +kernel)) (encard_crawlReach_le (by decide +kernel))).mpr
    (.inl (by decide +kernel))

/-- The sitemap lists the root, and the page that the root links to is lost. -/
theorem not_sitemapAdds : ¬ ∀ (web : Web) (cfg : CrawlerConfig) (params : CrawlParams)
    (base : web.urls.Url), web.urls.parse params.rootUrl = .ok base →
    (crawlReach web cfg { params with ignoreSitemap := true } base).encard ≤ params.limit.toNat →
    (crawlReach web cfg { params with ignoreSitemap := false } base).encard ≤ params.limit.toNat →
    SitemapAdds web cfg params := by
  intro h
  have hle (b : Bool) : (crawlReach (.sampleListing ["https://example.com/"]) .sample
      { CrawlParams.sample with ignoreSitemap := b } "https://example.com/").encard ≤
        CrawlParams.sample.limit.toNat := by
    cases b with
    | true => exact encard_crawlReach_le (by decide +kernel)
    | false => exact encard_crawlReach_le (by decide +kernel)
  have hadds := h (.sampleListing ["https://example.com/"]) .sample .sample "https://example.com/" rfl
    (hle true) (hle false)
  have hsub := (@sitemapAdds_reach (.sampleListing ["https://example.com/"]) .sample .sample
    "https://example.com/" rfl (hle true) (hle false)).mp hadds
  have hmem : "https://example.com/b" ∈ crawlReach (.sampleListing ["https://example.com/"]) .sample
      { CrawlParams.sample with ignoreSitemap := true } "https://example.com/" :=
    mem_crawlOrder.mp (by decide +kernel)
  exact absurd (mem_crawlOrder.mpr (hsub hmem)) (by decide +kernel)

end FireCtrl
