import FireCtrl.Lib.Dfs
import FireCtrl.Sitemap

/-!
# What the sitemap walk finds

* `Sitemaps.links`, `Sitemaps.pages`: the graph of sitemaps. `fetchSitemapUrls_eq`: the walk returns the
  first pages of the sitemaps that `Dfs.visit` enters.
* `collectSitemapUrlsFrom`: the walk with the arguments of the source and its requests;
  **`sitemapWalk_sound`**: it ends, repeats no request, and returns pages of sitemaps within reach.
* `SitemapCall`: the calls that the walk comes to; `WalkCut`: it reads a sitemap too deep to follow its links.
  **`walkComplete`**: when this never happens, and that every page within reach is found then.
* **`root_dequeued`**: a crawl comes to its root before it comes to its limit.
-/

namespace FireCtrl

/-! ## The graph of sitemaps -/

section Graph

variable {Url : Type} (maps : Sitemaps Url) (urlString : Url → String)

def SiteMapEntity.page : SiteMapEntity Url → Option String
  | .url (some loc) => some (urlString loc)
  | _ => none

def SiteMapEntity.child : SiteMapEntity Url → Option String
  | .siteMap (some loc) => some (urlString loc)
  | _ => none

/-- The sitemaps that a sitemap lists, if it can be fetched. -/
def Sitemaps.links (url : String) : Option (List String) :=
  (maps.get url).map fun body => (maps.entities body).filterMap (SiteMapEntity.child urlString)

/-- The pages that a sitemap lists. -/
def Sitemaps.pages (url : String) : List String :=
  match maps.get url with
  | some body => (maps.entities body).filterMap (SiteMapEntity.page urlString)
  | none => []

/-- Together, the sitemaps list fewer pages than the limit. -/
def Sitemaps.Room (limit : ℕ) (seen : List String) : Prop :=
  (seen.flatMap (maps.pages urlString)).length < limit

end Graph

section Walk

variable {Url : Type} {maps : Sitemaps Url} {urlString : Url → String} {limit : ℕ}

theorem take_take_append {α : Type*} (n : ℕ) (l m : List α) : (l.take n ++ m).take n = (l ++ m).take n := by
  rw [List.take_append, List.take_append, List.take_take, min_self, List.length_take]
  congr 2
  omega

theorem readEntity_fst {s : List String × List String} (h : s.1.length ≤ limit) (e : SiteMapEntity Url) :
    (readEntity urlString limit s e).1 = (s.1 ++ (e.page urlString).toList).take limit := by
  unfold readEntity
  by_cases hle : limit ≤ s.1.length
  · rw [if_pos hle, List.take_append_of_le_length hle, List.take_of_length_le h]
  · rw [if_neg hle]
    rcases e with (_ | loc) | (_ | loc) | _
    · simp [SiteMapEntity.page, h]
    · have hlt : (s.1 ++ [urlString loc]).length ≤ limit := by
        rw [List.length_append, List.length_singleton]
        omega
      rw [SiteMapEntity.page, Option.toList_some, List.take_of_length_le hlt]
    · simp [SiteMapEntity.page, h]
    · simp [SiteMapEntity.page, h]
    · simp [SiteMapEntity.page, h]

theorem readEntity_snd {s : List String × List String} (h : s.1.length < limit) (e : SiteMapEntity Url) :
    (readEntity urlString limit s e).2 = s.2 ++ (e.child urlString).toList := by
  unfold readEntity
  rw [if_neg (not_le.mpr h)]
  rcases e with (_ | loc) | (_ | loc) | _ <;> simp [SiteMapEntity.child]

/-- Reading a sitemap: its pages up to the limit, and the sitemaps it lists if the limit is not reached. -/
theorem foldl_readEntity (entities : List (SiteMapEntity Url)) {s : List String × List String}
    (h : s.1.length ≤ limit) :
    (entities.foldl (readEntity urlString limit) s).1 =
        (s.1 ++ entities.filterMap (SiteMapEntity.page urlString)).take limit ∧
      ((entities.foldl (readEntity urlString limit) s).1.length < limit →
        (entities.foldl (readEntity urlString limit) s).2 =
          s.2 ++ entities.filterMap (SiteMapEntity.child urlString)) := by
  induction entities generalizing s with
  | nil => simp [h]
  | cons e es ih =>
    have hfst : (readEntity urlString limit s e).1 = _ := readEntity_fst h e
    have hlen : (readEntity urlString limit s e).1.length ≤ limit := by
      rw [hfst]
      exact List.length_take_le _ _
    obtain ⟨h₁, h₂⟩ := ih hlen
    have hpages : (e :: es).filterMap (SiteMapEntity.page urlString) =
        (e.page urlString).toList ++ es.filterMap (SiteMapEntity.page urlString) := by
      cases hp : e.page urlString <;> simp [hp]
    have hchildren : (e :: es).filterMap (SiteMapEntity.child urlString) =
        (e.child urlString).toList ++ es.filterMap (SiteMapEntity.child urlString) := by
      cases hc : e.child urlString <;> simp [hc]
    rw [List.foldl_cons]
    refine ⟨by rw [h₁, hfst, take_take_append, hpages, List.append_assoc], fun hlt => ?_⟩
    -- nothing was cut here either
    have hlt' : s.1.length < limit := by
      refine lt_of_le_of_lt ?_ hlt
      rw [h₁, hfst, take_take_append]
      simp only [List.length_take, List.length_append]
      omega
    rw [h₂ hlt, readEntity_snd hlt', hchildren, List.append_assoc]

/-- The loop over the sitemaps that a sitemap lists, with `levels` levels of nesting left. -/
def collectChildren (maps : Sitemaps Url) (urlString : Url → String) (limit levels : ℕ) (children : List String)
    (s : List String × Finset String) : List String × Finset String :=
  children.foldl (fun s child =>
    if limit ≤ s.1.length then s else collectSitemapUrls maps urlString limit levels child s) s

/-- What the walk has collected and visited, once `seen` have been entered. -/
structure Tracks (maps : Sitemaps Url) (urlString : Url → String) (limit : ℕ) (seen : List String)
    (s : List String × Finset String) : Prop where
  collected : s.1 = (seen.flatMap (maps.pages urlString)).take limit
  visited : s.1.length < limit → s.2 = seen.toFinset

section Tracks

variable {seen seen' : List String} {s : List String × Finset String} {url body : String} {n : ℕ}

theorem Tracks.length_le (h : Tracks maps urlString limit seen s) : s.1.length ≤ limit := by
  rw [h.collected]
  exact List.length_take_le _ _

theorem Tracks.room_iff (h : Tracks maps urlString limit seen s) :
    maps.Room urlString limit seen ↔ s.1.length < limit := by
  rw [Sitemaps.Room, h.collected, List.length_take]
  omega

/-- Once the limit is reached, nothing more is collected. -/
theorem Tracks.full (h : Tracks maps urlString limit seen s) (hle : limit ≤ s.1.length)
    (hseen : seen <+: seen') : Tracks maps urlString limit seen' s := by
  obtain ⟨w, rfl⟩ := hseen
  refine ⟨?_, fun hlt => absurd hle (not_le.mpr hlt)⟩
  rw [h.collected, List.length_take] at hle
  rw [List.flatMap_append, h.collected, List.take_append_of_le_length (by omega)]

theorem Tracks.insert_eq (h : Tracks maps urlString limit seen s) (hlt : s.1.length < limit) (url : String) :
    insert url s.2 = (seen ++ [url]).toFinset := by
  rw [h.visited hlt]
  ext u
  simp

/-- The pages of a sitemap that is entered. -/
theorem Tracks.read (h : Tracks maps urlString limit seen s) (hlt : s.1.length < limit)
    (hget : maps.get url = some body) : Tracks maps urlString limit (seen ++ [url])
      ((readEntities urlString limit s.1 (maps.entities body)).1, insert url s.2) := by
  refine ⟨?_, fun _ => h.insert_eq hlt url⟩
  have hpages : maps.pages urlString url = (maps.entities body).filterMap (SiteMapEntity.page urlString) := by
    rw [Sitemaps.pages, hget]
  rw [List.flatMap_append, List.flatMap_singleton, hpages, ← take_take_append, ← h.collected]
  exact (foldl_readEntity (s := (s.1, [])) _ h.length_le).1

/-- The sitemaps that the walk has read from a sitemap, if there is room for more pages. -/
theorem Tracks.children (h : Tracks maps urlString limit seen s)
    (hlt : (readEntities urlString limit s.1 (maps.entities body)).1.length < limit) :
    (readEntities urlString limit s.1 (maps.entities body)).2 =
      (maps.entities body).filterMap (SiteMapEntity.child urlString) :=
  (foldl_readEntity (s := (s.1, [])) _ h.length_le).2 hlt

theorem Tracks.notMem_iff (h : Tracks maps urlString limit seen s) (hlt : s.1.length < limit) :
    url ∉ s.2 ↔ url ∉ seen := by
  rw [h.visited hlt, List.mem_toFinset]

theorem Sitemaps.links_of_get (hget : maps.get url = some body) :
    maps.links urlString url = some ((maps.entities body).filterMap (SiteMapEntity.child urlString)) := by
  rw [Sitemaps.links, hget]
  rfl

theorem collectChildren_full (hle : limit ≤ s.1.length) (children : List String) :
    collectChildren maps urlString limit n children s = s := by
  unfold collectChildren
  induction children with
  | nil => rfl
  | cons child children ih => rw [List.foldl_cons, if_pos hle, ih]

/-- Where the walk reads a sitemap, it goes on with the loop. -/
theorem collectSitemapUrls_read (hlt : s.1.length < limit) (hurl : url ∉ s.2) (hget : maps.get url = some body) :
    collectSitemapUrls maps urlString limit (n + 1) url s =
      collectChildren maps urlString limit n (readEntities urlString limit s.1 (maps.entities body)).2
        ((readEntities urlString limit s.1 (maps.entities body)).1, insert url s.2) := by
  rw [collectSitemapUrls, if_neg (by rw [not_or]; exact ⟨not_le.mpr hlt, hurl⟩), hget]
  rfl

/-- The loop over the sitemaps below, if the walk of each is a depth-first search. -/
theorem Tracks.foldl
    (hwalk : ∀ seen s url, Tracks maps urlString limit seen s →
      Tracks maps urlString limit (Dfs.visit (maps.links urlString) n seen url)
        (collectSitemapUrls maps urlString limit n url s))
    (children : List String) (h : Tracks maps urlString limit seen s) :
    Tracks maps urlString limit (children.foldl (Dfs.visit (maps.links urlString) n) seen)
      (collectChildren maps urlString limit n children s) := by
  unfold collectChildren
  induction children generalizing seen s with
  | nil => exact h
  | cons child children ih =>
    rw [List.foldl_cons, List.foldl_cons]
    by_cases hle : limit ≤ s.1.length
    · rw [if_pos hle]
      exact ih (h.full hle (Dfs.prefix_visit _ _ _))
    · rw [if_neg hle]
      exact ih (hwalk _ _ _ h)

/-- **The walk is a depth-first search**, cut off at the limit. -/
theorem tracks_collectSitemapUrls (h : Tracks maps urlString limit seen s) :
    Tracks maps urlString limit (Dfs.visit (maps.links urlString) n seen url)
      (collectSitemapUrls maps urlString limit n url s) := by
  induction n generalizing seen s url with
  | zero => exact h
  | succ n ih =>
    by_cases hle : limit ≤ s.1.length
    · rw [collectSitemapUrls, if_pos (.inl hle)]
      exact h.full hle (Dfs.prefix_visit _ _ _)
    · have hlt := not_le.mp hle
      by_cases hurl : url ∈ s.2
      · have hseen : url ∈ seen := by rwa [h.visited hlt, List.mem_toFinset] at hurl
        rw [collectSitemapUrls, if_pos (.inr hurl), Dfs.visit_succ_of_mem hseen]
        exact h
      · have hseen : url ∉ seen := (h.notMem_iff hlt).mp hurl
        rcases hget : maps.get url with _ | body
        · have hpages : maps.pages urlString url = [] := by rw [Sitemaps.pages, hget]
          rw [collectSitemapUrls, if_neg (by rw [not_or]; exact ⟨hle, hurl⟩), hget,
            Dfs.visit_closed hseen (by rw [Sitemaps.links, hget]; rfl)]
          refine ⟨?_, fun _ => h.insert_eq hlt url⟩
          rw [List.flatMap_append, List.flatMap_singleton, hpages, List.append_nil]
          exact h.collected
        · have hread := h.read hlt hget
          rw [collectSitemapUrls_read hlt hurl hget, Dfs.visit_succ hseen (Sitemaps.links_of_get hget)]
          by_cases hfull : limit ≤ (readEntities urlString limit s.1 (maps.entities body)).1.length
          · rw [collectChildren_full hfull]
            exact hread.full hfull (Dfs.prefix_foldl (Dfs.prefix_visit n) _ _)
          · rw [h.children (not_le.mp hfull)]
            exact hread.foldl (fun _ _ _ h => ih h) _

/-- What the loop has collected was collected by a depth-first search. -/
theorem tracks_collectChildren (h : Tracks maps urlString limit seen s) (l : List String) :
    Tracks maps urlString limit (l.foldl (Dfs.visit (maps.links urlString) n) seen)
      (collectChildren maps urlString limit n l s) :=
  h.foldl (fun _ _ _ h => tracks_collectSitemapUrls h) l

end Tracks

end Walk

/-- The sitemap where the walk starts. -/
def sitemapUrl (web : Web) (baseUrl : web.urls.Url) : String :=
  web.scheme baseUrl ++ "://" ++ (web.urls.hostStr baseUrl).getD "" ++ "/sitemap.xml"

/-- **The walk returns the first pages** of the sitemaps that a depth-first search enters. -/
theorem fetchSitemapUrls_eq (web : Web) (maps : Sitemaps web.urls.Url) (base : web.urls.Url) (limit : ℕ) :
    fetchSitemapUrls web maps base limit =
      ((Dfs.visit (maps.links web.urlString) (defaultSitemapMaxDepth + 1) [] (sitemapUrl web base)).flatMap
        (maps.pages web.urlString)).take limit := by
  have hstart : Tracks maps web.urlString limit [] ([], ∅) := ⟨by simp, fun _ => rfl⟩
  exact (tracks_collectSitemapUrls hstart).collected

theorem isSome_of_mem_pages {Url : Type} {maps : Sitemaps Url} {urlString : Url → String}
    {url page : String} (h : page ∈ maps.pages urlString url) : (maps.links urlString url).isSome := by
  unfold Sitemaps.pages at h
  unfold Sitemaps.links
  rcases hget : maps.get url with _ | body
  · rw [hget] at h
    cases h
  · rfl

/-! ## Its requests -/

/-- The variables of the walk, with the requests made so far. -/
structure WalkState where
  collected : List String
  visited : Finset String
  requested : List String

section Requests

variable {Url : Type} (maps : Sitemaps Url) (urlString : Url → String) (limit maxDepth : ℕ)

/-- `collect_sitemap_urls` at `depth`, in `fuel` nested calls; `none` if these are too few. -/
def collectSitemapUrlsFrom : ℕ → ℕ → String → WalkState → Option WalkState
  | 0, _, _, _ => none
  | fuel + 1, depth, url, s =>
    if maxDepth < depth then some s
    else if limit ≤ s.collected.length ∨ url ∈ s.visited then some s
    else
      let s := { s with visited := insert url s.visited, requested := s.requested ++ [url] }
      match maps.get url with
      | none => some s
      | some body =>
        let read := readEntities urlString limit s.collected (maps.entities body)
        read.2.foldlM (fun s child =>
          if limit ≤ s.collected.length then some s
          else collectSitemapUrlsFrom fuel (depth + 1) child s) { s with collected := read.1 }

variable {maps urlString limit maxDepth} {s s' : WalkState} {fuel depth : ℕ} {url : String}

/-- Every visited sitemap has been requested once. -/
structure WalkState.Once (s : WalkState) : Prop where
  nodup : s.requested.Nodup
  visited : s.visited = s.requested.toFinset

theorem WalkState.Once.request (h : s.Once) (hurl : url ∉ s.visited) (collected : List String) :
    WalkState.Once ⟨collected, insert url s.visited, s.requested ++ [url]⟩ := by
  rw [h.visited, List.mem_toFinset] at hurl
  refine ⟨List.nodup_append.mpr ⟨h.nodup, List.nodup_singleton url, fun u hu v hv huv => ?_⟩, ?_⟩
  · exact hurl (List.mem_singleton.mp hv ▸ huv ▸ hu)
  · rw [h.visited]
    ext u
    simp

/-- The loop over the sitemaps below, if every walk from there ends. -/
theorem collectSitemapUrlsFrom_loop {f : String → WalkState → Option WalkState}
    {g : String → List String × Finset String → List String × Finset String}
    (hf : ∀ child {s : WalkState}, s.Once → ∃ s', f child s = some s' ∧
      (s'.collected, s'.visited) = g child (s.collected, s.visited) ∧ s'.Once)
    (children : List String) (h : s.Once) :
    ∃ s', children.foldlM (fun s child => if limit ≤ s.collected.length then some s else f child s) s = some s' ∧
      (s'.collected, s'.visited) = children.foldl (fun s child => if limit ≤ s.1.length then s else g child s)
        (s.collected, s.visited) ∧ s'.Once := by
  induction children generalizing s with
  | nil => exact ⟨s, rfl, rfl, h⟩
  | cons child children ih =>
    rw [List.foldlM_cons, List.foldl_cons]
    by_cases hle : limit ≤ s.collected.length
    · rw [if_pos hle, if_pos hle]
      exact ih h
    · rw [if_neg hle, if_neg hle]
      obtain ⟨s₁, hs₁, heq, h₁⟩ := hf child h
      rw [hs₁, ← heq]
      exact ih h₁

/-- With enough fuel the walk ends, as `collectSitemapUrls` does. -/
theorem collectSitemapUrlsFrom_eq (hfuel : maxDepth + 1 - depth < fuel) (h : s.Once) :
    ∃ s', collectSitemapUrlsFrom maps urlString limit maxDepth fuel depth url s = some s' ∧
      (s'.collected, s'.visited) =
        collectSitemapUrls maps urlString limit (maxDepth + 1 - depth) url (s.collected, s.visited) ∧
      s'.Once := by
  induction fuel generalizing depth url s with
  | zero => cases hfuel
  | succ fuel ih =>
    unfold collectSitemapUrlsFrom
    by_cases hdepth : maxDepth < depth
    · rw [if_pos hdepth, Nat.sub_eq_zero_of_le hdepth]
      exact ⟨s, rfl, rfl, h⟩
    · rw [if_neg hdepth]
      have hlevels : maxDepth + 1 - depth = maxDepth + 1 - (depth + 1) + 1 := by omega
      rw [hlevels] at hfuel ⊢
      unfold collectSitemapUrls
      by_cases hstop : limit ≤ s.collected.length ∨ url ∈ s.visited
      · rw [if_pos hstop, if_pos hstop]
        exact ⟨s, rfl, rfl, h⟩
      · rw [if_neg hstop, if_neg hstop]
        rw [not_or] at hstop
        simp only
        rcases maps.get url with _ | body
        · exact ⟨_, rfl, rfl, h.request hstop.2 _⟩
        · have hbelow : maxDepth + 1 - (depth + 1) < fuel := by omega
          exact collectSitemapUrlsFrom_loop
            (f := collectSitemapUrlsFrom maps urlString limit maxDepth fuel (depth + 1))
            (g := collectSitemapUrls maps urlString limit (maxDepth + 1 - (depth + 1)))
            (fun child s h => ih hbelow h) _ (h.request hstop.2 _)

end Requests

/-- **The sitemap walk ends**, whatever the sitemaps list: it requests no sitemap twice, collects at most
`limit` URLs, and only those that a sitemap within `DEFAULT_SITEMAP_MAX_DEPTH` links lists. -/
theorem sitemapWalk_sound (web : Web) (maps : Sitemaps web.urls.Url) (base : web.urls.Url) (limit : ℕ) :
    ∃ s : WalkState,
      collectSitemapUrlsFrom maps web.urlString limit defaultSitemapMaxDepth (defaultSitemapMaxDepth + 2) 0
        (sitemapUrl web base) ⟨[], ∅, []⟩ = some s ∧
      s.collected = fetchSitemapUrls web maps base limit ∧ s.requested.Nodup ∧ s.collected.length ≤ limit ∧
      ∀ page ∈ s.collected, ∃ sitemap,
        Bfs.Reach (maps.links web.urlString) (sitemapUrl web base) defaultSitemapMaxDepth sitemap ∧
        page ∈ maps.pages web.urlString sitemap := by
  have hstart : WalkState.Once ⟨[], ∅, []⟩ := ⟨List.nodup_nil, rfl⟩
  obtain ⟨s, hs, heq, honce⟩ := @collectSitemapUrlsFrom_eq _ maps web.urlString limit
    defaultSitemapMaxDepth _ _ 0 (sitemapUrl web base) (Nat.lt_succ_self (defaultSitemapMaxDepth + 1)) hstart
  have hcollected : s.collected = fetchSitemapUrls web maps base limit := congrArg Prod.fst heq
  refine ⟨s, hs, hcollected, honce.nodup, ?_, fun page hpage => ?_⟩
  · rw [hcollected]
    exact (collected_fetchSitemapUrls web maps base limit).length
  · rw [hcollected, fetchSitemapUrls_eq] at hpage
    obtain ⟨sitemap, hmem, hpage⟩ := List.mem_flatMap.mp (List.mem_of_mem_take hpage)
    have hreach := (Dfs.reach_of_mem_visit hmem (isSome_of_mem_pages hpage)).resolve_left List.not_mem_nil
    exact ⟨sitemap, hreach, hpage⟩

/-! ## What it leaves out -/

/-- Below the limit, every page of a sitemap within `DEFAULT_SITEMAP_MAX_DEPTH` links is returned. -/
def WalkComplete (web : Web) (maps : Sitemaps web.urls.Url) (base : web.urls.Url) (limit : ℕ) : Prop :=
  (fetchSitemapUrls web maps base limit).length < limit → ∀ sitemap,
    Bfs.Reach (maps.links web.urlString) (sitemapUrl web base) defaultSitemapMaxDepth sitemap →
    ∀ page ∈ maps.pages web.urlString sitemap, page ∈ fetchSitemapUrls web maps base limit

section Calls

variable {Url : Type} (maps : Sitemaps Url) (urlString : Url → String) (limit maxDepth : ℕ) (root : String)

/-- The calls of `collect_sitemap_urls` that are at most `maxDepth` deep: the sitemap and those in whose
calls it is nested, and what has been collected and visited by then. -/
inductive SitemapCall : List String → List String × Finset String → Prop
  | root : SitemapCall [root] ([], ∅)
  | child {url child body : String} {stack l m : List String} {s : List String × Finset String} :
      SitemapCall (url :: stack) s → s.1.length < limit → url ∉ s.2 → stack.length < maxDepth →
      maps.get url = some body →
      (readEntities urlString limit s.1 (maps.entities body)).2 = l ++ child :: m →
      (collectChildren maps urlString limit (maxDepth - stack.length) l
        ((readEntities urlString limit s.1 (maps.entities body)).1, insert url s.2)).1.length < limit →
      SitemapCall (child :: url :: stack)
        (collectChildren maps urlString limit (maxDepth - stack.length) l
          ((readEntities urlString limit s.1 (maps.entities body)).1, insert url s.2))

variable {maps urlString limit maxDepth root} {url body : String} {p V : List String}
  {s : List String × Finset String}

/-- A sitemap that cannot be fetched lists no pages. -/
theorem flatMap_pages_filter (V : List String) :
    (V.filter fun url => (maps.links urlString url).isSome).flatMap (maps.pages urlString) =
      V.flatMap (maps.pages urlString) := by
  induction V with
  | nil => rfl
  | cons url V ih =>
    by_cases ho : (maps.links urlString url).isSome
    · rw [List.filter_cons, if_pos ho, List.flatMap_cons, List.flatMap_cons, ih]
    · have hpages : maps.pages urlString url = [] :=
        List.eq_nil_iff_forall_not_mem.mpr fun page hpage => ho (isSome_of_mem_pages hpage)
      rw [List.filter_cons, if_neg ho, List.flatMap_cons, hpages, List.nil_append, ih]

theorem bound_room : Dfs.Bound (maps.links urlString) (maps.Room urlString limit) where
  subperm hsub hW := by
    obtain ⟨l, hperm, hsub⟩ := hsub
    unfold Sitemaps.Room at hW ⊢
    rw [← (hperm.flatMap_right (maps.pages urlString)).length_eq]
    exact (hsub.flatMap (maps.pages urlString)).length_le.trans_lt hW
  of_open hV := by
    unfold Sitemaps.Room at hV ⊢
    rwa [← flatMap_pages_filter]

/-- Every call of the walk is a call of the depth-first search. -/
theorem SitemapCall.call (h : SitemapCall maps urlString limit maxDepth root p s) :
    ∃ V, Dfs.Call (maps.links urlString) root maxDepth (fun _ _ => True) p V ∧
      Tracks maps urlString limit V s := by
  induction h with
  | root => exact ⟨[], .root, by simp, fun _ => rfl⟩
  | @child url child body stack l m s hcall hlt hurl hdepth hget hchildren hafter ih =>
    obtain ⟨V, hV, htracks⟩ := ih
    have hread := htracks.read hlt hget
    have hroom : (readEntities urlString limit s.1 (maps.entities body)).1.length < limit := by
      by_contra hfull
      rw [collectChildren_full (not_lt.mp hfull)] at hafter
      exact hfull hafter
    rw [htracks.children hroom] at hchildren
    exact ⟨_, .child hV ((htracks.notMem_iff hlt).mp hurl) hdepth
      (by rw [Sitemaps.links_of_get hget, hchildren]) trivial, tracks_collectChildren hread l⟩

/-- As long as there is room, every call of the depth-first search is a call of the walk. -/
theorem exists_sitemapCall (h : Dfs.Call (maps.links urlString) root maxDepth (fun _ _ => True) p V)
    (hroom : maps.Room urlString limit V) :
    ∃ s, SitemapCall maps urlString limit maxDepth root p s ∧ Tracks maps urlString limit V s := by
  induction h with
  | root => exact ⟨([], ∅), .root, by simp, fun _ => rfl⟩
  | @child x a stack V l m hcall hx hdepth hg _ ih =>
    have hroom' : maps.Room urlString limit (V ++ [x]) := bound_room.of_prefix (Dfs.prefix_foldl_visit l) hroom
    obtain ⟨s, hs, htracks⟩ := ih (bound_room.of_prefix (List.prefix_append V [x]) hroom')
    have hlt : s.1.length < limit :=
      htracks.room_iff.mp (bound_room.of_prefix (List.prefix_append V [x]) hroom')
    obtain ⟨body, hget, hchildren⟩ := Option.map_eq_some_iff.mp hg
    have hread := htracks.read hlt hget
    have hafter := tracks_collectChildren (n := maxDepth - stack.length) hread l
    rw [← htracks.children (hread.room_iff.mp hroom')] at hchildren
    exact ⟨_, .child hs hlt ((htracks.notMem_iff hlt).mpr hx) hdepth hget hchildren (hafter.room_iff.mp hroom),
      hafter⟩

end Calls

/-- At `DEFAULT_SITEMAP_MAX_DEPTH`, the walk reads a sitemap that it has not visited and that is nearer to the
first one; this lists a sitemap that can be fetched, and the limit is not reached. -/
def WalkCut (web : Web) (maps : Sitemaps web.urls.Url) (base : web.urls.Url) (limit : ℕ) : Prop :=
  ∃ url stack s body child k,
    SitemapCall maps web.urlString limit defaultSitemapMaxDepth (sitemapUrl web base) (url :: stack) s ∧
    url ∉ s.2 ∧ stack.length = defaultSitemapMaxDepth ∧ k < defaultSitemapMaxDepth ∧
    Bfs.Path (maps.links web.urlString) (sitemapUrl web base) k url ∧ maps.get url = some body ∧
    (readEntities web.urlString limit s.1 (maps.entities body)).1.length < limit ∧
    child ∈ (readEntities web.urlString limit s.1 (maps.entities body)).2 ∧ (maps.get child).isSome

/-- The condition on the sitemaps and the limit, see `Dfs.ShallowFirst`. -/
def ShallowFirst (web : Web) (maps : Sitemaps web.urls.Url) (base : web.urls.Url) (limit : ℕ) : Prop :=
  Dfs.ShallowFirst (maps.links web.urlString) (maps.Room web.urlString limit) (sitemapUrl web base)
    defaultSitemapMaxDepth

section WalkCut

variable {web : Web} {maps : Sitemaps web.urls.Url} {base : web.urls.Url} {limit : ℕ}

theorem walkCut_iff : WalkCut web maps base limit ↔
    Dfs.Cut (maps.links web.urlString) (maps.Room web.urlString limit) (sitemapUrl web base)
      defaultSitemapMaxDepth := by
  constructor
  · rintro ⟨url, stack, s, body, child, k, hcall, hurl, hdepth, hk, hpath, hget, hroom, hchild, hfetch⟩
    obtain ⟨V, hV, htracks⟩ := hcall.call
    have hlt : s.1.length < limit := by
      have hpages : (readEntities web.urlString limit s.1 (maps.entities body)).1 =
          (s.1 ++ (maps.entities body).filterMap (SiteMapEntity.page web.urlString)).take limit :=
        (foldl_readEntity (s := (s.1, [])) _ htracks.length_le).1
      rw [hpages, List.length_take, List.length_append] at hroom
      omega
    have hread := htracks.read hlt hget
    rw [htracks.children hroom] at hchild
    exact ⟨url, stack, V, k, child, hV, (htracks.notMem_iff hlt).mp hurl, hread.room_iff.mpr hroom, hdepth, hk,
      hpath, ⟨_, Sitemaps.links_of_get hget, hchild⟩, by rwa [Sitemaps.links, Option.isSome_map]⟩
  · rintro ⟨url, stack, V, k, child, hcall, hurl, hroom, hdepth, hk, hpath, ⟨succs, hg, hmem⟩, ho⟩
    have hroom' : maps.Room web.urlString limit V :=
      bound_room.of_prefix (List.prefix_append V [url]) hroom
    obtain ⟨s, hs, htracks⟩ := exists_sitemapCall hcall hroom'
    have hlt : s.1.length < limit := htracks.room_iff.mp hroom'
    obtain ⟨body, hget, rfl⟩ := Option.map_eq_some_iff.mp hg
    have hread : (readEntities web.urlString limit s.1 (maps.entities body)).1.length < limit :=
      (htracks.read hlt hget).room_iff.mp hroom
    rw [Sitemaps.links, Option.isSome_map] at ho
    exact ⟨url, stack, s, body, child, k, hs, (htracks.notMem_iff hlt).mpr hurl, hdepth, hk, hpath, hget, hread,
      by rwa [htracks.children hread], ho⟩

end WalkCut

/-- **The walk is complete** if, of the paths to a sitemap, a short one comes first, or the limit is reached
before; this is so unless it reads, at the greatest depth, a sitemap that is nearer. -/
theorem walkComplete (web : Web) (maps : Sitemaps web.urls.Url) (base : web.urls.Url) (limit : ℕ) :
    (ShallowFirst web maps base limit → WalkComplete web maps base limit) ∧
      (ShallowFirst web maps base limit ↔ ¬ WalkCut web maps base limit) := by
  refine ⟨fun hshallow hlt sitemap hreach page hpage => ?_, ?_⟩
  · rw [fetchSitemapUrls_eq] at hlt ⊢
    rw [List.length_take] at hlt
    have hroom : maps.Room web.urlString limit (Dfs.visit (maps.links web.urlString)
        (defaultSitemapMaxDepth + 1) [] (sitemapUrl web base)) := by
      unfold Sitemaps.Room
      omega
    rw [List.take_of_length_le hroom.le]
    exact List.mem_flatMap.mpr ⟨sitemap, Dfs.mem_visit_of_reach bound_room hshallow hroom hreach, hpage⟩
  · rw [walkCut_iff]
    exact Dfs.shallowFirst_iff bound_room

/-- A site with the host `example.com`. -/
def Web.sampleSite : Web where
  urls := { Url := String, parse := .ok, hostStr := fun _ => some "example.com" }
  scheme _ := "https"
  join _ href := .ok href
  urlString := id
  oneAgentAllowedByRobots _ := true
  fetch url := .ok (200, none, url)
  fetchPage _ _ _ := .error .timeout
  fetchSitemapUrls _ _ := []
  hrefs _ := []
  extractTitle _ := none
  htmlToMarkdown html := html
  extractText html _ := html
  htmlToStructuredJson _ _ := .null

/-- The first sitemap lists a page, and `a.xml`, from which four links lead to `x.xml`, and then `x.xml`
itself. -/
def Sitemaps.sample : Sitemaps String where
  get := some
  entities
    | "https://example.com/sitemap.xml" => [.url (some "https://example.com/"),
      .siteMap (some "https://example.com/a.xml"), .siteMap (some "https://example.com/x.xml")]
    | "https://example.com/a.xml" => [.siteMap (some "https://example.com/b.xml")]
    | "https://example.com/b.xml" => [.siteMap (some "https://example.com/c.xml")]
    | "https://example.com/c.xml" => [.siteMap (some "https://example.com/d.xml")]
    | "https://example.com/d.xml" => [.siteMap (some "https://example.com/x.xml")]
    | "https://example.com/x.xml" => [.siteMap (some "https://example.com/y.xml")]
    | "https://example.com/y.xml" => [.url (some "https://example.com/page")]
    | _ => []

/-- With the limit 1, the walk ends before it comes to `x.xml`. -/
theorem walkComplete_first : WalkComplete .sampleSite .sample "https://example.com/" 1 := by
  refine (walkComplete .sampleSite .sample "https://example.com/" 1).1 fun u s k v htrail _ _ _ _ => .inr ?_
  refine ⟨["https://example.com/sitemap.xml"], List.nodup_singleton _, fun y hy => .inl ?_, ?_⟩
  · rw [List.mem_singleton.mp hy]
    exact htrail.root_mem
  · show ¬ ((["https://example.com/sitemap.xml"].flatMap (Sitemaps.sample.pages id)).length < 1)
    decide +kernel

/-- With a larger limit, `y.xml` is two links away, and its page is not found. -/
theorem not_walkComplete : ¬ ∀ (web : Web) (maps : Sitemaps web.urls.Url) (base : web.urls.Url) (limit : ℕ),
    WalkComplete web maps base limit := by
  intro h
  have hfound : fetchSitemapUrls .sampleSite .sample "https://example.com/" 10 = ["https://example.com/"] := by
    decide +kernel
  have hpath : Bfs.Path (Sitemaps.sample.links id) "https://example.com/sitemap.xml" 2 "https://example.com/y.xml" :=
    .step (.step (.root rfl) rfl (List.mem_cons_of_mem _ List.mem_cons_self) rfl) rfl List.mem_cons_self rfl
  have hpage := h .sampleSite .sample "https://example.com/" 10 (by rw [hfound]; decide)
    "https://example.com/y.xml" ⟨2, by decide, hpath⟩ "https://example.com/page" List.mem_cons_self
  rw [hfound] at hpage
  exact absurd hpage (by decide +kernel)

/-! ## The root of a crawl -/

/-- The URL passes the path filters. -/
def CrawlParams.PassesPaths (params : CrawlParams) (url : String) : Prop :=
  (params.includePaths = [] ∨ ∃ p ∈ params.includePaths, containsStr url p = true) ∧
    ∀ p ∈ params.excludePaths, containsStr url p = false

section Root

variable {web : Web} {cfg : CrawlerConfig} {params : CrawlParams} {base : web.urls.Url}
  {net : ℕ → Network web.urls} {baseHost : String} {s : CrawlState} {n : ℕ}

/-- The host filter never leaves the root out. -/
theorem filteredOut_root (hroot : web.urls.parse params.rootUrl = .ok base)
    (hpaths : params.PassesPaths params.rootUrl) :
    filteredOut web params ((web.urls.hostStr base).getD "") params.rootUrl = false := by
  obtain ⟨hinclude, hexclude⟩ := hpaths
  have hin : (!params.includePaths.isEmpty && !params.includePaths.any (containsStr params.rootUrl)) = false := by
    rcases hinclude with h | ⟨p, hp, hcontains⟩
    · simp [h]
    · rw [List.any_eq_true.mpr ⟨p, hp, hcontains⟩]
      simp
  have hex : params.excludePaths.any (containsStr params.rootUrl) = false := by
    rw [List.any_eq_false]
    intro p hp
    rw [hexclude p hp]
    decide
  unfold filteredOut
  rw [hin, hex, hroot]
  simp

/-- Below the limit, a round is made as long as there are URLs in the queue. -/
theorem exists_crawlRound (hq : s.queue ≠ []) (hlt : s.results.length < params.limit.toNat) :
    ∃ s', crawlRound web cfg params baseHost s = some s' := by
  unfold crawlRound
  rcases hqueue : s.queue with _ | ⟨⟨url, depth⟩, queue⟩
  · exact absurd hqueue hq
  · simp only [if_neg (not_le.mpr hlt)]
    split
    · exact ⟨_, rfl⟩
    · split
      · exact ⟨_, rfl⟩
      · exact ⟨_, rfl⟩

/-- What is among the first `limit` of the queue is dequeued: a round takes one URL from the front, and
stores at most one result. -/
theorem exists_dequeued {url : String} {depth : UInt32} {pre post : List (String × UInt32)}
    (h : CrawlReaches cfg params net base n s) (hq : s.queue = pre ++ (url, depth) :: post)
    (hlt : pre.length + s.results.length < params.limit.toNat) :
    ∃ m t queue, CrawlReaches cfg params net base m t ∧ t.queue = (url, depth) :: queue ∧
      t.results.length < params.limit.toNat := by
  induction pre generalizing n s post with
  | nil => exact ⟨n, s, post, h, hq, by simpa using hlt⟩
  | cons p pre ih =>
    rw [List.length_cons] at hlt
    have hround : ∃ s', crawlRound (web.at (net n)) cfg params ((web.urls.hostStr base).getD "") s = some s' :=
      exists_crawlRound (by rw [hq]; simp) (by omega)
    obtain ⟨s', hround⟩ := hround
    have hnext : CrawlReaches cfg params net base (n + 1) s' := by
      unfold CrawlReaches at h ⊢
      rw [crawlAfter, h]
      exact hround
    obtain ⟨u, d, queue, hqueue, -, hs'⟩ := crawlRound_cases hround
    rw [hq, List.cons_append] at hqueue
    have hrest : queue = pre ++ (url, depth) :: post := (List.cons.inj hqueue).2.symm
    rcases hs' with hs' | ⟨page, result, -, hpage, hscrape, hs'⟩
    · subst hs'
      exact ih hnext hrest (by simp only; omega)
    · obtain ⟨fresh, V, hpush, -⟩ := pushLinks_fresh hpage hscrape s.visited queue
      subst hs'
      have hpushed : (pushLinks (web.at (net n)) params s.visited queue u d result).2 =
          pre ++ (url, depth) :: (post ++ fresh.map (·, d + 1)) := by
        rw [hpush, hrest]
        simp
      refine ih hnext hpushed ?_
      simp only [List.length_append, List.length_singleton]
      omega

/-- The root is among the first `limit` URLs of the queue. -/
theorem root_queued (hlen : (sitemapUrls web params base).length ≤ params.limit.toNat)
    (hlimit : 1 ≤ params.limit.toNat) : ∃ pre depth post,
      (crawlStart web params base).queue = pre ++ (params.rootUrl, depth) :: post ∧
        pre.length < params.limit.toNat := by
  obtain ⟨hqueue, -, hnodup, hseeds⟩ := crawlStart_sources web params base
  have hurls : (crawlStart web params base).queue.map Prod.fst =
      crawlRoots web params base ++ crawlSeeds web params base := by
    have h := congrArg (List.map Prod.fst) hqueue
    simpa [Function.comp_def] using h
  have hle : (crawlRoots web params base ++ crawlSeeds web params base).length ≤ params.limit.toNat ∨
      ∃ post, crawlRoots web params base ++ crawlSeeds web params base = params.rootUrl :: post := by
    unfold crawlRoots
    split_ifs with hlisted
    · left
      have hsub : crawlSeeds web params base ⊆ sitemapUrls web params base := fun u hu => (hseeds u).mp hu
      have hseed : (crawlSeeds web params base).Nodup := (List.nodup_append.mp hnodup).2.1
      exact (List.subperm_of_subset hseed hsub).length_le.trans hlen
    · exact .inr ⟨_, rfl⟩
  have hmem : params.rootUrl ∈ (crawlStart web params base).queue.map Prod.fst := by
    rw [hurls, List.mem_append, hseeds]
    unfold crawlRoots
    split_ifs with hlisted
    · exact .inr hlisted
    · exact .inl List.mem_cons_self
  rw [← hurls] at hle
  rcases hle with hle | ⟨post, hfirst⟩
  · obtain ⟨⟨url, depth⟩, hp, hurl⟩ := List.mem_map.mp hmem
    obtain ⟨pre, post, hsplit⟩ := List.append_of_mem hp
    refine ⟨pre, depth, post, by rw [hsplit, ← hurl], ?_⟩
    rw [hsplit] at hle
    simp only [List.length_map, List.length_append, List.length_cons] at hle
    omega
  · obtain ⟨⟨url, depth⟩, post, hq, hurl, -⟩ := List.map_eq_cons_iff.mp hfirst
    exact ⟨[], depth, post, by rw [hq, ← hurl]; rfl, hlimit⟩

end Root

/-- **The crawl comes to its root** before it comes to its limit, and scrapes it if it passes the path
filters, whatever the sitemap lists. -/
theorem root_dequeued {web : Web} (maps : Sitemaps web.urls.Url) (cfg : CrawlerConfig) {params : CrawlParams}
    {base : web.urls.Url} (net : ℕ → Network web.urls) (hroot : web.urls.parse params.rootUrl = .ok base)
    (hlimit : 1 ≤ params.limit) :
    ∃ n s depth, @CrawlReaches (web.withSitemaps maps) cfg params net base n s ∧
      (∃ queue, s.queue = (params.rootUrl, depth) :: queue) ∧ s.results.length < params.limit.toNat ∧
      (params.PassesPaths params.rootUrl →
        s.Scrapes (web.withSitemaps maps) params ((web.urls.hostStr base).getD "") params.rootUrl depth) := by
  have hlimit' : 1 ≤ params.limit.toNat := UInt32.le_iff_toNat_le.mp hlimit
  have hlen : (sitemapUrls (web.withSitemaps maps) params base).length ≤ params.limit.toNat := by
    unfold sitemapUrls
    split_ifs
    · exact Nat.zero_le _
    · exact (collected_fetchSitemapUrls web maps base _).length
  obtain ⟨pre, depth, post, hq, hpre⟩ := root_queued hlen hlimit'
  have hstart : @CrawlReaches (web.withSitemaps maps) cfg params net base 0
    (crawlStart (web.withSitemaps maps) params base) := rfl
  have hresults : (crawlStart (web.withSitemaps maps) params base).results = [] := by
    unfold crawlStart
    simp only
    split_ifs <;> rfl
  obtain ⟨n, s, queue, hreach, hhead, hlt⟩ := exists_dequeued hstart hq (by rw [hresults]; exact hpre)
  refine ⟨n, s, depth, hreach, ⟨queue, hhead⟩, hlt, fun hpaths => ⟨⟨queue, hhead⟩, hlt, ?_⟩⟩
  exact @filteredOut_root (web.withSitemaps maps) params base hroot hpaths

/-- The root of the sample crawl, which stores one result. -/
theorem root_dequeued_sample :
    ∃ n s depth, @CrawlReaches (Web.sampleSite.withSitemaps .sample) .sample
        { CrawlParams.sample with limit := 1, ignoreSitemap := false } (fun _ => Web.sampleSite.network)
        "https://example.com/" n s ∧
      (∃ queue, s.queue = ("https://example.com/", depth) :: queue) ∧ s.results.length < 1 ∧
      (CrawlParams.PassesPaths { CrawlParams.sample with limit := 1, ignoreSitemap := false }
          "https://example.com/" →
        s.Scrapes (Web.sampleSite.withSitemaps .sample)
          { CrawlParams.sample with limit := 1, ignoreSitemap := false } "example.com" "https://example.com/"
          depth) :=
  @root_dequeued .sampleSite .sample .sample _ _ (fun _ => Web.sampleSite.network) rfl (by decide)

end FireCtrl
