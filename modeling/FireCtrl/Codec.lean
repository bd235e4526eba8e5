import FireCtrl.Models

/-!
# What is read back from the queue

The persisted types are read back field by field, up to an optional JSON value `Some(null)`.

* The `Rereads` instances, from the sub-types up to `JobEnvelope` and `ScrapeResult`.
* `Settled`: sub-types that hold an optional JSON value; what has been decoded holds no `Some(null)`.
-/

namespace FireCtrl

open Fields

/-! ## Sub-types -/

instance : Rereads OutputFormat where
  reread f := f
  fromValue_toValue f := by cases f <;> rfl

instance : Exact OutputFormat := ⟨fun _ => rfl⟩

instance : Rereads PageAction where
  reread a := a
  fromValue_toValue a := by
    cases a <;> simp only [fromValue, toValue] <;>
      simp [PageAction.ofFields, required, entry, List.lookup_cons, fromValue_toValue]

instance : Exact PageAction := ⟨fun _ => rfl⟩

instance : Rereads LocationOptions where
  reread l := l
  fromValue_toValue l := by
    refine (Option.bind_some ..).trans ?_
    iterate 2 refine (bind_required rfl).trans ?_
    simp

instance : Exact LocationOptions := ⟨fun _ => rfl⟩

instance : NonNull LocationOptions := ⟨fun _ h => by cases h⟩

instance : Rereads WebhookConfig where
  reread w := { w with headers := reread w.headers }
  fromValue_toValue w := by
    refine (Option.bind_some ..).trans ?_
    refine (bind_required rfl).trans ?_
    iterate 2 refine (bind_orElse rfl).trans ?_
    simp

instance : NonNull WebhookConfig := ⟨fun _ h => by cases h⟩

instance : Rereads ExtractOptions where
  reread o := { o with schema := reread o.schema }
  fromValue_toValue o := by
    refine (Option.bind_some ..).trans ?_
    iterate 2 refine (bind_required rfl).trans ?_
    refine (bind_orElse rfl).trans ?_
    simp

instance : NonNull ExtractOptions := ⟨fun _ h => by cases h⟩

instance : Rereads ScrapeOptions where
  reread o := { o with headers := reread o.headers }
  fromValue_toValue o := by
    refine (Option.bind_some ..).trans ?_
    iterate 10 refine (bind_orElse rfl).trans ?_
    simp

/-! ## Jobs -/

instance : Rereads ScrapeJobData where
  reread j := { j with headers := reread j.headers, extract := reread j.extract }
  fromValue_toValue j := by
    refine (Option.bind_some ..).trans ?_
    refine (bind_required rfl).trans ?_
    iterate 12 refine (bind_orElse rfl).trans ?_
    simp

instance : Rereads CrawlJobData where
  reread j := { j with scrapeOptions := reread j.scrapeOptions, webhook := reread j.webhook }
  fromValue_toValue j := by
    refine (Option.bind_some ..).trans ?_
    refine (bind_required rfl).trans ?_
    iterate 9 refine (bind_orElse rfl).trans ?_
    iterate 2 refine (bind_required rfl).trans ?_
    refine (bind_orElse rfl).trans ?_
    simp

instance : Rereads BatchScrapeJobData where
  reread j := { j with scrapeOptions := reread j.scrapeOptions, webhook := reread j.webhook }
  fromValue_toValue j := by
    refine (Option.bind_some ..).trans ?_
    refine (bind_required rfl).trans ?_
    iterate 2 refine (bind_orElse rfl).trans ?_
    refine (bind_required rfl).trans ?_
    simp

instance : Rereads ExtractJobData where
  reread j := { j with schema := reread j.schema }
  fromValue_toValue j := by
    refine (Option.bind_some ..).trans ?_
    iterate 3 refine (bind_required rfl).trans ?_
    iterate 4 refine (bind_orElse rfl).trans ?_
    simp

instance : Rereads MapJobData where
  reread j := j
  fromValue_toValue j := by
    refine (Option.bind_some ..).trans ?_
    refine (bind_required rfl).trans ?_
    iterate 4 refine (bind_orElse rfl).trans ?_
    simp

instance : Rereads JobEnvelope where
  reread
    | .scrape j => .scrape (reread j)
    | .crawl j => .crawl (reread j)
    | .batchScrape j => .batchScrape (reread j)
    | .extract j => .extract (reread j)
    | .map j => .map (reread j)
  fromValue_toValue e := by
    cases e with
    | scrape j => exact congrArg (Option.map JobEnvelope.scrape) (fromValue_toValue j)
    | crawl j => exact congrArg (Option.map JobEnvelope.crawl) (fromValue_toValue j)
    | batchScrape j => exact congrArg (Option.map JobEnvelope.batchScrape) (fromValue_toValue j)
    | extract j => exact congrArg (Option.map JobEnvelope.extract) (fromValue_toValue j)
    | map j => exact congrArg (Option.map JobEnvelope.map) (fromValue_toValue j)

/-! ## Results -/

instance : Rereads ScrapeMetadata where
  reread m := m
  fromValue_toValue m := by
    refine (Option.bind_some ..).trans ?_
    refine (bind_required rfl).trans ?_
    refine (bind_optional (o := m.contentType) (by simp [ScrapeMetadata.entries, List.lookup_append])).trans ?_
    refine (bind_required (a := m.sourceUrl) (by simp [ScrapeMetadata.entries, List.lookup_append])).trans ?_
    refine (bind_optional (o := m.scrapeId) (by simp [ScrapeMetadata.entries, List.lookup_append])).trans ?_
    refine (bind_required (a := m.error) (by simp [ScrapeMetadata.entries, List.lookup_append])).trans ?_
    simp

instance : Exact ScrapeMetadata := ⟨fun _ => rfl⟩

instance : Rereads ScrapeResult where
  reread r := { r with extract := reread r.extract, json := reread r.json }
  fromValue_toValue r := by
    refine (Option.bind_some ..).trans ?_
    refine (bind_required (a := r.url) (by simp [ScrapeResult.entries])).trans ?_
    refine (bind_optional (o := r.title) (by simp [ScrapeResult.entries, List.lookup_append])).trans ?_
    refine (bind_optional (o := r.markdown) (by simp [ScrapeResult.entries, List.lookup_append])).trans ?_
    refine (bind_optional (o := r.html) (by simp [ScrapeResult.entries, List.lookup_append])).trans ?_
    refine (bind_optional (o := r.rawHtml) (by simp [ScrapeResult.entries, List.lookup_append])).trans ?_
    refine (bind_optional (o := r.screenshot) (by simp [ScrapeResult.entries, List.lookup_append])).trans ?_
    refine (bind_optional (o := r.links) (by simp [ScrapeResult.entries, List.lookup_append])).trans ?_
    refine (bind_optional (o := r.extract) (by simp [ScrapeResult.entries, List.lookup_append])).trans ?_
    refine (bind_optional (o := r.json) (by simp [ScrapeResult.entries, List.lookup_append])).trans ?_
    refine (bind_optional (o := r.warning) (by simp [ScrapeResult.entries, List.lookup_append])).trans ?_
    refine (bind_required (a := r.metadata) (by simp [ScrapeResult.entries, List.lookup_append])).trans ?_
    simp

/-! ## What has been decoded -/

theorem reread_webhook {w : WebhookConfig} (h : reread w.headers = w.headers) : reread w = w := by
  show { w with headers := reread w.headers } = w
  rw [h]

instance : Settled WebhookConfig where
  reread_of_fromValue h := by
    obtain ⟨f, -, h⟩ := Option.bind_eq_some_iff.mp h
    obtain ⟨url, -, h⟩ := Option.bind_eq_some_iff.mp h
    obtain ⟨headers, hheaders, h⟩ := Option.bind_eq_some_iff.mp h
    obtain ⟨events, -, h⟩ := Option.bind_eq_some_iff.mp h
    cases h
    exact reread_webhook (reread_orElse reread_none hheaders)
  reread_of_missing h := by cases h

theorem reread_scrapeOptions {o : ScrapeOptions} (h : reread o.headers = o.headers) : reread o = o := by
  show { o with headers := reread o.headers } = o
  rw [h]

instance : Settled ScrapeOptions where
  reread_of_fromValue h := by
    obtain ⟨f, -, h⟩ := Option.bind_eq_some_iff.mp h
    iterate 4 obtain ⟨_, -, h⟩ := Option.bind_eq_some_iff.mp h
    obtain ⟨headers, hheaders, h⟩ := Option.bind_eq_some_iff.mp h
    iterate 5 obtain ⟨_, -, h⟩ := Option.bind_eq_some_iff.mp h
    cases h
    exact reread_scrapeOptions (reread_orElse reread_none hheaders)
  reread_of_missing h := by cases h

theorem reread_crawl {j : CrawlJobData} (ho : reread j.scrapeOptions = j.scrapeOptions)
    (hw : reread j.webhook = j.webhook) : reread (JobEnvelope.crawl j) = .crawl j := by
  show JobEnvelope.crawl { j with scrapeOptions := reread j.scrapeOptions, webhook := reread j.webhook } = _
  rw [ho, hw]

theorem reread_batchScrape {j : BatchScrapeJobData} (ho : reread j.scrapeOptions = j.scrapeOptions)
    (hw : reread j.webhook = j.webhook) : reread (JobEnvelope.batchScrape j) = .batchScrape j := by
  show JobEnvelope.batchScrape
    { j with scrapeOptions := reread j.scrapeOptions, webhook := reread j.webhook } = _
  rw [ho, hw]

theorem reread_extract {j : ExtractJobData} (h : reread j.schema = j.schema) :
    reread (JobEnvelope.extract j) = .extract j := by
  show JobEnvelope.extract { j with schema := reread j.schema } = _
  rw [h]

/-- The options of a decoded request are read back as they are, and so is its webhook. -/
theorem CrawlRequest.settled {v : Json} {req : CrawlRequest} (h : CrawlRequest.ofValue v = some req) :
    reread req.scrapeOptions = req.scrapeOptions ∧ reread req.webhook = req.webhook := by
  obtain ⟨f, -, h⟩ := Option.bind_eq_some_iff.mp h
  iterate 3 obtain ⟨_, -, h⟩ := Option.bind_eq_some_iff.mp h
  obtain ⟨options, hoptions, h⟩ := Option.bind_eq_some_iff.mp h
  iterate 5 obtain ⟨_, -, h⟩ := Option.bind_eq_some_iff.mp h
  obtain ⟨webhook, hwebhook, h⟩ := Option.bind_eq_some_iff.mp h
  obtain ⟨_, -, h⟩ := Option.bind_eq_some_iff.mp h
  cases h
  exact ⟨reread_orElse rfl hoptions, reread_orElse reread_none hwebhook⟩

theorem BatchScrapeRequest.settled {v : Json} {req : BatchScrapeRequest}
    (h : BatchScrapeRequest.ofValue v = some req) :
    reread req.scrapeOptions = req.scrapeOptions ∧ reread req.webhook = req.webhook := by
  obtain ⟨f, -, h⟩ := Option.bind_eq_some_iff.mp h
  obtain ⟨urls, -, h⟩ := Option.bind_eq_some_iff.mp h
  obtain ⟨options, hoptions, h⟩ := Option.bind_eq_some_iff.mp h
  obtain ⟨webhook, hwebhook, h⟩ := Option.bind_eq_some_iff.mp h
  obtain ⟨priority, -, h⟩ := Option.bind_eq_some_iff.mp h
  cases h
  exact ⟨reread_orElse rfl hoptions, reread_orElse reread_none hwebhook⟩

theorem ExtractRequest.settled {v : Json} {req : ExtractRequest} (h : ExtractRequest.ofValue v = some req) :
    reread req.schema = req.schema := by
  obtain ⟨f, -, h⟩ := Option.bind_eq_some_iff.mp h
  iterate 2 obtain ⟨_, -, h⟩ := Option.bind_eq_some_iff.mp h
  obtain ⟨schema, hschema, h⟩ := Option.bind_eq_some_iff.mp h
  iterate 4 obtain ⟨_, -, h⟩ := Option.bind_eq_some_iff.mp h
  cases h
  exact reread_orElse reread_none hschema

/-- A result is read back as it is if its extracted and its structured data are not `Some(null)`. -/
theorem ScrapeResult.reread_eq {r : ScrapeResult} (hextract : r.extract ≠ some .null)
    (hjson : r.json ≠ some .null) : reread r = r := by
  show { r with extract := reread r.extract, json := reread r.json } = r
  rw [reread_json_iff.mpr hextract, reread_json_iff.mpr hjson]

end FireCtrl
