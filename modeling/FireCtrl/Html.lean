import FireCtrl.Crawl
import FireCtrl.Formats
import FireCtrl.Lib.Words
import FireCtrl.Search

/-!
# Reading HTML (`extract_title`, `extract_text`, `extract_links`, `html_to_structured_json`)

* `Document`: a parsed document; `Document.select`: the elements that a selector matches, in any order.
* `extractTitle`, `extractText`, `hrefs`, `htmlToStructuredJson`: what is made of a document.
  `Web.withHtml`: a web whose pages are read so.
* `Excerpt`: a run of the words of a document. **`extractText_cases`**: the text of a document is one, of the
  first candidate that has words.
* **`scrape_json_agrees`**: the `json` format of a page agrees with its title, text and links, and has nothing
  but excerpts.
-/

namespace FireCtrl

open Text (words normalize)

/-! ## Documents -/

/-- The name of an element and its attributes. -/
structure Tag where
  name : String
  attrs : List (String × String)

/-- The children of a node in a parsed document: texts and elements. What has no text of its own (comments,
the doctype) is left out. -/
inductive Nodes
  | nil
  | text (s : String) (next : Nodes)
  | element (tag : Tag) (children next : Nodes)

structure Element where
  tag : Tag
  children : Nodes

/-- A selector of the source: the name of an element, an attribute with or without its value, or both. -/
structure Selector where
  name : Option String
  attr : Option (String × Option String)

def Tag.attr (t : Tag) (name : String) : Option String := t.attrs.lookup name

namespace Selector

/-- The selector that is written as the name of an element. -/
def tag (name : String) : Selector := ⟨some name, none⟩

def selects (sel : Selector) (t : Tag) : Bool :=
  sel.name.all (· = t.name) &&
    sel.attr.all fun a =>
      match t.attr a.1 with
      | some v => a.2.all (· = v)
      | none => false

end Selector

namespace Nodes

/-- `text()`: the texts below a node, in document order. -/
def texts : Nodes → List String
  | nil => []
  | text s next => s :: next.texts
  | element _ children next => children.texts ++ next.texts

/-- The elements below a node. -/
def elements : Nodes → List Element
  | nil => []
  | text _ next => next.elements
  | element tag children next => ⟨tag, children⟩ :: (children.elements ++ next.elements)

end Nodes

/-- A parsed document. Its elements are listed as `Html::select` comes to them; no order is promised. -/
structure Document where
  nodes : Nodes
  elements : List Element
  perm : elements.Perm nodes.elements

def Document.select (doc : Document) (sel : Selector) : List Element :=
  doc.elements.filter fun el => sel.selects el.tag

/-! ## What is read of a document -/

/-- `split_whitespace` and `join`, as they follow each other everywhere. -/
def squeeze (s : String) : String := " ".intercalate (splitWhitespace s)

/-- The text of an element, with single blanks between its words. -/
def Element.text (el : Element) : String := squeeze (" ".intercalate el.children.texts)

def extractTitle (doc : Document) : Option String :=
  (doc.select (.tag "title")).head?.map fun el =>
    String.ofList (Text.trim isWhitespace (String.join el.children.texts).toList)

/-- The loop of `extract_text` over its candidates. -/
def firstText (doc : Document) : List Selector → String
  | [] => ""
  | sel :: candidates =>
    match (doc.select sel).head? with
    | some el => if el.text.isEmpty then firstText doc candidates else el.text
    | none => firstText doc candidates

/-- The regions that are preferred to the body. -/
def mainContent : List Selector := [.tag "article", .tag "main", ⟨none, some ("role", some "main")⟩]

/-- The candidates of `extract_text`. -/
def textCandidates (preferMainContent : Bool) : List Selector :=
  if preferMainContent then mainContent ++ [.tag "body"] else [.tag "body"]

def extractText (doc : Document) (preferMainContent : Bool) : String :=
  firstText doc (textCandidates preferMainContent)

/-- The targets of the `a[href]` elements. -/
def hrefs (doc : Document) : List String :=
  (doc.select ⟨some "a", some ("href", none)⟩).filterMap fun el => el.tag.attr "href"

/-- `if text.is_empty() { None } else { Some(text) }`. -/
def Element.text? (el : Element) : Option String := if el.text.isEmpty then none else some el.text

def textOfFirst (doc : Document) (sel : Selector) : Option String := (doc.select sel).head?.bind Element.text?

def firstMetaContent (doc : Document) : List Selector → Option String
  | [] => none
  | sel :: selectors =>
    match (doc.select sel).head?.bind fun el => el.tag.attr "content" with
    | some content =>
      let trimmed := String.ofList (Text.trim isWhitespace content.toList)
      if trimmed.isEmpty then firstMetaContent doc selectors else some trimmed
    | none => firstMetaContent doc selectors

def collectText (doc : Document) (sel : Selector) (maxItems : ℕ) : List String :=
  ((doc.select sel).filterMap Element.text?).take maxItems

/-- The selectors of the description. -/
def metaDescription : List Selector :=
  [⟨some "meta", some ("name", some "description")⟩, ⟨some "meta", some ("property", some "og:description")⟩,
    ⟨some "meta", some ("name", some "twitter:description")⟩]

/-- `html_to_structured_json`, with the links that `extract_links` finds. -/
def htmlToStructuredJson (doc : Document) (links : List String) : Json :=
  let optional : Option String → Json := fun s => s.elim .null .str
  let list : List String → Json := fun ss => .arr (ss.map .str)
  .obj
    [("title", optional (textOfFirst doc (.tag "title"))),
      ("description", optional (firstMetaContent doc metaDescription)),
      ("headings", .obj
        [("h1", list (collectText doc (.tag "h1") 10)), ("h2", list (collectText doc (.tag "h2") 20)),
          ("h3", list (collectText doc (.tag "h3") 30))]),
      ("paragraphs", list (collectText doc (.tag "p") 30)), ("links", list (links.take 200)),
      ("text", .str (String.ofList ((extractText doc true).toList.take 3000)))]

/-- A web whose pages are read by the functions above; `parseDocument` is the parser. -/
def Web.withHtml (web : Web) (parseDocument : String → Document) : Web :=
  let web := { web with hrefs := fun html => FireCtrl.hrefs (parseDocument html) }
  { web with
    extractTitle := fun html => FireCtrl.extractTitle (parseDocument html)
    extractText := fun html preferMainContent => FireCtrl.extractText (parseDocument html) preferMainContent
    htmlToStructuredJson := fun html baseUrl =>
      FireCtrl.htmlToStructuredJson (parseDocument html) (extractLinks web html baseUrl) }

/-! ## The words of a document -/

section Words

variable {doc : Document} {sel : Selector} {el : Element} {s : String}

theorem splitWhitespace_intercalate (ts : List String) :
    splitWhitespace (" ".intercalate ts) = ts.flatMap splitWhitespace := by
  have hwords : words isWhitespace (" ".intercalate ts).toList =
      (ts.map String.toList).flatMap (words isWhitespace) := by
    rw [String.toList_intercalate]
    exact Text.words_intercalate (c := ' ') rfl _
  show (words isWhitespace (" ".intercalate ts).toList).map String.ofList = _
  rw [hwords, List.map_flatMap, List.flatMap_map]
  rfl

theorem toList_squeeze (s : String) : (squeeze s).toList = normalize isWhitespace ' ' s.toList := by
  have hlists : (splitWhitespace s).map String.toList = words isWhitespace s.toList := by
    show ((words isWhitespace s.toList).map String.ofList).map String.toList = _
    rw [List.map_map]
    exact (List.map_congr_left fun w _ => String.toList_ofList).trans (List.map_id _)
  rw [squeeze, String.toList_intercalate, hlists]
  rfl

@[simp] theorem splitWhitespace_squeeze (s : String) : splitWhitespace (squeeze s) = splitWhitespace s := by
  show (words isWhitespace (squeeze s).toList).map String.ofList = _
  rw [toList_squeeze, Text.words_normalize rfl]
  rfl

@[simp] theorem squeeze_squeeze (s : String) : squeeze (squeeze s) = squeeze s := by
  rw [squeeze, splitWhitespace_squeeze, squeeze]

theorem squeeze_eq_empty : squeeze s = "" ↔ splitWhitespace s = [] := by
  rw [← String.toList_inj, toList_squeeze]
  exact Text.normalize_eq_nil.trans List.map_eq_nil_iff.symm

/-- The words below a node. -/
def Nodes.words (nodes : Nodes) : List String := nodes.texts.flatMap splitWhitespace

theorem splitWhitespace_text (el : Element) : splitWhitespace el.text = el.children.words := by
  rw [Element.text, splitWhitespace_squeeze, splitWhitespace_intercalate]
  rfl

theorem text_isEmpty : el.text.isEmpty = true ↔ el.children.words = [] := by
  rw [String.isEmpty_iff, Element.text, squeeze_eq_empty, splitWhitespace_intercalate]
  rfl

/-- The texts below an element stand together in the document. -/
theorem texts_isInfix {nodes : Nodes} (h : el ∈ nodes.elements) : el.children.texts <:+: nodes.texts := by
  induction nodes with
  | nil => cases h
  | text s next ih => exact (ih h).trans (List.suffix_cons s _).isInfix
  | element tag children next ihc ihn =>
    rcases List.mem_cons.mp h with rfl | h
    · exact (List.prefix_append _ _).isInfix
    · rcases List.mem_append.mp h with h | h
      · exact (ihc h).trans (List.prefix_append _ _).isInfix
      · exact (ihn h).trans (List.suffix_append _ _).isInfix

theorem words_isInfix (h : el ∈ doc.elements) : el.children.words <:+: doc.nodes.words := by
  obtain ⟨a, b, hab⟩ := texts_isInfix (doc.perm.mem_iff.mp h)
  exact ⟨a.flatMap splitWhitespace, b.flatMap splitWhitespace, by
    rw [Nodes.words, Nodes.words, ← hab, List.flatMap_append, List.flatMap_append]⟩

theorem mem_elements_of_select (h : el ∈ doc.select sel) : el ∈ doc.elements := (List.mem_filter.mp h).1

/-- A run of words of the document, with single blanks between them. -/
structure Excerpt (doc : Document) (s : String) : Prop where
  words : splitWhitespace s <:+: doc.nodes.words
  squeezed : squeeze s = s
  ne_empty : s ≠ ""

theorem excerpt_text (h : el ∈ doc.elements) (hw : el.children.words ≠ []) : Excerpt doc el.text where
  words := by
    rw [splitWhitespace_text]
    exact words_isInfix h
  squeezed := squeeze_squeeze _
  ne_empty h := hw (text_isEmpty.mp (String.isEmpty_iff.mpr h))

theorem text?_eq_some : el.text? = some s ↔ el.children.words ≠ [] ∧ el.text = s := by
  unfold Element.text?
  split_ifs with h
  · exact ⟨nofun, fun hw => absurd (text_isEmpty.mp h) hw.1⟩
  · rw [Option.some.injEq, and_iff_right fun hw => h (text_isEmpty.mpr hw)]

end Words

/-! ## The text of a document -/

section Text

variable {doc : Document} {candidates : List Selector}

/-- The first element that a selector matches has no words, if there is one. -/
def BlankFirst (doc : Document) (sel : Selector) : Prop :=
  ∀ el, (doc.select sel).head? = some el → el.children.words = []

theorem firstText_of_blank {sel : Selector} (h : BlankFirst doc sel) :
    firstText doc (sel :: candidates) = firstText doc candidates := by
  rw [firstText]
  split
  · rename_i el hel
    exact if_pos (text_isEmpty.mpr (h el hel))
  · rfl

theorem firstText_of_found {sel : Selector} {el : Element} (h : (doc.select sel).head? = some el)
    (hw : el.children.words ≠ []) : firstText doc (sel :: candidates) = el.text := by
  rw [firstText, h]
  exact if_neg fun he => hw (text_isEmpty.mp he)

/-- The loop ends at the first candidate whose first element has words. -/
theorem firstText_cases (doc : Document) (candidates : List Selector) :
    (firstText doc candidates = "" ∧ ∀ sel ∈ candidates, BlankFirst doc sel) ∨
      ∃ before sel after el, candidates = before ++ sel :: after ∧ (∀ sel ∈ before, BlankFirst doc sel) ∧
        (doc.select sel).head? = some el ∧ el.children.words ≠ [] ∧ firstText doc candidates = el.text := by
  induction candidates with
  | nil => exact .inl ⟨rfl, nofun⟩
  | cons sel candidates ih =>
    by_cases hblank : BlankFirst doc sel
    · rw [firstText_of_blank hblank]
      rcases ih with ⟨hempty, hall⟩ | ⟨before, sel', after, el, rfl, hbefore, hfound⟩
      · exact .inl ⟨hempty, List.forall_mem_cons.mpr ⟨hblank, hall⟩⟩
      · exact .inr ⟨sel :: before, sel', after, el, rfl, List.forall_mem_cons.mpr ⟨hblank, hbefore⟩, hfound⟩
    · obtain ⟨el, hel, hw⟩ : ∃ el, (doc.select sel).head? = some el ∧ el.children.words ≠ [] := by
        simpa [BlankFirst] using hblank
      exact .inr ⟨[], sel, candidates, el, rfl, nofun, hel, hw, firstText_of_found hel hw⟩

theorem mem_elements_of_head? {sel : Selector} {el : Element} (h : (doc.select sel).head? = some el) :
    el ∈ doc.elements :=
  mem_elements_of_select (List.mem_of_mem_head? h)

/-- **The text of a document** is a run of its words, in their order and with single blanks between them: those
of the first candidate whose first element has words. It is empty only if there is none. -/
theorem extractText_cases (doc : Document) (preferMainContent : Bool) :
    (extractText doc preferMainContent = "" ∧
        ∀ sel ∈ textCandidates preferMainContent, BlankFirst doc sel) ∨
      Excerpt doc (extractText doc preferMainContent) ∧
        ∃ before sel after el, textCandidates preferMainContent = before ++ sel :: after ∧
          (∀ sel ∈ before, BlankFirst doc sel) ∧ (doc.select sel).head? = some el ∧
          splitWhitespace (extractText doc preferMainContent) = el.children.words := by
  rcases firstText_cases doc (textCandidates preferMainContent) with
    hblank | ⟨before, sel, after, el, hsplit, hbefore, hel, hw, htext⟩
  · exact .inl hblank
  · have heq : extractText doc preferMainContent = el.text := htext
    refine .inr ⟨?_, before, sel, after, el, hsplit, hbefore, hel, ?_⟩
    · rw [heq]
      exact excerpt_text (mem_elements_of_head? hel) hw
    · rw [heq]
      exact splitWhitespace_text el

end Text

/-! ## The structured JSON -/

section Structured

variable {doc : Document} {sel : Selector} {n : ℕ} {s : String}

theorem collectText_excerpt (h : s ∈ collectText doc sel n) : Excerpt doc s := by
  obtain ⟨el, hel, htext⟩ := List.mem_filterMap.mp (List.mem_of_mem_take h)
  obtain ⟨hw, rfl⟩ := text?_eq_some.mp htext
  exact excerpt_text (mem_elements_of_select hel) hw

theorem textOfFirst_excerpt (h : textOfFirst doc sel = some s) : Excerpt doc s := by
  obtain ⟨el, hel, htext⟩ := Option.bind_eq_some_iff.mp h
  obtain ⟨hw, rfl⟩ := text?_eq_some.mp htext
  exact excerpt_text (mem_elements_of_head? hel) hw

/-- The characters of a text that are not blank. -/
def letters (s : String) : List Char := s.toList.filter fun c => !isWhitespace c

theorem letters_eq (s : String) : letters s = (splitWhitespace s).flatMap String.toList := by
  show _ = ((words isWhitespace s.toList).map String.ofList).flatMap String.toList
  rw [letters, ← Text.flatten_words, List.flatMap_map, ← List.flatMap_id]
  exact List.flatMap_congr fun w _ => String.toList_ofList.symm

theorem letters_trim (s : String) : letters (String.ofList (Text.trim isWhitespace s.toList)) = letters s := by
  rw [letters, letters, String.toList_ofList, ← Text.flatten_words, Text.words_trim, Text.flatten_words]

theorem letters_text (el : Element) : letters el.text = el.children.texts.flatMap letters := by
  rw [letters_eq, splitWhitespace_text, Nodes.words, List.flatMap_assoc]
  exact List.flatMap_congr fun s _ => (letters_eq s).symm

/-- Both titles of a document have the same letters. -/
theorem letters_title (doc : Document) :
    letters ((textOfFirst doc (.tag "title")).getD "") = letters ((extractTitle doc).getD "") := by
  unfold textOfFirst extractTitle
  rcases (doc.select (.tag "title")).head? with _ | el
  · rfl
  · have hjoined : letters (String.join el.children.texts) = el.children.texts.flatMap letters := by
      rw [letters, String.toList_join, List.filter_flatMap]
      rfl
    rw [Option.map_some, Option.getD_some, letters_trim, hjoined, ← letters_text, Option.bind_some,
      Element.text?]
    split_ifs with hempty
    · rw [String.isEmpty_iff.mp hempty]
      rfl
    · rfl

variable {web : Web} {cfg : CrawlerConfig} {job : ScrapeJobData} {page : Page web} {res : ScrapeResult}

/-- Without a browser, the title of a page is the one in its HTML. -/
theorem title_of_loadPage (h : loadPage web cfg job = .ok page) (ha : job.actions = []) (hw : job.waitFor = 0) :
    page.title = web.extractTitle page.html := by
  unfold loadPage at h
  split at h
  · cases h
  · have hbrowser : (!job.actions.isEmpty || decide (job.waitFor > 0)) = false := by rw [ha, hw]; rfl
    simp only [hbrowser, Bool.false_and, Bool.false_eq_true, if_false] at h
    split_ifs at h
    split at h
    · cases h
    · cases h
      rfl

theorem extractLinks_withHtml (parseDocument : String → Document) (html : String) (baseUrl : web.urls.Url) :
    extractLinks (web.withHtml parseDocument) html baseUrl =
      extractLinks { web with hrefs := fun html => hrefs (parseDocument html) } html baseUrl := by
  simp only [extractLinks, Web.withHtml]
  refine congrArg (fun f => List.filterMap f (hrefs (parseDocument html))) (funext fun href => ?_)
  cases web.join baseUrl href <;> rfl

theorem structured_withHtml (parseDocument : String → Document) (html : String) (baseUrl : web.urls.Url) :
    (web.withHtml parseDocument).htmlToStructuredJson html baseUrl =
      htmlToStructuredJson (parseDocument html) (extractLinks (web.withHtml parseDocument) html baseUrl) :=
  congrArg (htmlToStructuredJson (parseDocument html)) (extractLinks_withHtml parseDocument html baseUrl).symm

/-- **The structured JSON of a page** agrees with what else is read of it: its links are the first 200 links,
its text is the beginning of the main text, and its title has the letters of the page's title. Its title,
headings and paragraphs are excerpts of the document. -/
theorem scrape_json_agrees {parseDocument : String → Document}
    (h : scrape (web.withHtml parseDocument) cfg job = .ok res) (hjson : .json ∈ job.formats) :
    ∃ (page : Page (web.withHtml parseDocument)) (j : Json) (title : Option String)
      (h1 h2 h3 paragraphs : List String),
      loadPage (web.withHtml parseDocument) cfg job = .ok page ∧ res.json = some j ∧
      (∀ raw, res.rawHtml = some raw → raw = page.html) ∧
      (j.get? "links" = some (.arr
          (((extractLinks (web.withHtml parseDocument) page.html page.url).take 200).map .str)) ∧
        ∀ links, res.links = some links → links = extractLinks (web.withHtml parseDocument) page.html page.url) ∧
      (j.get? "text" = some (.str (String.ofList ((extractText (parseDocument page.html) true).toList.take 3000))) ∧
        ∀ text, res.html = some text → job.onlyMainContent = true →
          text = extractText (parseDocument page.html) true) ∧
      (j.get? "title" = some (title.elim .null .str) ∧
        letters (title.getD "") = letters ((extractTitle (parseDocument page.html)).getD "") ∧
        (job.actions = [] → job.waitFor = 0 → res.title = extractTitle (parseDocument page.html))) ∧
      j.get? "headings" = some (.obj [("h1", .arr (h1.map .str)), ("h2", .arr (h2.map .str)),
        ("h3", .arr (h3.map .str))]) ∧
      j.get? "paragraphs" = some (.arr (paragraphs.map .str)) ∧
      (∀ s ∈ title.toList ++ h1 ++ h2 ++ h3 ++ paragraphs, Excerpt (parseDocument page.html) s) ∧
      h1.length ≤ 10 ∧ h2.length ≤ 20 ∧ h3.length ≤ 30 ∧ paragraphs.length ≤ 30 := by
  rcases hp : loadPage (web.withHtml parseDocument) cfg job with e | page
  · rw [scrape_error hp] at h
    cases h
  · have hformats : job.formats.isEmpty = false := by
      rw [List.isEmpty_eq_false_iff]
      exact List.ne_nil_of_mem hjson
    rw [scrape_eq hp, hformats, if_neg Bool.false_ne_true, Except.ok.injEq] at h
    subst h
    let doc := parseDocument page.html
    have hstructured : (web.withHtml parseDocument).htmlToStructuredJson page.html page.url =
        htmlToStructuredJson doc (extractLinks (web.withHtml parseDocument) page.html page.url) :=
      @structured_withHtml web parseDocument page.html page.url
    refine ⟨page, htmlToStructuredJson doc (extractLinks (web.withHtml parseDocument) page.html page.url),
      textOfFirst doc (.tag "title"), collectText doc (.tag "h1") 10, collectText doc (.tag "h2") 20,
      collectText doc (.tag "h3") 30, collectText doc (.tag "p") 30, rfl,
      (if_pos hjson).trans (congrArg some hstructured), fun raw hraw => ?_, ⟨rfl, fun links hlinks => ?_⟩,
      ⟨rfl, fun text htext hmain => ?_⟩, ⟨rfl, letters_title doc, fun ha hw => title_of_loadPage hp ha hw⟩,
      rfl, rfl, fun s hs => ?_,
      List.length_take_le .., List.length_take_le .., List.length_take_le .., List.length_take_le ..⟩
    · simp only [ScrapeResult.ofFormats] at hraw
      split_ifs at hraw
      exact (Option.some.inj hraw).symm
    · simp only [ScrapeResult.ofFormats] at hlinks
      split_ifs at hlinks
      exact (Option.some.inj hlinks).symm
    · simp only [ScrapeResult.ofFormats] at htext
      split_ifs at htext
      rw [← Option.some.inj htext, hmain]
      rfl
    · simp only [List.mem_append, Option.mem_toList] at hs
      rcases hs with (((hs | hs) | hs) | hs) | hs
      · exact textOfFirst_excerpt hs
      all_goals exact collectText_excerpt hs

end Structured

/-- A page with a title and an article. -/
def Nodes.sample : Nodes :=
  .element ⟨"title", []⟩ (.text " A\n b " .nil)
    (.element ⟨"body", []⟩ (.text "c" (.element ⟨"article", []⟩ (.text " d  e" .nil) .nil)) .nil)

def Document.sample : Document := ⟨.sample, Nodes.sample.elements, .refl _⟩

/-- The article of the page, not its body. -/
example : extractText .sample true = "d e" := by decide

theorem scrape_json_agrees_sample :
    let job := { CrawlParams.sample.job "https://example.com/" with formats := [.json, .rawHtml] }
    ∃ res j title, scrape (Web.sample.withHtml fun _ => .sample) .sample job = .ok res ∧ res.json = some j ∧
      j.get? "title" = some (Option.elim title .null .str) ∧
      letters (title.getD "") = letters (res.title.getD "") ∧ ∀ s ∈ title.toList, Excerpt .sample s := by
  intro job
  have h : scrape (Web.sample.withHtml fun _ => .sample) .sample job = .ok _ := rfl
  obtain ⟨page, j, title, h1, h2, h3, ps, -, hj, -, -, -, ⟨htitle, hletters, hres⟩, -, -, hexcerpt, -⟩ :=
    scrape_json_agrees h List.mem_cons_self
  refine ⟨_, j, title, h, hj, htitle, ?_, fun s hs => hexcerpt s ?_⟩
  · rw [hletters, hres rfl rfl]
  · simp only [List.mem_append]
    exact .inl (.inl (.inl (.inl hs)))

end FireCtrl
