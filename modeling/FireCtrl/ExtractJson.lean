import FireCtrl.Extraction
import FireCtrl.Backticks
import FireCtrl.Lib.Text

/-!
# JSON in an answer of the model

`extract_json` looks for JSON in what the model answers: the whole text, between fences, or from the
first opening brace or bracket to the last closing one.

* `extractJson`: `none` is a panic, at a slice that ends before it starts.
* **`neverPanics_iff`**: when it does not panic.
* **`recovers_prose_iff`**: when it recovers an object or an array from the prose around it.
* **`recovers_fenced_iff`**: when it recovers one between fences: exactly if it has no fence in it.
-/

namespace FireCtrl

open Text

/-! ## The search -/

/-- The fences. -/
def mark : List Char := "```".toList

def jsonMark : List Char := "```json".toList

theorem mark_eq : mark = [tick, tick, tick] := by decide

theorem jsonMark_eq : jsonMark = mark ++ ['j', 's', 'o', 'n'] := by decide

/-- `starts_with('{') || starts_with('[')`. -/
def startsJson (t : List Char) : Bool := t.head? == some '{' || t.head? == some '['

/-- What is between a fence of `width` bytes and the next one. Outside `some` is a panic, inside `none`
is nothing found. -/
def fencedText (fence : List Char) (width : ℕ) (trimmed : List Char) : Option (Option (List Char)) :=
  match find fence trimmed with
  | none => some none
  | some start => do
    let after ← slice? trimmed (start + width) (byteLen trimmed)
    match find mark after with
    | none => some none
    | some e => do
      let inner ← slice? after 0 e
      return some (trim isWhitespace inner)

/-- What is between the first opening character and the last closing one. -/
def embedded (opening closing : Char) (trimmed : List Char) : Option (Option (List Char)) :=
  match find [opening] trimmed, rfind closing trimmed with
  | some s, some e => (slice? trimmed s (e + 1)).map some
  | _, _ => some none

/-- `extract_json` from the embedded object on. -/
def extractEmbedded (trimmed : List Char) : Option (Except String (List Char)) := do
  if let some t ← embedded '{' '}' trimmed then
    return .ok t
  if let some t ← embedded '[' ']' trimmed then
    return .ok t
  return .error "Could not extract JSON from LLM response"

/-- `extract_json`. -/
def extractJson (content : List Char) : Option (Except String (List Char)) := do
  let trimmed := trim isWhitespace content
  if startsJson trimmed then
    return .ok trimmed
  if let some t ← fencedText jsonMark 7 trimmed then
    return .ok t
  if let some t ← fencedText mark 3 trimmed then
    if startsJson t then
      return .ok t
  extractEmbedded trimmed

/-! ## What is found -/

section Found

variable {t : List Char} {o c : Char}

/-- The text from after the first fence up to the next one, and what follows. -/
def between (fence t : List Char) : Option (List Char × List Char) := (cut fence t).bind fun s => cut mark s.2

theorem fencedText_eq {fence : List Char} {width : ℕ} (hwidth : byteLen fence = width) (t : List Char) :
    fencedText fence width t = some ((between fence t).map fun s => trim isWhitespace s.1) := by
  unfold fencedText between
  rw [find_eq_cut]
  rcases hcut : cut fence t with _ | ⟨a, b⟩
  · rfl
  · have hafter : slice? t (byteLen a + width) (byteLen t) = some b := by
      have h := slice?_to_end (a ++ fence) b
      rwa [byteLen_append, hwidth, List.append_assoc, ← cut_spec hcut] at h
    simp only [Option.map_some, hafter, Option.bind_eq_bind, Option.bind_some]
    rw [find_eq_cut]
    rcases hcut' : cut mark b with _ | ⟨x, y⟩
    · rfl
    · have hinner : slice? b 0 (byteLen x) = some x := by
        have h := slice?_from_start x (mark ++ y)
        rwa [← cut_spec hcut'] at h
      simp only [Option.map_some, hinner, Option.bind_some]
      rfl

/-- The last closing character is in front of the first opening one, and not right in front of it. -/
def Backwards (o c : Char) (t : List Char) : Prop :=
  ∃ s e, find [o] t = some s ∧ rfind c t = some e ∧ e + 1 < s

theorem embedded_of_notMem (h : o ∉ t ∨ c ∉ t) : embedded o c t = some none := by
  unfold embedded
  rw [find_eq_cut, rfind_eq_cutLast]
  rcases hcut : cut [o] t with _ | s
  · rfl
  rcases hcut' : cutLast c t with _ | s'
  · rfl
  exfalso
  rcases h with ho | hc
  · exact ho (by simp [(cut_singleton hcut).1])
  · exact hc (by simp [(cutLast_spec hcut').1])

/-- Both characters found: a panic, or a text that begins with the opening one or is empty. -/
theorem embedded_of_mem (hsize : c.utf8Size = 1) (ho : o ∈ t) (hc : c ∈ t) :
    Backwards o c t ∧ embedded o c t = none ∨
      ¬ Backwards o c t ∧ ∃ m, embedded o c t = some (some m) ∧ (m = [] ∨ ∃ m', m = o :: m') := by
  obtain ⟨a, b, ht, ha⟩ := List.eq_append_cons_of_mem ho
  have hfind : find [o] t = some (byteLen a) := by
    rw [find_eq_cut, ht, cut_singleton_append ha]
    rfl
  obtain ⟨x, y, ht', hy⟩ := exists_last_of_mem hc
  have hrfind : rfind c t = some (byteLen x) := by
    rw [rfind_eq_cutLast, ht', cutLast_append hy]
    rfl
  have hback : Backwards o c t ↔ byteLen x + 1 < byteLen a := by
    unfold Backwards
    rw [hfind, hrfind]
    simp
  unfold embedded
  rw [hback, hfind, hrfind]
  dsimp only
  by_cases hlt : byteLen x + 1 < byteLen a
  · exact .inl ⟨hlt, by rw [slice?_eq_none hlt]; rfl⟩
  · have hlen : byteLen (x ++ [c]) = byteLen x + 1 := by
      rw [byteLen_append, byteLen_cons, hsize, byteLen_nil]
    have hsame : a ++ o :: b = (x ++ [c]) ++ y := by
      rw [← ht, ht']
      simp
    obtain ⟨m, hm, hrest⟩ := exists_append_of_byteLen_le hsame (by omega)
    have hslice : slice? t (byteLen a) (byteLen x + 1) = some m := by
      have h := slice?_append a m y
      rwa [← byteLen_append, ← hm, hlen, ← hrest, ← ht] at h
    refine .inr ⟨hlt, m, by rw [hslice]; rfl, ?_⟩
    cases m with
    | nil => exact .inl rfl
    | cons d m =>
      cases hrest
      exact .inr ⟨m, rfl⟩

theorem embedded_append (hsize : c.utf8Size = 1) {a b : List Char} (ha : o ∉ a) (hb : c ∉ b)
    (m : List Char) : embedded o c (a ++ o :: (m ++ c :: b)) = some (some (o :: (m ++ [c]))) := by
  have hfind : find [o] (a ++ o :: (m ++ c :: b)) = some (byteLen a) := by
    rw [find_eq_cut, cut_singleton_append ha]
    rfl
  have hrfind : rfind c (a ++ o :: (m ++ c :: b)) = some (byteLen (a ++ o :: m)) := by
    have h := cutLast_append (a := a ++ o :: m) hb
    rw [List.append_assoc, List.cons_append] at h
    rw [rfind_eq_cutLast, h]
    rfl
  have hslice : slice? (a ++ o :: (m ++ c :: b)) (byteLen a) (byteLen (a ++ o :: m) + 1) =
      some (o :: (m ++ [c])) := by
    have h := slice?_append a (o :: (m ++ [c])) b
    have hlen : byteLen a + byteLen (o :: (m ++ [c])) = byteLen (a ++ o :: m) + 1 := by
      simp [hsize]
      omega
    rw [hlen] at h
    simpa using h
  rw [embedded, hfind, hrfind]
  simp only [hslice]
  rfl

/-- The search, over the pure parts of its branches. -/
theorem extractJson_eq {content t : List Char} (ht : trim isWhitespace content = t) :
    extractJson content =
      if startsJson t then some (.ok t)
      else
        match between jsonMark t with
        | some s => some (.ok (trim isWhitespace s.1))
        | none =>
          match (between mark t).map fun s => trim isWhitespace s.1 with
          | some x => if startsJson x then some (.ok x) else extractEmbedded t
          | none => extractEmbedded t := by
  unfold extractJson
  simp only [ht, fencedText_eq (by decide : byteLen jsonMark = 7),
    fencedText_eq (by decide : byteLen mark = 3)]
  split_ifs with hstart
  · rfl
  · rcases between jsonMark t with _ | s
    · rcases between mark t with _ | s
      · rfl
      · by_cases hinner : startsJson (trim isWhitespace s.1)
        · simp [hinner]
        · simp [hinner]
    · rfl

end Found

/-! ## Panics -/

section Panics

variable {t : List Char} {o c : Char}

theorem not_backwards_of_notMem (h : o ∉ t ∨ c ∉ t) : ¬ Backwards o c t := by
  rintro ⟨s, e, hs, he, -⟩
  rw [find_eq_cut] at hs
  rw [rfind_eq_cutLast] at he
  obtain ⟨⟨a, b⟩, hcut, -⟩ := Option.map_eq_some_iff.mp hs
  obtain ⟨⟨x, y⟩, hcut', -⟩ := Option.map_eq_some_iff.mp he
  rcases h with ho | hc
  · exact ho (by simp [(cut_singleton hcut).1])
  · exact hc (by simp [(cutLast_spec hcut').1])

theorem embedded_eq_none (hsize : c.utf8Size = 1) : embedded o c t = none ↔ Backwards o c t := by
  by_cases h : o ∈ t ∧ c ∈ t
  · rcases embedded_of_mem hsize h.1 h.2 with ⟨hback, hnone⟩ | ⟨hback, m, hm, -⟩
    · exact iff_of_true hnone hback
    · exact iff_of_false (by rw [hm]; simp) hback
  · have hmem : o ∉ t ∨ c ∉ t := not_and_or.mp h
    exact iff_of_false (by rw [embedded_of_notMem hmem]; simp) (not_backwards_of_notMem hmem)

theorem extractEmbedded_ne_none : extractEmbedded t ≠ none ↔
    ¬ Backwards '{' '}' t ∧ ('{' ∈ t ∧ '}' ∈ t ∨ ¬ Backwards '[' ']' t) := by
  have hbraces := embedded_eq_none (o := '{') (t := t) (by decide : '}'.utf8Size = 1)
  have hbrackets := embedded_eq_none (o := '[') (t := t) (by decide : ']'.utf8Size = 1)
  unfold extractEmbedded
  by_cases h : '{' ∈ t ∧ '}' ∈ t
  · rcases embedded_of_mem (by decide) h.1 h.2 with ⟨hback, hnone⟩ | ⟨hback, m, hm, -⟩
    · rw [hnone]
      exact iff_of_false (fun h => h rfl) fun h => h.1 hback
    · rw [hm]
      exact iff_of_true (fun h => by cases h) ⟨hback, .inl h⟩
  · have hmem : '{' ∉ t ∨ '}' ∉ t := not_and_or.mp h
    rw [embedded_of_notMem hmem, ← hbrackets]
    simp only [h, false_or, not_backwards_of_notMem hmem, not_false_eq_true, true_and]
    rcases embedded '[' ']' t with _ | _ | x <;> simp

/-- A text between the first "```json" and a later fence. -/
def HasJsonFence (t : List Char) : Prop := (between jsonMark t).isSome

/-- JSON between the first two fences. -/
def HasBareFence (t : List Char) : Prop :=
  ∃ s, between mark t = some s ∧ startsJson (trim isWhitespace s.1)

/-- **`extract_json` does not panic** exactly if an earlier branch returns or the last closing brace, or
without braces the last closing bracket, is not in front of the first opening one. -/
theorem neverPanics_iff (content : List Char) : extractJson content ≠ none ↔
    let t := trim isWhitespace content
    startsJson t ∨ HasJsonFence t ∨ HasBareFence t ∨
      ¬ Backwards '{' '}' t ∧ ('{' ∈ t ∧ '}' ∈ t ∨ ¬ Backwards '[' ']' t) := by
  generalize ht : trim isWhitespace content = t
  dsimp only
  rw [extractJson_eq ht, ← extractEmbedded_ne_none]
  unfold HasJsonFence HasBareFence
  by_cases hstart : startsJson t
  · simp [hstart]
  rcases between jsonMark t with _ | s
  · rcases between mark t with _ | s
    · simp [hstart]
    · by_cases hinner : startsJson (trim isWhitespace s.1)
      · simp [hstart, hinner]
      · simp [hstart, hinner]
  · simp [hstart]

/-- A stray closing brace in front of the first opening one. -/
theorem not_neverPanics : ¬ ∀ content, extractJson content ≠ none := fun h =>
  h ['}', ' ', '{'] (by decide)

end Panics

/-! ## Prose around a value -/

/-- What is extracted is read as `v`. -/
def Recovers (N : NumberText) (content : List Char) (v : Json) : Prop :=
  ∃ t, extractJson content = some (.ok t) ∧ fromStr N t = some v

/-- No brackets and no backticks. -/
def Prose (p : List Char) : Prop := ∀ c ∈ p, c ≠ '{' ∧ c ≠ '}' ∧ c ≠ '[' ∧ c ≠ ']' ∧ c ≠ tick

/-- Whitespace only. -/
def Blank (p : List Char) : Prop := ∀ c ∈ p, isWhitespace c

section Prose

variable {N : NumberText} {v : Json} {p q t : List Char}

theorem Prose.dropWhile (hp : Prose p) (f : Char → Bool) : Prose (p.dropWhile f) :=
  fun c hc => hp c ((List.dropWhile_suffix f).subset hc)

theorem Prose.rdropWhile (hp : Prose p) (f : Char → Bool) : Prose (p.rdropWhile f) := by
  intro c hc
  have hsub := List.rdropWhile_prefix f p
  exact hp c (hsub.subset hc)

theorem recovers_of_eq (h : extractJson p = some (.ok t)) : Recovers N p v ↔ fromStr N t = some v := by
  unfold Recovers
  rw [h]
  simp

theorem isWhitespace_of_isBlank {c : Char} (hc : isBlank c) : isWhitespace c := by
  simp only [isBlank, Bool.or_eq_true, beq_iff_eq] at hc
  rcases hc with ((rfl | rfl) | rfl) | rfl <;> decide

/-- What is left of a text at its end is blank for the reader only if there is nothing left. -/
theorem all_isBlank_rdropWhile (q : List Char) : (q.rdropWhile isWhitespace).all isBlank ↔ Blank q := by
  constructor
  · intro h
    have hnil : q.rdropWhile isWhitespace = [] := by
      by_contra hne
      have hlast := List.rdropWhile_last_not isWhitespace q hne
      exact hlast (isWhitespace_of_isBlank (List.all_eq_true.mp h _ (List.getLast_mem hne)))
    exact List.rdropWhile_eq_nil_iff.mp hnil
  · intro h
    rw [List.rdropWhile_eq_nil_iff.mpr h]
    rfl

theorem trim_around (hcont : v.IsContainer) (p q : List Char) : trim isWhitespace (p ++ (write N v ++ q)) =
    p.dropWhile isWhitespace ++ (write N v ++ q.rdropWhile isWhitespace) := by
  rcases write_container (N := N) hcont with ⟨-, m, hm⟩ | ⟨-, m, hm⟩
  · have h := trim_append (p := isWhitespace) (c := '{') (d := '}') (by decide) (by decide) p m q
    simpa [hm] using h
  · have h := trim_append (p := isWhitespace) (c := '[') (d := ']') (by decide) (by decide) p m q
    simpa [hm] using h

theorem startsJson_write (hcont : v.IsContainer) (rest : List Char) : startsJson (write N v ++ rest) := by
  rcases write_container (N := N) hcont with ⟨-, m, hm⟩ | ⟨-, m, hm⟩
  · rw [hm]
    rfl
  · rw [hm]
    rfl

/-- No fence in prose around a value without one. -/
theorem cut_mark_around (hmark : ¬ mark <:+: write N v) (hp : Prose p) (hq : Prose q) :
    cut mark (p ++ (write N v ++ q)) = none := by
  have htick (r : List Char) (hr : Prose r) : tick ∉ r := fun h => (hr tick h).2.2.2.2 rfl
  have hrest : cut mark (write N v ++ q) = none := by
    cases q with
    | nil => rw [List.append_nil, cut_eq_none.mpr hmark]
    | cons d q =>
      have hd : d ∉ mark := by
        have := (hq d List.mem_cons_self).2.2.2.2
        simpa [mark, tick] using this
      have hq : tick ∉ q := fun h => htick _ hq (List.mem_cons_of_mem d h)
      rw [cut_append_cons hd (by decide), cut_eq_none.mpr hmark]
      exact congrArg (Option.map _) (cut_eq_none_of_notMem hq [tick, tick])
  have h := cut_append_of_head (htick p hp) [tick, tick] (write N v ++ q)
  exact h.trans (congrArg (Option.map _) hrest)

theorem extractJson_around_blank (hcont : v.IsContainer) (hp : Blank p) (q : List Char) :
    extractJson (p ++ (write N v ++ q)) = some (.ok (write N v ++ q.rdropWhile isWhitespace)) := by
  have htrim := trim_around (N := N) hcont p q
  rw [List.dropWhile_eq_nil_iff.mpr hp, List.nil_append] at htrim
  rw [extractJson_eq htrim, if_pos (startsJson_write hcont _)]

/-- Behind prose what is embedded is searched. -/
theorem extractJson_around (hcont : v.IsContainer) (hmark : ¬ mark <:+: write N v) (hp : Prose p)
    (hq : Prose q) (hblank : ¬ Blank p) : extractJson (p ++ (write N v ++ q)) =
      extractEmbedded (p.dropWhile isWhitespace ++ (write N v ++ q.rdropWhile isWhitespace)) := by
  have hcut := cut_mark_around hmark (hp.dropWhile isWhitespace) (hq.rdropWhile isWhitespace)
  have hjson : cut jsonMark (p.dropWhile isWhitespace ++ (write N v ++ q.rdropWhile isWhitespace)) = none := by
    rw [cut_eq_none] at hcut ⊢
    rw [jsonMark_eq]
    exact fun h => hcut ((List.prefix_append mark ['j', 's', 'o', 'n']).isInfix.trans h)
  have hstart : ¬ startsJson (p.dropWhile isWhitespace ++ (write N v ++ q.rdropWhile isWhitespace)) := by
    have hp := hp.dropWhile isWhitespace
    rcases hdrop : p.dropWhile isWhitespace with _ | ⟨c, p'⟩
    · exact absurd (List.dropWhile_eq_nil_iff.mp hdrop) hblank
    · have hc := hp c (by rw [hdrop]; exact List.mem_cons_self)
      simp [startsJson, hc.1, hc.2.2.1]
  rw [extractJson_eq (trim_around hcont p q), if_neg hstart, between, hjson, between, hcut]
  rfl

/-- The brackets of a text are those of the value in it. -/
theorem mem_around {c : Char} (hp : Prose p) (hq : Prose q) (hc : c = '{' ∨ c = '}') (w : List Char) :
    c ∈ p ++ (w ++ q) ↔ c ∈ w := by
  have hprose (r : List Char) (hr : Prose r) : c ∉ r := by
    intro h
    rcases hc with rfl | rfl
    · exact (hr _ h).1 rfl
    · exact (hr _ h).2.1 rfl
  simp [hprose p hp, hprose q hq]

/-- With braces in it what is found of a text begins with a brace. -/
theorem extractEmbedded_braces (ho : '{' ∈ t) (hc : '}' ∈ t) {x : List Char}
    (h : extractEmbedded t = some (.ok x)) : x = [] ∨ ∃ m, x = '{' :: m := by
  unfold extractEmbedded at h
  rcases embedded_of_mem (by decide) ho hc with ⟨-, hnone⟩ | ⟨-, m, hm, hshape⟩
  · rw [hnone] at h
    cases h
  · rw [hm] at h
    cases h
    exact hshape

theorem extractEmbedded_obj (hp : Prose p) (hq : Prose q) (m : List Char) :
    extractEmbedded (p ++ '{' :: (m ++ '}' :: q)) = some (.ok ('{' :: (m ++ ['}']))) := by
  have hfound := embedded_append (o := '{') (c := '}') (by decide) (fun h => (hp _ h).1 rfl)
    (fun h => (hq _ h).2.1 rfl) m
  rw [extractEmbedded, hfound]
  rfl

theorem extractEmbedded_arr (hp : Prose p) (hq : Prose q) (m : List Char)
    (h : '{' ∉ p ++ '[' :: (m ++ ']' :: q) ∨ '}' ∉ p ++ '[' :: (m ++ ']' :: q)) :
    extractEmbedded (p ++ '[' :: (m ++ ']' :: q)) = some (.ok ('[' :: (m ++ [']']))) := by
  have hfound := embedded_append (o := '[') (c := ']') (by decide) (fun h => (hp _ h).2.2.1 rfl)
    (fun h => (hq _ h).2.2.2.1 rfl) m
  rw [extractEmbedded, embedded_of_notMem h, hfound]
  rfl

/-- Behind prose an array is lost if an object can be found in it. -/
theorem recovers_around_iff (hv : v.WellFormed) (hcont : v.IsContainer) (hmark : ¬ mark <:+: write N v)
    (hp : Prose p) (hq : Prose q) (hblank : ¬ Blank p) : Recovers N (p ++ (write N v ++ q)) v ↔
      (∃ kvs, v = .obj kvs) ∨ '{' ∉ write N v ∨ '}' ∉ write N v := by
  have heq := extractJson_around hcont hmark hp hq hblank
  have hp := hp.dropWhile isWhitespace
  have hq := hq.rdropWhile isWhitespace
  rcases write_container (N := N) hcont with ⟨hobj, m, hm⟩ | ⟨⟨xs, hxs⟩, m, hm⟩
  · have hfound := extractEmbedded_obj hp hq m
    have hW : '{' :: (m ++ '}' :: q.rdropWhile isWhitespace) = write N v ++ q.rdropWhile isWhitespace := by
      rw [hm]
      simp
    rw [hW, ← heq, ← hm] at hfound
    exact iff_of_true ((recovers_of_eq hfound).mpr (fromStr_write hv)) (.inl hobj)
  have hnot : ¬ ∃ kvs, v = .obj kvs := by
    rintro ⟨kvs, rfl⟩
    cases hxs
  have hopening := mem_around hp hq (.inl rfl) (write N v)
  have hclosing := mem_around hp hq (.inr rfl) (write N v)
  by_cases hmem : '{' ∉ write N v ∨ '}' ∉ write N v
  · have hW : '[' :: (m ++ ']' :: q.rdropWhile isWhitespace) = write N v ++ q.rdropWhile isWhitespace := by
      rw [hm]
      simp
    have hfound := extractEmbedded_arr hp hq m
    rw [hW, ← heq, ← hm, hopening, hclosing] at hfound
    exact iff_of_true ((recovers_of_eq (hfound hmem)).mpr (fromStr_write hv)) (.inr hmem)
  · rw [not_or, not_not, not_not] at hmem
    refine iff_of_false ?_ fun h => ?_
    · rintro ⟨t, ht, hread⟩
      rw [heq] at ht
      rcases extractEmbedded_braces (hopening.mpr hmem.1) (hclosing.mpr hmem.2) ht with rfl | ⟨m', rfl⟩
      · cases hread
      · exact hnot (fromStr_brace hread)
    · rcases h with h | h | h
      · exact hnot h
      · exact h hmem.1
      · exact h hmem.2

/-- **JSON is recovered from the prose around it** exactly if, behind no prose, there is none after it
either, and, behind prose, it is an object or an array without braces. -/
theorem recovers_prose_iff (hv : v.WellFormed) (hcont : v.IsContainer) (hmark : ¬ mark <:+: write N v)
    (hp : Prose p) (hq : Prose q) : Recovers N (p ++ (write N v ++ q)) v ↔
      (Blank p → Blank q) ∧
        (¬ Blank p → (∃ kvs, v = .obj kvs) ∨ '{' ∉ write N v ∨ '}' ∉ write N v) := by
  by_cases hblank : Blank p
  · have hread : fromStr N (write N v ++ q.rdropWhile isWhitespace) = some v ↔ Blank q := by
      rw [fromStr_write_append hv hcont, ← all_isBlank_rdropWhile]
      split_ifs with h <;> simp [h]
    rw [recovers_of_eq (extractJson_around_blank hcont hblank q), hread]
    simp [hblank]
  · rw [recovers_around_iff hv hcont hmark hp hq hblank]
    simp [hblank]

/-- An object with one entry. -/
def Json.sample (v : Json) : Json := .obj [("k", v)]

theorem wellFormed_sample (hv : v.WellFormed) : (Json.sample v).WellFormed := by
  refine .obj (List.pairwise_singleton _ _) fun kv hkv => ?_
  cases List.mem_singleton.mp hkv
  exact hv

/-- Prose in front of an object, and none behind it. -/
theorem recovers_prose_iff_object :
    Recovers .sample ("Sure! ".toList ++ (write .sample (.sample .null) ++ [])) (.sample .null) := by
  refine (recovers_prose_iff (wellFormed_sample .null) trivial (by decide +kernel) (by simp [Prose, tick])
    (by simp [Prose, tick])).mpr ⟨fun h => absurd h ?_, fun _ => .inl ⟨_, rfl⟩⟩
  simp [Blank, isWhitespace]

/-- An object and prose behind it. -/
theorem not_recovers_prose : ¬ ∀ (N : NumberText) (v : Json) (p q : List Char), v.WellFormed →
    v.IsContainer → ¬ mark <:+: write N v → Prose p → Prose q → Recovers N (p ++ (write N v ++ q)) v := by
  intro h
  have hcont : (Json.sample .null).IsContainer := trivial
  obtain ⟨t, ht, hread⟩ := h .sample (.sample .null) [] " done".toList (wellFormed_sample .null) hcont
    (by decide +kernel) (by simp [Prose, tick]) (by simp [Prose, tick])
  rw [extractJson_around_blank hcont fun c hc => by cases hc] at ht
  cases ht
  rw [fromStr_write_append (wellFormed_sample .null) hcont, if_neg (by decide)] at hread
  cases hread

end Prose

/-! ## Fences around a value -/

section Fenced

variable {N : NumberText} {v : Json} {p q t fence w : List Char}

/-- A value on its own line, and the closing fence. -/
def fencedLine (w : List Char) : List Char := '\n' :: (w ++ '\n' :: mark)

/-- The next fence after the value: the closing one, or one inside. -/
theorem cut_fencedLine (w : List Char) : cut mark (fencedLine w) =
    match cut mark w with
    | some s => some ('\n' :: s.1, s.2 ++ '\n' :: mark)
    | none => some ('\n' :: (w ++ ['\n']), []) := by
  have hline : '\n' ∉ mark := by decide
  have h := cut_append_cons hline (by decide) [] (w ++ '\n' :: mark)
  rw [cut_append_cons hline (by decide) w mark, show cut mark mark = some ([], []) from by decide,
    show cut mark [] = none from by decide] at h
  rw [fencedLine]
  refine h.trans ?_
  rcases cut mark w with _ | s <;> rfl

theorem trim_fenced (hfence : ∃ f, fence = tick :: f) (hq : Blank q) (p w : List Char) :
    trim isWhitespace (p ++ (fence ++ (fencedLine w ++ q))) =
      p.dropWhile isWhitespace ++ (fence ++ fencedLine w) := by
  obtain ⟨f, rfl⟩ := hfence
  have h := trim_append (p := isWhitespace) (c := tick) (d := tick) (by decide) (by decide) p
    (f ++ '\n' :: (w ++ ['\n', tick, tick])) q
  rw [List.rdropWhile_eq_nil_iff.mpr hq] at h
  simpa [fencedLine, mark_eq] using h

/-- The first fence is the one behind the prose. -/
theorem between_fenced (hfence : ∃ f, fence = tick :: f) (hp : Prose p) (t : List Char) :
    between fence (p ++ (fence ++ t)) = cut mark t := by
  obtain ⟨f, rfl⟩ := hfence
  have htick : tick ∉ p := fun h => (hp _ h).2.2.2.2 rfl
  rw [between, cut_append_of_head htick, cut_self_append _ _ (List.cons_ne_nil tick f)]
  rfl

theorem not_startsJson_fenced (hfence : ∃ f, fence = tick :: f) (hp : Prose p) (t : List Char) :
    ¬ startsJson (p ++ (fence ++ t)) := by
  obtain ⟨f, rfl⟩ := hfence
  cases p with
  | nil => simp [startsJson, tick]
  | cons c p =>
    have hc := hp c List.mem_cons_self
    simp [startsJson, hc.1, hc.2.2.1]

theorem isWhitespace_plain : ∀ c, isWhitespace c → c ≠ '\\' := by
  rintro c hc rfl
  revert hc
  decide

theorem tickUnits_trim_le (t : List Char) : tickUnits (trim isWhitespace t) ≤ tickUnits t := by
  obtain ⟨r, hr⟩ := List.rdropWhile_prefix isWhitespace (t.dropWhile isWhitespace)
  have h := tickUnits_le_append (trim isWhitespace t) r
  rw [trim, hr] at h
  exact h.trans (tickUnits_dropWhile_le isWhitespace_plain t)

/-- A fence in a text takes at least one of its backticks from what is in front of it. -/
theorem tickUnits_add_lt (a b : List Char) : tickUnits a + tickUnits b < tickUnits (a ++ (mark ++ b)) := by
  have htick : tick ≠ '\\' := by decide
  have h := tickUnits_append_two htick htick a (tick :: b)
  have hb : tickUnits b ≤ tickUnits (tick :: b) := by
    rw [tickUnits_cons htick]
    omega
  have hmark : mark ++ b = tick :: tick :: tick :: b := by
    rw [mark_eq]
    rfl
  rw [if_pos rfl] at h
  rw [hmark]
  omega

/-- What stands before a fence inside a value starts as the value does. -/
theorem startsJson_part {x y : List Char} (hcont : v.IsContainer) (hw : write N v = x ++ (mark ++ y)) :
    startsJson (trim isWhitespace ('\n' :: x)) := by
  obtain ⟨c, m, hm, hc⟩ : ∃ c m, write N v = c :: m ∧ (c = '{' ∨ c = '[') := by
    rcases write_container (N := N) hcont with ⟨-, m, hm⟩ | ⟨-, m, hm⟩
    · exact ⟨_, _, hm, .inl rfl⟩
    · exact ⟨_, _, hm, .inr rfl⟩
  cases x with
  | nil =>
    rw [hw, mark_eq] at hm
    cases hm
    rcases hc with hc | hc <;> exact absurd hc (by decide)
  | cons d x =>
    have hd : d = c := by
      rw [hw] at hm
      exact (List.cons.inj hm).1
    have hspace : ¬ isWhitespace d := by
      rw [hd]
      rcases hc with rfl | rfl <;> decide
    have htrim := trim_append_cons hspace ['\n'] x
    rw [List.singleton_append, show ['\n'].dropWhile isWhitespace = [] from by decide] at htrim
    rw [htrim, hd]
    rcases hc with rfl | rfl <;> rfl

/-- The line of a value up to the next fence: the value, or less than it with fewer backticks. -/
theorem cut_line (hv : v.WellFormed) (hcont : v.IsContainer) :
    ∃ z y, cut mark (fencedLine (write N v)) = some (z, y) ∧ startsJson (trim isWhitespace z) ∧
      (¬ mark <:+: write N v ∧ trim isWhitespace z = write N v ∨
        mark <:+: write N v ∧ tickUnits (trim isWhitespace z) < ticks v) := by
  rw [cut_fencedLine]
  rcases hcut : cut mark (write N v) with _ | ⟨x, y⟩
  · have htrim : trim isWhitespace ('\n' :: (write N v ++ ['\n'])) = write N v := by
      have h := trim_around (N := N) hcont ['\n'] ['\n']
      rwa [show ['\n'].dropWhile isWhitespace = [] from by decide,
        show ['\n'].rdropWhile isWhitespace = [] from by decide, List.nil_append, List.append_nil] at h
    have hstart := startsJson_write (N := N) hcont []
    rw [List.append_nil] at hstart
    exact ⟨_, _, rfl, by rw [htrim]; exact hstart, .inl ⟨cut_eq_none.mp hcut, htrim⟩⟩
  · have hw := cut_spec hcut
    have hinside : mark <:+: write N v := ⟨x, y, by rw [hw, List.append_assoc]⟩
    refine ⟨_, _, rfl, startsJson_part hcont hw, .inr ⟨hinside, ?_⟩⟩
    have hle := tickUnits_trim_le ('\n' :: x)
    have hlt := tickUnits_add_lt x y
    have hticks := tickUnits_write (N := N) hv []
    rw [List.append_nil] at hticks
    rw [tickUnits_plain (by decide) (by decide)] at hle
    rw [← hw, hticks, tickUnits] at hlt
    dsimp only
    omega

/-- Behind a bare fence the other one is looked for in the value. -/
theorem between_json_bare (hp : Prose p) (w : List Char) : between jsonMark (p ++ (mark ++ fencedLine w)) =
    match cut jsonMark w with
    | some s => cut mark (s.2 ++ '\n' :: mark)
    | none => none := by
  have htick : tick ∉ p := fun h => (hp _ h).2.2.2.2 rfl
  have hline : '\n' ∉ jsonMark := by decide
  have hhead := cut_append_of_head htick [tick, tick, 'j', 's', 'o', 'n'] (mark ++ fencedLine w)
  have hfence := cut_append_cons hline (by decide) mark (w ++ '\n' :: mark)
  have hvalue := cut_append_cons hline (by decide) w mark
  have hnone : cut jsonMark mark = none := by decide
  rw [hnone] at hfence hvalue
  rw [between]
  show (cut [tick, tick, tick, 'j', 's', 'o', 'n'] _).bind _ = _
  rw [hhead, Option.bind_map]
  show (cut jsonMark (mark ++ '\n' :: (w ++ '\n' :: mark))).bind _ = _
  rw [hfence, hvalue]
  rcases cut jsonMark w with _ | s <;> rfl

/-- What is in front of the next fence. -/
theorem cut_mark_line (b : List Char) :
    ∃ x y, cut mark (b ++ '\n' :: mark) = some (x, y) ∧ x <+: b ++ ['\n'] := by
  have hline : '\n' ∉ mark := by decide
  rw [cut_append_cons hline (by decide), show cut mark mark = some ([], []) from by decide]
  rcases hcut : cut mark b with _ | s
  · exact ⟨_, _, rfl, List.prefix_refl _⟩
  · have hb := cut_spec hcut
    refine ⟨_, _, rfl, ?_⟩
    rw [hb, List.append_assoc]
    exact List.prefix_append s.1 _

/-- What is extracted from between fences: the value if there is no fence in it, and otherwise
something with fewer backticks. -/
theorem extractJson_fenced (hv : v.WellFormed) (hcont : v.IsContainer) (hp : Prose p) (hq : Blank q)
    (hfence : fence = jsonMark ∨ fence = mark) :
    ∃ e, extractJson (p ++ (fence ++ (fencedLine (write N v) ++ q))) = some (.ok e) ∧
      (¬ mark <:+: write N v ∧ e = write N v ∨ mark <:+: write N v ∧ tickUnits e < ticks v) := by
  have htick : ∃ f, fence = tick :: f := by
    rcases hfence with rfl | rfl
    · exact ⟨[tick, tick, 'j', 's', 'o', 'n'], by decide⟩
    · exact ⟨[tick, tick], by decide⟩
  have hp := hp.dropWhile isWhitespace
  have hstart := not_startsJson_fenced htick hp (fencedLine (write N v))
  have hbetween := between_fenced htick hp (fencedLine (write N v))
  obtain ⟨z, y, hcut, hz, hfound⟩ := cut_line (N := N) hv hcont
  rw [hcut] at hbetween
  rw [extractJson_eq (trim_fenced htick hq p (write N v)), if_neg hstart]
  rcases hfence with rfl | rfl
  · rw [hbetween]
    exact ⟨_, rfl, hfound⟩
  rw [between_json_bare hp, hbetween]
  rcases hjson : cut jsonMark (write N v) with _ | ⟨a, b⟩
  · refine ⟨_, ?_, hfound⟩
    simp [hz]
  · obtain ⟨x, y', hx, r, hr⟩ := cut_mark_line b
    have hw := cut_spec hjson
    have hline : write N v ++ ['\n'] = a ++ (mark ++ (['j', 's', 'o', 'n'] ++ (b ++ ['\n']))) := by
      rw [hw, jsonMark_eq]
      simp only [List.append_assoc]
    have hinside : mark <:+: write N v := by
      rw [hw, jsonMark_eq]
      exact ⟨a, ['j', 's', 'o', 'n'] ++ b, by simp only [List.append_assoc]⟩
    dsimp only
    rw [hx]
    refine ⟨_, rfl, .inr ⟨hinside, ?_⟩⟩
    have htrim := tickUnits_trim_le x
    have hprefix := tickUnits_le_append x r
    have hlt := tickUnits_add_lt a (['j', 's', 'o', 'n'] ++ (b ++ ['\n']))
    have hticks := tickUnits_write (N := N) hv ['\n']
    have hend : tickUnits ['\n'] = 0 := by decide
    rw [← hline, hticks, hend, tickUnits_append_plain (by simp [tick])] at hlt
    rw [hr] at hprefix
    dsimp only
    omega

/-- **JSON is recovered from between fences** exactly if there is no fence in it. -/
theorem recovers_fenced_iff (hv : v.WellFormed) (hcont : v.IsContainer) (hp : Prose p) (hq : Blank q)
    (hfence : fence = jsonMark ∨ fence = mark) :
    Recovers N (p ++ (fence ++ (fencedLine (write N v) ++ q))) v ↔ ¬ mark <:+: write N v := by
  obtain ⟨e, he, hfound⟩ := extractJson_fenced (N := N) hv hcont hp hq hfence
  rw [recovers_of_eq he]
  rcases hfound with ⟨hmark, rfl⟩ | ⟨hmark, hlt⟩
  · exact iff_of_true (fromStr_write hv) hmark
  · refine iff_of_false (fun h => ?_) fun h => h hmark
    have := ticks_le_of_fromStr h
    omega

/-- An object without a fence in it, on a line of its own. -/
theorem recovers_fenced_iff_object :
    Recovers .sample ([] ++ (mark ++ (fencedLine (write .sample (.sample .null)) ++ ['\n']))) (.sample .null) :=
  (recovers_fenced_iff (wellFormed_sample .null) trivial (fun c hc => by cases hc)
    (by simp [Blank, isWhitespace]) (.inr rfl)).mpr (by decide +kernel)

/-- A string with a fence in it. -/
theorem not_recovers_fenced : ¬ ∀ (N : NumberText) (v : Json) (p fence : List Char), v.WellFormed →
    v.IsContainer → Prose p → (fence = jsonMark ∨ fence = mark) →
      Recovers N (p ++ (fence ++ fencedLine (write N v))) v := by
  intro h
  obtain ⟨t, ht, hread⟩ := h .sample (.sample (.str "```")) [] jsonMark (wellFormed_sample (.str _)) trivial
    (fun c hc => by cases hc) (.inl rfl)
  have hfound : extractJson ([] ++ (jsonMark ++ fencedLine (write .sample (.sample (.str "```"))))) =
      some (.ok ['\x7b', '"', 'k', '"', ':', '"']) := by decide +kernel
  have hnone : fromStr .sample ['\x7b', '"', 'k', '"', ':', '"'] = none := rfl
  rw [hfound] at ht
  cases ht
  rw [hnone] at hread
  cases hread

end Fenced

end FireCtrl
