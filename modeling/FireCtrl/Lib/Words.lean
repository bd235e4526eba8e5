import FireCtrl.Lib.Text

/-!
# Words

The words of a text are its longest parts without separators (the elements that satisfy `p`).

* `words`: `words_append_cons`, `words_intercalate`: the words of texts that are put together.
  `flatten_words`: they are all that is not a separator.
* `normalize`: the words with one separator between them; `words_normalize`, `normalize_eq_nil`.
* `words_trim`: what is trimmed has no words.
-/

namespace Text

section Words

variable {α : Type*} {p : α → Bool} {c : α} {w t : List α} {ts : List (List α)}

/-- The longest parts of a text without separators. -/
def words (p : α → Bool) (t : List α) : List (List α) := (t.splitOnP p).filter fun w => !w.isEmpty

@[simp] theorem words_nil : words p [] = [] := by
  rw [words, List.splitOnP_nil]
  rfl

theorem words_append_cons (hc : p c) (a b : List α) : words p (a ++ c :: b) = words p a ++ words p b := by
  simp only [words, List.splitOnP_append_cons a b hc, List.filter_append]

/-- Texts that are put together with separators between them keep their words. -/
theorem words_intercalate (hc : p c) (ts : List (List α)) : words p ([c].intercalate ts) = ts.flatMap (words p) := by
  induction ts with
  | nil => simp [List.intercalate]
  | cons t ts ih =>
    cases ts with
    | nil => simp [List.intercalate]
    | cons u us =>
      have hcons : [c].intercalate (t :: u :: us) = t ++ c :: [c].intercalate (u :: us) := by
        simp [List.intercalate]
      rw [hcons, words_append_cons hc, ih]
      rfl

theorem words_of_forall (hw : w ≠ []) (h : ∀ x ∈ w, p x = false) : words p w = [w] := by
  rw [words, List.splitOnP_eq_singleton h, List.filter_cons_of_pos (by simpa using hw)]
  rfl

theorem forall_of_mem_splitOnP (hw : w ∈ t.splitOnP p) : ∀ x ∈ w, p x = false := by
  induction t generalizing w with
  | nil =>
    rw [List.splitOnP_nil, List.mem_singleton] at hw
    subst hw
    exact nofun
  | cons a t ih =>
    rw [List.splitOnP_cons_eq_if_modifyHead] at hw
    split_ifs at hw with ha
    · rcases List.mem_cons.mp hw with rfl | hw
      · exact nofun
      · exact ih hw
    · obtain ⟨u, us, hus⟩ := List.exists_cons_of_ne_nil (List.splitOnP_ne_nil p t)
      rw [hus] at hw ih
      rcases List.mem_cons.mp hw with rfl | hw
      · intro x hx
        rcases List.mem_cons.mp hx with rfl | hx
        · simpa using ha
        · exact ih List.mem_cons_self x hx
      · exact ih (List.mem_cons_of_mem _ hw)

theorem mem_words (hw : w ∈ words p t) : w ≠ [] ∧ ∀ x ∈ w, p x = false := by
  obtain ⟨hmem, hne⟩ := List.mem_filter.mp hw
  exact ⟨by simpa using hne, forall_of_mem_splitOnP hmem⟩

/-- The words have everything that is not a separator. -/
theorem flatten_words (p : α → Bool) (t : List α) : (words p t).flatten = t.filter fun x => !p x := by
  have hempty (ts : List (List α)) : (ts.filter fun w => !w.isEmpty).flatten = ts.flatten := by
    induction ts with
    | nil => rfl
    | cons u us ih => cases u <;> simp [ih]
  rw [words, hempty]
  induction t with
  | nil => rfl
  | cons a t ih =>
    rw [List.splitOnP_cons_eq_if_modifyHead]
    by_cases ha : p a = true
    · simp [ha, ih]
    · obtain ⟨u, us, hus⟩ := List.exists_cons_of_ne_nil (List.splitOnP_ne_nil p t)
      rw [hus] at ih ⊢
      simp only [List.flatten_cons] at ih
      simp [ha, ← ih]

theorem words_eq_nil : words p t = [] ↔ ∀ x ∈ t, p x = true := by
  constructor
  · intro h x hx
    by_contra hp
    have hmem : x ∈ t.filter fun x => !p x := List.mem_filter.mpr ⟨hx, by simpa using hp⟩
    rw [← flatten_words, h] at hmem
    cases hmem
  · intro h
    refine List.eq_nil_iff_forall_not_mem.mpr fun w hw => ?_
    obtain ⟨hne, hall⟩ := mem_words hw
    obtain ⟨x, hx⟩ := List.exists_mem_of_ne_nil w hne
    have hmem : x ∈ t.filter fun x => !p x := flatten_words p t ▸ List.mem_flatten.mpr ⟨w, hw, hx⟩
    have hsep := h x (List.mem_filter.mp hmem).1
    rw [hall x hx] at hsep
    cases hsep

/-- Parts of a text without words add none. -/
theorem words_append_of_forall (ht : ∀ x ∈ t, p x = true) (u : List α) : words p (t ++ u) = words p u := by
  induction t with
  | nil => rfl
  | cons a t ih =>
    have h := words_append_cons (ht a List.mem_cons_self) [] (t ++ u)
    rw [words_nil, List.nil_append, List.nil_append] at h
    rw [List.cons_append, h, ih fun x hx => ht x (List.mem_cons_of_mem _ hx)]

theorem words_append_forall (ht : ∀ x ∈ t, p x = true) (u : List α) : words p (u ++ t) = words p u := by
  cases t with
  | nil => rw [List.append_nil]
  | cons a t =>
    rw [words_append_cons (ht a List.mem_cons_self), words_eq_nil.mpr fun x hx => ht x (List.mem_cons_of_mem _ hx),
      List.append_nil]

theorem words_trim (t : List α) : words p (trim p t) = words p t := by
  have hr (u : List α) : words p (u.rdropWhile p) = words p u := by
    conv_rhs => rw [← List.rdropWhile_append_rtakeWhile (p := p) (l := u)]
    exact (words_append_forall (fun x hx => List.mem_rtakeWhile_imp hx) _).symm
  have hl (u : List α) : words p (u.dropWhile p) = words p u := by
    conv_rhs => rw [← List.takeWhile_append_dropWhile (p := p) (l := u)]
    exact (words_append_of_forall (fun x hx => List.mem_takeWhile_imp hx) _).symm
  rw [trim, hr, hl]

/-- The words with `c` between them. -/
def normalize (p : α → Bool) (c : α) (t : List α) : List α := [c].intercalate (words p t)

theorem words_normalize (hc : p c) (t : List α) : words p (normalize p c t) = words p t := by
  have hword : ∀ w ∈ words p t, words p w = [w] := fun w hw => words_of_forall (mem_words hw).1 (mem_words hw).2
  rw [normalize, words_intercalate hc, List.flatMap_congr hword]
  exact List.flatMap_singleton' _

theorem normalize_eq_nil : normalize p c t = [] ↔ words p t = [] := by
  constructor
  · intro h
    cases hw : words p t with
    | nil => rfl
    | cons w ws =>
      have hne : w ≠ [] := (mem_words (hw ▸ List.mem_cons_self : w ∈ words p t)).1
      rw [normalize, hw] at h
      cases ws <;> simp [List.intercalate, hne] at h
  · intro h
    rw [normalize, h]
    rfl

end Words

end Text
