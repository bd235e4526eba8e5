import Mathlib.Algebra.Order.Ring.Nat
import Mathlib.Data.List.Infix
import Mathlib.Tactic.Common

/-!
# Readers of separated sequences

A reader takes a value from the beginning of a text and leaves the rest.

* `items`: the items of a sequence up to the closing character, with blanks around them.
* **`items_itemsText`**: the items that were written are read back if each item is.
* **`items_le`**: a measure that each item keeps from growing is kept from growing by the sequence.
-/

namespace Text

/-- What is read from the beginning of a text, and the rest. -/
abbrev Reader (β : Type*) := List Char → Option (β × List Char)

section Items

variable {β : Type*} (blank : Char → Bool) (sep close : Char)

/-- After an item: the end of the sequence, or a separator and the next item; at most `m` times. -/
def moreItems (item : Reader β) : ℕ → Reader (List β)
  | 0, _ => none
  | m + 1, t =>
    match t.dropWhile blank with
    | [] => none
    | c :: r =>
      if c = close then some ([], r)
      else if c = sep then
        (item r).bind fun x => (moreItems item m x.2).map fun y => (x.1 :: y.1, y.2)
      else none

/-- The items of a sequence whose opening character has been read. -/
def items (item : Reader β) : Reader (List β) := fun t =>
  match t.dropWhile blank with
  | [] => none
  | c :: r =>
    if c = close then some ([], r)
    else
      (item (c :: r)).bind fun x =>
        (moreItems blank sep close item x.2.length x.2).map fun y => (x.1 :: y.1, y.2)

/-- The text after an item. -/
def moreText : List (List Char) → List Char
  | [] => [close]
  | w :: ws => sep :: (w ++ moreText ws)

/-- The text of a sequence, without its opening character. -/
def itemsText : List (List Char) → List Char
  | [] => [close]
  | w :: ws => w ++ moreText sep close ws

section Lengths

variable (ws : List (List Char))

theorem length_lt_moreText : ws.length < (moreText sep close ws).length := by
  induction ws with
  | nil => simp [moreText]
  | cons w ws ih =>
    rw [moreText, List.length_cons, List.length_cons, List.length_append]
    omega

/-- What follows an item is a separator or the end. -/
theorem head?_moreText (rest : List Char) :
    (moreText sep close ws ++ rest).head? = some sep ∨ (moreText sep close ws ++ rest).head? = some close := by
  cases ws with
  | nil => exact .inr rfl
  | cons w ws => exact .inl rfl

variable {ws} {w : List Char}

theorem length_le_moreText (h : w ∈ ws) : w.length < (moreText sep close ws).length := by
  induction ws with
  | nil => cases h
  | cons v ws ih =>
    rw [moreText, List.length_cons, List.length_append]
    rcases List.mem_cons.mp h with rfl | h
    · omega
    · have := ih h
      omega

/-- An item is shorter than its sequence. -/
theorem length_lt_itemsText (h : w ∈ ws) : w.length < (itemsText sep close ws).length := by
  cases ws with
  | nil => cases h
  | cons v ws =>
    rw [itemsText, List.length_append]
    rcases List.mem_cons.mp h with rfl | h
    · have := length_lt_moreText sep close ws
      omega
    · have := length_le_moreText sep close h
      omega

theorem moreText_eq (ws : List (List Char)) : ∃ m, moreText sep close ws = m ++ [close] := by
  induction ws with
  | nil => exact ⟨[], rfl⟩
  | cons w ws ih =>
    obtain ⟨m, hm⟩ := ih
    exact ⟨sep :: (w ++ m), by rw [moreText, hm, List.cons_append, List.append_assoc]⟩

/-- A sequence ends with its closing character. -/
theorem itemsText_eq (ws : List (List Char)) : ∃ m, itemsText sep close ws = m ++ [close] := by
  cases ws with
  | nil => exact ⟨[], rfl⟩
  | cons w ws =>
    obtain ⟨m, hm⟩ := moreText_eq sep close ws
    exact ⟨w ++ m, by rw [itemsText, hm, List.append_assoc]⟩

end Lengths

variable {blank sep close} {item : Reader β} {text : β → List Char} {xs : List β}

/-- The reader reads back what was written of `x`, in a sequence. -/
def ReadsBack (sep close : Char) (item : Reader β) (text : β → List Char) (x : β) : Prop :=
  ∀ rest : List Char, rest.head? = some sep ∨ rest.head? = some close → item (text x ++ rest) = some (x, rest)

theorem moreItems_moreText (hsep : ¬ blank sep) (hclose : ¬ blank close) (hne : sep ≠ close)
    (hitem : ∀ x ∈ xs, ReadsBack sep close item text x) (rest : List Char) {m : ℕ} (hm : xs.length < m) :
    moreItems blank sep close item m (moreText sep close (xs.map text) ++ rest) = some (xs, rest) := by
  induction xs generalizing m with
  | nil =>
    obtain ⟨m, rfl⟩ : ∃ k, m = k + 1 := ⟨m - 1, by omega⟩
    simp [moreText, moreItems, hclose]
  | cons x xs ih =>
    obtain ⟨m, rfl⟩ : ∃ k, m = k + 1 := ⟨m - 1, by omega⟩
    have hx := hitem x List.mem_cons_self (moreText sep close (xs.map text) ++ rest) (head?_moreText _ _ _ rest)
    have hxs := ih (fun y hy => hitem y (List.mem_cons_of_mem x hy)) (m := m) (by simpa using hm)
    simp [moreText, moreItems, hsep, hne, hx, hxs]

theorem items_itemsText (hsep : ¬ blank sep) (hclose : ¬ blank close) (hne : sep ≠ close)
    (hhead : ∀ x ∈ xs, ∃ c t, text x = c :: t ∧ ¬ blank c ∧ c ≠ close)
    (hitem : ∀ x ∈ xs, ReadsBack sep close item text x) (rest : List Char) :
    items blank sep close item (itemsText sep close (xs.map text) ++ rest) = some (xs, rest) := by
  cases xs with
  | nil => simp [itemsText, items, hclose]
  | cons x xs =>
    obtain ⟨c, t, htext, hblank, hc⟩ := hhead x List.mem_cons_self
    have hx := hitem x List.mem_cons_self (moreText sep close (xs.map text) ++ rest) (head?_moreText _ _ _ rest)
    have hxs := moreItems_moreText hsep hclose hne (fun y hy => hitem y (List.mem_cons_of_mem x hy)) rest
      (m := (moreText sep close (xs.map text) ++ rest).length) (by
        have := length_lt_moreText sep close (xs.map text)
        rw [List.length_map] at this
        rw [List.length_append]
        omega)
    rw [htext, List.cons_append] at hx
    rw [List.length_append] at hxs
    simp [itemsText, items, htext, hblank, hc, hx, hxs]

section Measure

variable {f : β → ℕ} {μ : List Char → ℕ} {t r : List Char}

theorem dropWhile_le (hblank : ∀ c, blank c → ∀ t, μ t ≤ μ (c :: t)) (t : List Char) :
    μ (t.dropWhile blank) ≤ μ t := by
  induction t with
  | nil => exact le_refl _
  | cons c t ih =>
    by_cases hc : blank c
    · rw [List.dropWhile_cons_of_pos hc]
      exact ih.trans (hblank c hc t)
    · rw [List.dropWhile_cons_of_neg hc]

/-- One item read, with some items after it. -/
theorem bind_map_le {g : Reader (List β)} (hitem : ∀ t x r, item t = some (x, r) → f x + μ r ≤ μ t)
    (hg : ∀ t xs r, g t = some (xs, r) → (xs.map f).sum + μ r ≤ μ t)
    (h : ((item t).bind fun x => (g x.2).map fun y => (x.1 :: y.1, y.2)) = some (xs, r)) :
    (xs.map f).sum + μ r ≤ μ t := by
  obtain ⟨⟨x, t'⟩, hx, h⟩ := Option.bind_eq_some_iff.mp h
  obtain ⟨⟨ys, r'⟩, hys, heq⟩ := Option.map_eq_some_iff.mp h
  cases heq
  have h₁ := hitem t x t' hx
  have h₂ := hg t' ys _ hys
  simp only [List.map_cons, List.sum_cons]
  omega

variable (hblank : ∀ c, blank c → ∀ t, μ t ≤ μ (c :: t)) (hsep : ∀ t, μ t ≤ μ (sep :: t))
  (hclose : ∀ t, μ t ≤ μ (close :: t)) (hitem : ∀ t x r, item t = some (x, r) → f x + μ r ≤ μ t)
include hblank hsep hclose hitem

theorem moreItems_le (m : ℕ) (t : List Char) (xs : List β) (r : List Char)
    (h : moreItems blank sep close item m t = some (xs, r)) : (xs.map f).sum + μ r ≤ μ t := by
  induction m generalizing t xs r with
  | zero => cases h
  | succ m ih =>
    have ht := dropWhile_le hblank t
    rw [moreItems] at h
    split at h
    · cases h
    rename_i c t' hdrop
    rw [hdrop] at ht
    split_ifs at h with hc hs
    · cases h
      have := hclose r
      subst hc
      simpa using this.trans ht
    · subst hs
      exact (bind_map_le hitem ih h).trans ((hsep t').trans ht)

theorem items_le (h : items blank sep close item t = some (xs, r)) : (xs.map f).sum + μ r ≤ μ t := by
  have ht := dropWhile_le hblank t
  unfold items at h
  split at h
  · cases h
  rename_i c t' hdrop
  rw [hdrop] at ht
  split_ifs at h with hc
  · cases h
    have := hclose r
    subst hc
    simpa using this.trans ht
  · exact (bind_map_le (g := fun t => moreItems blank sep close item t.length t) hitem
      (fun t xs r h => moreItems_le hblank hsep hclose hitem t.length t xs r h) h).trans ht

end Measure

end Items

end Text
