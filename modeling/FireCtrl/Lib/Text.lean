import Mathlib.Algebra.Order.Ring.Nat
import Mathlib.Data.List.DropRight
import Mathlib.Data.List.Infix
import Mathlib.Tactic.Common

/-!
# Texts and byte offsets

A text is the list of its characters. Offsets count the bytes of its UTF-8 form.

* `slice?`: a range of a text; `none` if the offsets are out of order or out of range, or inside a
  character. `slice?_append`; `slice?_isInfix`.
* `find`, `rfind`: the offsets of the first occurrence of a pattern and of the last one of a character.
  `cut`, `cutLast`: the texts around them; `find_eq_cut`, `rfind_eq_cutLast`.
* `cut_append_of_head`, `cut_append_cons`: how a search goes on through parts that it cannot match.
* `trim`: without the characters at both ends that satisfy a predicate.
-/

namespace Text

/-! ## Slices -/

def byteLen (t : List Char) : ℕ := (t.map Char.utf8Size).sum

/-- The first `n` bytes and the others; `none` if `n` is out of range or inside a character. -/
def splitAt? : List Char → ℕ → Option (List Char × List Char)
  | t, 0 => some ([], t)
  | [], _ + 1 => none
  | c :: t, n + 1 =>
    if c.utf8Size ≤ n + 1 then (splitAt? t (n + 1 - c.utf8Size)).map fun s => (c :: s.1, s.2) else none

/-- The bytes from offset `i` up to offset `j`. -/
def slice? (t : List Char) (i j : ℕ) : Option (List Char) :=
  if i ≤ j then (splitAt? t j).bind fun s => (splitAt? s.1 i).map Prod.snd else none

section Slices

variable {t a b a' b' : List Char} {i j : ℕ}

@[simp] theorem byteLen_nil : byteLen [] = 0 := rfl

@[simp] theorem byteLen_cons (c : Char) (t : List Char) : byteLen (c :: t) = c.utf8Size + byteLen t := rfl

@[simp] theorem byteLen_append (a b : List Char) : byteLen (a ++ b) = byteLen a + byteLen b := by
  simp [byteLen]

@[simp] theorem splitAt?_append (a b : List Char) : splitAt? (a ++ b) (byteLen a) = some (a, b) := by
  induction a with
  | nil => rw [List.nil_append, byteLen_nil, splitAt?]
  | cons c a ih =>
    have hc := c.utf8Size_pos
    obtain ⟨n, hn⟩ : ∃ n, c.utf8Size + byteLen a = n + 1 := ⟨c.utf8Size + byteLen a - 1, by omega⟩
    have hsub : n + 1 - c.utf8Size = byteLen a := by omega
    rw [List.cons_append, byteLen_cons, hn, splitAt?, if_pos (by omega), hsub, ih]
    rfl

theorem slice?_append (a b c : List Char) :
    slice? (a ++ (b ++ c)) (byteLen a) (byteLen a + byteLen b) = some b := by
  have h := splitAt?_append (a ++ b) c
  rw [List.append_assoc, byteLen_append] at h
  simp [slice?, h]

/-- The rest of a text, and its beginning. -/
theorem slice?_to_end (a b : List Char) : slice? (a ++ b) (byteLen a) (byteLen (a ++ b)) = some b := by
  have h := slice?_append a b []
  rwa [List.append_nil, ← byteLen_append] at h

theorem slice?_from_start (a b : List Char) : slice? (a ++ b) 0 (byteLen a) = some a := by
  have h := slice?_append [] a b
  rwa [byteLen_nil, Nat.zero_add] at h

theorem slice?_eq_none (h : j < i) : slice? t i j = none := if_neg (not_le.mpr h)

theorem splitAt?_spec (h : splitAt? t i = some (a, b)) : t = a ++ b := by
  induction t generalizing i a with
  | nil =>
    cases i with
    | zero =>
      rw [splitAt?] at h
      cases h
      rfl
    | succ n => cases h
  | cons c t ih =>
    cases i with
    | zero =>
      rw [splitAt?] at h
      cases h
      rfl
    | succ n =>
      rw [splitAt?] at h
      split_ifs at h
      obtain ⟨⟨a', b'⟩, hs, heq⟩ := Option.map_eq_some_iff.mp h
      cases heq
      rw [ih hs]
      rfl

/-- A slice is a part of the text. -/
theorem slice?_isInfix (h : slice? t i j = some a) : a <:+: t := by
  unfold slice? at h
  split_ifs at h
  obtain ⟨⟨x, y⟩, hx, hmap⟩ := Option.bind_eq_some_iff.mp h
  obtain ⟨⟨x', a'⟩, hx', rfl⟩ := Option.map_eq_some_iff.mp hmap
  have ht : t = x ++ y := splitAt?_spec hx
  have hxs : x = x' ++ a' := splitAt?_spec hx'
  exact ⟨x', y, by rw [ht, hxs]⟩

/-- Of two beginnings of a text the one with fewer bytes is a beginning of the other. -/
theorem exists_append_of_byteLen_le (h : a ++ b = a' ++ b') (hle : byteLen a ≤ byteLen a') :
    ∃ m, a' = a ++ m ∧ b = m ++ b' := by
  rcases List.append_eq_append_iff.mp h with ⟨m, ha', hb⟩ | ⟨m, ha, hb'⟩
  · exact ⟨m, ha', hb⟩
  · have hm : m = [] := by
      rcases m with _ | ⟨c, m⟩
      · rfl
      · have hc := c.utf8Size_pos
        rw [ha, byteLen_append, byteLen_cons] at hle
        omega
    subst hm
    exact ⟨[], by simpa using ha.symm, by simpa using hb'.symm⟩

end Slices

/-! ## Searches -/

section Searches

variable {α : Type*} [DecidableEq α]

/-- The text before and after the first occurrence of the pattern. -/
def cut (pat : List α) : List α → Option (List α × List α)
  | [] => if pat = [] then some ([], []) else none
  | c :: t =>
    if pat <+: c :: t then some ([], (c :: t).drop pat.length)
    else (cut pat t).map fun s => (c :: s.1, s.2)

/-- The text before and after the last occurrence of the character. -/
def cutLast (x : α) : List α → Option (List α × List α)
  | [] => none
  | c :: t =>
    match cutLast x t with
    | some s => some (c :: s.1, s.2)
    | none => if c = x then some ([], t) else none

end Searches

/-- `find`: the offset of the first occurrence of the pattern. -/
def find (pat : List Char) : List Char → Option ℕ
  | [] => if pat = [] then some 0 else none
  | c :: t => if pat <+: c :: t then some 0 else (find pat t).map (· + c.utf8Size)

/-- `rfind`: the offset of the last occurrence of the character. -/
def rfind (x : Char) : List Char → Option ℕ
  | [] => none
  | c :: t =>
    match rfind x t with
    | some n => some (n + c.utf8Size)
    | none => if c = x then some 0 else none

theorem find_eq_cut (pat t : List Char) : find pat t = (cut pat t).map fun s => byteLen s.1 := by
  induction t with
  | nil =>
    unfold find cut
    split_ifs <;> rfl
  | cons c t ih =>
    unfold find cut
    split_ifs
    · rfl
    · rw [ih, Option.map_map, Option.map_map]
      congr 1
      funext s
      simp [Nat.add_comm]

theorem rfind_eq_cutLast (x : Char) (t : List Char) :
    rfind x t = (cutLast x t).map fun s => byteLen s.1 := by
  induction t with
  | nil => rfl
  | cons c t ih =>
    unfold rfind cutLast
    rw [ih]
    rcases cutLast x t with _ | s
    · simp only [Option.map_none]
      split_ifs <;> rfl
    · simp [Nat.add_comm]

section Cut

variable {α : Type*} [DecidableEq α] {pat t a b x y : List α} {c d : α}

theorem cut_cons (pat : List α) (c : α) (t : List α) :
    cut pat (c :: t) = if pat <+: c :: t then some ([], (c :: t).drop pat.length)
      else (cut pat t).map fun s => (c :: s.1, s.2) := rfl

theorem cut_spec (h : cut pat t = some (a, b)) : t = a ++ (pat ++ b) := by
  induction t generalizing a with
  | nil =>
    unfold cut at h
    split_ifs at h with hp
    cases h
    simp [hp]
  | cons c t ih =>
    unfold cut at h
    split_ifs at h with hp
    · cases h
      obtain ⟨rest, hrest⟩ := hp
      rw [← hrest]
      simp
    · obtain ⟨s, hs, heq⟩ := Option.map_eq_some_iff.mp h
      cases heq
      rw [ih (a := s.1) hs]
      rfl

theorem cut_eq_none : cut pat t = none ↔ ¬ pat <:+: t := by
  induction t with
  | nil =>
    unfold cut
    simp [List.infix_nil]
  | cons c t ih =>
    unfold cut
    rw [List.infix_cons_iff]
    split_ifs with hp
    · simp [hp]
    · simp [hp, ih]

/-- A pattern does not begin in a part without its first character. -/
theorem cut_append_of_head (ha : c ∉ a) (pat t : List α) :
    cut (c :: pat) (a ++ t) = (cut (c :: pat) t).map fun s => (a ++ s.1, s.2) := by
  induction a with
  | nil => simp
  | cons d a ih =>
    rw [List.mem_cons, not_or] at ha
    have hp : ¬ c :: pat <+: d :: (a ++ t) := by
      rw [List.cons_prefix_cons]
      exact fun h => ha.1 h.1
    rw [List.cons_append, cut, if_neg hp, ih ha.2, Option.map_map]
    rfl

theorem cut_eq_none_of_notMem (h : c ∉ t) (pat : List α) : cut (c :: pat) t = none := by
  have h := cut_append_of_head h pat []
  rwa [List.append_nil, cut, if_neg (List.cons_ne_nil c pat)] at h

theorem cut_self_append (pat b : List α) (hpat : pat ≠ []) : cut pat (pat ++ b) = some ([], b) := by
  obtain ⟨c, pat, rfl⟩ := List.exists_cons_of_ne_nil hpat
  have hprefix : c :: pat <+: c :: (pat ++ b) := List.prefix_append (c :: pat) b
  have hdrop : (c :: (pat ++ b)).drop (c :: pat).length = b := List.drop_left
  rw [List.cons_append, cut_cons, if_pos hprefix, hdrop]

omit [DecidableEq α] in
theorem prefix_append_cons (hd : d ∉ pat) : pat <+: x ++ d :: y ↔ pat <+: x := by
  constructor
  · rintro ⟨rest, h⟩
    rcases List.append_eq_append_iff.mp h with ⟨m, hx, -⟩ | ⟨m, hpat, hy⟩
    · exact ⟨m, hx.symm⟩
    · rcases m with _ | ⟨e, m⟩
      · exact ⟨[], by simpa using hpat⟩
      · cases hy
        exact absurd (by simp [hpat]) hd
  · exact fun h => h.trans (List.prefix_append x _)

/-- A pattern does not extend over a character that it does not contain. -/
theorem cut_append_cons (hd : d ∉ pat) (hpat : pat ≠ []) (x y : List α) :
    cut pat (x ++ d :: y) =
      match cut pat x with
      | some s => some (s.1, s.2 ++ d :: y)
      | none => (cut pat y).map fun s => (x ++ d :: s.1, s.2) := by
  induction x with
  | nil =>
    have hp : ¬ pat <+: d :: y := by
      intro h
      obtain ⟨e, pat', rfl⟩ := List.exists_cons_of_ne_nil hpat
      exact hd (by simp [(List.cons_prefix_cons.mp h).1])
    simp [cut, hp, hpat]
  | cons c x ih =>
    have hiff := prefix_append_cons (x := c :: x) (y := y) hd
    rw [List.cons_append] at hiff ⊢
    rw [cut_cons, cut_cons]
    by_cases hp : pat <+: c :: x
    · rw [if_pos (hiff.mpr hp), if_pos hp, ← List.cons_append, List.drop_append_of_le_length hp.length_le]
    · rw [if_neg (mt hiff.mp hp), if_neg hp, ih]
      rcases cut pat x with _ | s
      · exact Option.map_map ..
      · rfl

theorem cut_singleton_append (ha : c ∉ a) : cut [c] (a ++ c :: b) = some (a, b) := by
  rw [cut_append_of_head ha]
  simp [cut]

theorem cut_singleton (h : cut [c] t = some (a, b)) : t = a ++ c :: b ∧ c ∉ a := by
  have ht := cut_spec h
  obtain ⟨a', b', ht', ha'⟩ := List.eq_append_cons_of_mem (a := c) (by simp [ht] : c ∈ t)
  rw [ht', cut_singleton_append ha', Option.some.injEq, Prod.mk.injEq] at h
  obtain ⟨rfl, rfl⟩ := h
  exact ⟨ht', ha'⟩

theorem cutLast_eq_none (h : c ∉ t) : cutLast c t = none := by
  induction t with
  | nil => rfl
  | cons d t ih =>
    rw [List.mem_cons, not_or] at h
    simp [cutLast, ih h.2, Ne.symm h.1]

theorem cutLast_append (hb : c ∉ b) : cutLast c (a ++ c :: b) = some (a, b) := by
  induction a with
  | nil => simp [cutLast, cutLast_eq_none hb]
  | cons d a ih => simp [cutLast, ih]

omit [DecidableEq α] in
theorem exists_last_of_mem (h : c ∈ t) : ∃ a b, t = a ++ c :: b ∧ c ∉ b := by
  obtain ⟨b, a, hrev, hb⟩ := List.eq_append_cons_of_mem (List.mem_reverse.mpr h)
  refine ⟨a.reverse, b.reverse, ?_, by simpa using hb⟩
  rw [← List.reverse_reverse t, hrev]
  simp

theorem cutLast_spec (h : cutLast c t = some (a, b)) : t = a ++ c :: b ∧ c ∉ b := by
  have hmem : c ∈ t := by
    by_contra hno
    rw [cutLast_eq_none hno] at h
    cases h
  obtain ⟨a', b', ht, hb⟩ := exists_last_of_mem hmem
  rw [ht, cutLast_append hb, Option.some.injEq, Prod.mk.injEq] at h
  obtain ⟨rfl, rfl⟩ := h
  exact ⟨ht, hb⟩

end Cut

/-! ## Trimming -/

section Trim

variable {α : Type*} {p : α → Bool} {c d : α}

/-- The text without the characters at its two ends that satisfy `p`. -/
def trim (p : α → Bool) (t : List α) : List α := (t.dropWhile p).rdropWhile p

theorem trim_isInfix (p : α → Bool) (t : List α) : trim p t <:+: t :=
  (List.rdropWhile_prefix p _).isInfix.trans (List.dropWhile_suffix p).isInfix

theorem trim_trim (p : α → Bool) (t : List α) : trim p (trim p t) = trim p t := by
  have hprefix : trim p t <+: t.dropWhile p := List.rdropWhile_prefix p _
  have hdrop : (trim p t).dropWhile p = trim p t := by
    cases h : trim p t with
    | nil => rfl
    | cons c u =>
      obtain ⟨v, hv⟩ := hprefix
      rw [h, List.cons_append] at hv
      have hc : ¬ p c := by
        have hhead := List.head?_dropWhile_not p t
        rw [← hv] at hhead
        simpa using hhead
      rw [List.dropWhile_cons_of_neg hc]
  calc trim p (trim p t) = (trim p t).rdropWhile p := by rw [trim, hdrop]
    _ = trim p t := List.rdropWhile_idempotent p _

theorem dropWhile_append_cons (hc : ¬ p c) (a b : List α) :
    (a ++ c :: b).dropWhile p = a.dropWhile p ++ c :: b := by
  rw [List.dropWhile_append, List.dropWhile_cons_of_neg hc]
  split_ifs with ha
  · rw [List.isEmpty_iff.mp ha]
    rfl
  · rfl

theorem rdropWhile_append_cons (hc : ¬ p c) (a b : List α) :
    (a ++ c :: b).rdropWhile p = a ++ c :: b.rdropWhile p := by
  have h := dropWhile_append_cons hc b.reverse a.reverse
  unfold List.rdropWhile
  rw [List.reverse_append, List.reverse_cons, List.append_assoc, List.singleton_append, h]
  simp

/-- Between two characters to keep nothing is lost. -/
theorem trim_append (hc : ¬ p c) (hd : ¬ p d) (a m b : List α) :
    trim p (a ++ c :: (m ++ d :: b)) = a.dropWhile p ++ c :: (m ++ d :: b.rdropWhile p) := by
  have h := rdropWhile_append_cons hd (a.dropWhile p ++ c :: m) b
  rw [trim, dropWhile_append_cons hc]
  simpa using h

theorem trim_append_cons (hc : ¬ p c) (a b : List α) :
    trim p (a ++ c :: b) = a.dropWhile p ++ c :: b.rdropWhile p := by
  rw [trim, dropWhile_append_cons hc, rdropWhile_append_cons hc]

end Trim

end Text
