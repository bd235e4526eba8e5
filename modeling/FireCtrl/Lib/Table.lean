import Mathlib.Data.List.Nodup
import Mathlib.Data.List.Perm.Basic
import Mathlib.Data.List.Sort
import Mathlib.Order.Defs.LinearOrder

/-!
# Tables with a primary key

A `KTable key` is a list of rows whose keys are pairwise distinct: the key constraint is a field,
so no operation can build a table that breaks it.

* `lookup`: the row of a key; `insert?`: insertion, which fails on a key that is taken;
  `update p f`: rewrite the rows that `p` selects, where `f` keeps the key.
* `lookup_update`, `lookup_insert?`: the row of a key after each operation, so that a fact about a
  table is a fact about its rows one by one.
* `orderBy`: the rows a predicate selects, sorted by a key; `head?_orderBy` is its least row.
-/

variable {α κ : Type} {key : α → κ}

/-- A table of rows with pairwise distinct keys. -/
structure KTable (key : α → κ) where
  rows : List α
  nodup : (rows.map key).Nodup

namespace KTable

/-- The table without rows. -/
def empty : KTable key := ⟨[], List.nodup_nil⟩

instance : Membership α (KTable key) := ⟨fun t a => a ∈ t.rows⟩

@[simp] theorem mem_rows {t : KTable key} {a : α} : a ∈ t.rows ↔ a ∈ t := Iff.rfl

@[simp] theorem not_mem_empty (a : α) : a ∉ (empty : KTable key) := List.not_mem_nil

/-- Two rows with one key are the same row. -/
theorem eq_of_key_eq {t : KTable key} {a b : α} (ha : a ∈ t) (hb : b ∈ t) (h : key a = key b) :
    a = b :=
  List.inj_on_of_nodup_map t.nodup ha hb h

section Lookup

variable [DecidableEq κ]

/-- The row of key `k`. -/
def lookup (t : KTable key) (k : κ) : Option α := t.rows.find? fun a => key a = k

theorem lookup_eq_some {t : KTable key} {k : κ} {a : α} :
    t.lookup k = some a ↔ a ∈ t ∧ key a = k := by
  constructor
  · intro h
    exact ⟨List.mem_of_find?_eq_some h, by simpa using List.find?_some h⟩
  · rintro ⟨ha, rfl⟩
    rcases h : t.lookup (key a) with _ | b
    · have := List.find?_eq_none.mp h a ha
      simp at this
    · have hb : b ∈ t := List.mem_of_find?_eq_some h
      have hk : key b = key a := by simpa using List.find?_some h
      rw [eq_of_key_eq hb ha hk]

theorem lookup_eq_none {t : KTable key} {k : κ} : t.lookup k = none ↔ ∀ a ∈ t, key a ≠ k := by
  simp [lookup, List.find?_eq_none]

theorem lookup_key {t : KTable key} {a : α} (ha : a ∈ t) : t.lookup (key a) = some a :=
  lookup_eq_some.mpr ⟨ha, rfl⟩

theorem mem_of_lookup {t : KTable key} {k : κ} {a : α} (h : t.lookup k = some a) : a ∈ t :=
  (lookup_eq_some.mp h).1

theorem key_of_lookup {t : KTable key} {k : κ} {a : α} (h : t.lookup k = some a) : key a = k :=
  (lookup_eq_some.mp h).2

/-- What holds of the row with a key holds of all that its lookups find. -/
theorem forall_lookup {t : KTable key} {k : κ} {a : α} {P : α → Prop} (h : t.lookup k = some a)
    (hp : P a) : ∀ b, t.lookup k = some b → P b := by
  intro b hb
  rw [h, Option.some.injEq] at hb
  exact hb ▸ hp

/-- Insert a row; `none` when its key is taken. -/
def insert? (t : KTable key) (a : α) : Option (KTable key) :=
  if h : key a ∈ t.rows.map key then none
  else some ⟨t.rows ++ [a], by
    rw [List.map_append, List.map_singleton]
    exact t.nodup.append (List.nodup_singleton _) (List.disjoint_singleton.mpr h)⟩

theorem insert?_eq_some {t u : KTable key} {a : α} :
    t.insert? a = some u ↔ t.lookup (key a) = none ∧ u.rows = t.rows ++ [a] := by
  have hl : t.lookup (key a) = none ↔ key a ∉ t.rows.map key := by
    simp [lookup_eq_none]
  unfold insert?
  split_ifs with h
  · simp [hl, h]
  · simp only [Option.some.injEq, hl, h, not_false_eq_true, true_and]
    constructor
    · rintro rfl; rfl
    · intro hu; cases u; simp only at hu; subst hu; rfl

theorem lookup_insert? {t u : KTable key} {a : α} (h : t.insert? a = some u) (k : κ) :
    u.lookup k = if key a = k then some a else t.lookup k := by
  obtain ⟨hn, hu⟩ := insert?_eq_some.mp h
  unfold lookup at hn ⊢
  rw [hu, List.find?_append]
  split_ifs with hk
  · subst hk; simp [hn]
  · cases hl : t.rows.find? fun a => key a = k <;> simp [hk]

theorem lookup_insert?_of_some {t u : KTable key} {a b : α} {k : κ} (h : t.insert? a = some u)
    (hb : t.lookup k = some b) : u.lookup k = some b := by
  rw [lookup_insert? h]
  split_ifs with hk
  · rw [← hk, (insert?_eq_some.mp h).1] at hb; cases hb
  · exact hb

end Lookup

/-! ## Updates -/

/-- Rewrite the rows that `p` selects. -/
def update (t : KTable key) (p : α → Bool) (f : α → α) (hf : ∀ a, key (f a) = key a) :
    KTable key where
  rows := t.rows.map fun a => if p a then f a else a
  nodup := by
    have : (t.rows.map fun a => if p a then f a else a).map key = t.rows.map key := by
      rw [List.map_map]
      exact List.map_congr_left fun a _ => by
        simp only [Function.comp_apply]; split_ifs <;> simp [hf]
    rw [this]
    exact t.nodup

section Update

variable {p : α → Bool} {f : α → α} {hf : ∀ a, key (f a) = key a}

theorem mem_update {t : KTable key} {b : α} :
    b ∈ t.update p f hf ↔ ∃ a ∈ t, (if p a then f a else a) = b := by
  change b ∈ t.rows.map _ ↔ _
  simp

theorem lookup_update [DecidableEq κ] (t : KTable key) (k : κ) :
    (t.update p f hf).lookup k = (t.lookup k).map fun a => if p a then f a else a := by
  rcases h : t.lookup k with _ | a
  · rw [Option.map_none, lookup_eq_none]
    intro b hb
    obtain ⟨a, ha, rfl⟩ := mem_update.mp hb
    have := lookup_eq_none.mp h a ha
    split_ifs
    · rwa [hf]
    · exact this
  · obtain ⟨ha, hk⟩ := lookup_eq_some.mp h
    rw [Option.map_some, lookup_eq_some]
    refine ⟨mem_update.mpr ⟨a, ha, rfl⟩, ?_⟩
    split_ifs
    · rw [hf, hk]
    · exact hk

/-- An update that changes no row changes nothing. -/
theorem update_eq_self {t : KTable key} (h : ∀ a ∈ t, p a = true → f a = a) : t.update p f hf = t := by
  have hrows : t.rows.map (fun a => if p a then f a else a) = t.rows := by
    refine (List.map_congr_left fun a ha => ?_).trans (List.map_id _)
    split_ifs with hp
    · exact h a ha hp
    · rfl
  cases t
  simp only [update, mk.injEq] at hrows ⊢
  exact hrows

end Update

/-! ## Selections -/

/-- The keys of the rows that `p` selects: the rows an update with `p` affects. -/
def keysWhere (t : KTable key) (p : α → Bool) : List κ := (t.rows.filter p).map key

theorem mem_keysWhere {t : KTable key} {p : α → Bool} {k : κ} :
    k ∈ t.keysWhere p ↔ ∃ a ∈ t, p a = true ∧ key a = k := by
  simp [keysWhere, and_assoc]

theorem mem_keysWhere_iff_lookup [DecidableEq κ] {t : KTable key} {p : α → Bool} {k : κ} :
    k ∈ t.keysWhere p ↔ ∃ a, t.lookup k = some a ∧ p a = true := by
  rw [mem_keysWhere]
  constructor
  · rintro ⟨a, ha, hp, rfl⟩; exact ⟨a, lookup_key ha, hp⟩
  · rintro ⟨a, h, hp⟩; exact ⟨a, mem_of_lookup h, hp, key_of_lookup h⟩

/-- The number of rows that `p` selects. -/
def count (t : KTable key) (p : α → Bool) : ℕ := t.rows.countP p

theorem count_insert? [DecidableEq κ] {t u : KTable key} {a : α} (h : t.insert? a = some u)
    (p : α → Bool) : u.count p = t.count p + if p a then 1 else 0 := by
  unfold count
  rw [(insert?_eq_some.mp h).2, List.countP_append, List.countP_singleton]

theorem count_update {t : KTable key} {p q : α → Bool} {f : α → α}
    (hf : ∀ a, key (f a) = key a) (h : ∀ a ∈ t, p a = true → q (f a) = q a) :
    (t.update p f hf).count q = t.count q := by
  unfold count
  change (t.rows.map _).countP q = _
  rw [List.countP_map]
  refine List.countP_congr fun a ha => ?_
  simp only [Function.comp_apply]
  split_ifs with hp
  · rw [h a ha hp]
  · rfl

/-- The counts of predicates that agree on every row but one differ by what they say about that one. -/
theorem count_off {t : KTable key} {p q : α → Bool} {a : α} (ha : a ∈ t)
    (h : ∀ b ∈ t, b ≠ a → p b = q b) :
    t.count p + (if q a then 1 else 0) = t.count q + if p a then 1 else 0 := by
  have hnd : t.rows.Nodup := t.nodup.of_map key
  obtain ⟨xs, ys, hsplit⟩ := List.append_of_mem ha
  rw [hsplit] at hnd
  have hne : ∀ b ∈ xs ++ ys, b ≠ a := by
    rintro b hb rfl
    exact (List.nodup_middle.mp hnd).notMem hb
  have hxs : xs.countP p = xs.countP q := List.countP_congr fun b hb => by
    rw [h b (by rw [← mem_rows, hsplit]; simp [hb]) (hne b (by simp [hb]))]
  have hys : ys.countP p = ys.countP q := List.countP_congr fun b hb => by
    rw [h b (by rw [← mem_rows, hsplit]; simp [hb]) (hne b (by simp [hb]))]
  unfold count
  rw [hsplit, List.countP_append, List.countP_append, List.countP_cons, List.countP_cons, hxs, hys]
  omega
section OrderBy

variable {β : Type*} [LinearOrder β] (f : α → β)

/-- The rows that `p` selects, in ascending order of `f`. -/
def orderBy (t : KTable key) (p : α → Bool) : List α :=
  (t.rows.filter p).insertionSort fun a b => f a ≤ f b

theorem mem_orderBy {t : KTable key} {p : α → Bool} {a : α} :
    a ∈ t.orderBy f p ↔ a ∈ t ∧ p a = true := by
  simp [orderBy]

theorem orderBy_perm (t : KTable key) (p : α → Bool) :
    (t.orderBy f p).Perm (t.rows.filter p) := List.perm_insertionSort _ _

theorem nodup_orderBy (t : KTable key) (p : α → Bool) : ((t.orderBy f p).map key).Nodup :=
  ((t.orderBy_perm f p).map key).nodup_iff.mpr
    (t.nodup.sublist (List.filter_sublist.map key))

theorem countP_orderBy (t : KTable key) (p q : α → Bool) :
    (t.orderBy f p).countP q = t.count fun a => p a && q a := by
  rw [(t.orderBy_perm f p).countP_eq, List.countP_filter]
  exact List.countP_congr fun a _ => by rw [Bool.and_comm]

theorem length_orderBy (t : KTable key) (p : α → Bool) : (t.orderBy f p).length = t.count p := by
  rw [(t.orderBy_perm f p).length_eq, ← List.countP_eq_length_filter]
  rfl

theorem orderBy_sorted (t : KTable key) (p : α → Bool) :
    (t.orderBy f p).Pairwise fun a b => f a ≤ f b :=
  have : Std.Total fun a b => f a ≤ f b := ⟨fun a b => le_total (f a) (f b)⟩
  have : IsTrans α fun a b => f a ≤ f b := ⟨fun _ _ _ => le_trans⟩
  List.pairwise_insertionSort _ _

/-- The first row of a selection is its least. -/
theorem head?_orderBy {t : KTable key} {p : α → Bool} {a : α}
    (h : (t.orderBy f p).head? = some a) :
    a ∈ t ∧ p a = true ∧ ∀ b ∈ t, p b = true → f a ≤ f b := by
  have hs := t.orderBy_sorted f p
  rcases hl : t.orderBy f p with _ | ⟨c, l⟩
  · rw [hl] at h; cases h
  · rw [hl] at h hs
    obtain rfl : c = a := by simpa using h
    have hmem : ∀ b, b ∈ t ∧ p b = true ↔ b ∈ c :: l := fun b => by rw [← hl, mem_orderBy]
    obtain ⟨hc, hp⟩ := (hmem c).mpr List.mem_cons_self
    refine ⟨hc, hp, fun b hb hpb => ?_⟩
    rcases List.mem_cons.mp ((hmem b).mp ⟨hb, hpb⟩) with rfl | hb
    · exact le_rfl
    · exact List.rel_of_pairwise_cons hs hb

/-- Where the order tells the selected rows apart, the first one is the only least one. -/
theorem head?_orderBy_iff {t : KTable key} {p : α → Bool} {a : α}
    (hf : ∀ a ∈ t, ∀ b ∈ t, p a = true → p b = true → f a = f b → a = b) :
    (t.orderBy f p).head? = some a ↔ a ∈ t ∧ p a = true ∧ ∀ b ∈ t, p b = true → f a ≤ f b := by
  refine ⟨head?_orderBy f, ?_⟩
  rintro ⟨ha, hp, hle⟩
  rcases h : (t.orderBy f p).head? with _ | c
  · have hmem := (mem_orderBy f).mpr ⟨ha, hp⟩
    rw [List.head?_eq_none_iff.mp h] at hmem
    cases hmem
  · obtain ⟨hc, hpc, hlec⟩ := head?_orderBy f h
    rw [hf c hc a ha hpc hp (le_antisymm (hlec a ha hp) (hle c hc hpc))]

/-- A selection from an ordered selection. -/
theorem filter_orderBy {t : KTable key} {p q : α → Bool}
    (hf : ∀ a ∈ t, ∀ b ∈ t, f a = f b → a = b) :
    (t.orderBy f p).filter q = t.orderBy f fun a => p a && q a := by
  have hperm : ((t.orderBy f p).filter q).Perm (t.orderBy f fun a => p a && q a) := by
    refine ((t.orderBy_perm f p).filter q).trans ?_
    rw [List.filter_filter]
    refine List.Perm.trans (.of_eq ?_) (t.orderBy_perm f _).symm
    exact List.filter_congr fun a _ => Bool.and_comm _ _
  refine hperm.eq_of_pairwise (fun a b ha hb hab hba => ?_)
    ((t.orderBy_sorted f p).filter q) (t.orderBy_sorted f _)
  exact hf a ((mem_orderBy f).mp (List.mem_of_mem_filter ha)).1 b ((mem_orderBy f).mp hb).1
    (le_antisymm hab hba)

/-- Distinct keys make the order strict. -/
theorem orderBy_strict {t : KTable key} {p : α → Bool}
    (hf : ∀ a ∈ t, ∀ b ∈ t, f a = f b → a = b) :
    (t.orderBy f p).Pairwise fun a b => f a < f b := by
  have hn : (t.orderBy f p).Nodup := (t.nodup_orderBy f p).of_map
  refine ((t.orderBy_sorted f p).and hn).imp_of_mem fun {a b} ha hb h => ?_
  refine lt_of_le_of_ne h.1 fun heq => h.2 ?_
  exact hf a ((mem_orderBy f).mp ha).1 b ((mem_orderBy f).mp hb).1 heq

/-- An update that takes its rows out of a selection. -/
theorem orderBy_update {t : KTable key} {p q : α → Bool} {g : α → α} (hg : ∀ a, key (g a) = key a)
    (h : ∀ a ∈ t, q a = true → p (g a) = false) :
    (t.update q g hg).orderBy f p = t.orderBy f fun a => p a && !q a := by
  have hrows : (t.update q g hg).rows.filter p = t.rows.filter fun a => p a && !q a := by
    rw [update, List.filter_map, List.filter_congr (q := fun a => p a && !q a)]
    · refine (List.map_congr_left fun a ha => ?_).trans (List.map_id _)
      have hq : q a = false := by simpa using (Bool.and_eq_true_iff.mp (List.mem_filter.mp ha).2).2
      simp [hq]
    · intro a ha
      rw [Function.comp_apply]
      cases hq : q a with
      | true => simp [h a ha hq]
      | false => simp
  rw [orderBy, hrows, orderBy]

/-- What is left of a selection without its first row. -/
theorem orderBy_tail [DecidableEq κ] {t : KTable key} {p : α → Bool} {a : α} {l : List α}
    (hf : ∀ a ∈ t, ∀ b ∈ t, f a = f b → a = b) (h : t.orderBy f p = a :: l) :
    (t.orderBy f fun b => p b && !decide (key b = key a)) = l := by
  have hn := t.nodup_orderBy f p
  rw [h, List.map_cons, List.nodup_cons] at hn
  rw [← filter_orderBy f hf, h, List.filter_cons_of_neg (by simp), List.filter_eq_self]
  intro b hb
  have hne : key b ≠ key a := fun heq => hn.1 (heq ▸ List.mem_map_of_mem hb)
  simpa using hne

end OrderBy

end KTable
