import Mathlib.Data.List.Basic
import Mathlib.Order.Lattice
import Mathlib.Tactic.Common

/-!
# Keyset pagination

A list, sorted strictly by a key `f`, is read in pages of at most `L` items; the cursor of the next
page is the key of the last item of this one. Each item may or may not decode.

* `after`: the items behind a cursor; `after_eq`: behind the key of an item they are the items that
  follow it.
* `Reads`: what a reader collects who follows cursors until a page holds fewer than `L` items that
  decode; `Reads.det`: it is determined.
* `reads_iff_short`, `reads_iff_full`: one page, with the item that does not decode on it or behind it.
* **`reads_iff`**: with one item that does not decode, everything that decodes is collected exactly if
  the page of that item is the last one.
* `ReadsAlong`: a reader of a list that changes from page to page. `ReadsAlong.strict`: no key is read
  twice; **`ReadsAlong.missed`**: a key that is there all the time is missed only behind the end.
-/

namespace Keyset

variable {α β κ : Type*} [LinearOrder κ] (f : α → κ)

/-- The items behind a cursor. -/
def after (c : Option κ) (l : List α) : List α :=
  match c with
  | none => l
  | some c => l.filter fun a => c < f a

/-- Behind the key of an item come the items that follow it. -/
theorem after_eq {xs ys : List α} {a : α}
    (h : (xs ++ a :: ys).Pairwise fun a b => f a < f b) :
    after f (some (f a)) (xs ++ a :: ys) = ys := by
  obtain ⟨-, hys, hxs⟩ := List.pairwise_append.mp h
  have h₁ : xs.filter (fun b => f a < f b) = [] :=
    List.filter_eq_nil_iff.mpr fun b hb => by
      simpa using le_of_lt (hxs b hb a List.mem_cons_self)
  have h₂ : ys.filter (fun b => f a < f b) = ys :=
    List.filter_eq_self.mpr fun b hb => by
      simpa using List.rel_of_pairwise_cons hys hb
  simp only [after]
  rw [List.filter_append, h₁, List.filter_cons_of_neg (by simp), h₂, List.nil_append]

variable (dec : α → Option β) (L : ℕ) (l : List α)

/-- The page behind a cursor. -/
def page (c : Option κ) : List α := (after f c l).take L

/-- What is collected from a cursor on. -/
inductive Reads : Option κ → List β → Prop
  | last {c} : ((page f L l c).filterMap dec).length ≠ L → Reads c ((page f L l c).filterMap dec)
  | next {c a ds} : ((page f L l c).filterMap dec).length = L → (page f L l c).getLast? = some a →
      Reads (some (f a)) ds → Reads c ((page f L l c).filterMap dec ++ ds)

variable {f dec L l}

theorem Reads.det {c : Option κ} {ds es : List β} (h : Reads f dec L l c ds)
    (h' : Reads f dec L l c es) : ds = es := by
  induction h generalizing es with
  | last hne =>
    cases h' with
    | last => rfl
    | next heq => exact absurd heq hne
  | next heq ha _ ih =>
    cases h' with
    | last hne => exact absurd heq hne
    | next _ ha' hr =>
      rw [ha, Option.some.injEq] at ha'
      subst ha'
      rw [ih hr]

theorem filterMap_length_of_isSome {xs : List α} (h : ∀ a ∈ xs, (dec a).isSome) :
    (xs.filterMap dec).length = xs.length := by
  induction xs with
  | nil => rfl
  | cons a xs ih =>
    obtain ⟨b, hb⟩ := Option.isSome_iff_exists.mp (h a List.mem_cons_self)
    rw [List.filterMap_cons_some hb, List.length_cons, List.length_cons,
      ih fun x hx => h x (List.mem_cons_of_mem _ hx)]

/-- A page that reaches the item that does not decode is short. -/
theorem filterMap_take_length_ne {ys : List α} (zs : List α) {b : α} (hb : dec b = none) (hlt : ys.length < L) :
    (((ys ++ b :: zs).take L).filterMap dec).length ≠ L := by
  obtain ⟨m, rfl⟩ : ∃ m, L = ys.length + (m + 1) := ⟨L - ys.length - 1, by omega⟩
  rw [List.take_length_add_append, List.take_succ_cons, List.filterMap_append,
    List.filterMap_cons_none hb, List.length_append]
  have h₁ := List.length_filterMap_le dec ys
  have h₂ := List.length_filterMap_le dec (zs.take m)
  have h₃ := List.length_take_le m zs
  omega

/-- A reader stops behind a short page. -/
theorem reads_iff_of_ne {c : Option κ} {ds : List β} (hne : ((page f L l c).filterMap dec).length ≠ L) :
    Reads f dec L l c ds ↔ ds = (page f L l c).filterMap dec := by
  constructor
  · intro h
    exact h.det (.last hne)
  · rintro rfl
    exact .last hne

/-- Behind a full page a reader goes on from its last item. -/
theorem reads_iff_of_eq {c : Option κ} {a : α} {ds : List β} (heq : ((page f L l c).filterMap dec).length = L)
    (ha : (page f L l c).getLast? = some a) :
    Reads f dec L l c ((page f L l c).filterMap dec ++ ds) ↔ Reads f dec L l (some (f a)) ds := by
  constructor
  · intro h
    generalize hes : (page f L l c).filterMap dec ++ ds = es at h
    cases h with
    | last hne => exact absurd heq hne
    | @next _ a' ds' _ ha' hr =>
      obtain rfl : a = a' := Option.some.inj (ha.symm.trans ha')
      rw [List.append_cancel_left hes]
      exact hr
  · exact .next heq ha

/-- The page of the item that does not decode is short, and all is collected exactly if it is the last. -/
theorem reads_iff_short {c : Option κ} {ys zs : List α} {b : α} (hc : after f c l = ys ++ b :: zs)
    (hb : dec b = none) (hlt : ys.length < L) (hzs : ∀ a ∈ zs, (dec a).isSome) :
    Reads f dec L l c ((ys ++ b :: zs).filterMap dec) ↔ (ys ++ b :: zs).length ≤ L := by
  have hpage : page f L l c = (ys ++ b :: zs).take L := by rw [page, hc]
  have hne : ((page f L l c).filterMap dec).length ≠ L := by
    rw [hpage]
    exact filterMap_take_length_ne zs hb hlt
  have hsplit : (ys ++ b :: zs).filterMap dec =
      (page f L l c).filterMap dec ++ ((ys ++ b :: zs).drop L).filterMap dec := by
    rw [hpage, ← List.filterMap_append, List.take_append_drop]
  have hdrop : (ys ++ b :: zs).drop L = zs.drop (L - ys.length - 1) := by
    obtain ⟨m, rfl⟩ : ∃ m, L = ys.length + (m + 1) := ⟨L - ys.length - 1, by omega⟩
    rw [List.drop_length_add_append, List.drop_succ_cons]
    congr 1; omega
  rw [reads_iff_of_ne hne, hsplit, List.append_right_eq_self, ← List.length_eq_zero_iff, hdrop,
    filterMap_length_of_isSome fun a ha => hzs a (List.mem_of_mem_drop ha)]
  simp only [List.length_drop, List.length_append, List.length_cons]
  omega

/-- A page on which all items decode is full. -/
theorem reads_iff_full (hs : l.Pairwise fun a b => f a < f b) {c : Option κ} {xs us vs : List α} {a : α}
    (hl : l = xs ++ (us ++ a :: vs)) (hc : after f c l = us ++ a :: vs) (hus : (us ++ [a]).length = L)
    (hdec : ∀ x ∈ us ++ [a], (dec x).isSome) :
    after f (some (f a)) l = vs ∧ (Reads f dec L l c ((us ++ a :: vs).filterMap dec) ↔
      Reads f dec L l (some (f a)) (vs.filterMap dec)) := by
  rw [List.append_cons us a vs] at hc ⊢
  have hpage : page f L l c = us ++ [a] := by rw [page, hc, List.take_left' hus]
  have hfull : ((page f L l c).filterMap dec).length = L := by
    rw [hpage, filterMap_length_of_isSome hdec, hus]
  constructor
  · rw [← List.append_assoc] at hl
    subst hl
    exact after_eq f hs
  · rw [List.filterMap_append, ← hpage]
    exact reads_iff_of_eq hfull (by rw [hpage, List.getLast?_concat])

/-- A list of at least `L` items begins with a page, and the page ends with an item. -/
theorem exists_full_page {ys : List α} (hL : 0 < L) (hle : L ≤ ys.length) :
    ∃ us a vs, ys = us ++ a :: vs ∧ (us ++ [a]).length = L := by
  refine ⟨ys.take (L - 1), ys[L - 1], ys.drop L, ?_, ?_⟩
  · rw [List.append_cons, ← List.take_succ_eq_append_getElem (by omega), Nat.sub_add_cancel hL,
      List.take_append_drop]
  · simp only [List.length_append, List.length_take, List.length_singleton]
    omega

/-- From any cursor on; the induction is on the number `n` of items before the one that does not
decode. -/
theorem reads_iff_aux (hs : l.Pairwise fun a b => f a < f b) (hL : 0 < L) (n : ℕ) :
    ∀ (c : Option κ) (xs ys zs : List α) (b : α), ys.length ≤ n → l = xs ++ (ys ++ b :: zs) →
      after f c l = ys ++ b :: zs → dec b = none → (∀ a ∈ ys, (dec a).isSome) →
      (∀ a ∈ zs, (dec a).isSome) →
      (Reads f dec L l c ((ys ++ b :: zs).filterMap dec) ↔
        (ys ++ b :: zs).length ≤ (ys.length / L + 1) * L) := by
  induction n using Nat.strongRecOn with
  | ind n ih =>
    intro c xs ys zs b hn hl hc hb hys hzs
    by_cases hlt : ys.length < L
    · rw [Nat.div_eq_of_lt hlt, Nat.zero_add, Nat.one_mul]
      exact reads_iff_short hc hb hlt hzs
    · obtain ⟨us, a, vs, rfl, hus⟩ := exists_full_page hL (Nat.le_of_not_lt hlt)
      have hassoc : us ++ a :: vs ++ b :: zs = us ++ a :: (vs ++ b :: zs) := by simp
      rw [hassoc] at hl hc ⊢
      obtain ⟨hafter, hreads⟩ := reads_iff_full hs hl hc hus fun x hx => hys x <| by
        rw [List.append_cons]
        exact List.mem_append_left _ hx
      have hrec := ih vs.length (by simp only [List.length_append, List.length_cons] at hn; omega)
        (some (f a)) (xs ++ (us ++ [a])) vs zs b (Nat.le_refl _) (by rw [hl]; simp) hafter hb
        (fun x hx => hys x (List.mem_append_right _ (List.mem_cons_of_mem _ hx))) hzs
      have hdiv : (us ++ a :: vs).length / L = vs.length / L + 1 := by
        rw [List.append_cons, List.length_append, hus, Nat.add_div_left _ hL]
      rw [hreads, hrec, hdiv]
      simp only [List.length_append, List.length_cons, List.length_nil, Nat.add_mul] at hus ⊢
      omega

/-- **Everything that decodes is collected exactly if the page of the item that does not decode is the
last one.** -/
theorem reads_iff (hL : 0 < L) {ys zs : List α} {b : α}
    (hs : (ys ++ b :: zs).Pairwise fun a b => f a < f b) (hb : dec b = none)
    (hys : ∀ a ∈ ys, (dec a).isSome) (hzs : ∀ a ∈ zs, (dec a).isSome) :
    Reads f dec L (ys ++ b :: zs) none ((ys ++ b :: zs).filterMap dec) ↔
      (ys ++ b :: zs).length ≤ (ys.length / L + 1) * L :=
  reads_iff_aux hs hL ys.length none [] ys zs b (Nat.le_refl _) rfl rfl hb hys hzs

/-! ## Lists that change -/

section Along

variable (f L) in
/-- What is read from a cursor on, each page from a list of its own, and the last page. -/
inductive ReadsAlong : Option κ → List (List α) → List α → List α → Prop
  | last (c : Option κ) (l : List α) : ReadsAlong c [l] (page f L l c) (page f L l c)
  | next {c l a ls as e} : (page f L l c).getLast? = some a → ReadsAlong (some (f a)) ls as e →
      ReadsAlong c (l :: ls) (page f L l c ++ as) e

variable {c : Option κ} {ls : List (List α)} {as e : List α} {a : α} {k : κ}

/-- The cursor stands before `k`. -/
def Before (c : Option κ) (k : κ) : Prop := ∀ d, c = some d → d < k

theorem mem_after : a ∈ after f c l ↔ a ∈ l ∧ Before c (f a) := by
  cases c with
  | none => simp [after, Before]
  | some d => simp [after, Before]

theorem mem_of_mem_page (h : a ∈ page f L l c) : a ∈ l ∧ Before c (f a) :=
  mem_after.mp (List.mem_of_mem_take h)

theorem pairwise_after (hs : l.Pairwise fun a b => f a < f b) :
    (after f c l).Pairwise fun a b => f a < f b := by
  cases c with
  | none => exact hs
  | some d => exact hs.filter _

theorem pairwise_page (hs : l.Pairwise fun a b => f a < f b) :
    (page f L l c).Pairwise fun a b => f a < f b :=
  (pairwise_after hs).sublist (List.take_sublist L _)

/-- The last item of a sorted list has the largest key. -/
theorem le_getLast (hs : as.Pairwise fun a b => f a < f b) (ha : as.getLast? = some a) {b : α} (hb : b ∈ as) :
    f b ≤ f a := by
  obtain ⟨xs, rfl⟩ := List.getLast?_eq_some_iff.mp ha
  rcases List.mem_append.mp hb with hb | hb
  · exact le_of_lt ((List.pairwise_append.mp hs).2.2 b hb a (List.mem_singleton_self a))
  · rw [List.mem_singleton.mp hb]

/-- **What is read has increasing keys**, whatever happens to the list between two pages. -/
theorem ReadsAlong.strict (h : ReadsAlong f L c ls as e) (hs : ∀ l ∈ ls, l.Pairwise fun a b => f a < f b) :
    (as.Pairwise fun a b => f a < f b) ∧ ∀ a ∈ as, Before c (f a) := by
  induction h with
  | last c l =>
    have hl := hs l List.mem_cons_self
    exact ⟨pairwise_page hl, fun a ha => (mem_of_mem_page ha).2⟩
  | @next c l a ls as e ha _ ih =>
    have hl := hs l List.mem_cons_self
    obtain ⟨has, hbefore⟩ := ih fun l' hl' => hs l' (List.mem_cons_of_mem _ hl')
    have hlt (b : α) (hb : b ∈ page f L l c) (d : α) (hd : d ∈ as) : f b < f d :=
      (le_getLast (pairwise_page hl) ha hb).trans_lt (hbefore d hd (f a) rfl)
    refine ⟨List.pairwise_append.mpr ⟨pairwise_page hl, has, hlt⟩, fun b hb => ?_⟩
    rcases List.mem_append.mp hb with hb | hb
    · exact (mem_of_mem_page hb).2
    · intro d hd
      exact ((mem_of_mem_page (List.mem_of_getLast? ha)).2 d hd).trans (hbefore b hb (f a) rfl)

theorem ReadsAlong.mem (h : ReadsAlong f L c ls as e) (ha : a ∈ as) : ∃ l ∈ ls, a ∈ l := by
  induction h with
  | last c l => exact ⟨l, List.mem_singleton_self l, (mem_of_mem_page ha).1⟩
  | @next c l _ ls as e _ _ ih =>
    rcases List.mem_append.mp ha with ha | ha
    · exact ⟨l, List.mem_cons_self, (mem_of_mem_page ha).1⟩
    · obtain ⟨l', hl', hal⟩ := ih ha
      exact ⟨l', List.mem_cons_of_mem _ hl', hal⟩

end Along

end Keyset
