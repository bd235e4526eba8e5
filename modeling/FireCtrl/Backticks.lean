import FireCtrl.JsonText

/-!
# Backticks in JSON

* `ticks`: the backticks in a value. `tickUnits`: those that a text can be read as.
* `tickUnits_write`: a value is written with the backticks that it has.
* **`ticks_le_of_fromStr`**: reading a text makes no more than those that it can be read as.
-/

namespace FireCtrl

open Text

def tick : Char := '\x60'

mutual

/-- The backticks in the strings and keys of a value. -/
def ticks : Json → ℕ
  | .str s => s.toList.count tick
  | .arr xs => ticksAll xs
  | .obj kvs => ticksEntries kvs
  | .null | .bool _ | .num _ => 0

def ticksAll : List Json → ℕ
  | [] => 0
  | v :: vs => ticks v + ticksAll vs

def ticksEntries : List (String × Json) → ℕ
  | [] => 0
  | (k, v) :: kvs => k.toList.count tick + ticks v + ticksEntries kvs

end

def entryTicks (kv : String × Json) : ℕ := kv.1.toList.count tick + ticks kv.2

theorem ticks_arr (xs : List Json) : ticks (.arr xs) = (xs.map ticks).sum := by
  rw [ticks]
  induction xs with
  | nil => rfl
  | cons x xs ih => rw [ticksAll, ih, List.map_cons, List.sum_cons]

theorem ticks_obj (kvs : List (String × Json)) : ticks (.obj kvs) = (kvs.map entryTicks).sum := by
  rw [ticks]
  induction kvs with
  | nil => rfl
  | cons kv kvs ih => rw [ticksEntries, ih, List.map_cons, List.sum_cons, entryTicks]

/-- Whether a backslash makes a backtick of what follows it. -/
def escapedTick (t : List Char) : ℕ := if ['u', '0', '0', '6', '0'] <+: t then 1 else 0

/-- The backticks that a text can be read as: those in it, and escapes. A backslash is taken together
with the character after it. -/
def tickUnits : List Char → ℕ
  | [] => 0
  | [c] => if c = tick then 1 else 0
  | c :: d :: t =>
    if c = '\\' then escapedTick (d :: t) + tickUnits t
    else (if c = tick then 1 else 0) + tickUnits (d :: t)

section Ticks

variable {N : NumberText} {v : Json} {n : ℕ} {t r a b w : List Char} {c d : Char}

theorem tickUnits_cons (hc : c ≠ '\\') (t : List Char) :
    tickUnits (c :: t) = (if c = tick then 1 else 0) + tickUnits t := by
  cases t with
  | nil => simp [tickUnits]
  | cons d t => rw [tickUnits, if_neg hc]

theorem tickUnits_plain (hc : c ≠ '\\') (hc' : c ≠ tick) (t : List Char) : tickUnits (c :: t) = tickUnits t := by
  rw [tickUnits_cons hc, if_neg hc', Nat.zero_add]

theorem tickUnits_escape (d : Char) (t : List Char) :
    tickUnits ('\\' :: d :: t) = escapedTick (d :: t) + tickUnits t := by
  rw [tickUnits, if_pos rfl]

theorem escapedTick_le_append (a b : List Char) : escapedTick a ≤ escapedTick (a ++ b) := by
  unfold escapedTick
  split_ifs with h₁ h₂
  · exact le_refl _
  · exact absurd (h₁.trans (List.prefix_append a b)) h₂
  all_goals exact Nat.zero_le _

theorem escapedTick_of_ne (hd : d ≠ 'u') (t : List Char) : escapedTick (d :: t) = 0 := by
  refine if_neg fun h => ?_
  exact hd (List.cons_prefix_cons.mp h).1.symm

theorem tickUnits_append_plain (hw : ∀ c ∈ w, c ≠ '\\' ∧ c ≠ tick) (b : List Char) :
    tickUnits (w ++ b) = tickUnits b := by
  induction w with
  | nil => rfl
  | cons c w ih =>
    have hc := hw c List.mem_cons_self
    rw [List.cons_append, tickUnits_plain hc.1 hc.2, ih fun d hd => hw d (List.mem_cons_of_mem c hd)]

/-- A part of a text at its beginning. -/
theorem tickUnits_le_append (a b : List Char) : tickUnits a ≤ tickUnits (a ++ b) := by
  fun_induction tickUnits a with
  | case1 => exact Nat.zero_le _
  | case2 =>
    have htick : tick ≠ '\\' := by decide
    rw [List.singleton_append, tickUnits_cons htick, if_pos rfl]
    omega
  | case3 => exact Nat.zero_le _
  | case4 d t ih =>
    rw [List.cons_append, List.cons_append, tickUnits_escape]
    have hunit := escapedTick_le_append (d :: t) b
    rw [List.cons_append] at hunit
    omega
  | case5 c d t hc ih =>
    rw [List.cons_append, tickUnits_cons hc]
    omega

/-- Two characters that are not backslashes: what is in front of them and what is behind them is read
apart, and the second one is read as it is. -/
theorem tickUnits_append_two (hc : c ≠ '\\') (hd : d ≠ '\\') (a b : List Char) :
    tickUnits a + (if d = tick then 1 else 0) + tickUnits b ≤ tickUnits (a ++ c :: d :: b) := by
  have hpair : tickUnits (c :: d :: b) =
      (if c = tick then 1 else 0) + ((if d = tick then 1 else 0) + tickUnits b) := by
    rw [tickUnits_cons hc, tickUnits_cons hd]
  fun_induction tickUnits a with
  | case1 =>
    rw [List.nil_append]
    omega
  | case2 =>
    have htick : tick ≠ '\\' := by decide
    rw [List.singleton_append, tickUnits_cons htick, if_pos rfl]
    omega
  | case3 e he =>
    by_cases hslash : e = '\\'
    · subst hslash
      rw [List.singleton_append, tickUnits_escape, tickUnits_cons hd]
      omega
    · rw [List.singleton_append, tickUnits_cons hslash]
      omega
  | case4 e t ih =>
    rw [List.cons_append, List.cons_append, tickUnits_escape]
    have hunit := escapedTick_le_append (e :: t) (c :: d :: b)
    rw [List.cons_append] at hunit
    omega
  | case5 e f t he ih =>
    rw [List.cons_append, tickUnits_cons he]
    omega

/-! ## Writing -/

theorem escapeChar_cases (c : Char) :
    (∃ d, escapeChar c = ['\\', d] ∧ d ≠ 'u' ∧ c ≠ tick) ∨
      (escapeChar c = '\\' :: 'u' :: Uuid.nibbles 4 c.toNat ∧ c.toNat < 0x20) ∨
      escapeChar c = [c] ∧ c ≠ '\\' := by
  unfold escapeChar
  split_ifs with h₁ h₂ h₃ h₄ h₅ h₆ h₇ h₈
  · exact .inl ⟨'"', rfl, by decide, by subst h₁; decide⟩
  · exact .inl ⟨'\\', rfl, by decide, by subst h₂; decide⟩
  · exact .inl ⟨'b', rfl, by decide, by subst h₃; decide⟩
  · exact .inl ⟨'t', rfl, by decide, by subst h₄; decide⟩
  · exact .inl ⟨'n', rfl, by decide, by subst h₅; decide⟩
  · exact .inl ⟨'f', rfl, by decide, by subst h₆; decide⟩
  · exact .inl ⟨'r', rfl, by decide, by subst h₇; decide⟩
  · exact .inr (.inl ⟨rfl, h₈⟩)
  · exact .inr (.inr ⟨rfl, h₂⟩)

theorem nibbles_plain (k n : ℕ) : ∀ c ∈ Uuid.nibbles k n, c ≠ '\\' ∧ c ≠ tick := by
  intro c hc
  have hdigits : ∀ d < 16, Nat.digitChar d ≠ '\\' ∧ Nat.digitChar d ≠ tick := by decide
  obtain ⟨d, hd, rfl⟩ := Uuid.mem_nibbles hc
  exact hdigits d hd

/-- No control character is written as a backtick is escaped. -/
theorem escapedTick_nibbles (hn : n < 0x20) (b : List Char) :
    escapedTick ('u' :: (Uuid.nibbles 4 n ++ b)) = 0 := by
  refine if_neg fun h => ?_
  simp only [Uuid.nibbles, List.nil_append, List.cons_append, List.cons_prefix_cons] at h
  have hdigit : n / 16 % 16 = 0 ∨ n / 16 % 16 = 1 := by omega
  rcases hdigit with hdigit | hdigit
  all_goals
    rw [hdigit] at h
    exact absurd h.2.2.2.1 (by decide)

theorem tickUnits_escapeChar (c : Char) (b : List Char) :
    tickUnits (escapeChar c ++ b) = (if c = tick then 1 else 0) + tickUnits b := by
  rcases escapeChar_cases c with ⟨d, heq, hd, hc⟩ | ⟨heq, hlt⟩ | ⟨heq, hc⟩
  · rw [heq, List.cons_append, List.singleton_append, tickUnits_escape, escapedTick_of_ne hd, if_neg hc]
  · have hc : c ≠ tick := by
      rintro rfl
      exact absurd hlt (by decide)
    rw [heq, List.cons_append, List.cons_append, tickUnits_escape, escapedTick_nibbles hlt,
      tickUnits_append_plain (nibbles_plain _ _), if_neg hc]
  · rw [heq, List.singleton_append, tickUnits_cons hc]

theorem tickUnits_writeString (s : String) (b : List Char) :
    tickUnits (writeString s ++ b) = s.toList.count tick + tickUnits b := by
  have hchars (l : List Char) (b : List Char) :
      tickUnits (l.flatMap escapeChar ++ b) = l.count tick + tickUnits b := by
    induction l with
    | nil => simp
    | cons c l ih =>
      rw [List.flatMap_cons, List.append_assoc, tickUnits_escapeChar, ih, List.count_cons]
      simp only [beq_iff_eq]
      omega
  rw [writeString, List.cons_append, List.append_assoc, tickUnits_plain (by decide) (by decide), hchars,
    List.singleton_append, tickUnits_plain (by decide) (by decide)]

/-- The text of a sequence has the backticks of its items. -/
theorem tickUnits_itemsText {β : Type} {text : β → List Char} {f : β → ℕ} {xs : List β}
    (hd : d ≠ '\\' ∧ d ≠ tick) (h : ∀ x ∈ xs, ∀ b, tickUnits (text x ++ b) = f x + tickUnits b)
    (b : List Char) :
    tickUnits (itemsText ',' d (xs.map text) ++ b) = (xs.map f).sum + tickUnits b := by
  have hmore (ys : List β) (hys : ∀ x ∈ ys, x ∈ xs) :
      tickUnits (moreText ',' d (ys.map text) ++ b) = (ys.map f).sum + tickUnits b := by
    induction ys with
    | nil =>
      rw [List.map_nil, moreText, List.singleton_append, tickUnits_plain hd.1 hd.2]
      simp
    | cons y ys ih =>
      rw [List.map_cons, moreText, List.cons_append, List.append_assoc, tickUnits_plain (by decide) (by decide),
        h y (hys y List.mem_cons_self), ih fun x hx => hys x (List.mem_cons_of_mem y hx), List.map_cons,
        List.sum_cons, Nat.add_assoc]
  cases xs with
  | nil =>
    rw [List.map_nil, itemsText, List.singleton_append, tickUnits_plain hd.1 hd.2]
    simp
  | cons x xs =>
    rw [List.map_cons, itemsText, List.append_assoc, h x List.mem_cons_self,
      hmore xs fun y hy => List.mem_cons_of_mem x hy, List.map_cons, List.sum_cons, Nat.add_assoc]

theorem plain_of_isNumeral (hc : isNumeral c) : c ≠ '\\' ∧ c ≠ tick := by
  constructor
  all_goals
    rintro rfl
    revert hc
    decide

/-- A value is written with the backticks that it has. -/
theorem tickUnits_write (hv : v.WellFormed) (b : List Char) :
    tickUnits (write N v ++ b) = ticks v + tickUnits b := by
  induction hv generalizing b with
  | null =>
    rw [write, tickUnits_append_plain (by simp [tick])]
    simp [ticks]
  | bool x =>
    cases x
    · rw [write, tickUnits_append_plain (by simp [tick])]
      simp [ticks]
    · rw [write, tickUnits_append_plain (by simp [tick])]
      simp [ticks]
  | num h =>
    rw [write, tickUnits_append_plain fun c hc => plain_of_isNumeral (N.isNumeral_write _ h c hc)]
    simp [ticks]
  | str s => rw [write, tickUnits_writeString, ticks]
  | arr h ih =>
    rw [write_arr, List.cons_append, tickUnits_plain (by decide) (by decide),
      tickUnits_itemsText (by decide) ih, ticks_arr]
  | @obj kvs hkeys h ih =>
    have hentry : ∀ kv ∈ kvs, ∀ b, tickUnits (writeEntry N kv ++ b) = entryTicks kv + tickUnits b := by
      intro kv hkv b
      rw [writeEntry, List.append_assoc, tickUnits_writeString, List.cons_append,
        tickUnits_plain (by decide) (by decide), ih kv hkv, entryTicks, Nat.add_assoc]
    rw [write_obj, List.cons_append, tickUnits_plain (by decide) (by decide),
      tickUnits_itemsText (by decide) hentry, ticks_obj]

/-! ## Reading -/

theorem hexVal_lt (h : Uuid.hexVal c = some n) : n < 16 ∧ c ≠ '\\' ∧ c ≠ tick := by
  have hplain : c ≠ '\\' ∧ c ≠ tick := by
    constructor
    all_goals
      rintro rfl
      revert h
      rw [show Uuid.hexVal _ = none from by decide]
      exact fun h => by cases h
  refine ⟨?_, hplain⟩
  unfold Uuid.hexVal at h
  simp only [Char.le_def, UInt32.le_iff_toNat_le, Char.toNat_val, Char.reduceToNat] at h
  split_ifs at h
  all_goals
    rw [Option.some.injEq] at h
    omega

theorem eq_digitChar_of_hexVal (h : Uuid.hexVal c = some n) (hn : n < 10) : c = Nat.digitChar n := by
  have hdigit : ∀ d < 10, (Nat.digitChar d).toNat = 48 + d := by decide
  apply Char.toNat_inj.mp
  rw [hdigit n hn]
  unfold Uuid.hexVal at h
  simp only [Char.le_def, UInt32.le_iff_toNat_le, Char.toNat_val, Char.reduceToNat] at h
  split_ifs at h
  all_goals
    rw [Option.some.injEq] at h
    omega

theorem readHexEscape_some (h : readHexEscape t = some (n, r)) :
    tickUnits t = tickUnits r ∧ (n = 0x60 → ['0', '0', '6', '0'] <+: t) := by
  unfold readHexEscape at h
  split at h
  · rename_i x y z w r'
    obtain ⟨k, hk, heq⟩ := Option.map_eq_some_iff.mp h
    cases heq
    simp only [Uuid.readHex, Option.bind_eq_some_iff] at hk
    obtain ⟨i, hx, j, hy, k, hz, l, hw, hn⟩ := hk
    obtain ⟨hi, hxp⟩ := hexVal_lt hx
    obtain ⟨hj, hyp⟩ := hexVal_lt hy
    obtain ⟨hk, hzp⟩ := hexVal_lt hz
    obtain ⟨hl, hwp⟩ := hexVal_lt hw
    cases hn
    constructor
    · rw [tickUnits_plain hxp.1 hxp.2, tickUnits_plain hyp.1 hyp.2, tickUnits_plain hzp.1 hzp.2,
        tickUnits_plain hwp.1 hwp.2]
    · intro hn
      have hdigits : i = 0 ∧ j = 0 ∧ k = 6 ∧ l = 0 := by omega
      obtain ⟨rfl, rfl, rfl, rfl⟩ := hdigits
      rw [eq_digitChar_of_hexVal hx (by decide), eq_digitChar_of_hexVal hy (by decide),
        eq_digitChar_of_hexVal hz (by decide), eq_digitChar_of_hexVal hw (by decide)]
      exact List.prefix_append ['0', '0', '6', '0'] r
  · cases h

theorem eq_of_ofNat_eq_tick (h : Char.ofNat n = tick) : n = 0x60 := by
  by_cases hn : n.isValidChar
  · rw [Char.ofNat, dif_pos hn] at h
    exact congrArg Char.toNat h
  · rw [Char.ofNat, dif_neg hn] at h
    exact absurd h (by decide)

theorem readUnicodeEscape_le (h : readUnicodeEscape t = some (c, r)) :
    (if c = tick then 1 else 0) + tickUnits r ≤ escapedTick ('u' :: t) + tickUnits t := by
  obtain ⟨⟨n, r₁⟩, hn, h⟩ := Option.bind_eq_some_iff.mp h
  obtain ⟨ht, hprefix⟩ := readHexEscape_some hn
  dsimp only at h
  split_ifs at h with h₁ h₂
  · cases h
    by_cases hc : Char.ofNat n = tick
    · have hesc : escapedTick ('u' :: t) = 1 := by
        apply if_pos
        rw [List.cons_prefix_cons]
        exact ⟨rfl, hprefix (eq_of_ofNat_eq_tick hc)⟩
      rw [if_pos hc, hesc, ht]
    · rw [if_neg hc, ht]
      omega
  · split at h
    · rename_i r'
      obtain ⟨⟨l, r₂⟩, hl, h⟩ := Option.bind_eq_some_iff.mp h
      obtain ⟨hr', -⟩ := readHexEscape_some hl
      dsimp only at h
      split_ifs at h
      obtain ⟨k, hk, hk'⟩ : ∃ k, 0x10000 ≤ k ∧ k = 0x10000 + (n - 0xd800) * 0x400 + (l - 0xdc00) :=
        ⟨_, by omega, rfl⟩
      rw [← hk'] at h
      cases h
      have hc : ¬ Char.ofNat k = tick := fun hc => by
        have := eq_of_ofNat_eq_tick hc
        omega
      rw [if_neg hc, ht, tickUnits_escape, hr']
      omega
    · cases h

/-- An escape makes at most the backtick that it is counted for. -/
theorem readEscape_le (h : readEscape t = some (c, r)) :
    (if c = tick then 1 else 0) + tickUnits r ≤ tickUnits ('\\' :: t) := by
  cases t with
  | nil => cases h
  | cons d t =>
    rw [tickUnits_escape]
    rw [readEscape] at h
    split_ifs at h with h₁ h₂ h₃ h₄ h₅ h₆ h₇
    · cases h
      have hc : c ≠ tick := by
        rintro rfl
        exact absurd h₁ (by decide)
      rw [if_neg hc]
      omega
    · cases h
      simp [tick]
    · cases h
      simp [tick]
    · cases h
      simp [tick]
    · cases h
      simp [tick]
    · cases h
      simp [tick]
    · subst h₇
      exact readUnicodeEscape_le h

theorem readString_le {m : ℕ} {s : List Char} (h : readString m t = some (s, r)) :
    s.count tick + tickUnits r ≤ tickUnits t := by
  induction m generalizing t s with
  | zero => cases h
  | succ m ih =>
    cases t with
    | nil => cases h
    | cons c t =>
      unfold readString at h
      split_ifs at h with h₁ h₂ h₃
      · cases h
        rw [h₁, tickUnits_plain (by decide) (by decide), List.count_nil]
        omega
      · obtain ⟨⟨d, t'⟩, hd, h⟩ := Option.bind_eq_some_iff.mp h
        obtain ⟨⟨s', r'⟩, hs, heq⟩ := Option.map_eq_some_iff.mp h
        cases heq
        have hesc := readEscape_le hd
        have hrest := ih hs
        dsimp only at hrest ⊢
        rw [h₂, List.count_cons]
        simp only [beq_iff_eq]
        omega
      · obtain ⟨⟨s', r'⟩, hs, heq⟩ := Option.map_eq_some_iff.mp h
        cases heq
        have hrest := ih hs
        dsimp only at hrest ⊢
        rw [tickUnits_cons h₂, List.count_cons]
        simp only [beq_iff_eq]
        omega

theorem tickUnits_dropWhile_le {p : Char → Bool} (hp : ∀ c, p c → c ≠ '\\') (t : List Char) :
    tickUnits (t.dropWhile p) ≤ tickUnits t := by
  apply dropWhile_le
  intro c hc t
  rw [tickUnits_cons (hp c hc)]
  omega

theorem isBlank_plain : ∀ c, isBlank c → c ≠ '\\' := by
  rintro c hc rfl
  revert hc
  decide

theorem readEntry_le {item : Reader Json}
    (hitem : ∀ t v r, item t = some (v, r) → ticks v + tickUnits r ≤ tickUnits t)
    (t : List Char) (kv : String × Json) (r : List Char) (h : readEntry item t = some (kv, r)) :
    entryTicks kv + tickUnits r ≤ tickUnits t := by
  have hblank := tickUnits_dropWhile_le isBlank_plain t
  unfold readEntry at h
  split at h
  · cases h
  rename_i c t' hdrop
  rw [hdrop] at hblank
  split_ifs at h with hc
  obtain ⟨⟨k, t₁⟩, hk, h⟩ := Option.bind_eq_some_iff.mp h
  have hkey := readString_le hk
  have hblank₁ := tickUnits_dropWhile_le isBlank_plain t₁
  dsimp only at h
  split at h
  · cases h
  rename_i d t₂ hdrop₁
  rw [hdrop₁] at hblank₁
  split_ifs at h with hd
  obtain ⟨⟨v, r'⟩, hv, heq⟩ := Option.map_eq_some_iff.mp h
  cases heq
  have hvalue := hitem t₂ v r' hv
  rw [hc, tickUnits_plain (by decide) (by decide)] at hblank
  rw [hd, tickUnits_plain (by decide) (by decide)] at hblank₁
  simp only [entryTicks, String.toList_ofList]
  omega

/-- An entry that replaces another one takes its backticks away. -/
theorem sum_toMap_le (kvs : List (String × Json)) :
    ((toMap kvs).map entryTicks).sum ≤ (kvs.map entryTicks).sum := by
  have hinsert (kv : String × Json) (m : List (String × Json)) :
      ((insertEntry kv m).map entryTicks).sum ≤ (m.map entryTicks).sum + entryTicks kv := by
    induction m with
    | nil => simp [insertEntry]
    | cons kv' m ih =>
      unfold insertEntry
      split_ifs
      all_goals
        simp only [List.map_cons, List.sum_cons]
        omega
  have hfold (m : List (String × Json)) :
      ((kvs.foldl (fun m kv => insertEntry kv m) m).map entryTicks).sum ≤
        (m.map entryTicks).sum + (kvs.map entryTicks).sum := by
    induction kvs generalizing m with
    | nil => simp
    | cons kv kvs ih =>
      have h₁ := ih (insertEntry kv m)
      have h₂ := hinsert kv m
      rw [List.foldl_cons, List.map_cons, List.sum_cons]
      omega
  have h := hfold []
  rwa [List.map_nil, List.sum_nil, Nat.zero_add] at h

theorem readLiteral_le (h : readLiteral t = some (v, r)) : ticks v + tickUnits r ≤ tickUnits t := by
  have hplain (w : List Char) (hw : ∀ c ∈ w, c ≠ '\\' ∧ c ≠ tick) : 0 + tickUnits r ≤ tickUnits (w ++ r) := by
    rw [tickUnits_append_plain hw, Nat.zero_add]
  unfold readLiteral at h
  split at h
  · cases h
    exact hplain ['n', 'u', 'l', 'l'] (by simp [tick])
  · cases h
    exact hplain ['t', 'r', 'u', 'e'] (by simp [tick])
  · cases h
    exact hplain ['f', 'a', 'l', 's', 'e'] (by simp [tick])
  · cases h

/-- What is read has no more backticks than its text can be read as. -/
theorem readValue_le (n : ℕ) (t : List Char) (v : Json) (r : List Char) (h : readValue N n t = some (v, r)) :
    ticks v + tickUnits r ≤ tickUnits t := by
  induction n generalizing t v r with
  | zero => cases h
  | succ n ih =>
    have hsep (c : Char) (hc : c ≠ '\\') (t : List Char) : tickUnits t ≤ tickUnits (c :: t) := by
      rw [tickUnits_cons hc]
      omega
    have hblank := tickUnits_dropWhile_le isBlank_plain t
    rw [readValue] at h
    split at h
    · cases h
    rename_i c t' hdrop
    rw [hdrop] at hblank
    refine le_trans ?_ hblank
    split_ifs at h with h₁ h₂ h₃ h₄
    · obtain ⟨⟨s, r'⟩, hs, heq⟩ := Option.map_eq_some_iff.mp h
      cases heq
      have := readString_le hs
      rw [h₁, tickUnits_plain (by decide) (by decide), ticks, String.toList_ofList]
      exact this
    · obtain ⟨⟨xs, r'⟩, hxs, heq⟩ := Option.map_eq_some_iff.mp h
      cases heq
      have := items_le (fun c hc => hsep c (isBlank_plain c hc)) (hsep ',' (by decide))
        (hsep ']' (by decide)) ih hxs
      rw [h₂, tickUnits_plain (by decide) (by decide), ticks_arr]
      exact this
    · obtain ⟨⟨kvs, r'⟩, hkvs, heq⟩ := Option.map_eq_some_iff.mp h
      cases heq
      have := items_le (fun c hc => hsep c (isBlank_plain c hc)) (hsep ',' (by decide))
        (hsep '}' (by decide)) (readEntry_le ih) hkvs
      rw [h₃, tickUnits_plain (by decide) (by decide), ticks_obj]
      exact le_trans (Nat.add_le_add_right (sum_toMap_le kvs) _) this
    · obtain ⟨k, hk, heq⟩ := Option.map_eq_some_iff.mp h
      cases heq
      have := tickUnits_dropWhile_le (fun c hc => (plain_of_isNumeral hc).1) (c :: t')
      rw [ticks, Nat.zero_add]
      exact this
    · exact readLiteral_le h

/-- **Reading makes no backticks.** -/
theorem ticks_le_of_fromStr (h : fromStr N t = some v) : ticks v ≤ tickUnits t := by
  obtain ⟨⟨w, r⟩, hw, h⟩ := Option.bind_eq_some_iff.mp h
  have := readValue_le _ t w r hw
  dsimp only at h
  split_ifs at h
  cases h
  omega

end Ticks

end FireCtrl
