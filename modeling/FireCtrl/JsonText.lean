import FireCtrl.Json
import FireCtrl.Lib.Sequence
import FireCtrl.Lib.Decimal
import Mathlib.Data.String.Basic
import Mathlib.Data.List.Pairwise

/-!
# The text of a JSON value

`serde_json` without its features: the compact writer, and the reader that `from_str` is. The texts of
numbers are a parameter. The limit of the reader on the depth is left out.

* `write`, `fromStr`; **`fromStr_write`**: a value is read back.
* `fromStr_write_append`: an object or an array with blanks behind it is read back, with anything else
  it is refused.
-/

namespace FireCtrl

open Text

/-! ## Numbers -/

/-- What `serde_json::Number` can be: a `u64`, a negative `i64` or a finite double. -/
def Number.Representable : Number → Prop
  | .int n => -2 ^ 63 ≤ n ∧ n < 2 ^ 64
  | .float bits => bits.toNat / 2 ^ 52 % 2 ^ 11 ≠ 2 ^ 11 - 1

/-- The first character of a number. -/
def startsNumber (c : Char) : Bool := c == '-' || c.isDigit

/-- A character of a number. -/
def isNumeral (c : Char) : Bool := startsNumber c || c == '+' || c == '.' || c == 'e' || c == 'E'

/-- How numbers are written, and how they are read. -/
structure NumberText where
  write : Number → List Char
  read : List Char → Option Number
  head_write : ∀ n, n.Representable → ∃ c t, write n = c :: t ∧ startsNumber c
  isNumeral_write : ∀ n, n.Representable → ∀ c ∈ write n, isNumeral c
  read_write : ∀ n, n.Representable → read (write n) = some n

/-! ## Writing -/

/-- What stands for a character in a string. -/
def escapeChar (c : Char) : List Char :=
  if c = '"' then ['\\', '"']
  else if c = '\\' then ['\\', '\\']
  else if c = '\x08' then ['\\', 'b']
  else if c = '\t' then ['\\', 't']
  else if c = '\n' then ['\\', 'n']
  else if c = '\x0c' then ['\\', 'f']
  else if c = '\r' then ['\\', 'r']
  else if c.toNat < 0x20 then '\\' :: 'u' :: Uuid.nibbles 4 c.toNat
  else [c]

def writeString (s : String) : List Char := '"' :: (s.toList.flatMap escapeChar ++ ['"'])

mutual

/-- `serde_json::to_string`. -/
def write (N : NumberText) : Json → List Char
  | .null => ['n', 'u', 'l', 'l']
  | .bool true => ['t', 'r', 'u', 'e']
  | .bool false => ['f', 'a', 'l', 's', 'e']
  | .num n => N.write n
  | .str s => writeString s
  | .arr xs => '[' :: itemsText ',' ']' (writeAll N xs)
  | .obj kvs => '{' :: itemsText ',' '}' (writeEntries N kvs)

def writeAll (N : NumberText) : List Json → List (List Char)
  | [] => []
  | v :: vs => write N v :: writeAll N vs

def writeEntries (N : NumberText) : List (String × Json) → List (List Char)
  | [] => []
  | (k, v) :: kvs => (writeString k ++ ':' :: write N v) :: writeEntries N kvs

end

def writeEntry (N : NumberText) (kv : String × Json) : List Char := writeString kv.1 ++ ':' :: write N kv.2

/-! ## Reading -/

/-- `parse_whitespace`. -/
def isBlank (c : Char) : Bool := c == ' ' || c == '\n' || c == '\t' || c == '\r'

/-- `decode_hex_escape`: four digits. -/
def readHexEscape : Reader ℕ
  | a :: b :: c :: d :: r => (Uuid.readHex 0 [a, b, c, d]).map fun n => (n, r)
  | _ => none

/-- `parse_unicode_escape`: a character, or two halves of one. -/
def readUnicodeEscape : Reader Char := fun t =>
  (readHexEscape t).bind fun x =>
    if x.1 < 0xd800 ∨ 0xdfff < x.1 then some (Char.ofNat x.1, x.2)
    else if x.1 ≤ 0xdbff then
      match x.2 with
      | '\\' :: 'u' :: r =>
        (readHexEscape r).bind fun y =>
          if 0xdc00 ≤ y.1 ∧ y.1 ≤ 0xdfff then
            some (Char.ofNat (0x10000 + (x.1 - 0xd800) * 0x400 + (y.1 - 0xdc00)), y.2)
          else none
      | _ => none
    else none

/-- `parse_escape`: what follows a backslash. -/
def readEscape : Reader Char
  | [] => none
  | c :: r =>
    if c = '"' ∨ c = '\\' ∨ c = '/' then some (c, r)
    else if c = 'b' then some ('\x08', r)
    else if c = 'f' then some ('\x0c', r)
    else if c = 'n' then some ('\n', r)
    else if c = 'r' then some ('\r', r)
    else if c = 't' then some ('\t', r)
    else if c = 'u' then readUnicodeEscape r
    else none

/-- The rest of a string of at most `m` characters. -/
def readString : ℕ → Reader (List Char)
  | 0, _ => none
  | _ + 1, [] => none
  | m + 1, c :: r =>
    if c = '"' then some ([], r)
    else if c = '\\' then
      (readEscape r).bind fun x => (readString m x.2).map fun y => (x.1 :: y.1, y.2)
    else if c.toNat < 0x20 then none
    else (readString m r).map fun y => (c :: y.1, y.2)

/-- A key, a colon and a value. -/
def readEntry (item : Reader Json) : Reader (String × Json) := fun t =>
  match t.dropWhile isBlank with
  | [] => none
  | c :: r =>
    if c = '"' then
      (readString r.length r).bind fun x =>
        match x.2.dropWhile isBlank with
        | [] => none
        | d :: r => if d = ':' then (item r).map fun y => ((String.ofList x.1, y.1), y.2) else none
    else none

/-- `BTreeMap::insert`. -/
def insertEntry (kv : String × Json) : List (String × Json) → List (String × Json)
  | [] => [kv]
  | kv' :: kvs =>
    if kv.1 < kv'.1 then kv :: kv' :: kvs
    else if kv.1 = kv'.1 then kv :: kvs
    else kv' :: insertEntry kv kvs

def toMap (kvs : List (String × Json)) : List (String × Json) :=
  kvs.foldl (fun m kv => insertEntry kv m) []

def readLiteral : Reader Json
  | 'n' :: 'u' :: 'l' :: 'l' :: r => some (.null, r)
  | 't' :: 'r' :: 'u' :: 'e' :: r => some (.bool true, r)
  | 'f' :: 'a' :: 'l' :: 's' :: 'e' :: r => some (.bool false, r)
  | _ => none

/-- A value of depth at most `n`. -/
def readValue (N : NumberText) : ℕ → Reader Json
  | 0, _ => none
  | n + 1, t =>
    match t.dropWhile isBlank with
    | [] => none
    | c :: r =>
      if c = '"' then (readString r.length r).map fun x => (.str (String.ofList x.1), x.2)
      else if c = '[' then (items isBlank ',' ']' (readValue N n) r).map fun x => (.arr x.1, x.2)
      else if c = '{' then
        (items isBlank ',' '}' (readEntry (readValue N n)) r).map fun x => (.obj (toMap x.1), x.2)
      else if startsNumber c then
        (N.read ((c :: r).takeWhile isNumeral)).map fun x => (.num x, (c :: r).dropWhile isNumeral)
      else readLiteral (c :: r)

/-- `serde_json::from_str`. -/
def fromStr (N : NumberText) (t : List Char) : Option Json :=
  (readValue N t.length t).bind fun x => if x.2.all isBlank then some x.1 else none

/-! ## What is written is read -/

/-- What a `serde_json::Value` can be: its numbers in range, the keys of its maps in order. -/
inductive Json.WellFormed : Json → Prop
  | null : WellFormed .null
  | bool (b : Bool) : WellFormed (.bool b)
  | num {n : Number} (h : n.Representable) : WellFormed (.num n)
  | str (s : String) : WellFormed (.str s)
  | arr {xs : List Json} (h : ∀ x ∈ xs, WellFormed x) : WellFormed (.arr xs)
  | obj {kvs : List (String × Json)} (hkeys : kvs.Pairwise fun kv kv' => kv.1 < kv'.1)
      (h : ∀ kv ∈ kvs, WellFormed kv.2) : WellFormed (.obj kvs)

/-- An object or an array. -/
def Json.IsContainer : Json → Prop
  | .arr _ | .obj _ => True
  | _ => False

section RoundTrip

variable {N : NumberText} {v : Json} {n : ℕ} {rest : List Char}

theorem writeAll_eq_map (N : NumberText) (xs : List Json) : writeAll N xs = xs.map (write N) := by
  induction xs with
  | nil => rfl
  | cons x xs ih => rw [writeAll, ih, List.map_cons]

theorem writeEntries_eq_map (N : NumberText) (kvs : List (String × Json)) :
    writeEntries N kvs = kvs.map (writeEntry N) := by
  induction kvs with
  | nil => rfl
  | cons kv kvs ih => rw [writeEntries, ih, List.map_cons, writeEntry]

theorem write_arr (N : NumberText) (xs : List Json) :
    write N (.arr xs) = '[' :: itemsText ',' ']' (xs.map (write N)) := by
  rw [write, writeAll_eq_map]

theorem write_obj (N : NumberText) (kvs : List (String × Json)) :
    write N (.obj kvs) = '{' :: itemsText ',' '}' (kvs.map (writeEntry N)) := by
  rw [write, writeEntries_eq_map]

/-! ### Strings -/

theorem readHexEscape_nibbles (n : ℕ) (hn : n < 16 ^ 4) (t : List Char) :
    readHexEscape (Uuid.nibbles 4 n ++ t) = some (n, t) := by
  have h := Uuid.readHex_nibbles 4 n 0
  rw [Nat.mod_eq_of_lt hn] at h
  simp only [Uuid.nibbles, List.nil_append, List.cons_append] at h ⊢
  rw [readHexEscape, h]
  simp

/-- One character is read back, whatever it takes to write it. -/
theorem readString_escapeChar (m : ℕ) (c : Char) (t : List Char) :
    readString (m + 1) (escapeChar c ++ t) = (readString m t).map fun y => (c :: y.1, y.2) := by
  unfold escapeChar
  split_ifs with h₁ h₂ h₃ h₄ h₅ h₆ h₇ h₈
  · simp [readString, readEscape, h₁]
  · simp [readString, readEscape, h₂]
  · simp [readString, readEscape, h₃]
  · simp [readString, readEscape, h₄]
  · simp [readString, readEscape, h₅]
  · simp [readString, readEscape, h₆]
  · simp [readString, readEscape, h₇]
  · have hesc := readHexEscape_nibbles c.toNat (by omega) t
    have hlow : c.toNat < 0xd800 ∨ 0xdfff < c.toNat := .inl (by omega)
    simp [readString, readEscape, readUnicodeEscape, hesc, hlow, Char.ofNat_toNat]
  · simp [readString, h₁, h₂, h₈]

theorem readString_flatMap (s : List Char) {m : ℕ} (hm : s.length < m) (t : List Char) :
    readString m (s.flatMap escapeChar ++ '"' :: t) = some (s, t) := by
  induction s generalizing m with
  | nil =>
    obtain ⟨m, rfl⟩ : ∃ k, m = k + 1 := ⟨m - 1, by omega⟩
    simp [readString]
  | cons c s ih =>
    obtain ⟨m, rfl⟩ : ∃ k, m = k + 1 := ⟨m - 1, by omega⟩
    rw [List.flatMap_cons, List.append_assoc, readString_escapeChar, ih (by simpa using hm)]
    rfl

theorem length_le_flatMap (s : List Char) : s.length ≤ (s.flatMap escapeChar).length := by
  induction s with
  | nil => exact le_refl _
  | cons c s ih =>
    have hc : 1 ≤ (escapeChar c).length := by
      unfold escapeChar
      split_ifs <;> simp
    rw [List.flatMap_cons, List.length_append, List.length_cons]
    omega

/-- The rest of a string that was written, with the fuel that the readers give. -/
theorem readString_writeString (s : String) (t : List Char) :
    readString (s.toList.flatMap escapeChar ++ '"' :: t).length (s.toList.flatMap escapeChar ++ '"' :: t) =
      some (s.toList, t) := by
  apply readString_flatMap
  have := length_le_flatMap s.toList
  rw [List.length_append, List.length_cons]
  omega

/-! ### Values -/

theorem not_isNumeral_of_head (h : rest.head? = some ',' ∨ rest.head? = some ']' ∨ rest.head? = some '}') :
    ∀ c ∈ rest.head?, ¬ isNumeral c := by
  rintro c hc
  rw [Option.mem_def.mp hc] at h
  rcases h with h | h | h <;> cases h <;> decide

theorem toMap_of_sorted {kvs : List (String × Json)} (h : kvs.Pairwise fun kv kv' => kv.1 < kv'.1) :
    toMap kvs = kvs := by
  have hinsert (kv : String × Json) (m : List (String × Json)) (hm : ∀ kv' ∈ m, kv'.1 < kv.1) :
      insertEntry kv m = m ++ [kv] := by
    induction m with
    | nil => rfl
    | cons kv' m ih =>
      have hlt := hm kv' List.mem_cons_self
      rw [insertEntry, if_neg (lt_asymm hlt), if_neg hlt.ne', ih fun x hx => hm x (List.mem_cons_of_mem _ hx)]
      rfl
  have hfold (m : List (String × Json)) (hm : (m ++ kvs).Pairwise fun kv kv' => kv.1 < kv'.1) :
      kvs.foldl (fun m kv => insertEntry kv m) m = m ++ kvs := by
    clear h
    induction kvs generalizing m with
    | nil => simp
    | cons kv kvs ih =>
      have hlast := (List.pairwise_append.mp hm).2.2
      rw [List.foldl_cons, hinsert kv m fun x hx => hlast x hx kv List.mem_cons_self, ih]
      · simp
      · simpa using hm
  exact hfold [] h

/-- A value begins with a character that is not a blank and does not close anything. -/
theorem head_write (hv : v.WellFormed) :
    ∃ c t, write N v = c :: t ∧ ¬ isBlank c ∧ c ≠ ']' := by
  cases hv with
  | null => exact ⟨_, _, rfl, by decide, by decide⟩
  | bool b => cases b <;> exact ⟨_, _, rfl, by decide, by decide⟩
  | num h =>
    obtain ⟨c, t, hc, hstart⟩ := N.head_write _ h
    refine ⟨c, t, hc, fun hb => ?_, fun hb => ?_⟩
    · simp only [isBlank, Bool.or_eq_true, beq_iff_eq] at hb
      rcases hb with ((rfl | rfl) | rfl) | rfl <;> revert hstart <;> decide
    · subst hb
      revert hstart
      decide
  | str s => exact ⟨_, _, rfl, by decide, by decide⟩
  | arr h => exact ⟨_, _, write_arr .., by decide, by decide⟩
  | obj hkeys h => exact ⟨_, _, write_obj .., by decide, by decide⟩

theorem readValue_num {k : Number} (hk : k.Representable) (hrest : ∀ c ∈ rest.head?, ¬ isNumeral c) :
    readValue N (n + 1) (N.write k ++ rest) = some (.num k, rest) := by
  obtain ⟨c, t, hc, hstart⟩ := N.head_write k hk
  have hall := N.isNumeral_write k hk
  have hnil : rest.takeWhile isNumeral = [] ∧ rest.dropWhile isNumeral = rest := by
    cases rest with
    | nil => exact ⟨rfl, rfl⟩
    | cons d rest =>
      have hd := hrest d rfl
      exact ⟨List.takeWhile_cons_of_neg hd, List.dropWhile_cons_of_neg hd⟩
  have htake : (N.write k ++ rest).takeWhile isNumeral = N.write k := by
    rw [List.takeWhile_append_of_pos hall, hnil.1, List.append_nil]
  have hdrop : (N.write k ++ rest).dropWhile isNumeral = rest := by
    rw [List.dropWhile_append_of_pos hall, hnil.2]
  obtain ⟨d, t', hd, hblank, -⟩ := head_write (N := N) (.num hk)
  have hblank : ¬ isBlank c := by
    rw [write, hc] at hd
    cases hd
    exact hblank
  have hquote : c ≠ '"' ∧ c ≠ '[' ∧ c ≠ '{' := by
    refine ⟨?_, ?_, ?_⟩ <;> (rintro rfl; revert hstart; decide)
  rw [hc, List.cons_append] at htake hdrop
  rw [hc, List.cons_append, readValue, List.dropWhile_cons_of_neg hblank]
  simp only [hquote, hstart, if_false, if_true]
  rw [htake, hdrop, ← hc, N.read_write k hk]
  rfl

theorem readEntry_writeEntry {kv : String × Json} {item : Reader Json}
    (h : item (write N kv.2 ++ rest) = some (kv.2, rest)) :
    readEntry item (writeEntry N kv ++ rest) = some (kv, rest) := by
  have hstring := readString_writeString kv.1 (':' :: (write N kv.2 ++ rest))
  have htext : writeEntry N kv ++ rest =
      '"' :: (kv.1.toList.flatMap escapeChar ++ '"' :: ':' :: (write N kv.2 ++ rest)) := by
    simp [writeEntry, writeString]
  have hquote : ¬ isBlank '"' := by decide
  have hcolon : ¬ isBlank ':' := by decide
  rw [htext, readEntry, List.dropWhile_cons_of_neg hquote]
  simp only [if_true]
  rw [hstring]
  simp only [Option.bind_some]
  rw [List.dropWhile_cons_of_neg hcolon]
  simp [h]

theorem readValue_str (s : String) (rest : List Char) :
    readValue N (n + 1) (write N (.str s) ++ rest) = some (.str s, rest) := by
  have h := readString_writeString s rest
  have htext : write N (.str s) ++ rest = '"' :: (s.toList.flatMap escapeChar ++ '"' :: rest) := by
    simp [write, writeString]
  have hquote : ¬ isBlank '"' := by decide
  rw [htext, readValue, List.dropWhile_cons_of_neg hquote]
  simp only [if_true]
  rw [h]
  simp

/-- What the items of a sequence need. -/
def ReadBackWithin (N : NumberText) (n : ℕ) (v : Json) : Prop :=
  ∀ rest : List Char, (∀ c ∈ rest.head?, ¬ isNumeral c) → readValue N n (write N v ++ rest) = some (v, rest)

theorem readValue_arr {xs : List Json} (hv : ∀ x ∈ xs, x.WellFormed) (h : ∀ x ∈ xs, ReadBackWithin N n x)
    (rest : List Char) : readValue N (n + 1) (write N (.arr xs) ++ rest) = some (.arr xs, rest) := by
  have hitems : items isBlank ',' ']' (readValue N n) (itemsText ',' ']' (xs.map (write N)) ++ rest) =
      some (xs, rest) := by
    apply items_itemsText (by decide) (by decide) (by decide) (fun x hx => head_write (hv x hx))
    intro x hx rest hrest
    exact h x hx rest (not_isNumeral_of_head (hrest.imp_right .inl))
  have hblank : ¬ isBlank '[' := by decide
  have hquote : ¬ '[' = '"' := by decide
  rw [write_arr, List.cons_append, readValue, List.dropWhile_cons_of_neg hblank]
  simp only [if_neg hquote, if_true]
  rw [hitems]
  rfl

theorem readValue_obj {kvs : List (String × Json)} (hkeys : kvs.Pairwise fun kv kv' => kv.1 < kv'.1)
    (h : ∀ kv ∈ kvs, ReadBackWithin N n kv.2) (rest : List Char) :
    readValue N (n + 1) (write N (.obj kvs) ++ rest) = some (.obj kvs, rest) := by
  have hitems : items isBlank ',' '}' (readEntry (readValue N n))
      (itemsText ',' '}' (kvs.map (writeEntry N)) ++ rest) = some (kvs, rest) := by
    apply items_itemsText (by decide) (by decide) (by decide)
      (fun kv _ => ⟨'"', _, rfl, by decide, by decide⟩)
    intro kv hkv rest hrest
    exact readEntry_writeEntry (h kv hkv rest (not_isNumeral_of_head (hrest.imp_right .inr)))
  have hblank : ¬ isBlank '{' := by decide
  have hquote : ¬ '{' = '"' := by decide
  have hbracket : ¬ '{' = '[' := by decide
  rw [write_obj, List.cons_append, readValue, List.dropWhile_cons_of_neg hblank]
  simp only [if_neg hquote, if_neg hbracket, if_true]
  rw [hitems]
  simp [toMap_of_sorted hkeys]

/-- **A value is read back**, an object or an array whatever follows it. -/
theorem readValue_write (hv : v.WellFormed) (hn : (write N v).length ≤ n)
    (hrest : v.IsContainer ∨ ∀ c ∈ rest.head?, ¬ isNumeral c) :
    readValue N n (write N v ++ rest) = some (v, rest) := by
  induction hv generalizing n rest with
  | null =>
    obtain ⟨n, rfl⟩ : ∃ k, n = k + 1 := ⟨n - 1, by simp [write] at hn; omega⟩
    rfl
  | bool b =>
    obtain ⟨n, rfl⟩ : ∃ k, n = k + 1 := ⟨n - 1, by cases b <;> simp [write] at hn <;> omega⟩
    cases b <;> rfl
  | num h =>
    obtain ⟨c, t, hc, -⟩ := N.head_write _ h
    obtain ⟨n, rfl⟩ : ∃ k, n = k + 1 := ⟨n - 1, by rw [write, hc, List.length_cons] at hn; omega⟩
    exact readValue_num h (hrest.resolve_left fun h => h)
  | str s =>
    obtain ⟨n, rfl⟩ : ∃ k, n = k + 1 := ⟨n - 1, by rw [write, writeString, List.length_cons] at hn; omega⟩
    exact readValue_str s rest
  | @arr xs h ih =>
    rw [write_arr, List.length_cons] at hn
    obtain ⟨n, rfl⟩ : ∃ k, n = k + 1 := ⟨n - 1, by omega⟩
    refine readValue_arr h (fun x hx rest hrest => ih x hx ?_ (.inr hrest)) rest
    have hlt := length_lt_itemsText ',' ']' (List.mem_map_of_mem hx : write N x ∈ xs.map (write N))
    omega
  | @obj kvs hkeys h ih =>
    rw [write_obj, List.length_cons] at hn
    obtain ⟨n, rfl⟩ : ∃ k, n = k + 1 := ⟨n - 1, by omega⟩
    refine readValue_obj hkeys (fun kv hkv rest hrest => ih kv hkv ?_ (.inr hrest)) rest
    have hlt := length_lt_itemsText ',' '}' (List.mem_map_of_mem hkv : writeEntry N kv ∈ kvs.map (writeEntry N))
    rw [writeEntry, List.length_append, List.length_cons] at hlt
    omega

/-- An object or an array is written between brackets. -/
theorem write_container (hcont : v.IsContainer) :
    (∃ kvs, v = .obj kvs) ∧ (∃ m, write N v = '{' :: (m ++ ['}'])) ∨
      (∃ xs, v = .arr xs) ∧ ∃ m, write N v = '[' :: (m ++ [']']) := by
  cases v with
  | arr xs =>
    obtain ⟨m, hm⟩ := itemsText_eq ',' ']' (xs.map (write N))
    exact .inr ⟨⟨xs, rfl⟩, m, by rw [write_arr, hm]⟩
  | obj kvs =>
    obtain ⟨m, hm⟩ := itemsText_eq ',' '}' (kvs.map (writeEntry N))
    exact .inl ⟨⟨kvs, rfl⟩, m, by rw [write_obj, hm]⟩
  | _ => exact hcont.elim

/-- After an opening brace there is an object, or nothing. -/
theorem fromStr_brace (h : fromStr N ('{' :: rest) = some v) : ∃ kvs, v = .obj kvs := by
  obtain ⟨⟨w, r⟩, hw, h⟩ := Option.bind_eq_some_iff.mp h
  have hblank : ¬ isBlank '{' := by decide
  have hquote : ¬ '{' = '"' := by decide
  have hbracket : ¬ '{' = '[' := by decide
  rw [List.length_cons, readValue, List.dropWhile_cons_of_neg hblank] at hw
  simp only [if_neg hquote, if_neg hbracket, if_true] at hw
  obtain ⟨⟨kvs, r'⟩, -, heq⟩ := Option.map_eq_some_iff.mp hw
  cases heq
  dsimp only at h
  split_ifs at h
  cases h
  exact ⟨_, rfl⟩

/-- With something that is not blank behind it an object or an array is refused. -/
theorem fromStr_write_append (hv : v.WellFormed) (hcont : v.IsContainer) (rest : List Char) :
    fromStr N (write N v ++ rest) = if rest.all isBlank then some v else none := by
  rw [fromStr, readValue_write hv (by simp) (.inl hcont)]
  rfl

theorem fromStr_write (hv : v.WellFormed) : fromStr N (write N v) = some v := by
  have h : readValue N (write N v).length (write N v ++ []) = some (v, []) :=
    readValue_write hv (le_refl _) (.inr fun c hc => by cases hc)
  rw [List.append_nil] at h
  rw [fromStr, h]
  rfl

end RoundTrip

/-! ## Decimal numbers -/

section Sample

theorem isNumeral_of_isDigit {c : Char} (hc : c.isDigit) : startsNumber c ∧ isNumeral c := by
  simp [isNumeral, startsNumber, hc]

theorem isNumeral_of_mem_decimal {n : ℤ} {c : Char} (hc : c ∈ decimal n) : startsNumber c ∧ isNumeral c := by
  rcases mem_decimal hc with rfl | hc
  · decide
  · exact isNumeral_of_isDigit hc

/-- Integers as they are written; doubles by their bits. -/
def Number.text : Number → List Char
  | .int n => decimal n
  | .float bits => decimal bits.toNat ++ ['.', '0']

def Number.ofText (t : List Char) : Option Number :=
  if t.contains '.' then (readDecimal (t.takeWhile (· != '.'))).map fun n => .float (.ofNat n.toNat)
  else (readDecimal t).map .int

theorem ofText_text (n : Number) : Number.ofText n.text = some n := by
  have hpoint (n : ℤ) : '.' ∉ decimal n := by
    intro h
    rcases mem_decimal h with h | h
    · exact absurd h (by decide)
    · revert h
      decide
  unfold Number.ofText
  cases n with
  | int n =>
    rw [Number.text, if_neg (by simpa using hpoint n),
      readDecimal_decimal]
    rfl
  | float bits =>
    have hdigits : (decimal bits.toNat ++ ['.', '0']).takeWhile (· != '.') = decimal bits.toNat := by
      rw [List.takeWhile_append_of_pos]
      · exact List.append_nil _
      · intro c hc
        simpa using fun h => hpoint _ (h ▸ hc)
    rw [Number.text, if_pos (by simp), hdigits, readDecimal_decimal]
    simp

def NumberText.sample : NumberText where
  write := Number.text
  read := Number.ofText
  head_write n _ := by
    have hhead (n : ℤ) : ∃ c t, decimal n = c :: t ∧ startsNumber c := by
      obtain ⟨c, t, h⟩ := List.exists_cons_of_ne_nil (decimal_ne_nil n)
      exact ⟨c, t, h, (isNumeral_of_mem_decimal (h ▸ List.mem_cons_self)).1⟩
    cases n with
    | int n => exact hhead n
    | float bits =>
      obtain ⟨c, t, h, hc⟩ := hhead bits.toNat
      exact ⟨c, t ++ ['.', '0'], congrArg (· ++ ['.', '0']) h, hc⟩
  isNumeral_write n _ c hc := by
    cases n with
    | int n => exact (isNumeral_of_mem_decimal hc).2
    | float bits =>
      rcases List.mem_append.mp hc with hc | hc
      · exact (isNumeral_of_mem_decimal hc).2
      · have hrest : ∀ c ∈ ['.', '0'], isNumeral c := by simp [isNumeral, startsNumber]
        exact hrest c hc
  read_write n _ := ofText_text n

end Sample

end FireCtrl
