import Mathlib.Data.Fin.Basic
import Mathlib.Data.List.Basic
import Mathlib.Tactic.Ring
import Mathlib.Tactic.Common

/-!
# JSON values and derived codecs

* `Uuid` and its text form: `Uuid.parse` is `Uuid::parse_str`; **`Uuid.parse_toString`**.
* `Json` is `serde_json::Value`; an object is the list of its entries, `get?` its index operator.
* `Serde` is a type with derived (or built-in) `Serialize` and `Deserialize` instances;
  `fromValue` is `serde_json::from_value(..).ok()`. `Fields` is what a derived `Deserialize` reads
  a struct from (an object, or an array of the fields in order), with one reader per kind of field
  attribute: `required` for a plain field, `orElse` for a field with a default.
* `Rereads`: what is read back from an encoded value; **`roundTrips_iff`**. `Settled`: a value that has
  been decoded is read back as it is.
-/

namespace FireCtrl

/-- A UUID, as its 128 bits. -/
abbrev Uuid := Fin (2 ^ 128)

namespace Uuid

instance neZero : NeZero (2 ^ 128) := ⟨by decide⟩

/-- `Uuid::nil()`. -/
def nil : Uuid := 0

/-- The `k` low hexadecimal digits of `n`, the highest first. -/
def nibbles : ℕ → ℕ → List Char
  | 0, _ => []
  | k + 1, n => nibbles k (n / 16) ++ [Nat.digitChar (n % 16)]

@[simp] theorem length_nibbles (k n : ℕ) : (nibbles k n).length = k := by
  induction k generalizing n with
  | zero => rfl
  | succ k ih => simp [nibbles, ih]

/-- The hyphenated form of 32 digits. -/
def hyphenated (d : List Char) : List Char :=
  d.take 8 ++ '-' :: ((d.drop 8).take 4 ++ '-' :: ((d.drop 12).take 4 ++
    '-' :: ((d.drop 16).take 4 ++ '-' :: d.drop 20)))

/-- The `Display` text: lower case, hyphenated. -/
protected def toString (u : Uuid) : String := String.ofList (hyphenated (nibbles 32 u))

/-- The value of a hexadecimal digit in either case. -/
def hexVal (c : Char) : Option ℕ :=
  if '0' ≤ c ∧ c ≤ '9' then some (c.toNat - '0'.toNat)
  else if 'a' ≤ c ∧ c ≤ 'f' then some (c.toNat - 'a'.toNat + 10)
  else if 'A' ≤ c ∧ c ≤ 'F' then some (c.toNat - 'A'.toNat + 10)
  else none

/-- Read hexadecimal digits, continuing the number `acc`. -/
def readHex : ℕ → List Char → Option ℕ
  | acc, [] => some acc
  | acc, c :: cs => (hexVal c).bind fun d => readHex (acc * 16 + d) cs

/-- Exactly 32 digits. -/
def parseSimple (cs : List Char) : Option Uuid :=
  if cs.length = 32 then (readHex 0 cs).map (Fin.ofNat _) else none

/-- 32 digits with hyphens after the 8th, 12th, 16th and 20th. -/
def parseHyphenated (cs : List Char) : Option Uuid :=
  if cs[8]? = some '-' ∧ cs[13]? = some '-' ∧ cs[18]? = some '-' ∧ cs[23]? = some '-' then
    parseSimple (cs.take 8 ++ ((cs.drop 9).take 4 ++ ((cs.drop 14).take 4 ++
      ((cs.drop 19).take 4 ++ cs.drop 24))))
  else none

/-- The text starts with `urn:uuid:`, in either case. -/
def isUrn (cs : List Char) : Bool :=
  (cs.take 9).map Char.toLower = ['u', 'r', 'n', ':', 'u', 'u', 'i', 'd', ':']

/-- `Uuid::parse_str`: simple, hyphenated, braced or as a URN. -/
def parse (s : String) : Option Uuid :=
  if isUrn s.toList then parseHyphenated (s.toList.drop 9)
  else
    match s.toList with
    | '{' :: cs => if cs.getLast? = some '}' then parseHyphenated cs.dropLast else none
    | cs => if cs.length = 32 then parseSimple cs else parseHyphenated cs

theorem hexVal_digitChar : ∀ d < 16, hexVal (Nat.digitChar d) = some d := by decide

theorem readHex_append (acc : ℕ) (cs ds : List Char) :
    readHex acc (cs ++ ds) = (readHex acc cs).bind fun a => readHex a ds := by
  induction cs generalizing acc with
  | nil => rfl
  | cons c cs ih =>
    simp only [List.cons_append, readHex]
    cases hexVal c with
    | none => rfl
    | some d => exact ih _

theorem readHex_nibbles (k n acc : ℕ) :
    readHex acc (nibbles k n) = some (acc * 16 ^ k + n % 16 ^ k) := by
  induction k generalizing n with
  | zero => simp [nibbles, readHex, Nat.mod_one]
  | succ k ih =>
    rw [nibbles, readHex_append, ih]
    simp only [Option.bind_some, readHex, hexVal_digitChar _ (Nat.mod_lt n (by norm_num))]
    have h : n % 16 ^ (k + 1) = n % 16 + 16 * (n / 16 % 16 ^ k) := by
      rw [pow_succ, mul_comm, Nat.mod_mul]
    rw [h, pow_succ]
    congr 1
    ring

theorem parseHyphenated_hyphenated {d : List Char} (hd : d.length = 32) :
    parseHyphenated (hyphenated d) = parseSimple d := by
  obtain ⟨a, b, c, e, f, ha, hb, hc, he, rfl⟩ : ∃ a b c e f : List Char, a.length = 8 ∧
      b.length = 4 ∧ c.length = 4 ∧ e.length = 4 ∧ d = a ++ (b ++ (c ++ (e ++ f))) := by
    refine ⟨d.take 8, (d.drop 8).take 4, (d.drop 12).take 4, (d.drop 16).take 4, d.drop 20,
      ?_, ?_, ?_, ?_, ?_⟩
    all_goals try (simp only [List.length_take, List.length_drop]; omega)
    rw [show d.drop 20 = (d.drop 16).drop 4 by rw [List.drop_drop],
      List.take_append_drop, show d.drop 16 = (d.drop 12).drop 4 by rw [List.drop_drop],
      List.take_append_drop, show d.drop 12 = (d.drop 8).drop 4 by rw [List.drop_drop],
      List.take_append_drop, List.take_append_drop]
  have h : hyphenated (a ++ (b ++ (c ++ (e ++ f)))) =
      a ++ '-' :: (b ++ '-' :: (c ++ '-' :: (e ++ '-' :: f))) := by
    simp [hyphenated, List.drop_append, ha, hb, hc, he, List.drop_eq_nil_of_le]
  rw [h, parseHyphenated]
  simp [List.getElem?_append, List.drop_append, ha, hb, hc, he, List.drop_eq_nil_of_le]

theorem mem_nibbles {k n : ℕ} {c : Char} (hc : c ∈ nibbles k n) : ∃ d < 16, c = Nat.digitChar d := by
  induction k generalizing n with
  | zero => cases hc
  | succ k ih =>
    rcases List.mem_append.mp hc with hc | hc
    · exact ih hc
    · exact ⟨n % 16, Nat.mod_lt n (by norm_num), List.mem_singleton.mp hc⟩

theorem digitChar_ne : ∀ d < 16, (Nat.digitChar d).toLower ≠ 'u' ∧ Nat.digitChar d ≠ '{' := by decide

theorem nibbles_head (k n : ℕ) {c : Char} (h : (nibbles k n).head? = some c) :
    c.toLower ≠ 'u' ∧ c ≠ '{' := by
  induction k generalizing n with
  | zero => cases h
  | succ k ih =>
    rw [nibbles, List.head?_append] at h
    rcases hh : (nibbles k (n / 16)).head? with _ | c'
    · rw [hh] at h
      cases h
      exact digitChar_ne _ (Nat.mod_lt n (by norm_num))
    · rw [hh] at h
      cases h
      exact ih _ hh

/-- **The text of a UUID parses back to it.** -/
theorem parse_toString (u : Uuid) : parse u.toString = some u := by
  have hlen : (hyphenated (nibbles 32 u)).length = 36 := by simp [hyphenated]
  have hhead : ∀ c, (hyphenated (nibbles 32 u)).head? = some c → c.toLower ≠ 'u' ∧ c ≠ '{' := by
    intro c hc
    refine nibbles_head 32 u (c := c) ?_
    rw [← hc]
    rcases hn : nibbles 32 u with _ | ⟨x, l⟩
    · have := length_nibbles 32 u; rw [hn] at this; cases this
    · rfl
  have hsimple : parseHyphenated (hyphenated (nibbles 32 u)) = some u := by
    rw [parseHyphenated_hyphenated (length_nibbles 32 u), parseSimple,
      if_pos (length_nibbles 32 u), readHex_nibbles]
    have hu : (u : ℕ) % 16 ^ 32 = u := Nat.mod_eq_of_lt (lt_of_lt_of_le u.2 (by norm_num))
    rw [hu]
    simp [Fin.ofNat_eq_cast]
  have hlist : u.toString.toList = hyphenated (nibbles 32 u) := by
    simp [Uuid.toString]
  unfold parse
  rw [hlist]
  generalize hyphenated (nibbles 32 u) = cs at *
  rcases cs with _ | ⟨c, cs⟩
  · cases hlen
  · obtain ⟨h₁, h₂⟩ := hhead c rfl
    have hurn : isUrn (c :: cs) = false := decide_eq_false fun h => h₁ (List.cons.inj h).1
    rw [hurn, if_neg Bool.false_ne_true]
    split
    · rename_i heq; cases heq; exact absurd rfl h₂
    · rw [if_neg (by omega)]; exact hsimple

end Uuid

/-! ## Values -/

/-- A number: an integer, or the bits of a double. -/
inductive Number
  | int (n : ℤ)
  | float (bits : UInt64)
deriving DecidableEq

/-- `serde_json::Value`. -/
inductive Json
  | null
  | bool (b : Bool)
  | num (n : Number)
  | str (s : String)
  | arr (xs : List Json)
  | obj (kvs : List (String × Json))

namespace Json

/-- `v[k]` on an object; `none` stands for the missing entry. -/
def get? : Json → String → Option Json
  | obj kvs, k => kvs.lookup k
  | _, _ => none

/-- `Value::as_str`. -/
def asStr : Json → Option String
  | str s => some s
  | _ => none

/-- The name of an enum variant without fields: a string, or the only key of an object with the value null. -/
def variant? : Json → Option String
  | str s => some s
  | obj [(s, null)] => some s
  | _ => none

/-- An integer. -/
def int (n : ℤ) : Json := num (.int n)

end Json

/-! ## Codecs -/

/-- A type with `Serialize` and `Deserialize`. `missing` is what a struct field of this type reads
when its entry is absent and it has no default: `None` for an option, an error otherwise. -/
class Serde (α : Type) where
  toValue : α → Json
  fromValue : Json → Option α
  missing : Option α := none

export Serde (toValue fromValue)

namespace Serde

instance : Serde Json := ⟨id, some, none⟩

instance : Serde Bool where
  toValue := .bool
  fromValue
    | .bool b => some b
    | _ => none

instance : Serde String where
  toValue := .str
  fromValue
    | .str s => some s
    | _ => none

/-- An integer type that holds the values from `lo` to `hi`. -/
@[reducible] def intRange {α : Type} (lo hi : ℤ) (toInt : α → ℤ) (ofInt : ℤ → α) : Serde α where
  toValue a := .int (toInt a)
  fromValue
    | .num (.int n) => if lo ≤ n ∧ n ≤ hi then some (ofInt n) else none
    | _ => none

instance : Serde UInt16 := intRange 0 (2 ^ 16 - 1) (fun a => a.toNat) fun n => .ofNat n.toNat
instance : Serde UInt32 := intRange 0 (2 ^ 32 - 1) (fun a => a.toNat) fun n => .ofNat n.toNat
instance : Serde Int32 := intRange (-2 ^ 31) (2 ^ 31 - 1) Int32.toInt Int32.ofInt
instance : Serde Int64 := intRange (-2 ^ 63) (2 ^ 63 - 1) Int64.toInt Int64.ofInt

instance : Serde Uuid where
  toValue u := .str u.toString
  fromValue
    | .str s => Uuid.parse s
    | _ => none

instance {α : Type} [Serde α] : Serde (Option α) where
  toValue
    | none => .null
    | some a => toValue a
  fromValue
    | .null => some none
    | v => (fromValue v).map some
  missing := some none

instance {α : Type} [Serde α] : Serde (List α) where
  toValue l := .arr (l.map toValue)
  fromValue
    | .arr xs => xs.mapM fromValue
    | _ => none

end Serde

/-- What a derived `Deserialize` reads a struct from. -/
inductive Fields
  | map (kvs : List (String × Json))
  | seq (xs : List Json)

namespace Fields

variable {α : Type} [Serde α]

/-- The fields of a struct of `n` fields. -/
def of (n : ℕ) : Json → Option Fields
  | .obj kvs => some (map kvs)
  | .arr xs => if xs.length ≤ n then some (seq xs) else none
  | _ => none

/-- A field without a default, the `i`-th of its struct. -/
def required : Fields → ℕ → String → Option α
  | map kvs, _, name =>
    match kvs.lookup name with
    | some v => fromValue v
    | none => Serde.missing
  | seq xs, i, _ => xs[i]?.bind fromValue

/-- A field with `#[serde(default)]` or `#[serde(default = "d")]`. -/
def orElse (d : α) : Fields → ℕ → String → Option α
  | map kvs, _, name =>
    match kvs.lookup name with
    | some v => fromValue v
    | none => some d
  | seq xs, i, _ =>
    match xs[i]? with
    | some v => fromValue v
    | none => some d

end Fields

/-- An entry with `#[serde(skip_serializing_if = "Option::is_none")]`. -/
def optEntry {α : Type} [Serde α] (name : String) : Option α → List (String × Json)
  | none => []
  | some a => [(name, toValue a)]

/-- An entry that is always written. -/
def entry {α : Type} [Serde α] (name : String) (a : α) : String × Json := (name, toValue a)

@[simp] theorem lookup_optEntry {α : Type} [Serde α] (name k : String) (a : Option α) :
    (optEntry name a).lookup k = if k = name then a.map toValue else none := by
  cases a with
  | none => simp [optEntry]
  | some a =>
    by_cases h : k = name
    · simp [optEntry, h]
    · simp [optEntry, List.lookup_cons, h, beq_eq_false_iff_ne.mpr h]

@[simp] theorem lookup_entry_cons {α : Type} [Serde α] (name k : String) (a : α)
    (kvs : List (String × Json)) :
    (entry name a :: kvs).lookup k = if k = name then some (toValue a) else kvs.lookup k := by
  by_cases h : k = name
  · simp [entry, h]
  · simp [entry, List.lookup_cons, h, beq_eq_false_iff_ne.mpr h]

/-! ## Decoding what was encoded -/

/-- What is read back from an encoded value: the value, but `None` for `Some(null)`. -/
class Rereads (α : Type) [Serde α] where
  reread : α → α
  fromValue_toValue : ∀ a : α, fromValue (toValue a) = some (reread a)

export Rereads (reread fromValue_toValue)

/-- Every value is read back as it is. -/
class Exact (α : Type) [Serde α] [Rereads α] : Prop where
  reread_eq : ∀ a : α, reread a = a

/-- No value is encoded as `null`. -/
class NonNull (α : Type) [Serde α] : Prop where
  toValue_ne_null : ∀ a : α, toValue a ≠ .null

/-- What has been decoded is read back as it is. -/
class Settled (α : Type) [Serde α] [Rereads α] : Prop where
  reread_of_fromValue : ∀ {v : Json} {a : α}, fromValue v = some a → reread a = a
  reread_of_missing : ∀ {a : α}, Serde.missing = some a → reread a = a

attribute [simp] Exact.reread_eq

namespace Rereads

variable {α : Type} [Serde α] [Rereads α]

instance : Rereads Json := ⟨id, fun _ => rfl⟩
instance : Rereads Bool := ⟨id, fun _ => rfl⟩
instance : Rereads String := ⟨id, fun _ => rfl⟩
instance : Rereads Uuid := ⟨id, Uuid.parse_toString⟩

/-- Integers in range. -/
@[reducible] def intRange {α : Type} {lo hi : ℤ} {toInt : α → ℤ} {ofInt : ℤ → α}
    (h : ∀ a, lo ≤ toInt a ∧ toInt a ≤ hi) (hof : ∀ a, ofInt (toInt a) = a) :
    @Rereads α (Serde.intRange lo hi toInt ofInt) :=
  @Rereads.mk α (Serde.intRange lo hi toInt ofInt) id fun a => (if_pos (h a)).trans (congrArg some (hof a))

instance : Rereads UInt16 :=
  intRange (fun a => ⟨Int.natCast_nonneg _, by have := a.toNat_lt; omega⟩) fun a => UInt16.ofNat_toNat
instance : Rereads UInt32 :=
  intRange (fun a => ⟨Int.natCast_nonneg _, by have := a.toNat_lt; omega⟩) fun a => UInt32.ofNat_toNat
instance : Rereads Int32 :=
  intRange (fun a => ⟨a.le_toInt, by have := a.toInt_lt; omega⟩) Int32.ofInt_toInt
instance : Rereads Int64 :=
  intRange (fun a => ⟨a.le_toInt, by have := a.toInt_lt; omega⟩) Int64.ofInt_toInt

instance : Rereads (Option α) where
  reread
    | none => none
    | some a =>
      match toValue a with
      | .null => none
      | _ => some (reread a)
  fromValue_toValue
    | none => rfl
    | some a => by
      have h := fromValue_toValue a
      show (match toValue a with
        | .null => some none
        | v => (fromValue v).map some) = some (match toValue a with
          | .null => none
          | _ => some (reread a))
      generalize toValue a = v at h
      cases v with
      | null => rfl
      | _ => simp only [h, Option.map_some]

theorem mapM_fromValue (l : List α) : (l.map toValue).mapM fromValue = some (l.map reread) := by
  induction l with
  | nil => rfl
  | cons a l ih => simp [List.mapM_cons, fromValue_toValue, ih]

instance : Rereads (List α) := ⟨List.map reread, mapM_fromValue⟩

end Rereads

instance : Exact Json := ⟨fun _ => rfl⟩
instance : Exact Bool := ⟨fun _ => rfl⟩
instance : Exact String := ⟨fun _ => rfl⟩
instance : Exact Uuid := ⟨fun _ => rfl⟩
instance : Exact UInt16 := ⟨fun _ => rfl⟩
instance : Exact UInt32 := ⟨fun _ => rfl⟩
instance : Exact Int32 := ⟨fun _ => rfl⟩
instance : Exact Int64 := ⟨fun _ => rfl⟩

instance : NonNull Bool := ⟨fun _ h => by cases h⟩
instance : NonNull String := ⟨fun _ h => by cases h⟩
instance : NonNull Uuid := ⟨fun _ h => by cases h⟩
instance : NonNull UInt32 := ⟨fun _ h => by cases h⟩
instance {α : Type} [Serde α] : NonNull (List α) := ⟨fun _ h => by cases h⟩

section Reread

variable {α : Type} [Serde α] [Rereads α] {a : α} {v : Json}

@[simp] theorem reread_none : reread (none : Option α) = none := rfl

@[simp] theorem reread_some [NonNull α] : reread (some a) = some (reread a) := by
  show (match toValue a with
    | .null => none
    | _ => some (reread a)) = _
  have h := NonNull.toValue_ne_null a
  generalize toValue a = v at h
  cases v with
  | null => exact absurd rfl h
  | _ => rfl

instance [Exact α] [NonNull α] : Exact (Option α) where
  reread_eq
    | none => rfl
    | some a => by rw [reread_some, Exact.reread_eq]

instance [Exact α] : Exact (List α) where
  reread_eq l := (List.map_congr_left fun a _ => Exact.reread_eq a).trans (List.map_id' l)

instance [Exact α] : Settled α := ⟨fun _ => Exact.reread_eq _, fun _ => Exact.reread_eq _⟩

omit [Rereads α] in
theorem fromValue_some {o : Option α} (h : fromValue v = some o) :
    o = none ∨ v ≠ .null ∧ ∃ a, o = some a ∧ fromValue v = some a := by
  cases v with
  | null => cases h; exact .inl rfl
  | _ =>
    obtain ⟨a, ha, rfl⟩ := Option.map_eq_some_iff.mp (show Option.map some _ = some o from h)
    exact .inr ⟨by simp, a, rfl, ha⟩

instance [Settled α] [NonNull α] : Settled (Option α) where
  reread_of_fromValue h := by
    obtain rfl | ⟨-, a, rfl, ha⟩ := fromValue_some h
    · rfl
    · rw [reread_some, Settled.reread_of_fromValue ha]
  reread_of_missing h := by
    cases h
    rfl

/-- An optional JSON value is read back unless it is `Some(null)`. -/
theorem reread_json_iff {o : Option Json} : reread o = o ↔ o ≠ some .null := by
  cases o with
  | none => simp
  | some v =>
    cases v with
    | null => exact iff_of_false (by show ¬ none = some Json.null; simp) (by simp)
    | _ => exact iff_of_true rfl (by simp)

instance : Settled (Option Json) where
  reread_of_fromValue h := by
    refine reread_json_iff.mpr ?_
    obtain rfl | ⟨hv, a, rfl, ha⟩ := fromValue_some h
    · simp
    · cases ha
      simpa using hv
  reread_of_missing h := by
    cases h
    rfl

namespace Fields

variable {f : Fields} {i : ℕ} {name : String} {d : α}

theorem reread_orElse [Settled α] (hd : reread d = d) (h : f.orElse d i name = some a) : reread a = a := by
  cases f with
  | map kvs =>
    rw [orElse] at h
    split at h
    · exact Settled.reread_of_fromValue h
    · cases h
      exact hd
  | seq xs =>
    rw [orElse] at h
    split at h
    · exact Settled.reread_of_fromValue h
    · cases h
      exact hd

end Fields

namespace Fields

variable {β : Type} {kvs : List (String × Json)} {i : ℕ} {name : String} {g : α → Option β}

/-- A field that has been written is read back. -/
theorem bind_required (h : kvs.lookup name = some (toValue a)) :
    ((map kvs).required i name >>= g) = g (reread a) := by
  rw [required, h]
  simp [fromValue_toValue]

theorem bind_orElse {d : α} (h : kvs.lookup name = some (toValue a)) :
    ((map kvs).orElse d i name >>= g) = g (reread a) := by
  rw [orElse, h]
  simp [fromValue_toValue]

/-- A field that is not written when it is empty. -/
theorem bind_optional {g : Option α → Option β} {o : Option α} (h : kvs.lookup name = o.map toValue) :
    ((map kvs).required i name >>= g) = g (reread o) := by
  rw [required, h]
  cases o with
  | none => rfl
  | some a =>
    simp only [Option.map_some]
    exact congrArg (· >>= g) (fromValue_toValue (some a))

end Fields

/-- **A value round-trips** exactly if it is what is read back from it. -/
theorem roundTrips_iff : fromValue (toValue a) = some a ↔ reread a = a := by
  rw [fromValue_toValue, Option.some.injEq]

end Reread

end FireCtrl
