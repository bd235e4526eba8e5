import FireCtrl.Json
import FireCtrl.Lib.Cidr
import FireCtrl.Lib.Retry

/-!
# Webhooks (`fire_webhook` in `worker.rs`)

* `Ipv4Addr`, `Ipv6Addr`: addresses and the tests of the standard library, and the blocks that these stand for:
  `Ipv4Addr.local_iff`, `Ipv6Addr.local_iff`.
* `isLocalWebhook`, `fireWebhook`: the guard, and the delivery with its retries; `Webhook.deliverFrom_requests`: at
  most three requests, all the same. **`Webhook.fireWebhook_cases`**: after which answers there is another one, and
  what is returned.
* `Host.Local`: what designates a local target, and `Host.Escapes`: the spellings that the guard misses.
  **`guarded_iff`**: it misses nothing else.
-/

namespace FireCtrl

open Cidr (Block)
open Retry (Verdict retry attempts)

/-! ## Addresses -/

structure Ipv4Addr where
  a : UInt8
  b : UInt8
  c : UInt8
  d : UInt8
deriving DecidableEq

namespace Ipv4Addr

variable (ip : Ipv4Addr)

def isLoopback : Bool := ip.a = 127

def isPrivate : Bool := ip.a = 10 ∨ ip.a = 172 ∧ 16 ≤ ip.b ∧ ip.b ≤ 31 ∨ ip.a = 192 ∧ ip.b = 168

def isLinkLocal : Bool := ip.a = 169 ∧ ip.b = 254

def isBroadcast : Bool := ip = ⟨255, 255, 255, 255⟩

def isUnspecified : Bool := ip = ⟨0, 0, 0, 0⟩

def isMulticast : Bool := 224 ≤ ip.a ∧ ip.a ≤ 239

/-- The 32 bits. -/
def toNat : ℕ := ((ip.a.toNat * 2 ^ 8 + ip.b.toNat) * 2 ^ 8 + ip.c.toNat) * 2 ^ 8 + ip.d.toNat

/-- In decimal, with dots. -/
protected def toString : String :=
  toString ip.a.toNat ++ "." ++ toString ip.b.toNat ++ "." ++ toString ip.c.toNat ++ "." ++ toString ip.d.toNat

/-- The loopback, private, link-local, broadcast, unspecified and multicast addresses. -/
def localBlocks : List (Block (16 + 16)) :=
  [⟨0x7f00 * 2 ^ 16, 8⟩, ⟨0x0a00 * 2 ^ 16, 8⟩, ⟨0xac10 * 2 ^ 16, 12⟩, ⟨0xc0a8 * 2 ^ 16, 16⟩,
    ⟨0xa9fe * 2 ^ 16, 16⟩, ⟨0xffffffff, 32⟩, ⟨0, 32⟩, ⟨0xe000 * 2 ^ 16, 4⟩]

def Local : Prop := ∃ block ∈ localBlocks, block.Contains ip.toNat

end Ipv4Addr

/-- An IPv6 address, as its eight segments. -/
structure Ipv6Addr where
  s₀ : UInt16
  s₁ : UInt16
  s₂ : UInt16
  s₃ : UInt16
  s₄ : UInt16
  s₅ : UInt16
  s₆ : UInt16
  s₇ : UInt16
deriving DecidableEq

namespace Ipv6Addr

variable (ip : Ipv6Addr)

def isLoopback : Bool := ip = ⟨0, 0, 0, 0, 0, 0, 0, 1⟩

def isUniqueLocal : Bool := ip.s₀ &&& 0xfe00 = 0xfc00

def isUnicastLinkLocal : Bool := ip.s₀ &&& 0xffc0 = 0xfe80

def isUnspecified : Bool := ip = ⟨0, 0, 0, 0, 0, 0, 0, 0⟩

/-- The first byte is `0xff`. -/
def isMulticast : Bool := ip.s₀ >>> 8 = 0xff

/-- The bits below the first segment. -/
def low : ℕ :=
  (((((ip.s₁.toNat * 2 ^ 16 + ip.s₂.toNat) * 2 ^ 16 + ip.s₃.toNat) * 2 ^ 16 + ip.s₄.toNat) * 2 ^ 16 + ip.s₅.toNat) *
    2 ^ 16 + ip.s₆.toNat) * 2 ^ 16 + ip.s₇.toNat

/-- The 128 bits. -/
def toNat : ℕ := ip.s₀.toNat * 2 ^ 112 + ip.low

/-- The loopback, unique-local, link-local, unspecified and multicast addresses. -/
def localBlocks : List (Block (16 + 112)) :=
  [⟨1, 128⟩, ⟨0xfc00 * 2 ^ 112, 7⟩, ⟨0xfe80 * 2 ^ 112, 10⟩, ⟨0, 128⟩, ⟨0xff00 * 2 ^ 112, 8⟩]

def Local : Prop := ∃ block ∈ localBlocks, block.Contains ip.toNat

end Ipv6Addr

/-- `::ffff:a.b.c.d`. -/
def Ipv4Addr.toIpv6Mapped (ip : Ipv4Addr) : Ipv6Addr :=
  ⟨0, 0, 0, 0, 0, 0xffff, ip.a.toUInt16 * 256 + ip.b.toUInt16, ip.c.toUInt16 * 256 + ip.d.toUInt16⟩

/-- `url::Host`. -/
inductive Host
  | domain (domain : String)
  | ipv4 (ip : Ipv4Addr)
  | ipv6 (ip : Ipv6Addr)

/-! ## The guard -/

/-- What the delivery uses of the `url` crate. -/
structure WebhookUrls where
  Url : Type
  parse : String → Except String Url
  host : Url → Option Host

/-- `str::eq_ignore_ascii_case`. -/
def eqIgnoreAsciiCase (s t : String) : Bool := s.toList.map Char.toLower = t.toList.map Char.toLower

/-- The tests of `is_local_webhook`. -/
def Host.isLocal : Host → Bool
  | domain d => eqIgnoreAsciiCase d "localhost"
  | ipv4 v4 =>
    v4.isLoopback || v4.isPrivate || v4.isLinkLocal || v4.isBroadcast || v4.isUnspecified || v4.isMulticast
  | ipv6 v6 =>
    v6.isLoopback || v6.isUniqueLocal || v6.isUnicastLinkLocal || v6.isUnspecified || v6.isMulticast

def isLocalWebhook (urls : WebhookUrls) (url : String) : Bool :=
  match urls.parse url with
  | .error _ => false
  | .ok parsed =>
    match urls.host parsed with
    | none => false
    | some host => host.isLocal

/-! ## The delivery -/

/-- A `POST`. -/
structure WebhookRequest where
  url : String
  payload : Json

namespace Webhook

-- `client` is what the attempts are answered: an error, or a status
variable (client : ℕ → Except String UInt16) (request : WebhookRequest)

/-- A server error, or too many requests. -/
def retryable (status : UInt16) : Bool := 500 ≤ status ∧ status < 600 ∨ status = 429

/-- The attempts from the `attempt`-th one on: whether one is a success, and the requests that are sent. -/
def deliverFrom : ℕ → ℕ → Bool × List WebhookRequest
  | 0, _ => (false, [])
  | n + 1, attempt =>
    match client attempt with
    | .ok status =>
      if 200 ≤ status ∧ status < 300 then (true, [request])
      else if !retryable status || attempt = 2 then (false, [request])
      else ((deliverFrom n (attempt + 1)).1, request :: (deliverFrom n (attempt + 1)).2)
    | .error _ =>
      if attempt = 2 then (false, [request])
      else ((deliverFrom n (attempt + 1)).1, request :: (deliverFrom n (attempt + 1)).2)

variable {client request} in
/-- Every attempt sends the same request. -/
theorem deliverFrom_requests (n attempt : ℕ) :
    (deliverFrom client request n attempt).2.length ≤ n ∧
      (∀ r ∈ (deliverFrom client request n attempt).2, r = request) ∧
      (0 < n → (deliverFrom client request n attempt).2 ≠ []) := by
  induction n generalizing attempt with
  | zero => exact ⟨Nat.le_refl _, fun _ hr => absurd hr List.not_mem_nil, fun h => absurd h (Nat.lt_irrefl 0)⟩
  | succ n ih =>
    have hone : ([request] : List WebhookRequest).length ≤ n + 1 ∧ (∀ r ∈ [request], r = request) ∧
        (0 < n + 1 → [request] ≠ []) :=
      ⟨by simp, fun r hr => List.mem_singleton.mp hr, fun _ => List.cons_ne_nil _ _⟩
    have hmore : (request :: (deliverFrom client request n (attempt + 1)).2).length ≤ n + 1 ∧
        (∀ r ∈ request :: (deliverFrom client request n (attempt + 1)).2, r = request) ∧
        (0 < n + 1 → request :: (deliverFrom client request n (attempt + 1)).2 ≠ []) := by
      obtain ⟨hlen, hall, -⟩ := ih (attempt + 1)
      exact ⟨Nat.succ_le_succ hlen, List.forall_mem_cons.mpr ⟨rfl, hall⟩, fun _ => List.cons_ne_nil _ _⟩
    rw [deliverFrom]
    split
    · split_ifs
      · exact hone
      · exact hone
      · exact hmore
    · split_ifs
      · exact hone
      · exact hmore

/-- Whether the message was delivered, and what was sent. -/
def fireWebhook (urls : WebhookUrls) (allowLocalWebhooks : Bool) (url : String) (payload : Json) :
    Bool × List WebhookRequest :=
  if !allowLocalWebhooks && isLocalWebhook urls url then (false, [])
  else deliverFrom client ⟨url, payload⟩ 3 0

/-- The guard decides whether anything is sent. -/
theorem fireWebhook_eq_nil_iff (urls : WebhookUrls) (url : String) (payload : Json) :
    (fireWebhook client urls false url payload).2 = [] ↔ isLocalWebhook urls url = true := by
  unfold fireWebhook
  cases isLocalWebhook urls url with
  | true => exact iff_of_true rfl rfl
  | false => exact iff_of_false ((deliverFrom_requests 3 0).2.2 (by decide)) (by decide)

/-- The message has been delivered. -/
def Delivered (a : Except String UInt16) : Prop := ∃ status, a = .ok status ∧ 200 ≤ status ∧ status < 300

/-- There has been an error, or the status tells to try again. -/
def Retried (a : Except String UInt16) : Prop :=
  (∃ e, a = .error e) ∨ ∃ status, a = .ok status ∧ retryable status = true

/-- What an attempt comes to. -/
def verdict (client : ℕ → Except String UInt16) (attempt : ℕ) : Verdict Unit Bool :=
  match client attempt with
  | .ok status =>
    if 200 ≤ status ∧ status < 300 then .stop true else if retryable status then .again () else .stop false
  | .error _ => .again ()

section Delivery

variable {client request} {i : ℕ}

theorem not_retryable {status : UInt16} (h : 200 ≤ status ∧ status < 300) : ¬ retryable status = true := by
  simp only [retryable, decide_eq_true_eq, UInt16.le_iff_toNat_le, UInt16.lt_iff_toNat_lt, ← UInt16.toNat_inj,
    UInt16.reduceToNat] at h ⊢
  omega

theorem verdict_cases : verdict client i = .again () ∧ Retried (client i) ∧ ¬ Delivered (client i) ∨
    ∃ b, verdict client i = .stop b ∧ ¬ Retried (client i) ∧ (b = true ↔ Delivered (client i)) := by
  unfold verdict Retried Delivered
  cases client i with
  | error e => exact .inl ⟨rfl, .inl ⟨e, rfl⟩, fun ⟨_, h, _⟩ => by cases h⟩
  | ok status =>
    by_cases hok : 200 ≤ status ∧ status < 300
    · have hno := not_retryable hok
      exact .inr ⟨true, by simp [hok], by simp [hno], by simp [hok]⟩
    · by_cases hretry : retryable status = true
      · exact .inl ⟨by simp [hok, hretry], .inr ⟨status, rfl, hretry⟩, by simpa using hok⟩
      · exact .inr ⟨false, by simp [hok, hretry], by simp [hretry], by simpa using hok⟩

theorem deliverFrom_stop {b : Bool} (hv : verdict client i = .stop b) (n : ℕ) :
    deliverFrom client request (n + 1) i = (b, [request]) := by
  unfold verdict at hv
  rw [deliverFrom]
  cases hc : client i with
  | error e =>
    rw [hc] at hv
    cases hv
  | ok status =>
    rw [hc] at hv
    dsimp only at hv ⊢
    split_ifs at hv with hok hretry
    · cases hv
      rw [if_pos hok]
    · cases hv
      rw [if_neg hok, Bool.eq_false_of_not_eq_true hretry]
      rfl

theorem deliverFrom_again (hv : verdict client i = .again ()) (n : ℕ) :
    deliverFrom client request (n + 1) i =
      if i = 2 then (false, [request])
      else ((deliverFrom client request n (i + 1)).1, request :: (deliverFrom client request n (i + 1)).2) := by
  unfold verdict at hv
  rw [deliverFrom]
  cases hc : client i with
  | error e => rfl
  | ok status =>
    rw [hc] at hv
    dsimp only at hv ⊢
    split_ifs at hv with hok hretry
    rw [if_neg hok, hretry]
    simp only [Bool.not_true, Bool.false_or, decide_eq_true_eq]

/-- The delivery is a loop of `Retry`. -/
theorem deliverFrom_eq (n attempt : ℕ) (hn : attempt + n = 3) : deliverFrom client request n attempt =
    (decide (retry (verdict client) n attempt () = .ok true),
      (attempts (verdict client) n attempt).map fun _ => request) := by
  induction n generalizing attempt with
  | zero => rfl
  | succ n ih =>
    rw [retry, attempts]
    cases hv : verdict client attempt with
    | stop b =>
      rw [deliverFrom_stop hv]
      cases b <;> rfl
    | again u =>
      rw [deliverFrom_again hv]
      by_cases htwo : attempt = 2
      · -- the last attempt
        obtain rfl : n = 0 := by omega
        rw [if_pos htwo]
        rfl
      · rw [if_neg htwo, ih (attempt + 1) (by omega)]
        rfl

end Delivery

/-- **What is sent**: nothing to a target that is refused; to any other the same request up to three times, again
exactly after an error or a status that tells so. What is returned is whether the last one was a success. -/
theorem fireWebhook_cases (urls : WebhookUrls) (allowLocalWebhooks : Bool) (url : String) (payload : Json) :
    if allowLocalWebhooks = false ∧ isLocalWebhook urls url = true then
      fireWebhook client urls allowLocalWebhooks url payload = (false, [])
    else ∃ m < 3,
      (fireWebhook client urls allowLocalWebhooks url payload).2 = List.replicate (m + 1) ⟨url, payload⟩ ∧
      ((fireWebhook client urls allowLocalWebhooks url payload).1 = true ↔ Delivered (client m)) ∧
      (∀ i < m, Retried (client i)) ∧ (m < 2 → ¬ Retried (client m)) := by
  split_ifs with hrefused
  · simp [fireWebhook, hrefused]
  · have hfire : fireWebhook client urls allowLocalWebhooks url payload = deliverFrom client ⟨url, payload⟩ 3 0 := by
      unfold fireWebhook
      rw [if_neg (by simpa using hrefused)]
    rw [hfire, deliverFrom_eq 3 0 (by decide)]
    have hretried {n : ℕ} (h : Retry.Undecided (verdict client) 0 n) : ∀ i < n, Retried (client i) := by
      intro i hi
      obtain ⟨u, hu⟩ := h i hi
      rw [Nat.zero_add] at hu
      rcases @verdict_cases client i with ⟨-, hr, -⟩ | ⟨b, hb, -⟩
      · exact hr
      · rw [hu] at hb
        cases hb
    rcases Retry.retry_cases (verdict client) 3 0 with ⟨m, b, hm, hund, hstop⟩ | hund
    · rw [Retry.retry_of_stop hund hstop hm, Retry.attempts_of_stop hund hstop hm]
      rw [Nat.zero_add] at hstop
      rcases @verdict_cases client m with ⟨hagain, -⟩ | ⟨b', hb', hno, hdelivered⟩
      · rw [hstop] at hagain
        cases hagain
      · rw [hstop] at hb'
        cases hb'
        refine ⟨m, hm, by simp, ?_, hretried hund, fun _ => hno⟩
        rw [decide_eq_true_eq, Except.ok.injEq]
        exact hdelivered
    · have hlast : verdict client (0 + 2) = .again () := (hund 2 (by decide)).choose_spec
      rw [Retry.retry_of_undecided hund hlast, Retry.attempts_of_undecided hund]
      rw [Nat.zero_add] at hlast
      refine ⟨2, by decide, by simp, ?_, fun i hi => hretried hund i (by omega), fun h => absurd h (by decide)⟩
      rcases @verdict_cases client 2 with ⟨-, -, hno⟩ | ⟨b, hb, -⟩
      · exact iff_of_false (by simp) hno
      · rw [hlast] at hb
        cases hb

end Webhook

/-! ## Local targets -/

namespace Host

/-- The name or address designates a local target. -/
def Local : Host → Prop
  | domain d => eqIgnoreAsciiCase d "localhost" ∨ eqIgnoreAsciiCase d "localhost." ∨
      ∃ v4 : Ipv4Addr, v4.Local ∧ d = v4.toString
  | ipv4 v4 => v4.Local
  | ipv6 v6 => v6.Local ∨ ∃ v4 : Ipv4Addr, v4.Local ∧ v6 = v4.toIpv6Mapped

/-- `localhost` with a trailing dot, a local IPv4 address as an opaque name, or mapped to IPv6. -/
def Escapes : Host → Prop
  | domain d => eqIgnoreAsciiCase d "localhost." ∨ ∃ v4 : Ipv4Addr, v4.Local ∧ d = v4.toString
  | ipv4 _ => False
  | ipv6 v6 => ∃ v4 : Ipv4Addr, v4.Local ∧ v6 = v4.toIpv6Mapped

end Host

section Addresses

/-- A block of the first two bytes. -/
theorem Ipv4Addr.contains_iff (ip : Ipv4Addr) {c len : ℕ} (hlen : len ≤ 16) :
    (⟨c * 2 ^ 16, len⟩ : Block (16 + 16)).Contains ip.toNat ↔
      (⟨c, len⟩ : Block 16).Contains (ip.a.toNat * 2 ^ 8 + ip.b.toNat) := by
  have hc := ip.c.toNat_lt
  have hd := ip.d.toNat_lt
  have htoNat : ip.toNat = (ip.a.toNat * 2 ^ 8 + ip.b.toNat) * 2 ^ 16 + (ip.c.toNat * 2 ^ 8 + ip.d.toNat) := by
    unfold toNat
    omega
  rw [htoNat, Block.contains_append hlen (by omega), Nat.mul_div_cancel _ (Nat.two_pow_pos 16)]

theorem Ipv4Addr.toNat_eq_iff (ip : Ipv4Addr) {n : UInt8} :
    ip.toNat = ((n.toNat * 2 ^ 8 + n.toNat) * 2 ^ 8 + n.toNat) * 2 ^ 8 + n.toNat ↔ ip = ⟨n, n, n, n⟩ := by
  have ha := ip.a.toNat_lt
  have hb := ip.b.toNat_lt
  have hc := ip.c.toNat_lt
  have hd := ip.d.toNat_lt
  have hn := n.toNat_lt
  obtain ⟨a, b, c, d⟩ := ip
  simp only [toNat, Ipv4Addr.mk.injEq, ← UInt8.toNat_inj] at *
  refine ⟨fun h => ?_, fun ⟨h₁, h₂, h₃, h₄⟩ => by rw [h₁, h₂, h₃, h₄]⟩
  -- digit by digit, from the last one on
  have h₄ : d.toNat = n.toNat := by omega
  have h₃ : c.toNat = n.toNat := by omega
  have h₂ : b.toNat = n.toNat := by omega
  exact ⟨by omega, h₂, h₃, h₄⟩

theorem Ipv4Addr.local_iff (ip : Ipv4Addr) : ip.Local ↔ (Host.ipv4 ip).isLocal = true := by
  have ha := ip.a.toNat_lt
  have hb := ip.b.toNat_lt
  have hloopback : (⟨0x7f00 * 2 ^ 16, 8⟩ : Block (16 + 16)).Contains ip.toNat ↔ ip.isLoopback = true := by
    rw [ip.contains_iff (by decide), isLoopback, decide_eq_true_eq, ← UInt8.toNat_inj]
    simp only [Block.Contains, UInt8.reduceToNat]
    omega
  have hprivate : ((⟨0x0a00 * 2 ^ 16, 8⟩ : Block (16 + 16)).Contains ip.toNat ∨
      (⟨0xac10 * 2 ^ 16, 12⟩ : Block (16 + 16)).Contains ip.toNat ∨
        (⟨0xc0a8 * 2 ^ 16, 16⟩ : Block (16 + 16)).Contains ip.toNat) ↔ ip.isPrivate = true := by
    rw [ip.contains_iff (by decide), ip.contains_iff (by decide), ip.contains_iff (by decide), isPrivate,
      decide_eq_true_eq]
    simp only [Block.Contains, ← UInt8.toNat_inj, UInt8.le_iff_toNat_le, UInt8.reduceToNat]
    omega
  have hlink : (⟨0xa9fe * 2 ^ 16, 16⟩ : Block (16 + 16)).Contains ip.toNat ↔ ip.isLinkLocal = true := by
    rw [ip.contains_iff (by decide), isLinkLocal, decide_eq_true_eq]
    simp only [Block.Contains, ← UInt8.toNat_inj, UInt8.reduceToNat]
    omega
  have hbroadcast : (⟨0xffffffff, 32⟩ : Block (16 + 16)).Contains ip.toNat ↔ ip.isBroadcast = true := by
    rw [isBroadcast, decide_eq_true_eq, ← toNat_eq_iff]
    simp [Block.Contains]
  have hunspecified : (⟨0, 32⟩ : Block (16 + 16)).Contains ip.toNat ↔ ip.isUnspecified = true := by
    rw [isUnspecified, decide_eq_true_eq, ← toNat_eq_iff]
    simp [Block.Contains]
  have hmulticast : (⟨0xe000 * 2 ^ 16, 4⟩ : Block (16 + 16)).Contains ip.toNat ↔ ip.isMulticast = true := by
    rw [ip.contains_iff (by decide), isMulticast, decide_eq_true_eq]
    simp only [Block.Contains, UInt8.le_iff_toNat_le, UInt8.reduceToNat]
    omega
  simp only [Host.isLocal, Bool.or_eq_true, ← hloopback, ← hprivate, ← hlink, ← hbroadcast, ← hunspecified,
    ← hmulticast, or_assoc, Local, localBlocks, List.exists_mem_cons_iff, List.not_mem_nil, false_and, exists_false,
    or_false]

theorem Ipv6Addr.low_lt (ip : Ipv6Addr) : ip.low < 2 ^ 112 := by
  have h₁ := ip.s₁.toNat_lt
  have h₂ := ip.s₂.toNat_lt
  have h₃ := ip.s₃.toNat_lt
  have h₄ := ip.s₄.toNat_lt
  have h₅ := ip.s₅.toNat_lt
  have h₆ := ip.s₆.toNat_lt
  have h₇ := ip.s₇.toNat_lt
  unfold low
  omega

theorem Ipv6Addr.toNat_eq_iff (ip : Ipv6Addr) {n : UInt16} : ip.toNat = n.toNat ↔ ip = ⟨0, 0, 0, 0, 0, 0, 0, n⟩ := by
  have h₀ := ip.s₀.toNat_lt
  have h₁ := ip.s₁.toNat_lt
  have h₂ := ip.s₂.toNat_lt
  have h₃ := ip.s₃.toNat_lt
  have h₄ := ip.s₄.toNat_lt
  have h₅ := ip.s₅.toNat_lt
  have h₆ := ip.s₆.toNat_lt
  have h₇ := ip.s₇.toNat_lt
  have hn := n.toNat_lt
  obtain ⟨s₀, s₁, s₂, s₃, s₄, s₅, s₆, s₇⟩ := ip
  simp only [toNat, low, Ipv6Addr.mk.injEq, ← UInt16.toNat_inj, UInt16.reduceToNat] at *
  omega

/-- A block of the first segment. -/
theorem Ipv6Addr.contains_iff (ip : Ipv6Addr) {c len : ℕ} (hlen : len ≤ 16) :
    (⟨c * 2 ^ 112, len⟩ : Block (16 + 112)).Contains ip.toNat ↔ (⟨c, len⟩ : Block 16).Contains ip.s₀.toNat := by
  rw [toNat, Block.contains_append hlen ip.low_lt, Nat.mul_div_cancel _ (Nat.two_pow_pos 112)]

theorem Ipv6Addr.local_iff (ip : Ipv6Addr) : ip.Local ↔ (Host.ipv6 ip).isLocal = true := by
  have hloopback : (⟨1, 128⟩ : Block (16 + 112)).Contains ip.toNat ↔ ip.isLoopback = true := by
    rw [isLoopback, decide_eq_true_eq, ← toNat_eq_iff]
    simp [Block.Contains]
  have hunspecified : (⟨0, 128⟩ : Block (16 + 112)).Contains ip.toNat ↔ ip.isUnspecified = true := by
    rw [isUnspecified, decide_eq_true_eq, ← toNat_eq_iff]
    simp [Block.Contains]
  have hunique : (⟨0xfc00 * 2 ^ 112, 7⟩ : Block (16 + 112)).Contains ip.toNat ↔ ip.isUniqueLocal = true := by
    rw [ip.contains_iff (by decide), isUniqueLocal, decide_eq_true_eq, ← UInt16.toNat_inj, UInt16.toNat_and]
    exact (Cidr.and_mask_eq_iff (k := 9) ip.s₀.toNat_lt (by decide) (by decide)).symm
  have hlink : (⟨0xfe80 * 2 ^ 112, 10⟩ : Block (16 + 112)).Contains ip.toNat ↔ ip.isUnicastLinkLocal = true := by
    rw [ip.contains_iff (by decide), isUnicastLinkLocal, decide_eq_true_eq, ← UInt16.toNat_inj, UInt16.toNat_and]
    exact (Cidr.and_mask_eq_iff (k := 6) ip.s₀.toNat_lt (by decide) (by decide)).symm
  have hmulticast : (⟨0xff00 * 2 ^ 112, 8⟩ : Block (16 + 112)).Contains ip.toNat ↔ ip.isMulticast = true := by
    rw [ip.contains_iff (by decide), isMulticast, decide_eq_true_eq, ← UInt16.toNat_inj]
    simp [Block.Contains, Nat.shiftRight_eq_div_pow]
  simp only [Host.isLocal, Bool.or_eq_true, ← hloopback, ← hunspecified, ← hunique, ← hlink, ← hmulticast, or_assoc,
    Local, localBlocks, List.exists_mem_cons_iff, List.not_mem_nil, false_and, exists_false, or_false]

end Addresses

section Guard

/-- The decimal form has a dot, and is no other name for `localhost`. -/
theorem Ipv4Addr.toString_not_localhost (ip : Ipv4Addr) : eqIgnoreAsciiCase ip.toString "localhost" = false := by
  rw [eqIgnoreAsciiCase, decide_eq_false_iff_not]
  intro h
  have hdot : '.' ∈ ip.toString.toList := by simp [Ipv4Addr.toString, String.toList_append]
  have hmem : Char.toLower '.' ∈ ip.toString.toList.map Char.toLower := List.mem_map_of_mem hdot
  rw [h] at hmem
  exact absurd hmem (by decide)

theorem eqIgnoreAsciiCase_dot {s : String} (h : eqIgnoreAsciiCase s "localhost." = true) :
    eqIgnoreAsciiCase s "localhost" = false := by
  rw [eqIgnoreAsciiCase, decide_eq_true_eq] at h
  rw [eqIgnoreAsciiCase, h]
  decide

theorem Ipv4Addr.isLocal_toIpv6Mapped (ip : Ipv4Addr) : (Host.ipv6 ip.toIpv6Mapped).isLocal = false := by
  simp [Host.isLocal, toIpv6Mapped, Ipv6Addr.isLoopback, Ipv6Addr.isUniqueLocal, Ipv6Addr.isUnicastLinkLocal,
    Ipv6Addr.isUnspecified, Ipv6Addr.isMulticast]

/-- What the tests miss. -/
theorem Host.isLocal_iff (host : Host) : (host.Local → host.isLocal = true) ↔ ¬ host.Escapes := by
  cases host with
  | domain d =>
    constructor
    · rintro h (hdot | ⟨v4, hv4, rfl⟩)
      · exact absurd (h (.inr (.inl hdot))) (by rw [isLocal, eqIgnoreAsciiCase_dot hdot]; decide)
      · exact absurd (h (.inr (.inr ⟨v4, hv4, rfl⟩))) (by rw [isLocal, v4.toString_not_localhost]; decide)
    · rintro h (hname | hescapes)
      · exact hname
      · exact absurd hescapes h
  | ipv4 v4 => exact iff_of_true v4.local_iff.mp not_false
  | ipv6 v6 =>
    constructor
    · rintro h ⟨v4, hv4, rfl⟩
      exact absurd (h (.inr ⟨v4, hv4, rfl⟩)) (by rw [v4.isLocal_toIpv6Mapped]; decide)
    · rintro h (hlocal | hescapes)
      · exact v6.local_iff.mp hlocal
      · exact absurd hescapes h

end Guard

/-- If the host of the URL designates a local target, the guard finds it and nothing is sent. -/
def Guarded (urls : WebhookUrls) (url : String) : Prop :=
  ∀ parsed host, urls.parse url = .ok parsed → urls.host parsed = some host → host.Local →
    isLocalWebhook urls url = true ∧
      ∀ client payload, (Webhook.fireWebhook client urls false url payload).2 = []

/-- **The guard finds every local target** but `localhost` with a trailing dot, and local IPv4 addresses as
opaque names or mapped to IPv6. -/
theorem guarded_iff (urls : WebhookUrls) (url : String) :
    Guarded urls url ↔
      ∀ parsed host, urls.parse url = .ok parsed → urls.host parsed = some host → ¬ host.Escapes := by
  have hguard {parsed : urls.Url} {host : Host} (hparsed : urls.parse url = .ok parsed)
      (hhost : urls.host parsed = some host) : isLocalWebhook urls url = host.isLocal := by
    unfold isLocalWebhook
    rw [hparsed]
    simp only [hhost]
  constructor
  · intro h parsed host hparsed hhost
    rw [← host.isLocal_iff, ← hguard hparsed hhost]
    exact fun hlocal => (h parsed host hparsed hhost hlocal).1
  · intro h parsed host hparsed hhost hlocal
    have hfound : isLocalWebhook urls url = true := by
      rw [hguard hparsed hhost]
      exact host.isLocal_iff.mpr (h parsed host hparsed hhost) hlocal
    exact ⟨hfound, fun client payload => (Webhook.fireWebhook_eq_nil_iff client urls url payload).mpr hfound⟩

/-- One URL with an address that is mapped to IPv6. -/
def WebhookUrls.sample : WebhookUrls where
  Url := String
  parse := .ok
  host
    | "http://[::ffff:127.0.0.1]/" => some (.ipv6 ⟨0, 0, 0, 0, 0, 0xffff, 0x7f00, 1⟩)
    | _ => none

/-- The loopback address, mapped to IPv6. -/
theorem not_guarded : ¬ ∀ (urls : WebhookUrls) (url : String), Guarded urls url := by
  intro h
  have hlocal : (Ipv4Addr.mk 127 0 0 1).Local := ⟨⟨0x7f00 * 2 ^ 16, 8⟩, List.mem_cons_self, by decide⟩
  have hfound := (h .sample "http://[::ffff:127.0.0.1]/" "http://[::ffff:127.0.0.1]/" _ rfl rfl
    (.inr ⟨⟨127, 0, 0, 1⟩, hlocal, by decide⟩)).1
  exact absurd hfound (by decide)

end FireCtrl
