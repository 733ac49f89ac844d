-- The token bucket of `security/rate_limit.py`, with times and tokens as exact numbers: what
-- it lets through in any window of time.
import Orchestra.Values
import Orchestra.Lib.Windows
import Mathlib.Tactic.Linarith
import Mathlib.Tactic.Ring
import Mathlib.Algebra.Order.Field.Rat
import Mathlib.Data.List.Induction

open dicts windows

namespace orchestra.rate_limit

/-! ## The limiter -/

structure BucketState where
  tokens : Rat
  lastRefill : Rat

structure TokenBucket where
  maxTokens : Int
  windowSeconds : Rat
  tokensPerRequest : Int
  buckets : Dict String BucketState

namespace TokenBucket

/-- `TokenBucket(max_tokens, window_seconds, tokens_per_request)` -/
def create (maxTokens : Int) (windowSeconds : Rat) (tokensPerRequest : Int) :
    Except Raised TokenBucket :=
  if maxTokens < 1 then .error ⟨"ValueError", "max_tokens must be >= 1", false⟩
  else if windowSeconds ≤ 0 then .error ⟨"ValueError", "window_seconds must be > 0", false⟩
  else .ok ⟨maxTokens, windowSeconds, tokensPerRequest, .empty⟩

/-- Tokens per second. -/
def refillRate (l : TokenBucket) : Rat := l.maxTokens / l.windowSeconds

/-- The bucket with what has come in since its last refill. -/
def refilled (l : TokenBucket) (bucket : BucketState) (now : Rat) : BucketState :=
  let elapsed := now - bucket.lastRefill
  if 0 < elapsed then ⟨min l.maxTokens (bucket.tokens + elapsed * l.refillRate), now⟩
  else bucket

/-- A new identity has a full bucket. -/
def bucketOf (l : TokenBucket) (identity : String) (now : Rat) : BucketState :=
  (l.buckets.get? identity).getD ⟨l.maxTokens, now⟩

def allow (l : TokenBucket) (identity : String) (now : Rat) : TokenBucket × Bool :=
  let bucket := l.refilled (l.bucketOf identity now) now
  if l.tokensPerRequest ≤ bucket.tokens then
    let left := { bucket with tokens := bucket.tokens - l.tokensPerRequest }
    ({ l with buckets := l.buckets.set identity left }, true)
  else ({ l with buckets := l.buckets.set identity bucket }, false)

def remaining (l : TokenBucket) (identity : String) (now : Rat) : Rat :=
  match l.buckets.get? identity with
  | none => l.maxTokens
  | some bucket => (l.refilled bucket now).tokens

def reset (l : TokenBucket) : Option String → TokenBucket
  | none => { l with buckets := .empty }
  | some identity => { l with buckets := l.buckets.erase identity }

def trackedIdentities (l : TokenBucket) : Nat := l.buckets.size

end TokenBucket

/-! ## Requests -/

/-- An identity and a time. -/
abbrev Request := Entry String Rat

/-- The limiter after a request, and the requests that it has allowed. -/
def handle (s : TokenBucket × List Request) (r : Request) : TokenBucket × List Request :=
  ((s.1.allow r.key r.time).1,
    if (s.1.allow r.key r.time).2 then s.2 ++ [r] else s.2)

def serve (l : TokenBucket) (requests : List Request) : TokenBucket × List Request :=
  requests.foldl handle (l, [])

/-! ## One bucket -/

variable {l : TokenBucket} {identity : String}

/-- A refill brings in no more than the rate gives, and not beyond the brim. -/
structure Refills (l : TokenBucket) (bucket after : BucketState) (now : Rat) : Prop where
  kept : 0 ≤ bucket.tokens → 0 ≤ after.tokens
  full : bucket.tokens ≤ l.maxTokens → after.tokens ≤ l.maxTokens
  gained : after.tokens ≤ bucket.tokens + (now - bucket.lastRefill) * l.refillRate
  time : after.lastRefill = now

theorem refills (hmax : 0 ≤ l.maxTokens) (hrate : 0 ≤ l.refillRate) {bucket : BucketState}
    {now : Rat} (h : bucket.lastRefill ≤ now) : Refills l bucket (l.refilled bucket now) now := by
  unfold TokenBucket.refilled
  by_cases helapsed : 0 < now - bucket.lastRefill
  · simp only [if_pos helapsed]
    have hmax' : (0 : Rat) ≤ l.maxTokens := by exact_mod_cast hmax
    have hgain : 0 ≤ (now - bucket.lastRefill) * l.refillRate := mul_nonneg helapsed.le hrate
    exact
      { kept := fun htokens => le_min hmax' (add_nonneg htokens hgain)
        full := fun _ => min_le_left _ _
        gained := min_le_right _ _
        time := rfl }
  · have hnow : now = bucket.lastRefill := by linarith
    simp only [if_neg helapsed]
    exact
      { kept := id
        full := id
        gained := by rw [hnow, sub_self, zero_mul, add_zero]
        time := hnow.symm }

/-- What an identity was allowed so far, against the tokens of its bucket. -/
structure Metered (l : TokenBucket) (bucket : BucketState) (allowed : List Rat) : Prop where
  low : 0 ≤ bucket.tokens
  high : bucket.tokens ≤ l.maxTokens
  past : ∀ t ∈ allowed, t ≤ bucket.lastRefill
  since : ∀ a ≤ bucket.lastRefill, l.tokensPerRequest * countIn a bucket.lastRefill allowed +
    bucket.tokens ≤ l.maxTokens + l.refillRate * (bucket.lastRefill - a)
  within : ∀ a b, a ≤ b →
    l.tokensPerRequest * countIn a b allowed ≤ l.maxTokens + l.refillRate * (b - a)

theorem metered_new (hmax : 0 ≤ l.maxTokens) (hrate : 0 ≤ l.refillRate) (now : Rat) :
    Metered l ⟨l.maxTokens, now⟩ [] := by
  have hmax' : (0 : Rat) ≤ l.maxTokens := by exact_mod_cast hmax
  have hgain : ∀ a b : Rat, a ≤ b → 0 ≤ l.refillRate * (b - a) :=
    fun a b hab => mul_nonneg hrate (sub_nonneg.mpr hab)
  refine ⟨hmax', le_rfl, by simp, fun a ha => ?_, fun a b hab => ?_⟩
  · have := hgain a now ha
    simp only [countIn_nil, Nat.cast_zero, mul_zero]
    linarith
  · have := hgain a b hab
    simp only [countIn_nil, Nat.cast_zero, mul_zero]
    linarith

theorem Metered.refilled {bucket : BucketState} {allowed : List Rat} (h : Metered l bucket allowed)
    (hmax : 0 ≤ l.maxTokens) (hrate : 0 ≤ l.refillRate) {now : Rat}
    (hnow : bucket.lastRefill ≤ now) : Metered l (l.refilled bucket now) allowed := by
  obtain ⟨hkept, hfull, hgained, htime⟩ := refills hmax hrate hnow
  have hpast : ∀ t ∈ allowed, t ≤ now := fun t ht => (h.past t ht).trans hnow
  refine ⟨hkept h.low, hfull h.high, by rwa [htime], fun a ha => ?_, h.within⟩
  rw [htime] at ha ⊢
  by_cases hlast : a ≤ bucket.lastRefill
  · have hsince := h.since a hlast
    rw [countIn_of_after h.past hpast] at hsince
    have hrates : l.refillRate * (now - a) = l.refillRate * (bucket.lastRefill - a) +
        (now - bucket.lastRefill) * l.refillRate := by ring
    linarith
  · -- Nothing was allowed since `a`, and the bucket is not above its brim.
    have hnone : countIn a now allowed = 0 :=
      countIn_of_before fun t ht => (h.past t ht).trans_lt (not_le.mp hlast)
    have hgain : 0 ≤ l.refillRate * (now - a) := mul_nonneg hrate (sub_nonneg.mpr ha)
    have hbrim := hfull h.high
    rw [hnone, Nat.cast_zero, mul_zero]
    linarith

/-- A request is allowed at the time of the last refill, and takes its tokens. -/
theorem Metered.spend {bucket : BucketState} {allowed : List Rat} (h : Metered l bucket allowed)
    (hrate : 0 ≤ l.refillRate) (hcost : 0 ≤ l.tokensPerRequest)
    (henough : l.tokensPerRequest ≤ bucket.tokens) :
    Metered l { bucket with tokens := bucket.tokens - l.tokensPerRequest }
      (allowed ++ [bucket.lastRefill]) := by
  have hcost' : (0 : Rat) ≤ l.tokensPerRequest := by exact_mod_cast hcost
  have hpast : ∀ t ∈ allowed ++ [bucket.lastRefill], t ≤ bucket.lastRefill := by
    intro t ht
    rcases List.mem_append.mp ht with hbefore | hlast
    · exact h.past t hbefore
    · exact (List.mem_singleton.mp hlast).le
  have hsince : ∀ a ≤ bucket.lastRefill, l.tokensPerRequest *
      countIn a bucket.lastRefill (allowed ++ [bucket.lastRefill]) +
        (bucket.tokens - l.tokensPerRequest) ≤
          l.maxTokens + l.refillRate * (bucket.lastRefill - a) := by
    intro a ha
    have hbefore := h.since a ha
    rw [countIn_snoc_of_mem ha le_rfl, Nat.cast_add, Nat.cast_one, mul_add, mul_one]
    linarith
  refine ⟨sub_nonneg.mpr henough, by have := h.high; simp only; linarith, hpast, hsince,
    fun a b hab => ?_⟩
  by_cases hin : a ≤ bucket.lastRefill ∧ bucket.lastRefill ≤ b
  · have hbound := hsince a hin.1
    rw [countIn_of_after hpast fun t ht => (hpast t ht).trans hin.2] at hbound
    have hlater : l.refillRate * (bucket.lastRefill - a) ≤ l.refillRate * (b - a) :=
      mul_le_mul_of_nonneg_left (sub_le_sub_right hin.2 a) hrate
    linarith
  · rw [countIn_snoc_of_not hin]
    exact h.within a b hab

/-! ## Any sequence of requests -/

/-- The limiter after the requests, as far as one identity goes. -/
structure Keeps (l : TokenBucket) (identity : String) (requests : List Request)
    (s : TokenBucket × List Request) : Prop where
  settings : s.1 = { l with buckets := s.1.buckets }
  unknown : s.1.buckets.get? identity = none → timesOf identity s.2 = []
  known : ∀ bucket, s.1.buckets.get? identity = some bucket →
    Metered l bucket (timesOf identity s.2) ∧ bucket.lastRefill ∈ timesOf identity requests

/-- The two outcomes of a request. -/
theorem handle_cases (s : TokenBucket × List Request) (r : Request) :
    let bucket := s.1.refilled (s.1.bucketOf r.key r.time) r.time
    let left := { bucket with tokens := bucket.tokens - s.1.tokensPerRequest }
    (s.1.tokensPerRequest ≤ bucket.tokens ∧
      handle s r = ({ s.1 with buckets := s.1.buckets.set r.key left }, s.2 ++ [r])) ∨
    handle s r = ({ s.1 with buckets := s.1.buckets.set r.key bucket }, s.2) := by
  intro bucket left
  unfold handle TokenBucket.allow
  by_cases henough : s.1.tokensPerRequest ≤ bucket.tokens
  · refine Or.inl ⟨henough, ?_⟩
    simp only [bucket] at henough
    simp only [henough, if_true, bucket, left]
  · refine Or.inr ?_
    simp only [bucket] at henough
    simp only [henough, if_false, bucket, Bool.false_eq_true]

theorem keeps_other {requests : List Request} {s : TokenBucket × List Request}
    (h : Keeps l identity requests s) {r : Request} (hne : r.key ≠ identity) :
    Keeps l identity (requests ++ [r]) (handle s r) := by
  obtain ⟨hsettings, hunknown, hknown⟩ := h
  obtain ⟨-, heq⟩ | heq := handle_cases s r
  · rw [heq]
    refine ⟨by rw [hsettings], fun hnone => ?_, fun bucket hbucket => ?_⟩
    · rw [Dict.get?_set_ne _ _ hne] at hnone
      rw [timesOf_snoc_other hne, hunknown hnone]
    · rw [Dict.get?_set_ne _ _ hne] at hbucket
      rw [timesOf_snoc_other hne, timesOf_snoc_other hne]
      exact hknown bucket hbucket
  · rw [heq]
    refine ⟨by rw [hsettings], fun hnone => ?_, fun bucket hbucket => ?_⟩
    · rw [Dict.get?_set_ne _ _ hne] at hnone
      exact hunknown hnone
    · rw [Dict.get?_set_ne _ _ hne] at hbucket
      rw [timesOf_snoc_other hne]
      exact hknown bucket hbucket

/-- A bucket that is made or refilled for a request. -/
theorem metered_request {requests : List Request} {s : TokenBucket × List Request}
    (h : Keeps l identity requests s) (hmax : 0 ≤ l.maxTokens) (hrate : 0 ≤ l.refillRate)
    {now : Rat} (horder : ∀ t ∈ timesOf identity requests, t ≤ now) :
    Metered l (s.1.refilled (s.1.bucketOf identity now) now) (timesOf identity s.2) ∧
      (s.1.refilled (s.1.bucketOf identity now) now).lastRefill = now := by
  have hrefilled : s.1.refilled = l.refilled := by rw [h.settings]; rfl
  have hmaxTokens : s.1.maxTokens = l.maxTokens := by rw [h.settings]
  rw [hrefilled]
  unfold TokenBucket.bucketOf
  rcases hbucket : s.1.buckets.get? identity with _ | bucket
  · rw [h.unknown hbucket, Option.getD_none, hmaxTokens]
    exact ⟨(metered_new hmax hrate now).refilled hmax hrate le_rfl,
      (refills hmax hrate le_rfl).time⟩
  · obtain ⟨hmetered, hlast⟩ := h.known bucket hbucket
    have hpast := horder _ hlast
    exact ⟨hmetered.refilled hmax hrate hpast, (refills hmax hrate hpast).time⟩

theorem keeps_own {requests : List Request} {s : TokenBucket × List Request}
    (h : Keeps l identity requests s) (hmax : 0 ≤ l.maxTokens) (hrate : 0 ≤ l.refillRate)
    (hcost : 0 ≤ l.tokensPerRequest) {r : Request} (heq : r.key = identity)
    (horder : ∀ t ∈ timesOf identity requests, t ≤ r.time) :
    Keeps l identity (requests ++ [r]) (handle s r) := by
  subst heq
  have hcosts : s.1.tokensPerRequest = l.tokensPerRequest := by rw [h.settings]
  obtain ⟨hmetered, htime⟩ := metered_request h hmax hrate horder
  have hlast : r.time ∈ timesOf r.key (requests ++ [r]) := by
    rw [timesOf_snoc_self rfl]
    exact List.mem_append_right _ (List.mem_singleton_self _)
  obtain ⟨henough, hcase⟩ | hcase := handle_cases s r
  · rw [hcase]
    refine ⟨by rw [h.settings], fun hnone => ?_, fun bucket hbucket => ?_⟩
    · rw [Dict.get?_set_self] at hnone
      cases hnone
    · rw [Dict.get?_set_self] at hbucket
      obtain rfl := Option.some.inj hbucket
      have hspent := hmetered.spend hrate hcost (by rwa [← hcosts])
      rw [htime] at hspent
      rw [timesOf_snoc_self rfl, hcosts]
      exact ⟨by rwa [htime], by rwa [htime]⟩
  · rw [hcase]
    refine ⟨by rw [h.settings], fun hnone => ?_, fun bucket hbucket => ?_⟩
    · rw [Dict.get?_set_self] at hnone
      cases hnone
    · rw [Dict.get?_set_self] at hbucket
      obtain rfl := Option.some.inj hbucket
      exact ⟨hmetered, by rwa [htime]⟩

theorem keeps_serve (hnew : l.buckets = .empty) (hmax : 0 ≤ l.maxTokens)
    (hrate : 0 ≤ l.refillRate) (hcost : 0 ≤ l.tokensPerRequest) (requests : List Request)
    (horder : (timesOf identity requests).Pairwise (· ≤ ·)) :
    Keeps l identity requests (serve l requests) := by
  induction requests using List.reverseRecOn with
  | nil =>
    refine ⟨rfl, fun _ => rfl, fun bucket hbucket => ?_⟩
    rw [show (serve l []).1.buckets = .empty from hnew] at hbucket
    cases hbucket
  | append_singleton requests r ih =>
    have hkeeps := ih (pairwise_of_snoc horder)
    have hsnoc : serve l (requests ++ [r]) = handle (serve l requests) r := by
      simp only [serve, List.foldl_append, List.foldl_cons, List.foldl_nil]
    rw [hsnoc]
    by_cases hr : r.key = identity
    · exact keeps_own hkeeps hmax hrate hcost hr (le_of_pairwise_snoc hr horder)
    · exact keeps_other hkeeps hr

/-- What is left is enough just when a request is allowed. -/
theorem remaining_iff_allow (l : TokenBucket) (identity : String) (now : Rat) :
    l.tokensPerRequest ≤ l.remaining identity now ↔ (l.allow identity now).2 = true := by
  have hremaining : l.remaining identity now =
      (l.refilled (l.bucketOf identity now) now).tokens := by
    unfold TokenBucket.remaining TokenBucket.bucketOf
    rcases l.buckets.get? identity with _ | bucket
    · simp [TokenBucket.refilled]
    · rfl
  rw [hremaining]
  unfold TokenBucket.allow
  simp only
  split <;> simp [*]

/-- The token bucket enforces its rate: over every sequence of requests, those of other identities
in between, an identity has between no tokens and a full bucket; in no window of time is it
allowed more than a full bucket and what comes in over the window; and it has enough tokens left
just when a request would be allowed. -/
theorem token_bucket_enforces_its_rate {maxTokens tokensPerRequest : Int} {windowSeconds : Rat}
    (hcreate : TokenBucket.create maxTokens windowSeconds tokensPerRequest = .ok l)
    (hcost : 1 ≤ tokensPerRequest) (requests : List Request) (identity : String)
    (horder : (timesOf identity requests).Pairwise (· ≤ ·)) :
    (∀ bucket, (serve l requests).1.buckets.get? identity = some bucket →
      0 ≤ bucket.tokens ∧ bucket.tokens ≤ maxTokens) ∧
    (∀ a b, a ≤ b → tokensPerRequest * countIn a b (timesOf identity (serve l requests).2) ≤
      maxTokens + maxTokens / windowSeconds * (b - a)) ∧
    ∀ now, tokensPerRequest ≤ (serve l requests).1.remaining identity now ↔
      ((serve l requests).1.allow identity now).2 = true := by
  unfold TokenBucket.create at hcreate
  split at hcreate
  · cases hcreate
  rename_i hmax
  split at hcreate
  · cases hcreate
  rename_i hwindow
  obtain rfl := Except.ok.inj hcreate
  have hmax' : (0 : Rat) ≤ maxTokens := by exact_mod_cast (by omega : 0 ≤ maxTokens)
  have hkeeps := keeps_serve (l := ⟨maxTokens, windowSeconds, tokensPerRequest, .empty⟩) rfl
    (by simp only; omega) (div_nonneg hmax' (not_le.mp hwindow).le) (by simp only; omega) requests
    horder
  have hcosts : (serve ⟨maxTokens, windowSeconds, tokensPerRequest, .empty⟩
      requests).1.tokensPerRequest = tokensPerRequest := by
    rw [hkeeps.settings]
  refine ⟨fun bucket hbucket => ?_, fun a b hab => ?_, fun now => ?_⟩
  · obtain ⟨hmetered, -⟩ := hkeeps.known bucket hbucket
    exact ⟨hmetered.low, hmetered.high⟩
  · rcases hbucket : (serve ⟨maxTokens, windowSeconds, tokensPerRequest, .empty⟩
        requests).1.buckets.get? identity with _ | bucket
    · rw [hkeeps.unknown hbucket]
      have hgain := mul_nonneg (div_nonneg hmax' (not_le.mp hwindow).le) (sub_nonneg.mpr hab)
      simp only [countIn_nil, Nat.cast_zero, mul_zero]
      linarith
    · exact (hkeeps.known bucket hbucket).1.within a b hab
  · rw [← remaining_iff_allow, hcosts]

/-- Two tokens in ten seconds. -/
def small : TokenBucket := ⟨2, 10, 1, .empty⟩

def burst : List Request := [⟨"a", 0⟩, ⟨"b", 7⟩, ⟨"a", 1⟩, ⟨"a", 2⟩, ⟨"a", 6⟩]

theorem a_burst_is_cut : timesOf "a" (serve small burst).2 = [0, 1, 6] ∧
    ((1 : Int) : Rat) * countIn 0 6 (timesOf "a" (serve small burst).2) ≤
      ((2 : Int) : Rat) + ((2 : Int) : Rat) / 10 * (6 - 0) := by
  have hcreate : TokenBucket.create 2 10 1 = .ok small := by
    simp [TokenBucket.create, small]
  refine ⟨by decide +kernel, ?_⟩
  exact (token_bucket_enforces_its_rate hcreate le_rfl burst "a" (by decide +kernel)).2.1 0 6
    (by decide +kernel)

end orchestra.rate_limit
