-- Failover over several providers (`providers/failover.py`): each stands behind a circuit
-- breaker of its own, and a call goes along the list until one of them answers or fails
-- in a way that another one cannot help with.
import Orchestra.Breaker
import Orchestra.Lib.Text

open texts

namespace orchestra.failover

open orchestra.breaker

/-! ## Errors -/

inductive ErrorCategory
  | retryable
  | terminal
  | modelMismatch
deriving DecidableEq, Repr

/-- An exception: the names of its class and of the classes above, and its text. -/
structure ProviderException where
  classes : List String
  message : String
deriving DecidableEq, Repr

def ProviderException.isInstance (exc : ProviderException) (cls : String) : Bool :=
  exc.classes.contains cls

/-- `c.lower()`, for the letters whose lower case has a letter of ASCII. -/
def lowerLetter (c : Char) : List Char :=
  if c.toNat = 0x212A then ['k']
  else if c.toNat = 0x130 then ['i', Char.ofNat 0x307]
  else [c.toLower]

/-- `str(exc).lower()`. Other letters than those of ASCII are looked for nowhere. -/
def lowerText (text : String) : String := String.ofList (text.toList.flatMap lowerLetter)

def terminalKeywords : List String := ["unauthorized", "invalid api key", "401", "403"]

def mismatchKeywords : List String := ["context_length_exceeded", "max tokens", "too long"]

def retryableKeywords : List String :=
  ["rate_limit", "429", "timeout", "deadline", "500", "502", "503", "504", "server error",
    "connection", "unavailable", "overloaded"]

def classifyError (exc : ProviderException) : ErrorCategory :=
  if exc.isInstance "AuthenticationError" then .terminal
  else if exc.isInstance "ContextWindowError" then .modelMismatch
  else if exc.isInstance "RateLimitError" then .retryable
  else
    let msg := lowerText exc.message
    if terminalKeywords.any (contains msg) then .terminal
    else if mismatchKeywords.any (contains msg) then .modelMismatch
    else if retryableKeywords.any (contains msg) then .retryable
    -- an unknown error is not swallowed
    else .terminal

/-! ## The chain -/

/-- A provider with its breaker and its latencies, and what a call of it comes to. The
clock is read when the breaker is asked, around the call, and when a failure is recorded. -/
structure Provider (T R : Type) where
  breaker : AsyncCircuitBreaker T
  latencies : List T
  asked : T
  started : T
  outcome : Except ProviderException R
  ended : T

/-- What a call of the chain leaves of a provider: its breaker and its latencies, the calls
of the breaker, and whether the provider was called. -/
structure Visit (T : Type) where
  breaker : AsyncCircuitBreaker T
  latencies : List T
  recorded : List (Call T)
  called : Bool
deriving DecidableEq

/-- How a call of the chain ends: with a response, with the exception of a provider, or
with an `AllProvidersUnavailableError` of its own. -/
inductive Ending (R : Type)
  | returned (response : R)
  | reraised (exc : ProviderException)
  | unavailable (message : String)
deriving DecidableEq

def maxHistory : Nat := 20

section failover

variable {T R : Type} [Zero T] [Sub T] [LE T] [DecidableLE T]

/-- `_track_latency`, in the unit of the clock. -/
def trackLatency (history : List T) (latency : T) : List T :=
  let longer := history ++ [latency]
  if maxHistory < longer.length then longer.tail else longer

/-- A provider that the call does not come to. -/
def untouched (p : Provider T R) : Visit T := ⟨p.breaker, p.latencies, [], false⟩

def rejected (c : Config T) (p : Provider T R) : Visit T :=
  ⟨(allowRequest c p.breaker p.asked).1, p.latencies, [.allowRequest p.asked], false⟩

def succeeded (c : Config T) (p : Provider T R) : Visit T :=
  ⟨recordSuccess (allowRequest c p.breaker p.asked).1,
    trackLatency p.latencies (p.ended - p.started), [.allowRequest p.asked, .recordSuccess], true⟩

def failed (c : Config T) (p : Provider T R) : Visit T :=
  ⟨recordFailure c (allowRequest c p.breaker p.asked).1 p.ended, p.latencies,
    [.allowRequest p.asked, .recordFailure p.ended], true⟩

def unavailableMessage (providers : Nat) (errors : List ProviderException) : String :=
  "All " ++ toString providers ++ " providers failed: " ++ listText (errors.map (·.message))

/-- The loop of `complete`, with the errors so far. -/
def attempt (c : Config T) (providers : Nat) :
    List (Provider T R) → List ProviderException → Ending R × List (Visit T)
  | [], errors => (.unavailable (unavailableMessage providers errors), [])
  | p :: rest, errors =>
    if (allowRequest c p.breaker p.asked).2 then
      match p.outcome with
      | .ok response => (.returned response, succeeded c p :: rest.map untouched)
      | .error exc =>
        match classifyError exc with
        | .terminal | .modelMismatch => (.reraised exc, failed c p :: rest.map untouched)
        | .retryable =>
          let further := attempt c providers rest (errors ++ [exc])
          (further.1, failed c p :: further.2)
    else
      let further := attempt c providers rest errors
      (further.1, rejected c p :: further.2)

/-- `ProviderFailover.complete` -/
def complete (c : Config T) (providers : List (Provider T R)) : Ending R × List (Visit T) :=
  attempt c providers.length providers []

/-! ## One provider after the other -/

/-- The breaker lets the call through. -/
abbrev Admitted (c : Config T) (p : Provider T R) : Prop :=
  (allowRequest c p.breaker p.asked).2 = true

/-- The provider has the last word. -/
inductive Settles (c : Config T) (p : Provider T R) : Ending R → Prop
  | answers {response : R} (admitted : Admitted c p) (ok : p.outcome = .ok response) :
    Settles c p (.returned response)
  | fails {exc : ProviderException} (admitted : Admitted c p) (error : p.outcome = .error exc)
    (final : classifyError exc ≠ .retryable) : Settles c p (.reraised exc)

variable {c : Config T} {providers : List (Provider T R)} {p : Provider T R}

/-- A visit of a provider accounts for its calls of the breaker: one outcome for a provider
that is called, the one it had, and none for any other. -/
structure Accounts (c : Config T) (p : Provider T R) (visit : Visit T) : Prop where
  breaker : visit.breaker = visit.recorded.foldl (fun b call => (step c b call).1) p.breaker
  admitted : visit.called = true → Admitted c p
  outcome : visit.called = true → visit.recorded = [.allowRequest p.asked,
    match p.outcome with
    | .ok _ => .recordSuccess
    | .error _ => .recordFailure p.ended]
  silent : visit.called = false → ∀ call ∈ visit.recorded, ¬ call.IsOutcome

end failover

end orchestra.failover
