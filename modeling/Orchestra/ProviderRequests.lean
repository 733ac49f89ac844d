-- Requests to the providers (`providers/http.py`, `anthropic.py`, `google.py` and `ollama.py`):
-- what an error status is taken for, which replies are asked for again and how long is waited.
import Orchestra.Failover
import Orchestra.Lib.Attempts

open programs Program attempts texts
open orchestra.failover (ProviderException lowerText)

namespace orchestra.provider_requests

variable {D : Type}

/-! ## Errors -/

def providerError (message : String) : ProviderException :=
  ⟨["ProviderError", "OrchestraError", "Exception"], message⟩

/-- An error of a class below `ProviderError`. -/
def subError (cls message : String) : ProviderException :=
  ⟨[cls, "ProviderError", "OrchestraError", "Exception"], message⟩

def authenticationError : String → ProviderException := subError "AuthenticationError"

def rateLimitError : String → ProviderException := subError "RateLimitError"

def contextWindowError : String → ProviderException := subError "ContextWindowError"

def providerUnavailableError : String → ProviderException := subError "ProviderUnavailableError"

/-- What a request comes to: a response, with what its `json()` gives, an `httpx.ConnectError`, another
`httpx.HTTPError`, or an exception of another kind. -/
inductive Reply (D : Type)
  | response (status : Nat) (text : String) (json : Except ProviderException D)
  | connectError (text : String)
  | httpError (text : String)
  | raised (e : ProviderException)

/-- A request: where it goes, and its body. -/
structure Request (D : Type) where
  endpoint : String
  body : D

abbrev Code (D : Type) : Type := attempts.Code (Request D) (Reply D) ProviderException D

abbrev Trace (D : Type) : Type := attempts.Trace (Request D) (Reply D)

def response (text : String) : String := "\n  Response: " ++ cut text 200

/-- The errors of a 429, of the server and of any other status, which the providers share. -/
def commonErrorStatus (status : Nat) (text : String) : ProviderException :=
  if status = 429 then rateLimitError ("Rate limited (429)." ++ response text)
  else if 500 ≤ status then
    providerUnavailableError ("Provider error (" ++ toString status ++ ")." ++ response text)
  else providerError ("HTTP " ++ toString status ++ "." ++ response text)

def contextWindowExceeded (text : String) : ProviderException :=
  contextWindowError ("Context window exceeded." ++ response text ++
    "\n  Fix: Reduce input length or use a model with a larger context window.")

/-! ## The retries -/

/-- The `except` clauses of a request, as far as they are about the errors of a status. -/
def caught (exc : ProviderException) : Verdict ProviderException D :=
  if exc.isInstance "AuthenticationError" || exc.isInstance "ContextWindowError" then
    .stop (.error exc)
  else if exc.isInstance "RateLimitError" || exc.isInstance "ProviderUnavailableError" then
    .again exc
  else .stop (.error exc)

/-- `_request_with_retry`, of a provider with this `_handle_error_status` and this text about a
transport error. No `retry_after_seconds` is ever set. -/
def retryPolicy (handleErrorStatus : Nat → String → ProviderException)
    (transport : String → String) : Policy (Reply D) ProviderException D where
  judge
    | .response status text json => if status = 200 then .stop json
      else caught (handleErrorStatus status text)
    | .connectError text | .httpError text => .again (providerUnavailableError (transport text))
    | .raised e => .stop (.error e)
  delay k
    | .response _ _ _ => min (2 ^ k) 30
    | _ => 2 ^ k

def exhausted : ProviderException := providerError "Request failed after retries"

/-- `for attempt in range(max_retries + 1)` -/
def withRetries (P : Policy (Reply D) ProviderException D) (maxRetries : Int) (request : Request D) :
    Code D :=
  P.run request 0 (maxRetries + 1).toNat (.error exhausted)

/-! ## The providers -/

structure HttpProvider where
  baseUrl : String
  maxRetries : Int := 3

def HttpProvider.handleErrorStatus (status : Nat) (text : String) : ProviderException :=
  if status = 401 then
    authenticationError
      "Authentication failed (401).\n  Fix: Check your API key or set OPENAI_API_KEY env var."
  else if status = 429 then commonErrorStatus status text
  else if status = 400 && contains (lowerText text) "context_length" then contextWindowExceeded text
  else commonErrorStatus status text

def HttpProvider.policy (p : HttpProvider) : Policy (Reply D) ProviderException D :=
  retryPolicy HttpProvider.handleErrorStatus fun e =>
    "HTTP error: " ++ e ++ "\n  Endpoint: " ++ p.baseUrl ++
      "\n  Fix: Check that the endpoint is running and reachable."

def HttpProvider.requestWithRetry (p : HttpProvider) (body : D) : Code D :=
  withRetries p.policy p.maxRetries ⟨"/chat/completions", body⟩

structure AnthropicProvider where
  maxRetries : Int := 3

def AnthropicProvider.handleErrorStatus (status : Nat) (text : String) : ProviderException :=
  if status = 401 then
    authenticationError
      "Authentication failed (401).\n  Fix: Check your API key or set ANTHROPIC_API_KEY env var."
  else if status = 429 then commonErrorStatus status text
  else if status = 400 && contains (lowerText text) "context" then contextWindowExceeded text
  else commonErrorStatus status text

def AnthropicProvider.policy : Policy (Reply D) ProviderException D :=
  retryPolicy AnthropicProvider.handleErrorStatus fun e =>
    "HTTP error: " ++ e ++ "\n  Endpoint: https://api.anthropic.com" ++
      "\n  Fix: Check network connectivity."

def AnthropicProvider.requestWithRetry (p : AnthropicProvider) (body : D) : Code D :=
  withRetries AnthropicProvider.policy p.maxRetries ⟨"/v1/messages", body⟩

structure GoogleProvider where
  apiKey : String
  maxRetries : Int := 3

def GoogleProvider.handleErrorStatus (status : Nat) (text : String) : ProviderException :=
  if status = 400 then
    let lower := lowerText text
    if contains lower "context" || contains lower "token" || contains lower "length" then
      contextWindowExceeded text
    else providerError ("Bad request (400)." ++ response text)
  else if status = 403 then
    authenticationError ("Permission denied (403).\n" ++
      "  Fix: Check your API key or set GOOGLE_API_KEY env var.\n" ++
      "  Ensure the Generative Language API is enabled in your Google Cloud project.")
  else if status = 401 then
    authenticationError
      "Authentication failed (401).\n  Fix: Check your API key or set GOOGLE_API_KEY env var."
  else commonErrorStatus status text

def GoogleProvider.policy : Policy (Reply D) ProviderException D :=
  retryPolicy GoogleProvider.handleErrorStatus fun e =>
    "HTTP error: " ++ e ++ "\n  Endpoint: https://generativelanguage.googleapis.com" ++
      "\n  Fix: Check network connectivity."

def GoogleProvider.requestWithRetry (p : GoogleProvider) (model : String) (body : D) : Code D :=
  withRetries GoogleProvider.policy p.maxRetries
    ⟨"/v1beta/models/" ++ model ++ ":generateContent?key=" ++ p.apiKey, body⟩

structure OllamaProvider where
  baseUrl : String

def OllamaProvider.handleErrorStatus (model : String) (status : Nat) (text : String) :
    ProviderException :=
  if status = 404 then
    let lower := lowerText text
    if contains lower "model" || contains lower "not found" then
      providerError ("Model '" ++ model ++ "' not found in Ollama." ++ response text ++
        "\n  Fix: Run `ollama pull " ++ model ++ "` to download the model.")
    else providerError ("Not found (404)." ++ response text)
  else if status = 400 then
    providerError ("Bad request (400)." ++ response text ++
      "\n  Note: Some Ollama models do not support tool calling. " ++
      "Try a model like llama3.1 or mistral.")
  else if status = 500 then
    providerUnavailableError ("Ollama internal error (500)." ++ response text)
  else if 500 ≤ status then
    providerUnavailableError ("Ollama server error (" ++ toString status ++ ")." ++ response text)
  else providerError ("HTTP " ++ toString status ++ "." ++ response text)

def OllamaProvider.cannotConnect (p : OllamaProvider) (e : String) : ProviderException :=
  providerUnavailableError ("Cannot connect to Ollama at " ++ p.baseUrl ++ ".\n  Error: " ++ e ++
    "\n  Fix: Start Ollama with `ollama serve` or check that it is running." ++
    "\n  Download: https://ollama.com")

/-- The `except` clauses of Ollama. The first of them is about every `ProviderError`. -/
def OllamaProvider.caught (exc : ProviderException) : Verdict ProviderException D :=
  if exc.isInstance "ProviderError" then .stop (.error exc)
  else if exc.isInstance "RateLimitError" || exc.isInstance "ProviderUnavailableError" then
    .again exc
  else .stop (.error exc)

def OllamaProvider.policy (p : OllamaProvider) (model : String) :
    Policy (Reply D) ProviderException D where
  judge
    | .response status text json => if status = 200 then .stop json
      else OllamaProvider.caught (OllamaProvider.handleErrorStatus model status text)
    | .connectError e => .stop (.error (p.cannotConnect e))
    | .httpError e =>
      .again (providerUnavailableError ("HTTP error connecting to Ollama: " ++ e ++
        "\n  Endpoint: " ++ p.baseUrl ++ "\n  Fix: Check that Ollama is running and reachable."))
    | .raised e => .stop (.error e)
  delay k _ := 2 ^ k

def OllamaProvider.requestWithRetry (p : OllamaProvider) (model : String) (body : D) : Code D :=
  withRetries (p.policy model) 3 ⟨"/chat/completions", body⟩

/-- The providers whose requests are retried in one way. -/
inductive Provider
  | http (p : HttpProvider)
  | anthropic (p : AnthropicProvider)
  | google (p : GoogleProvider)

def Provider.maxRetries : Provider → Int
  | .http p => p.maxRetries
  | .anthropic p => p.maxRetries
  | .google p => p.maxRetries

def Provider.policy : Provider → Policy (Reply D) ProviderException D
  | .http p => p.policy
  | .anthropic _ => AnthropicProvider.policy
  | .google _ => GoogleProvider.policy

def Provider.request (p : Provider) (model : String) (body : D) : Request D :=
  match p with
  | .http _ => ⟨"/chat/completions", body⟩
  | .anthropic _ => ⟨"/v1/messages", body⟩
  | .google p => ⟨"/v1beta/models/" ++ model ++ ":generateContent?key=" ++ p.apiKey, body⟩

def Provider.requestWithRetry (p : Provider) (model : String) (body : D) : Code D :=
  match p with
  | .http p => p.requestWithRetry body
  | .anthropic p => p.requestWithRetry body
  | .google p => p.requestWithRetry model body

/-! ## What is retried -/

/-- A status that may pass. -/
def PassingStatus (status : Nat) : Prop := status = 429 ∨ 500 ≤ status

/-- A reply that may pass: a 429, an error of the server or of the transport. -/
def Passing : Reply D → Prop
  | .response status _ _ => PassingStatus status
  | .connectError _ | .httpError _ => True
  | .raised _ => False

/-- The error of a status is retried when the status may pass. -/
def Sorts (handleErrorStatus : Nat → String → ProviderException) : Prop :=
  ∀ status text, (∃ e, (caught (handleErrorStatus status text) : Verdict ProviderException Unit) =
    .again e) ↔ PassingStatus status

theorem caught_authentication (message : String) :
    (caught (authenticationError message) : Verdict ProviderException D) =
      .stop (.error (authenticationError message)) := by
  simp [caught, ProviderException.isInstance, authenticationError, subError]

theorem caught_contextWindow (text : String) :
    (caught (contextWindowExceeded text) : Verdict ProviderException D) =
      .stop (.error (contextWindowExceeded text)) := by
  simp [caught, ProviderException.isInstance, contextWindowExceeded, contextWindowError, subError]

theorem caught_rateLimit (message : String) :
    (caught (rateLimitError message) : Verdict ProviderException D) =
      .again (rateLimitError message) := by
  simp [caught, ProviderException.isInstance, rateLimitError, subError]

theorem caught_unavailable (message : String) :
    (caught (providerUnavailableError message) : Verdict ProviderException D) =
      .again (providerUnavailableError message) := by
  simp [caught, ProviderException.isInstance, providerUnavailableError, subError]

theorem caught_provider (message : String) :
    (caught (providerError message) : Verdict ProviderException D) =
      .stop (.error (providerError message)) := by
  simp [caught, ProviderException.isInstance, providerError]

theorem sorts_common : Sorts commonErrorStatus := by
  intro status text
  unfold commonErrorStatus PassingStatus
  split
  · simp [caught_rateLimit, *]
  · split
    · simp [caught_unavailable, *]
    · simp [caught_provider, *]

theorem sorts_http : Sorts HttpProvider.handleErrorStatus := by
  intro status text
  unfold HttpProvider.handleErrorStatus
  split
  · simp [caught_authentication, PassingStatus, *]
  split
  · exact sorts_common status text
  split
  · rename_i hcontext
    have hstatus : status = 400 := by simp at hcontext; exact hcontext.1
    simp [caught_contextWindow, PassingStatus, hstatus]
  · exact sorts_common status text

theorem sorts_anthropic : Sorts AnthropicProvider.handleErrorStatus := by
  intro status text
  unfold AnthropicProvider.handleErrorStatus
  split
  · simp [caught_authentication, PassingStatus, *]
  split
  · exact sorts_common status text
  split
  · rename_i hcontext
    have hstatus : status = 400 := by simp at hcontext; exact hcontext.1
    simp [caught_contextWindow, PassingStatus, hstatus]
  · exact sorts_common status text

theorem sorts_google : Sorts GoogleProvider.handleErrorStatus := by
  intro status text
  unfold GoogleProvider.handleErrorStatus
  split
  · simp only
    split
    · simp [caught_contextWindow, PassingStatus, *]
    · simp [caught_provider, PassingStatus, *]
  split
  · simp [caught_authentication, PassingStatus, *]
  split
  · simp [caught_authentication, PassingStatus, *]
  · exact sorts_common status text

/-- Whether an error is retried does not depend on what a response would give. -/
theorem caught_again_iff (exc : ProviderException) :
    (∃ e, (caught exc : Verdict ProviderException D) = .again e) ↔
      ∃ e, (caught exc : Verdict ProviderException Unit) = .again e := by
  unfold caught
  split
  · simp
  · split <;> simp

theorem Provider.transient_iff (p : Provider) (x : Reply D) :
    (p.policy : Policy (Reply D) ProviderException D).Transient x ↔ Passing x := by
  obtain ⟨handle, transport, hsorts, hpolicy⟩ :
      ∃ handle transport, Sorts handle ∧
        (p.policy : Policy (Reply D) ProviderException D) = retryPolicy handle transport := by
    cases p with
    | http p => exact ⟨_, _, sorts_http, rfl⟩
    | anthropic p => exact ⟨_, _, sorts_anthropic, rfl⟩
    | google p => exact ⟨_, _, sorts_google, rfl⟩
  rw [hpolicy]
  unfold Policy.Transient retryPolicy
  cases x with
  | response status text json =>
    simp only [Passing]
    split
    · rename_i hok
      simp [PassingStatus, hok]
    · rw [caught_again_iff, hsorts status text]
  | connectError e | httpError e => simp [Passing]
  | raised e => simp [Passing]

/-! ## The runs -/

variable {t : Trace D} {r : Except ProviderException D}

/-- The runs of a number of retries that may be negative. -/
theorem withRetries_iff {P : Policy (Reply D) ProviderException D} {maxRetries : Int}
    {request : Request D} : Path (withRetries P maxRetries request) t (.done r) ↔
      (maxRetries < 0 ∧ t = [] ∧ r = .error exhausted) ∨
        ∃ failed last, P.Course request 0 (maxRetries + 1).toNat failed last t r := by
  unfold withRetries
  by_cases hneg : maxRetries < 0
  · rw [show (maxRetries + 1).toNat = 0 by omega]
    constructor
    · intro h
      obtain ⟨rfl, rfl⟩ := path_done h
      exact Or.inl ⟨hneg, rfl, rfl⟩
    · rintro (⟨-, rfl, rfl⟩ | ⟨failed, last, hcourse⟩)
      · exact .stay _
      · exact absurd hcourse.room (Nat.not_lt_zero _)
  · rw [path_iff _ (by omega)]
    simp [hneg]

theorem Provider.requestWithRetry_eq (p : Provider) (model : String) (body : D) :
    p.requestWithRetry model body = withRetries p.policy p.maxRetries (p.request model body) := by
  cases p <;> rfl

/-- A run of a provider over HTTP: every reply before the last one was a 429, an error of the server
or of the transport, there are at most `max_retries` of them, the last reply is such an error
only when no retry is left, and the run ends as the last reply says. -/
theorem only_passing_failures_are_retried (p : Provider) (model : String) (body : D)
    (t : Trace D) (r : Except ProviderException D) :
    Path (p.requestWithRetry model body) t (.done r) ↔
      (p.maxRetries < 0 ∧ t = [] ∧ r = .error exhausted) ∨
      ∃ failed last, t = p.policy.waits (p.request model body) 0 failed ++
          [⟨.post (p.request model body), last⟩] ∧
        (∀ x ∈ failed, Passing x) ∧ (failed.length : Int) ≤ p.maxRetries ∧
        (Passing last → failed.length = p.maxRetries) ∧ r = p.policy.outcome last := by
  rw [Provider.requestWithRetry_eq, withRetries_iff]
  refine or_congr Iff.rfl (exists_congr fun failed => exists_congr fun last => ?_)
  constructor
  · rintro ⟨htrace, htransient, hroom, hgaveUp, houtcome⟩
    refine ⟨htrace, fun x hx => (p.transient_iff x).mp (htransient x hx), by omega, fun hlast => ?_,
      houtcome⟩
    have := hgaveUp ((p.transient_iff last).mpr hlast)
    omega
  · rintro ⟨htrace, hpassing, hroom, hlast, houtcome⟩
    refine ⟨htrace, fun x hx => (p.transient_iff x).mpr (hpassing x hx), by omega, fun h => ?_,
      houtcome⟩
    have := hlast ((p.transient_iff last).mp h)
    omega

theorem Provider.delay_le (p : Provider) (k : Nat) (x : Reply D) :
    (p.policy : Policy (Reply D) ProviderException D).delay k x ≤ 2 ^ k := by
  cases p <;> cases x <;> first | exact Nat.min_le_left .. | exact Nat.le_refl _

/-- However the replies come, a call makes at most `max_retries + 1` requests and sleeps
less than `2 ^ max_retries` seconds. -/
theorem requests_are_bounded {p : Provider} {model : String} {body : D}
    (h : Path (p.requestWithRetry model body) t (.done r)) :
    tally posts t ≤ (p.maxRetries + 1).toNat ∧ tally slept t < 2 ^ p.maxRetries.toNat := by
  rw [Provider.requestWithRetry_eq, withRetries_iff] at h
  rcases h with ⟨-, rfl, -⟩ | ⟨failed, last, rfl, -, hroom, -, -⟩
  · exact ⟨Nat.zero_le _, Nat.two_pow_pos _⟩
  · have hslept : tally slept (p.policy.waits (p.request model body) 0 failed) + 2 ^ 0 ≤
        2 ^ (0 + failed.length) := slept_waits p.delay_le 0 failed
    have hpow : 2 ^ (0 + failed.length) ≤ 2 ^ p.maxRetries.toNat :=
      Nat.pow_le_pow_right (by omega) (by omega)
    rw [tally_concat, tally_concat, posts_waits]
    simp only [posts, slept]
    omega

/-- A server that is busy once is asked twice, and is left alone for a second. -/
theorem a_busy_server_is_asked_twice :
    tally posts ([⟨.post ⟨"/chat/completions", ()⟩, .response 503 "busy" (.ok ())⟩, ⟨.sleep 1, ()⟩,
        ⟨.post ⟨"/chat/completions", ()⟩, .response 200 "{}" (.ok ())⟩] : Trace Unit) ≤ 4 ∧
      tally slept ([⟨.post ⟨"/chat/completions", ()⟩, .response 503 "busy" (.ok ())⟩, ⟨.sleep 1, ()⟩,
        ⟨.post ⟨"/chat/completions", ()⟩, .response 200 "{}" (.ok ())⟩] : Trace Unit) < 8 := by
  let p : Provider := .http ⟨"http://localhost:8000/v1", 3⟩
  have hfailed : ∀ x ∈ [(.response 503 "busy" (.ok ()) : Reply Unit)], p.policy.Transient x := by
    intro x hx
    rw [List.mem_singleton.mp hx]
    exact (p.transient_iff _).mpr (Or.inr (by decide))
  have hlast : ¬p.policy.Transient (.response 200 "{}" (.ok ()) : Reply Unit) := by
    rw [p.transient_iff]
    simp [Passing, PassingStatus]
  have hpath : Path (p.requestWithRetry "m" ()) _ (.done (.ok ())) :=
    path_of_course _ ⟨rfl, hfailed, by decide, fun h => absurd h hlast, rfl⟩
  exact requests_are_bounded hpath

/-! ## Ollama -/

/-- Each error of a status is a `ProviderError`, and so is final. -/
theorem ollama_caught (model : String) (status : Nat) (text : String) :
    (OllamaProvider.caught (OllamaProvider.handleErrorStatus model status text) :
      Verdict ProviderException D) =
        .stop (.error (OllamaProvider.handleErrorStatus model status text)) := by
  have hclass : (OllamaProvider.handleErrorStatus model status text).isInstance "ProviderError" =
      true := by
    unfold OllamaProvider.handleErrorStatus
    split
    · simp only
      split <;> simp [ProviderException.isInstance, providerError]
    split
    · simp [ProviderException.isInstance, providerError]
    split
    · simp [ProviderException.isInstance, providerUnavailableError, subError]
    split
    · simp [ProviderException.isInstance, providerUnavailableError, subError]
    · simp [ProviderException.isInstance, providerError]
  unfold OllamaProvider.caught
  rw [if_pos hclass]

theorem ollama_transient_iff (p : OllamaProvider) (model : String) (x : Reply D) :
    (p.policy model : Policy (Reply D) ProviderException D).Transient x ↔
      ∃ e, x = .httpError e := by
  unfold Policy.Transient OllamaProvider.policy
  cases x with
  | response status text json =>
    simp only
    split
    · simp
    · simp [ollama_caught]
  | _ => simp

/-- Ollama is asked again only after an error of the transport that is not a failed connection, at
most three times. Any status ends the call at once, a 429 or an error of the server as well. -/
theorem ollama_retries_no_status (p : OllamaProvider) (model : String) (body : D)
    (t : Trace D) (r : Except ProviderException D) :
    Path (p.requestWithRetry model body) t (.done r) ↔
      ∃ (failed : List String) (last : Reply D), failed.length ≤ 3 ∧
        t = (p.policy model).waits ⟨"/chat/completions", body⟩ 0 (failed.map Reply.httpError) ++
          [⟨.post ⟨"/chat/completions", body⟩, last⟩] ∧
        ((∃ e, last = .httpError e) → failed.length = 3) ∧ r = (p.policy model).outcome last := by
  unfold OllamaProvider.requestWithRetry
  rw [withRetries_iff]
  constructor
  · rintro (⟨hneg, -, -⟩ | ⟨failed, last, htrace, htransient, hroom, hgaveUp, houtcome⟩)
    · omega
    · obtain ⟨texts, rfl⟩ : ∃ texts : List String, failed = texts.map Reply.httpError := by
        clear htrace hroom hgaveUp
        induction failed with
        | nil => exact ⟨[], rfl⟩
        | cons x rest ih =>
          obtain ⟨texts, rfl⟩ := ih fun y hy => htransient y (List.mem_cons_of_mem _ hy)
          obtain ⟨e, rfl⟩ := (ollama_transient_iff p model x).mp (htransient x (List.mem_cons_self ..))
          exact ⟨e :: texts, rfl⟩
      rw [List.length_map] at hroom hgaveUp
      refine ⟨texts, last, by omega, htrace, fun hlast => ?_, houtcome⟩
      have := hgaveUp ((ollama_transient_iff p model last).mpr hlast)
      omega
  · rintro ⟨texts, last, hroom, htrace, hlast, houtcome⟩
    refine Or.inr ⟨texts.map Reply.httpError, last, htrace, fun x hx => ?_, ?_, fun h => ?_, houtcome⟩
    · obtain ⟨e, -, rfl⟩ := List.mem_map.mp hx
      exact (ollama_transient_iff p model _).mpr ⟨e, rfl⟩
    · rw [List.length_map]
      omega
    · rw [List.length_map]
      have := hlast ((ollama_transient_iff p model last).mp h)
      omega

end orchestra.provider_requests
