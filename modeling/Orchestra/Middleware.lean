-- The middleware of `server/middleware.py` around an ASGI application: the limit of the request
-- body and the limit of the rate. What the application is given and what is sent for it.
import Orchestra.RateLimit
import Orchestra.Lib.Filters
import Orchestra.Lib.Text

open programs Program filters texts dicts
open orchestra.rate_limit (TokenBucket)

namespace orchestra.middleware

/-! ## Applications -/

/-- The name and the value of a header, read as Latin-1. -/
abbrev Header : Type := String × String

/-- A message of the server: `http.request`, or one of another type. -/
inductive Incoming
  | request (body : Option ByteArray) (moreBody : Bool)
  | other (type : String)

/-- A message to the server: `http.response.start`, `http.response.body`, or one of another type. -/
inductive Outgoing
  | start (status : Nat) (headers : Option (List Header))
  | body (body : ByteArray) (moreBody : Option Bool)
  | other (type : String)

structure Scope where
  type : String
  path : Option String := none
  headers : List Header := []
  client : Option (String × Nat) := none

variable {E : Type} {A : E → Type}

/-- What an application asks: a message, to send one, or something of its own. -/
inductive Ask (E : Type)
  | receive
  | send (message : Outgoing)
  | own (q : E)

@[reducible] def Answer (A : E → Type) : Ask E → Type
  | .receive => Except Raised Incoming
  | .send _ => Except Raised Unit
  | .own q => A q

abbrev Code (A : E → Type) : Type := Program (Ask E) (Answer A) Raised Unit

abbrev Trace (A : E → Type) : Type := List (Answered (Ask E) (Answer A))

abbrev App (A : E → Type) : Type := Scope → Code A

def send (message : Outgoing) : Code A := do
  let sent ← query (.send message : Ask E)
  ofExcept sent

/-- A whole response. -/
def respond (status : Nat) (headers : List Header) (body : ByteArray) : Code A := do
  send (.start status (some headers))
  send (.body body none)

/-- `Headers(scope=scope).get(key)`, of a key in lower case. -/
def Scope.header? (scope : Scope) (key : String) : Option String :=
  (scope.headers.find? (fun h => h.1 == key)).map (·.2)

/-! ## The limit of the body -/

/-- Digits, with single underscores between them. More than 4300 are refused. -/
def digits? (s : List Char) : Option Nat :=
  let parts := s.splitOn '_'
  if parts.all (fun part => !part.isEmpty && part.all Char.isDigit) && parts.flatten.length ≤ 4300
  then some (Nat.ofDigitChars 10 parts.flatten 0) else none

/-- `int(s)`, where `none` is a `ValueError`. -/
def int? (s : String) : Option Int :=
  match (strip s).toList with
  | '-' :: rest => (digits? rest).map (fun n => -(n : Int))
  | '+' :: rest => (digits? rest).map (fun n => (n : Int))
  | rest => (digits? rest).map (fun n => (n : Int))

def bodyTooLarge : Raised := ⟨"_BodyTooLarge", "", false⟩

/-- `except _BodyTooLarge` -/
def catches (e : Raised) : Bool := e.type == "_BodyTooLarge"

structure Meter where
  receivedBytes : Nat := 0
  responseStarted : Bool := false

/-- The bytes of a message, if it is an `http.request`. -/
def Incoming.size? : Incoming → Option Nat
  | .request body _ => some ((body.map ByteArray.size).getD 0)
  | .other _ => none

/-- `limited_receive`: the count of the bytes, and what the application is given. -/
def limitedReceive (maxBytes : Int) (receivedBytes : Nat) :
    Except Raised Incoming → Nat × Except Raised Incoming
  | .error e => (receivedBytes, .error e)
  | .ok message =>
    match message.size? with
    | none => (receivedBytes, .ok message)
    | some size =>
      if maxBytes < ((receivedBytes + size : Nat) : Int) then
        (receivedBytes + size, .error bodyTooLarge)
      else (receivedBytes + size, .ok message)

def Outgoing.starts : Outgoing → Bool
  | .start _ _ => true
  | _ => false

/-- `limited_receive` and `tracked_send` -/
def bodyFilter (maxBytes : Int) : Filter Meter (Answer A) (Answer A) where
  ask _ q := q
  back s
    | .receive, reply => (limitedReceive maxBytes s.receivedBytes reply).2
    | .send _, reply => reply
    | .own _, reply => reply
  next s
    | .receive, reply =>
      { s with receivedBytes := (limitedReceive maxBytes s.receivedBytes reply).1 }
    | .send message, _ => { s with responseStarted := s.responseStarted || message.starts }
    | .own _, _ => s

def tooLargeBody : ByteArray :=
  "\x7b\"detail\": \"Request body too large\", \"error_type\": \"payload_too_large\"\x7d".toUTF8

/-- `_reject` -/
def reject : Code A :=
  respond 413 [("content-type", "application/json"), ("content-length", toString tooLargeBody.size)]
    tooLargeBody

/-- `except _BodyTooLarge`, and other ends of the application -/
def bodyEnd (s : Meter) : Except Raised Unit → Code A
  | .ok () => pure ()
  | .error e =>
    if catches e then if s.responseStarted then pure () else reject
    else fail e

/-- A `Content-Length` that is a number above the limit. -/
def Scope.declares (scope : Scope) (maxBytes : Int) : Bool :=
  match (scope.header? "content-length").bind int? with
  | some n => maxBytes < n
  | none => false

/-- `BodySizeLimitMiddleware.__call__` -/
def bodySizeLimit (maxBytes : Int) (app : App A) (scope : Scope) : Code A :=
  if scope.type ≠ "http" then app scope
  else if scope.declares maxBytes then reject
  else through (bodyFilter maxBytes) bodyEnd {} (app scope)

/-! ## The limit of the rate -/

/-- `int(x)` of a number -/
def truncate (x : Rat) : Int := x.num.tdiv x.den

def exemptPaths : List String := ["/healthz", "/readyz"]

/-- Whom a request is counted for. A request to an exempt path and what is not HTTP is
counted for nobody. -/
def identity? (sha256 : ByteArray → String) (scope : Scope) : Option String :=
  if scope.type ≠ "http" then none
  else if exemptPaths.contains (scope.path.getD "") then none
  else
    let auth := (scope.header? "authorization").getD ""
    if auth ≠ "" then some ("token:" ++ cut (sha256 auth.toUTF8) 16)
    else some ("ip:" ++ match scope.client with
      | some client => client.1
      | none => "unknown")

def rateLimitedBody : ByteArray :=
  "\x7b\"detail\": \"Rate limit exceeded\", \"error_type\": \"rate_limited\"\x7d".toUTF8

/-- The answer to a request that is not allowed. -/
def rateLimited (bucket : TokenBucket) : Code A :=
  respond 429
    [("content-type", "application/json"), ("content-length", toString rateLimitedBody.size),
      ("retry-after", toString (truncate bucket.windowSeconds)),
      ("x-ratelimit-limit", toString bucket.maxTokens), ("x-ratelimit-remaining", "0")]
    rateLimitedBody

def Outgoing.withHeaders (extra : List Header) : Outgoing → Outgoing
  | .start status headers => .start status (some (headers.getD [] ++ extra))
  | message => message

/-- `send_with_headers` -/
def headersFilter (extra : List Header) : Filter Bool (Answer A) (Answer A) where
  ask injected
    | .receive => .receive
    | .send message => .send (if injected then message else message.withHeaders extra)
    | .own q => .own q
  back _
    | .receive, reply => reply
    | .send _, reply => reply
    | .own _, reply => reply
  next injected
    | .receive, _ => injected
    | .send message, _ => injected || message.starts
    | .own _, _ => injected

def rateHeaders (bucket : TokenBucket) (remaining : Rat) : List Header :=
  [("x-ratelimit-limit", toString bucket.maxTokens),
    ("x-ratelimit-remaining", toString (max 0 (truncate remaining)))]

/-- A request and the two times at which the bucket reads the clock for it. -/
structure Arrival where
  scope : Scope
  now : Rat
  later : Rat

/-- `RateLimitMiddleware.__call__`: the buckets after it, and what is done for the request. -/
def rateLimit (sha256 : ByteArray → String) (app : App A) (bucket : TokenBucket)
    (arrival : Arrival) : TokenBucket × Code A :=
  match identity? sha256 arrival.scope with
  | none => (bucket, app arrival.scope)
  | some identity =>
    let (bucket, allowed) := bucket.allow identity arrival.now
    let remaining := bucket.remaining identity arrival.later
    if !allowed then (bucket, rateLimited bucket)
    else (bucket, through (headersFilter (rateHeaders bucket remaining)) (fun _ r => ofExcept r) false
      (app arrival.scope))

/-- What is done for each request, as they come to the lock. -/
def serve (sha256 : ByteArray → String) (app : App A) :
    TokenBucket → List Arrival → List (Arrival × Code A)
  | _, [] => []
  | bucket, arrival :: rest =>
    (arrival, (rateLimit sha256 app bucket arrival).2) ::
      serve sha256 app (rateLimit sha256 app bucket arrival).1 rest

/-! ## What is given to the application -/

/-- The bytes of a message that was received, if it is an `http.request`. -/
def size? : Answered (Ask E) (Answer A) → Option Nat
  | ⟨.receive, .ok message⟩ => message.size?
  | _ => none

/-- The bytes of all messages that were received. -/
def received (t : Trace A) : Nat := (t.map (fun e => (size? e).getD 0)).sum

def message? : Answered (Ask E) (Answer A) → Option Outgoing
  | ⟨.send message, _⟩ => some message
  | _ => none

/-- What was sent. -/
def sends (t : Trace A) : List Outgoing := t.filterMap message?

/-- Whether a response was started. -/
def started (t : Trace A) : Bool := (sends t).any Outgoing.starts

/-- What an application behind the limit sees of what is received and sent, when `n` bytes were
received before: each message with which there are too many is an error to it. -/
def seen (maxBytes : Int) : Nat → Trace A → Trace A
  | _, [] => []
  | n, e :: rest =>
    match size? e with
    | none => e :: seen maxBytes n rest
    | some size =>
      if maxBytes < ((n + size : Nat) : Int) then
        ⟨.receive, .error bodyTooLarge⟩ :: seen maxBytes (n + size) rest
      else e :: seen maxBytes (n + size) rest

@[simp] theorem received_nil : received ([] : Trace A) = 0 := rfl

@[simp] theorem received_cons (e : Answered (Ask E) (Answer A)) (t : Trace A) :
    received (e :: t) = (size? e).getD 0 + received t := by
  simp [received]

@[simp] theorem received_append (t u : Trace A) : received (t ++ u) = received t + received u := by
  simp [received]

@[simp] theorem sends_nil : sends ([] : Trace A) = [] := rfl

@[simp] theorem sends_append (t u : Trace A) : sends (t ++ u) = sends t ++ sends u :=
  List.filterMap_append

theorem sends_cons (e : Answered (Ask E) (Answer A)) (t : Trace A) :
    sends (e :: t) = (message? e).toList ++ sends t := by
  unfold sends
  rw [List.filterMap_cons]
  cases message? e with
  | none => rfl
  | some message => rfl

variable {maxBytes : Int} {n : Nat} {t u : Trace A}

/-- The messages that an application is given are no larger than the limit together. -/
theorem received_seen (maxBytes : Int) (n : Nat) (t : Trace A) :
    received (seen maxBytes n t) = 0 ∨ ((n + received (seen maxBytes n t) : Nat) : Int) ≤ maxBytes := by
  induction t generalizing n with
  | nil => simp [seen]
  | cons e rest ih =>
    rcases hsize : size? e with _ | size
    · simpa [seen, hsize] using ih n
    · by_cases hover : maxBytes < ((n + size : Nat) : Int)
      · have herror : size? (⟨.receive, .error bodyTooLarge⟩ : Answered (Ask E) (Answer A)) = none := rfl
        simp only [seen, hsize, if_pos hover, received_cons, herror, Option.getD_none]
        rcases ih (n + size) with h | h
        · omega
        · omega
      · simp only [seen, hsize, if_neg hover, received_cons, Option.getD_some]
        rcases ih (n + size) with h | h
        · omega
        · omega

/-- What is no larger than the limit is seen as it is. -/
theorem seen_eq_self (h : ((n + received t : Nat) : Int) ≤ maxBytes) : seen maxBytes n t = t := by
  induction t generalizing n with
  | nil => rfl
  | cons e rest ih =>
    rw [received_cons] at h
    rcases hsize : size? e with _ | size
    · simp only [hsize, Option.getD_none] at h
      simp only [seen, hsize]
      rw [ih (by omega)]
    · simp only [hsize, Option.getD_some] at h
      simp only [seen, hsize, if_neg (show ¬ maxBytes < ((n + size : Nat) : Int) by omega)]
      rw [ih (by omega)]

/-- What has a size is no send. -/
theorem message?_of_size? {e : Answered (Ask E) (Answer A)} {size : Nat} (h : size? e = some size) :
    message? e = none := by
  obtain ⟨q, a⟩ := e
  cases q with
  | receive => rfl
  | send message => simp [size?] at h
  | own q => simp [size?] at h

/-- Of the sends nothing is changed. -/
@[simp] theorem sends_seen (maxBytes : Int) (n : Nat) (t : Trace A) :
    sends (seen maxBytes n t) = sends t := by
  induction t generalizing n with
  | nil => rfl
  | cons e rest ih =>
    rcases hsize : size? e with _ | size
    · simp only [seen, hsize, sends_cons, ih]
    · simp only [seen, hsize]
      split
      · simp only [sends_cons, ih, message?_of_size? hsize]
        rfl
      · simp only [sends_cons, ih]

/-! ## The runs behind the limit of the body -/

/-- The state of the filter after what was received and sent. -/
def Meter.after (s : Meter) (t : Trace A) : Meter :=
  ⟨s.receivedBytes + received t, s.responseStarted || started t⟩

@[simp] theorem limitedReceive_other {message : Incoming} (h : message.size? = none) (k : Nat) :
    limitedReceive maxBytes k (.ok message) = (k, .ok message) := by
  simp only [limitedReceive, h]

@[simp] theorem limitedReceive_request {message : Incoming} {size : Nat}
    (h : message.size? = some size) (k : Nat) :
    limitedReceive maxBytes k (.ok message) = (k + size,
      if maxBytes < ((k + size : Nat) : Int) then .error bodyTooLarge else .ok message) := by
  simp only [limitedReceive, h]
  split
  · rfl
  · rfl

theorem Meter.next_eq (s : Meter) (q : Ask E) (a : Answer A q) :
    (bodyFilter maxBytes).next s q a = s.after [⟨q, a⟩] := by
  cases q with
  | receive =>
    rcases a with e | message
    · simp [bodyFilter, limitedReceive, after, received, size?, started, sends, message?]
    · rcases hsize : message.size? with _ | size
      · simp [bodyFilter, after, received, size?, started, sends, message?, hsize]
      · simp [bodyFilter, after, received, size?, started, sends, message?, hsize]
  | send message =>
    simp [bodyFilter, after, received, size?, started, sends, message?]
  | own q =>
    simp [bodyFilter, after, received, size?, started, sends, message?]

theorem seen_step (s : Meter) (q : Ask E) (a : Answer A q) (rest : Trace A) :
    seen maxBytes s.receivedBytes (⟨q, a⟩ :: rest) =
      ⟨q, (bodyFilter maxBytes).back s q a⟩ ::
        seen maxBytes (s.after [⟨q, a⟩]).receivedBytes rest := by
  cases q with
  | receive =>
    rcases a with e | message
    · simp [seen, size?, bodyFilter, limitedReceive, Meter.after, received]
    · rcases hsize : message.size? with _ | size
      · simp [seen, size?, bodyFilter, Meter.after, received, hsize]
      · simp only [seen, size?, bodyFilter, Meter.after, received, hsize,
          limitedReceive_request hsize]
        split
        · simp [hsize]
        · simp [hsize]
  | send message => simp [seen, size?, bodyFilter, Meter.after, received]
  | own q => simp [seen, size?, bodyFilter, Meter.after, received]

theorem Meter.after_append (s : Meter) (t u : Trace A) :
    (s.after t).after u = s.after (t ++ u) := by
  simp [after, started, Nat.add_assoc, Bool.or_assoc]

/-- What the filter makes of a run. -/
theorem seen_iff {s s' : Meter} :
    Seen (bodyFilter maxBytes) s u t s' ↔ u = seen maxBytes s.receivedBytes t ∧ s' = s.after t := by
  constructor
  · intro h
    induction h with
    | nil s => simp [seen, Meter.after, started]
    | cons a rest ih =>
      rename_i s _ q _ _
      have hnext : (bodyFilter maxBytes).next s q a = s.after [⟨q, a⟩] := Meter.next_eq s q a
      rw [hnext] at ih
      obtain ⟨rfl, rfl⟩ := ih
      exact ⟨(seen_step _ _ _ _).symm, Meter.after_append _ _ _⟩
  · rintro ⟨rfl, rfl⟩
    induction t generalizing s with
    | nil => simpa [seen, Meter.after, started] using Seen.nil s
    | cons e rest ih =>
      obtain ⟨q, a⟩ := e
      have hrest := ih (s := s.after [⟨q, a⟩])
      have hnext : (bodyFilter maxBytes).next s q a = s.after [⟨q, a⟩] := Meter.next_eq s q a
      rw [Meter.after_append, ← hnext] at hrest
      rw [seen_step, ← hnext]
      exact Seen.cons (F := bodyFilter maxBytes) a hrest

variable {app : App A} {scope : Scope} {r : Except Raised Unit}

/-- The runs of an application behind the limit. -/
theorem path_bodySizeLimit_iff (hhttp : scope.type = "http")
    (hdeclares : scope.declares maxBytes = false) :
    Path (bodySizeLimit maxBytes app scope) t (.done r) ↔
      ∃ t' tail r', t = t' ++ tail ∧ Path (app scope) (seen maxBytes 0 t') (.done r') ∧
        Path (bodyEnd ⟨received t', started t'⟩ r') tail (.done r) := by
  have hafter : ∀ t' : Trace A, Meter.after {} t' = ⟨received t', started t'⟩ := by
    intro t'
    simp [Meter.after]
  unfold bodySizeLimit
  rw [if_neg (by simp [hhttp]), if_neg (by simp [hdeclares]), path_through_iff]
  constructor
  · rintro ⟨u, t', tail, s', r', rfl, hseen, hpath, htail⟩
    obtain ⟨rfl, rfl⟩ := seen_iff.mp hseen
    rw [hafter] at htail
    exact ⟨t', tail, r', rfl, hpath, htail⟩
  · rintro ⟨t', tail, r', rfl, hpath, htail⟩
    refine ⟨_, t', tail, _, r', rfl, seen_iff.mpr ⟨rfl, rfl⟩, hpath, ?_⟩
    rw [hafter]
    exact htail

theorem path_done_iff {p : Except Raised Unit} :
    Path (.done p : Code A) t (.done r) ↔ t = [] ∧ r = p := by
  constructor
  · intro h
    cases h
    exact ⟨rfl, rfl⟩
  · rintro ⟨rfl, rfl⟩
    exact .stay _

/-- The runs of a response: both of its messages, or the first one when it cannot be sent. -/
theorem path_respond_iff {status : Nat} {headers : List Header} {body : ByteArray} :
    Path (respond status headers body : Code A) t (.done r) ↔
      (∃ e, t = [⟨.send (.start status (some headers)), .error e⟩] ∧ r = .error e) ∨
        t = [⟨.send (.start status (some headers)), .ok ()⟩, ⟨.send (.body body none), r⟩] := by
  have hcode : (respond status headers body : Code A) =
      .ask (.send (.start status (some headers))) fun
        | .ok () => .ask (.send (.body body none)) fun sent => .done sent
        | .error e => .done (.error e) := by
    unfold respond send
    simp only [query_bind, ask_bind]
    congr 1
    funext a
    rcases a with e | u
    · rfl
    · rfl
  rw [hcode]
  constructor
  · intro h
    cases h with
    | answer a rest =>
      rcases a with e | u
      · obtain ⟨rfl, rfl⟩ := path_done_iff.mp rest
        exact Or.inl ⟨e, rfl, rfl⟩
      · cases rest with
        | answer b rest =>
          obtain ⟨rfl, rfl⟩ := path_done_iff.mp rest
          exact Or.inr rfl
  · rintro (⟨e, rfl, rfl⟩ | rfl)
    · exact Path.answer (A := Answer A) (q := .send _) (.error e) (.stay _)
    · refine Path.answer (A := Answer A) (q := .send _) (.ok ()) ?_
      exact Path.answer (A := Answer A) (q := .send _) r (.stay _)

/-- The messages of `_reject`. -/
def rejection : List Outgoing :=
  [.start 413 (some [("content-type", "application/json"),
    ("content-length", toString tooLargeBody.size)]), .body tooLargeBody none]

theorem sends_reject (h : Path (reject : Code A) t (.done r)) :
    sends t ≠ [] ∧ sends t <+: rejection := by
  rcases path_respond_iff.mp h with ⟨e, rfl, -⟩ | rfl
  · exact ⟨by simp [sends, message?], by simp [sends, message?, rejection]⟩
  · exact ⟨by simp [sends, message?], by simp [sends, message?, rejection]⟩

/-- What is sent after the end of an application: nothing, or the rejection in place of a
response. -/
theorem sends_bodyEnd {s : Meter} {r' : Except Raised Unit}
    (h : Path (bodyEnd s r' : Code A) t (.done r)) :
    t = [] ∨ (s.responseStarted = false ∧ sends t ≠ [] ∧ sends t <+: rejection) := by
  rcases r' with e | u
  · simp only [bodyEnd] at h
    split at h
    · cases hstarted : s.responseStarted with
      | true =>
        rw [if_pos hstarted] at h
        exact Or.inl (path_done_iff.mp h).1
      | false =>
        rw [if_neg (by simp [hstarted])] at h
        exact Or.inr ⟨rfl, sends_reject h⟩
    · exact Or.inl (path_done_iff.mp h).1
  · exact Or.inl (path_done_iff.mp h).1

/-- Behind the limit, an application runs as it would on its own (or not at all, when the request
declares a body above the limit), the bodies that it is given are no larger than the limit
together, and all that it sends is sent. The rejection comes only where it has started no
response. -/
theorem large_bodies_stay_out (hhttp : scope.type = "http")
    (h : Path (bodySizeLimit maxBytes app scope) t (.done r)) :
    ∃ u own, ((u = [] ∧ scope.declares maxBytes = true) ∨ ∃ r', Path (app scope) u (.done r')) ∧
      (received u = 0 ∨ (received u : Int) ≤ maxBytes) ∧ sends t = sends u ++ own ∧
      (own = [] ∨ (started u = false ∧ own <+: rejection)) := by
  cases hdeclares : scope.declares maxBytes with
  | true =>
    unfold bodySizeLimit at h
    rw [if_neg (by simp [hhttp]), if_pos hdeclares] at h
    exact ⟨[], sends t, Or.inl ⟨rfl, rfl⟩, Or.inl rfl, rfl, Or.inr ⟨rfl, (sends_reject h).2⟩⟩
  | false =>
    obtain ⟨t', tail, r', rfl, hpath, htail⟩ := (path_bodySizeLimit_iff hhttp hdeclares).mp h
    refine ⟨seen maxBytes 0 t', sends tail, Or.inr ⟨r', hpath⟩, ?_, by simp, ?_⟩
    · simpa using received_seen maxBytes 0 t'
    · rcases sends_bodyEnd htail with rfl | ⟨hstarted, -, hprefix⟩
      · exact Or.inl rfl
      · exact Or.inr ⟨by simpa [started] using hstarted, hprefix⟩

/-- A request whose body is no larger than the limit is handled as if there were no limit, by an
application that raises the error of the limit only when it was given that error. -/
theorem small_bodies_pass (hdeclares : scope.declares maxBytes = false)
    (hsize : (received t : Int) ≤ maxBytes)
    (happ : ∀ u e, Path (app scope) u (.done (.error e)) → catches e = true →
      ∃ e', catches e' = true ∧ (⟨.receive, .error e'⟩ : Answered (Ask E) (Answer A)) ∈ u)
    (hreceive : ∀ e', catches e' = true →
      (⟨.receive, .error e'⟩ : Answered (Ask E) (Answer A)) ∉ t) :
    Path (bodySizeLimit maxBytes app scope) t (.done r) ↔ Path (app scope) t (.done r) := by
  by_cases hhttp : scope.type = "http"
  · have hend : ∀ (s : Meter) (r' : Except Raised Unit), (∀ e, r' = .error e → catches e = false) →
        (bodyEnd s r' : Code A) = .done r' := by
      intro s r' hr'
      rcases r' with e | u
      · simp [bodyEnd, hr' e rfl, fail]
      · rfl
    have hpassed : ∀ t' r', (∀ d ∈ t', d ∈ t) → Path (app scope) t' (.done r') →
        ∀ e, r' = .error e → catches e = false := by
      intro t' r' hsub hpath e he
      by_contra hcatches
      subst he
      obtain ⟨e', hcatches', hmem⟩ := happ t' e hpath (by simpa using hcatches)
      exact hreceive e' hcatches' (hsub _ hmem)
    rw [path_bodySizeLimit_iff hhttp hdeclares]
    constructor
    · rintro ⟨t', tail, r', rfl, hpath, htail⟩
      rw [received_append] at hsize
      rw [seen_eq_self (by omega)] at hpath
      rw [hend _ r' (hpassed t' r' (fun d hd => List.mem_append_left _ hd) hpath)] at htail
      obtain ⟨rfl, rfl⟩ := path_done_iff.mp htail
      simpa using hpath
    · intro hpath
      refine ⟨t, [], r, by simp, ?_, ?_⟩
      · rw [seen_eq_self (by omega)]
        exact hpath
      · rw [hend _ r (hpassed t r (fun d hd => hd) hpath)]
        exact .stay _
  · unfold bodySizeLimit
    rw [if_pos hhttp]

section examples

/-- An application that reads one message. -/
def readOnce : App Empty.elim := fun _ =>
  .ask .receive fun
    | .ok _ => .done (.ok ())
    | .error e => .done (.error e)

def fiveBytes : Answered (Ask Empty) (Answer Empty.elim) :=
  ⟨.receive, .ok (.request (some ⟨#[1, 2, 3, 4, 5]⟩) false)⟩

/-- Five bytes where three are allowed. -/
theorem five_bytes_stay_out :
    ∃ u own, ((u = [] ∧ (⟨"http", none, [], none⟩ : Scope).declares 3 = true) ∨
        ∃ r', Path (readOnce ⟨"http", none, [], none⟩) u (.done r')) ∧
      (received u = 0 ∨ (received u : Int) ≤ 3) ∧
      sends (fiveBytes :: rejection.map fun m => ⟨.send m, .ok ()⟩) = sends u ++ own ∧
      (own = [] ∨ (started u = false ∧ own <+: rejection)) := by
  refine large_bodies_stay_out (r := .ok ()) rfl ?_
  refine Path.answer (A := Answer Empty.elim) (q := .receive) _ ?_
  refine Path.answer (A := Answer Empty.elim) (q := .send _) (.ok ()) ?_
  exact Path.answer (A := Answer Empty.elim) (q := .send _) (.ok ()) (.stay _)

theorem five_bytes_pass :
    Path (bodySizeLimit 5 readOnce ⟨"http", none, [], none⟩) [fiveBytes] (.done (.ok ())) ↔
      Path (readOnce ⟨"http", none, [], none⟩) [fiveBytes] (.done (.ok ())) := by
  refine small_bodies_pass rfl (by decide) (fun u e hpath hcatches => ?_) (fun e' _ => ?_)
  · cases hpath with
    | answer a rest =>
      rcases a with e' | message
      · obtain ⟨rfl, he⟩ := path_done_iff.mp rest
        cases he
        exact ⟨e, hcatches, by simp⟩
      · obtain ⟨-, he⟩ := path_done_iff.mp rest
        cases he
  · simp [fiveBytes]

end examples

/-! ## One identity among others -/

variable {identity : String}

/-- Two limiters with the same settings and the same bucket of this identity. -/
structure Same (identity : String) (b b' : TokenBucket) : Prop where
  max : b.maxTokens = b'.maxTokens
  window : b.windowSeconds = b'.windowSeconds
  cost : b.tokensPerRequest = b'.tokensPerRequest
  bucket : b.buckets.get? identity = b'.buckets.get? identity

variable {b b' : TokenBucket}

theorem Same.refilled (h : Same identity b b') (now : Rat) :
    b.refilled (b.bucketOf identity now) now = b'.refilled (b'.bucketOf identity now) now := by
  unfold TokenBucket.refilled TokenBucket.bucketOf TokenBucket.refillRate
  rw [h.max, h.window, h.bucket]

/-- The limiters decide alike for the identity, and stay alike. -/
theorem Same.allow (h : Same identity b b') (now : Rat) :
    Same identity (b.allow identity now).1 (b'.allow identity now).1 ∧
      (b.allow identity now).2 = (b'.allow identity now).2 := by
  unfold TokenBucket.allow
  rw [h.refilled now, h.cost]
  dsimp only
  split
  · refine ⟨⟨h.max, h.window, rfl, ?_⟩, rfl⟩
    simp
  · refine ⟨⟨h.max, h.window, rfl, ?_⟩, rfl⟩
    simp

theorem Same.remaining (h : Same identity b b') (now : Rat) :
    b.remaining identity now = b'.remaining identity now := by
  unfold TokenBucket.remaining
  rw [h.bucket, h.max]
  cases b'.buckets.get? identity with
  | none => rfl
  | some bucket =>
    unfold TokenBucket.refilled TokenBucket.refillRate
    rw [h.max, h.window]

/-- A request of another identity leaves the bucket as it is. -/
theorem Same.allow_other (h : Same identity b b') {other : String} (hne : other ≠ identity)
    (now : Rat) : Same identity (b.allow other now).1 b' := by
  unfold TokenBucket.allow
  dsimp only
  split
  · refine ⟨h.max, h.window, h.cost, ?_⟩
    simp [Dict.get?_set_ne, hne, h.bucket]
  · refine ⟨h.max, h.window, h.cost, ?_⟩
    simp [Dict.get?_set_ne, hne, h.bucket]

variable {sha256 : ByteArray → String}

/-- A request of the identity is handled alike. -/
theorem Same.request (app : App A) (h : Same identity b b') {arrival : Arrival}
    (hidentity : identity? sha256 arrival.scope = some identity) :
    Same identity (rateLimit sha256 app b arrival).1 (rateLimit sha256 app b' arrival).1 ∧
      (rateLimit sha256 app b arrival).2 = (rateLimit sha256 app b' arrival).2 := by
  obtain ⟨hafter, hallowed⟩ := h.allow arrival.now
  have hremaining := hafter.remaining arrival.later
  unfold rateLimit
  rw [hidentity]
  dsimp only
  rw [hallowed]
  split
  · refine ⟨hafter, ?_⟩
    unfold rateLimited
    rw [hafter.max, hafter.window]
  · refine ⟨hafter, ?_⟩
    unfold rateHeaders
    rw [hremaining, hafter.max]

/-- Any other request leaves the bucket of the identity as it is. -/
theorem Same.request_other (app : App A) (h : Same identity b b') {arrival : Arrival}
    (hidentity : identity? sha256 arrival.scope ≠ some identity) :
    Same identity (rateLimit sha256 app b arrival).1 b' := by
  unfold rateLimit
  cases hwho : identity? sha256 arrival.scope with
  | none => exact h
  | some other =>
    have hne : other ≠ identity := fun heq => hidentity (by rw [hwho, heq])
    dsimp only
    split
    · exact h.allow_other hne arrival.now
    · exact h.allow_other hne arrival.now

theorem Same.answers (h : Same identity b b') (arrivals : List Arrival) :
    (serve sha256 app b arrivals).filter
        (fun p => identity? sha256 p.1.scope = some identity) =
      serve sha256 app b'
        (arrivals.filter fun arrival => identity? sha256 arrival.scope = some identity) := by
  induction arrivals generalizing b b' with
  | nil => rfl
  | cons arrival rest ih =>
    by_cases hidentity : identity? sha256 arrival.scope = some identity
    · obtain ⟨hafter, hcode⟩ := h.request app hidentity
      simp only [serve, hidentity, decide_true, List.filter_cons_of_pos, hcode,
        ih hafter]
    · have hafter := h.request_other app hidentity
      simp only [serve, hidentity, decide_false, List.filter_cons_of_neg, ih hafter,
        Bool.false_eq_true, not_false_eq_true]

/-- Nobody uses up the requests of another one: among any requests, an identity is answered as if
its own were the only ones. -/
theorem identities_are_limited_apart (sha256 : ByteArray → String) (app : App A)
    (bucket : TokenBucket) (identity : String) (arrivals : List Arrival) :
    (serve sha256 app bucket arrivals).filter
        (fun p => identity? sha256 p.1.scope = some identity) =
      serve sha256 app bucket
        (arrivals.filter fun arrival => identity? sha256 arrival.scope = some identity) :=
  Same.answers ⟨rfl, rfl, rfl, rfl⟩ arrivals

end orchestra.middleware
