-- The task queue (`messaging/publisher.py` and `messaging/consumer.py`): publishers
-- encrypt tasks and put them on a JetStream stream, and the workers of a durable
-- consumer fetch, decrypt, handle and settle them. JetStream comes from outside.
import Orchestra.KeyRotation
import Orchestra.Lib.Program

open dicts jsons machine programs Program orchestra.key_rotation SecureNatsProvider

namespace orchestra.task_queue

/-! ## The stream -/

/-- Where a message stands for the consumer. -/
inductive Progress
  | waiting | inFlight | acked | removed
deriving DecidableEq, Repr

/-- A message of the stream. `task` is what a publisher of tasks encrypted in it. -/
structure Message where
  subject : String
  data : ByteArray
  task : Option Json
  deliveries : Nat
  progress : Progress

/-- An acknowledgement is final, whichever delivery it answers. -/
def Message.ack (m : Message) : Message :=
  if m.progress = .removed then m else { m with progress := .acked }

/-- A message in flight waits again. -/
def Message.nak (m : Message) : Message :=
  if m.progress = .inFlight then { m with progress := .waiting } else m

def Message.deliver (m : Message) : Message :=
  { m with deliveries := m.deliveries + 1, progress := .inFlight }

/-- The stream, the providers of the processes that use it, and the ids
that it has seen within the `duplicate_window`. -/
structure Queue where
  messages : List Message
  providers : List SecureNatsProvider
  seen : Dict String Nat

/-- Deliver the messages with these numbers. -/
def Queue.deliver (q : Queue) (seqs : List Nat) : Queue :=
  { q with messages := q.messages.mapIdx (fun i m => if i ∈ seqs then m.deliver else m) }

def Queue.change (q : Queue) (seq : Nat) (f : Message → Message) : Queue :=
  { q with messages := q.messages.modify seq f }

/-! ## The publisher -/

def taskSubject (agentType : String) : String := "orchestra.tasks." ++ agentType

structure PublishResult where
  subject : String
  sequence : Nat
deriving DecidableEq, Repr

/-- `js.publish`. A message under an id that the stream has seen is the one it has. -/
def Queue.publish (q : Queue) (m : Message) (headers : Dict String String) : Queue × Nat :=
  match (headers.get? "Nats-Msg-Id").bind q.seen.get? with
  | some seq => (q, seq)
  | none =>
    let seq := q.messages.length
    let seen := match headers.get? "Nats-Msg-Id" with
      | some id => q.seen.set id seq
      | none => q.seen
    ({ q with messages := q.messages ++ [m], seen }, seq)

/-- The headers of a task. An empty id is none. The trace context is left out. -/
def taskHeaders (dedupId : Option String) : Dict String String :=
  match dedupId with
  | some id => if id = "" then .empty else Dict.empty.set "Nats-Msg-Id" id
  | none => .empty

/-- `TaskPublisher.publish`, with the provider that it leaves. The broker may be out of
reach. -/
def TaskPublisher.publish (J : Jose) (p : SecureNatsProvider) (q : Queue) (agentType : String) (r : Request)
    (dedupId : Option String) (reached : Bool) :
    SecureNatsProvider × Queue × Except Raised PublishResult :=
  let subject := taskSubject agentType
  let (p, token) := p.encryptFor J r
  match token with
  | .error e => (p, q, .error e)
  | .ok token =>
    if reached then
      let (q, seq) := q.publish ⟨subject, token.toUTF8, some r.jwm, 0, .waiting⟩
        (taskHeaders dedupId)
      (p, q, .ok ⟨subject, seq⟩)
    else (p, q, .error ⟨"NoRespondersError", "nats: no responders available for request", false⟩)

/-! ## The consumer -/

/-- A message as it is fetched. -/
structure Msg where
  seq : Nat
  data : ByteArray

/-- What a worker waits for, with the process that a provider is of. -/
inductive Ask
  | fetch (batchSize : Nat)
  | decrypt (worker : Nat) (data : ByteArray)
  | handle (seq : Nat) (plaintext : Json)
  | ack (seq : Nat)
  | nak (seq : Nat)

@[reducible] def Answer : Ask → Type
  | .fetch _ => Except Raised (List Msg)
  | .decrypt _ _ => Except Raised Json
  | .handle _ _ | .ack _ | .nak _ => Except Raised Unit

abbrev Code (α : Type) : Type := Program Ask Answer Raised α

abbrev Trace : Type := List (Answered Ask Answer)

/-- A worker with the index of its process. It is started when it has subscribed. -/
structure TaskConsumer where
  worker : Nat
  started : Bool
deriving DecidableEq, Repr

/-- The `try` of the loop, with the error that it catches. -/
def attempt (c : TaskConsumer) (msg : Msg) : Code (Except Raised Unit) := do
  match ← query (.decrypt c.worker msg.data : Ask) with
  | .error e => pure (.error e)
  | .ok plaintext =>
    match ← query (.handle msg.seq plaintext : Ask) with
    | .error e => pure (.error e)
    | .ok () => query (.ack msg.seq : Ask)

/-- The loop over the messages. -/
def processAll (c : TaskConsumer) : List Msg → Nat → Code Nat
  | [], processed => pure processed
  | msg :: rest, processed => do
    match ← attempt c msg with
    | .ok () => processAll c rest (processed + 1)
    | .error _ =>
      match ← query (.nak msg.seq : Ask) with
      | .ok () => processAll c rest processed
      | .error e => fail e

def notStarted : Raised := ⟨"RuntimeError", "Call start() before fetch_and_process()", false⟩

/-- A call of `fetch_and_process`. -/
structure Fetch where
  consumer : TaskConsumer
  batchSize : Nat
deriving DecidableEq, Repr

/-- `fetch_and_process` -/
def fetchAndProcess (job : Fetch) : Code Nat :=
  if job.consumer.started then do
    match ← query (.fetch job.batchSize : Ask) with
    | .error _ => pure 0
    | .ok msgs => processAll job.consumer msgs 0
  else fail notStarted

/-- `self._provider.decrypt(msg.data.decode("utf-8"))` -/
def decryptData (J : Jose) (p : SecureNatsProvider) (data : ByteArray) : Except Raised Json :=
  match String.fromUTF8? data with
  | none => .error ⟨"UnicodeDecodeError", "'utf-8' codec can't decode bytes", false⟩
  | some token => p.decrypt J token

/-! ## Workers side by side -/

/-- What else happens: processes publish tasks and renew their keys, others put what they
like on the stream, and JetStream gives deliveries up or messages away. -/
inductive Event
  | publish (i : Nat) (agentType : String) (r : Request) (dedupId : Option String) (reached : Bool)
  | foreign (subject : String) (data : ByteArray)
  | rotateKeys (i : Nat) (f : Fresh)
  | ackWaitOver (seq : Nat)
  | remove (seq : Nat)
  | forget (id : String)

def Queue.after (J : Jose) (q : Queue) : Event → Queue
  | .publish i agentType r dedupId reached =>
    match q.providers[i]? with
    | none => q
    | some p =>
      let (p, q, _) := TaskPublisher.publish J p q agentType r dedupId reached
      { q with providers := q.providers.set i p }
  | .foreign subject data => { q with messages := q.messages ++ [⟨subject, data, none, 0, .waiting⟩] }
  | .rotateKeys i f => { q with providers := q.providers.modify i (fun p => p.rotateKeys J f) }
  | .ackWaitOver seq => q.change seq Message.nak
  | .remove seq => q.change seq (fun m => { m with progress := .removed })
  | .forget id => { q with seen := q.seen.erase id }

/-- What a deployment sets: the agent type of its workers and the `max_deliver` of their
consumer. A lossy one may lose deliveries and their acknowledgements. -/
structure Deployment where
  agentType : String
  maxDeliver : Option Nat
  lossy : Bool

/-- JetStream may deliver the message. -/
structure Message.Deliverable (D : Deployment) (m : Message) : Prop where
  subject : m.subject = taskSubject D.agentType
  waiting : m.progress = .waiting
  left : ∀ n, D.maxDeliver = some n → m.deliveries < n

/-- JetStream may deliver the messages with these numbers. -/
structure Queue.Deliverable (D : Deployment) (q : Queue) (seqs : List Nat) : Prop where
  nodup : seqs.Nodup
  each : ∀ seq ∈ seqs, ∃ m, q.messages[seq]? = some m ∧ m.Deliverable D

/-- What is fetched are messages of the stream. A fetch that fails in a lossy deployment
may have taken some. -/
def Queue.fetched (D : Deployment) (q : Queue) (batchSize : Nat) (seqs : List Nat) :
    Except Raised (List Msg) → Prop
  | .ok msgs => seqs = msgs.map (·.seq) ∧ msgs.length ≤ batchSize ∧
      ∀ msg ∈ msgs, ∃ m, q.messages[msg.seq]? = some m ∧ m.data = msg.data
  | .error _ => D.lossy = false → seqs = []

/-- The settlement of a message. It may get lost. -/
def Queue.settled (D : Deployment) (q : Queue) (seq : Nat) (f : Message → Message)
    (r : Except Raised Unit) (q' : Queue) : Prop :=
  (q' = q.change seq f ∧ r = .ok ()) ∨ (D.lossy = true ∧ (q' = q ∨ q' = q.change seq f))

def serves (J : Jose) (D : Deployment) (q : Queue) : Answered Ask Answer → Queue → Prop
  | ⟨.fetch batchSize, r⟩, q' =>
    ∃ seqs, q.Deliverable D seqs ∧ q.fetched D batchSize seqs r ∧ q' = q.deliver seqs
  | ⟨.decrypt worker data, r⟩, q' =>
    (∃ p, q.providers[worker]? = some p ∧ r = decryptData J p data) ∧ q' = q
  | ⟨.handle _ _, _⟩, q' => q' = q
  | ⟨.ack seq, r⟩, q' => q.settled D seq Message.ack r q'
  | ⟨.nak seq, r⟩, q' => q.settled D seq Message.nak r q'

/-- Any number of calls on one queue. In a deployment that is not lossy, no
`ack_wait` is over before the message is settled. -/
def taskQueue (J : Jose) (D : Deployment) : System Queue Event Fetch Ask Answer Raised Nat where
  init q := q.messages = [] ∧ q.seen = .empty
  code := fetchAndProcess
  opens _ _ := True
  serves := serves J D
  turns P event q' := q' = P.shared.after J event ∧
    (D.lossy = false → ∀ seq, event ≠ .ackWaitOver seq)

/-! ## What a trace counts -/

/-- How often a message was fetched. -/
def fetches (seq : Nat) : Answered Ask Answer → Nat
  | ⟨.fetch _, .ok msgs⟩ => (msgs.map (·.seq)).count seq
  | _ => 0

/-- How often the handler was called on a message. -/
def handlings (seq : Nat) : Answered Ask Answer → Nat
  | ⟨.handle s _, _⟩ => if s = seq then 1 else 0
  | _ => 0

/-- How often the handler came through. -/
def successes (seq : Nat) : Answered Ask Answer → Nat
  | ⟨.handle s _, .ok ()⟩ => if s = seq then 1 else 0
  | _ => 0

def acks (seq : Nat) : Answered Ask Answer → Nat
  | ⟨.ack s, .ok ()⟩ => if s = seq then 1 else 0
  | _ => 0

def naks (seq : Nat) : Answered Ask Answer → Nat
  | ⟨.nak s, .ok ()⟩ => if s = seq then 1 else 0
  | _ => 0

/-- The acknowledgements of all messages. -/
def allAcks : Answered Ask Answer → Nat
  | ⟨.ack _, .ok ()⟩ => 1
  | _ => 0

/-- A fetched message decrypts to this. -/
def Decrypted (t : Trace) (seq : Nat) (plaintext : Json) : Prop :=
  ∃ batchSize msgs msg worker, (⟨.fetch batchSize, .ok msgs⟩ : Answered Ask Answer) ∈ t ∧
    msg ∈ msgs ∧ msg.seq = seq ∧ ⟨.decrypt worker msg.data, .ok plaintext⟩ ∈ t

theorem Decrypted.mono {t u : Trace} {seq : Nat} {plaintext : Json} (h : Decrypted t seq plaintext)
    (hsub : t ⊆ u) : Decrypted u seq plaintext := by
  obtain ⟨batchSize, msgs, msg, worker, hfetch, hmsg, hseq, hdecrypt⟩ := h
  exact ⟨batchSize, msgs, msg, worker, hsub hfetch, hmsg, hseq, hsub hdecrypt⟩

/-- The handler came through on what a fetched message decrypts to. -/
def Handled (t : Trace) (seq : Nat) : Prop :=
  ∃ plaintext, Decrypted t seq plaintext ∧ ⟨.handle seq plaintext, .ok ()⟩ ∈ t

/-- A settlement comes through, if that is sure. -/
def Settled (sure : Prop) : Answered Ask Answer → Prop
  | ⟨.ack _, r⟩ | ⟨.nak _, r⟩ => sure → r = .ok ()
  | _ => True

/-- A worker handles and settles what it has fetched. It acknowledges what it has handled.
When settlements are sure, it settles no message that it has handled otherwise. -/
def terms (sure : Prop) : Terms Ask Answer Trace where
  note t e := t ++ [e]
  given _ e := Settled sure e
  may t q :=
    match q with
    | .handle seq plaintext => Decrypted t seq plaintext ∧
        tally (handlings seq) t < tally (fetches seq) t ∧
        (sure → tally (successes seq) t + tally (naks seq) t < tally (fetches seq) t)
    | .ack seq => Handled t seq ∧ tally (acks seq) t < tally (successes seq) t
    | .nak seq => sure → tally (successes seq) t + tally (naks seq) t < tally (fetches seq) t
    | _ => True

/-- How a call ends: with the number of its acknowledgements when each fetched message is
settled, or with the error of a `nak` or of a consumer that was not started. -/
def Ends (c : TaskConsumer) (t : Trace) : Except Raised Nat → Prop
  | .ok n => n = tally allAcks t ∧
      ∀ seq, tally (acks seq) t + tally (naks seq) t = tally (fetches seq) t
  | .error e => (c.started = false ∧ t = [] ∧ e = notStarted) ∨
      ∃ u seq, t = u ++ [⟨.nak seq, .error e⟩]

/-- Where a call stands that still has `msgs` to process. -/
structure Position (sure : Prop) (t : Trace) (msgs : List Msg) (processed : Nat) : Prop where
  there : ∃ batchSize all, (⟨.fetch batchSize, .ok all⟩ : Answered Ask Answer) ∈ t ∧
    ∀ msg ∈ msgs, msg ∈ all
  settled : ∀ seq, tally (acks seq) t + tally (naks seq) t + (msgs.map (·.seq)).count seq =
    tally (fetches seq) t
  handled : ∀ seq, tally (handlings seq) t + (msgs.map (·.seq)).count seq ≤ tally (fetches seq) t
  sure : sure → ∀ seq, tally (successes seq) t + tally (naks seq) t +
    (msgs.map (·.seq)).count seq ≤ tally (fetches seq) t
  acked : ∀ seq, tally (acks seq) t ≤ tally (successes seq) t
  processed : processed = tally allAcks t

section position

variable {sure : Prop} {c : TaskConsumer} {t : Trace} {msg : Msg} {rest msgs : List Msg}
  {processed : Nat}

theorem count_head (msg : Msg) (rest : List Msg) (seq : Nat) :
    ((msg :: rest).map (·.seq)).count seq =
      (rest.map (·.seq)).count seq + if msg.seq = seq then 1 else 0 := by
  simp [List.count_cons]

theorem Position.start {batchSize : Nat} :
    Position sure [⟨.fetch batchSize, .ok msgs⟩] msgs 0 := by
  refine ⟨⟨batchSize, msgs, ?_, ?_⟩, ?_, ?_, ?_, ?_, ?_⟩
  all_goals
    simp [tally, fetches, handlings, successes, acks, naks, allAcks]

/-- The answers `u` settle the message with this number and no other. -/
structure Settles (sure : Prop) (u : Trace) (seq : Nat) : Prop where
  settled : ∀ s, tally (acks s) u + tally (naks s) u = if seq = s then 1 else 0
  fetched : ∀ s, tally (fetches s) u = 0
  handled : ∀ s, tally (handlings s) u ≤ if seq = s then 1 else 0
  sure : sure → ∀ s, tally (successes s) u + tally (naks s) u ≤ if seq = s then 1 else 0
  acked : ∀ s, tally (acks s) u ≤ tally (successes s) u

/-- When the message in hand is settled, the next one is its turn. -/
theorem Position.next {u : Trace} (h : Position sure t (msg :: rest) processed)
    (hu : Settles sure u msg.seq) :
    Position sure (t ++ u) rest (processed + tally allAcks u) := by
  obtain ⟨⟨batchSize, all, hall, hin⟩, hsettled, hhandled, hsure, hacked, hprocessed⟩ := h
  simp only [count_head] at hsettled hhandled hsure
  refine ⟨⟨batchSize, all, List.mem_append_left _ hall,
    fun m hm => hin m (List.mem_cons_of_mem _ hm)⟩, fun seq => ?_, fun seq => ?_,
    fun hs seq => ?_, fun seq => ?_, ?_⟩
  all_goals
    simp only [tally_append]
  · have hbefore := hsettled seq
    have hthen := hu.settled seq
    have hnone := hu.fetched seq
    omega
  · have hbefore := hhandled seq
    have hthen := hu.handled seq
    have hnone := hu.fetched seq
    omega
  · have hbefore := hsure hs seq
    have hthen := hu.sure hs seq
    have hnone := hu.fetched seq
    omega
  · have hbefore := hacked seq
    have hthen := hu.acked seq
    omega
  · omega

/-- The message in hand was fetched once more than it was handled and settled. -/
theorem Position.inHand (h : Position sure t (msg :: rest) processed) :
    tally (handlings msg.seq) t < tally (fetches msg.seq) t ∧
      (sure → tally (successes msg.seq) t + tally (naks msg.seq) t < tally (fetches msg.seq) t) := by
  have hhandled := h.handled msg.seq
  rw [count_head, if_pos rfl] at hhandled
  refine ⟨by omega, fun hs => ?_⟩
  have hsure := h.sure hs msg.seq
  rw [count_head, if_pos rfl] at hsure
  omega

/-- The four ways in which a message is settled. -/
theorem settles_undecrypted {worker : Nat} {e : Raised} :
    Settles sure [⟨.decrypt worker msg.data, .error e⟩, ⟨.nak msg.seq, .ok ()⟩] msg.seq := by
  constructor <;> intros <;> simp [tally, acks, naks, fetches, handlings, successes]

theorem settles_failed {worker : Nat} {plaintext : Json} {e : Raised} :
    Settles sure [⟨.decrypt worker msg.data, .ok plaintext⟩, ⟨.handle msg.seq plaintext, .error e⟩,
      ⟨.nak msg.seq, .ok ()⟩] msg.seq := by
  constructor <;> intros <;> simp [tally, acks, naks, fetches, handlings, successes]

theorem settles_done {worker : Nat} {plaintext : Json} :
    Settles sure [⟨.decrypt worker msg.data, .ok plaintext⟩, ⟨.handle msg.seq plaintext, .ok ()⟩,
      ⟨.ack msg.seq, .ok ()⟩] msg.seq := by
  constructor <;> intros <;> simp [tally, acks, naks, fetches, handlings, successes]

theorem settles_unacked {worker : Nat} {plaintext : Json} {e : Raised} (h : ¬sure) :
    Settles sure [⟨.decrypt worker msg.data, .ok plaintext⟩, ⟨.handle msg.seq plaintext, .ok ()⟩,
      ⟨.ack msg.seq, .error e⟩, ⟨.nak msg.seq, .ok ()⟩] msg.seq := by
  constructor <;> intros <;>
    first
    | exact absurd ‹_› h
    | simp [tally, acks, naks, fetches, handlings, successes]

/-- A message whose processing went wrong is given back, and the loop goes on. -/
theorem keeps_handBack {u : Trace} (h : Position sure t (msg :: rest) processed)
    (hu : Settles sure (u ++ [⟨.nak msg.seq, .ok ()⟩]) msg.seq) (hnone : tally allAcks u = 0)
    (hrest : ∀ t, Position sure t rest processed →
      Keeps (terms sure) (Ends c) t (processAll c rest processed)) :
    Keeps (terms sure) (Ends c) (t ++ u) (.ask (.nak msg.seq) (fun r =>
      match r with
      | .ok () => processAll c rest processed
      | .error e => fail e)) := by
  refine keeps_ask (fun hs => ?_) (fun r _ => ?_)
  · have hbefore := h.inHand.2 hs
    have hfetched := hu.fetched msg.seq
    have hsure := hu.sure hs msg.seq
    simp only [tally_concat, successes, naks, fetches, if_true] at hfetched hsure
    simp only [tally_append]
    omega
  · rcases r with e | _
    · exact keeps_fail (Or.inr ⟨t ++ u, msg.seq, rfl⟩)
    · have hnext := h.next hu
      rw [tally_concat, hnone] at hnext
      show Keeps _ _ (t ++ u ++ [_]) _
      rw [List.append_assoc]
      exact hrest _ hnext

/-- The loop keeps the terms, and ends as it must. -/
theorem keeps_processAll (h : Position sure t msgs processed) :
    Keeps (terms sure) (Ends c) t (processAll c msgs processed) := by
  induction msgs generalizing t processed with
  | nil =>
    refine keeps_pure ⟨h.processed, fun seq => ?_⟩
    simpa using h.settled seq
  | cons msg rest ih =>
    obtain ⟨hhandle, hnak⟩ := h.inHand
    obtain ⟨batchSize, all, hall, hin⟩ := h.there
    unfold processAll attempt
    refine keeps_ask trivial (fun r _ => ?_)
    rcases r with e | plaintext
    · refine keeps_handBack (u := [_]) h settles_undecrypted ?_ (fun t h => ih h)
      simp [tally, allAcks]
    have hdecrypted : Decrypted (t ++ [⟨.decrypt c.worker msg.data, .ok plaintext⟩]) msg.seq
        plaintext :=
      ⟨batchSize, all, msg, c.worker, by simp [hall], hin msg (List.mem_cons_self ..), rfl, by simp⟩
    refine keeps_ask ?_ (fun r _ => ?_)
    · refine ⟨hdecrypted, ?_, fun hs => ?_⟩
      · simpa [terms, tally_concat, handlings, fetches] using hhandle
      · simpa [terms, tally_concat, successes, naks, fetches] using hnak hs
    rcases r with e | _
    · show Keeps _ _ (t ++ [_] ++ [_]) _
      rw [List.append_assoc]
      refine keeps_handBack (u := [_, _]) h settles_failed ?_ (fun t h => ih h)
      simp [tally, allAcks]
    refine keeps_ask ?_ (fun r hr => ?_)
    · refine ⟨⟨plaintext, hdecrypted.mono ?_, ?_⟩, ?_⟩
      · exact List.subset_append_left ..
      · simp [terms]
      · have hacked := h.acked msg.seq
        simp only [terms, tally_concat, acks, successes, if_true]
        omega
    rcases r with e | _
    · have hsure : ¬sure := by
        intro hs
        cases hr hs
      show Keeps _ _ (t ++ [_] ++ [_] ++ [_]) _
      rw [List.append_assoc, List.append_assoc]
      refine keeps_handBack (u := [_, _, _]) h (settles_unacked hsure) ?_ (fun t h => ih h)
      simp [tally, allAcks]
    · show Keeps _ _ (t ++ [_] ++ [_] ++ [_]) _
      rw [List.append_assoc, List.append_assoc]
      have hnext := h.next (@settles_done sure msg c.worker plaintext)
      have hone : tally allAcks [⟨.decrypt c.worker msg.data, .ok plaintext⟩,
          ⟨.handle msg.seq plaintext, .ok ()⟩, ⟨.ack msg.seq, .ok ()⟩] = 1 := by
        simp [tally, allAcks]
      rw [hone] at hnext
      exact ih hnext

/-- Every call keeps the terms, whatever it is answered. -/
theorem keeps_fetchAndProcess (sure : Prop) (job : Fetch) :
    Keeps (terms sure) (Ends job.consumer) [] (fetchAndProcess job) := by
  unfold fetchAndProcess
  split
  · refine keeps_ask trivial (fun r _ => ?_)
    rcases r with e | msgs
    · refine keeps_pure ⟨?_, fun seq => ?_⟩
      all_goals
        simp [terms, tally, allAcks, acks, naks, fetches]
    · exact keeps_processAll Position.start
  · rename_i hstarted
    exact keeps_fail (Or.inl ⟨by simpa using hstarted, rfl, rfl⟩)

end position

/-! ## What holds of every trace -/

/-- What a call that keeps the terms has done at any time. -/
structure Fair (sure : Prop) (t : Trace) : Prop where
  decrypted : ∀ seq plaintext r, (⟨.handle seq plaintext, r⟩ : Answered Ask Answer) ∈ t →
    Decrypted t seq plaintext
  handled : ∀ seq r, (⟨.ack seq, r⟩ : Answered Ask Answer) ∈ t → Handled t seq
  handlings : ∀ seq, tally (handlings seq) t ≤ tally (fetches seq) t
  acks : ∀ seq, tally (acks seq) t ≤ tally (successes seq) t
  sure : sure → ∀ seq, tally (successes seq) t + tally (naks seq) t ≤ tally (fetches seq) t

variable {sure : Prop} {t : Trace}

theorem Handled.mono {u : Trace} {seq : Nat} (h : Handled t seq) (hsub : t ⊆ u) :
    Handled u seq := by
  obtain ⟨plaintext, hdecrypted, hhandle⟩ := h
  exact ⟨plaintext, hdecrypted.mono hsub, hsub hhandle⟩

/-- An answer to a question that may be asked. -/
theorem Fair.answered {e : Answered Ask Answer} (h : Fair sure t) (hmay : (terms sure).may t e.1) :
    Fair sure (t ++ [e]) := by
  have hsub : t ⊆ t ++ [e] := List.subset_append_left ..
  obtain ⟨q, r⟩ := e
  refine ⟨fun seq plaintext r' hr => ?_, fun seq r' hr => ?_, fun seq => ?_, fun seq => ?_,
    fun hs seq => ?_⟩
  · rcases List.mem_append.mp hr with hr | hr
    · exact (h.decrypted seq plaintext r' hr).mono hsub
    · cases List.mem_singleton.mp hr
      exact hmay.1.mono hsub
  · rcases List.mem_append.mp hr with hr | hr
    · exact (h.handled seq r' hr).mono hsub
    · cases List.mem_singleton.mp hr
      exact hmay.1.mono hsub
  · have hbefore := h.handlings seq
    rw [tally_concat, tally_concat]
    cases q with
    | handle s plaintext =>
      have hlt := hmay.2.1
      simp only [task_queue.handlings, fetches]
      split
      · subst s
        omega
      · omega
    | _ =>
      simp only [task_queue.handlings]
      omega
  · have hbefore := h.acks seq
    rw [tally_concat, tally_concat]
    cases q with
    | ack s =>
      have hlt := hmay.2
      rcases r with e | _
      · simp only [task_queue.acks, successes]
        omega
      · simp only [task_queue.acks, successes]
        split
        · subst s
          omega
        · omega
    | _ =>
      simp only [task_queue.acks]
      omega
  · have hbefore := h.sure hs seq
    rw [tally_concat, tally_concat, tally_concat]
    cases q with
    | handle s plaintext =>
      have hlt := hmay.2.2 hs
      rcases r with e | _
      · simp only [successes, naks, fetches]
        omega
      · simp only [successes, naks, fetches]
        split
        · subst s
          omega
        · omega
    | nak s =>
      have hlt := hmay hs
      rcases r with e | _
      · simp only [successes, naks, fetches]
        omega
      · simp only [successes, naks, fetches]
        split
        · subst s
          omega
        · omega
    | _ =>
      simp only [successes, naks]
      omega

theorem fair_nil : Fair sure [] := by
  constructor
  all_goals
    simp

theorem foldl_note (t u : Trace) : u.foldl (terms sure).note t = t ++ u := by
  induction u generalizing t with
  | nil => simp
  | cons e rest ih =>
    rw [List.foldl_cons, ih]
    simp [terms]

/-- Answers that are all as given are so one after the other. -/
theorem honest_of_settled {u : Trace} (h : ∀ e ∈ t, Settled sure e) :
    (terms sure).Honest u t := by
  induction t generalizing u with
  | nil => trivial
  | cons e rest ih =>
    exact ⟨h e (List.mem_cons_self ..), ih fun d hd => h d (List.mem_cons_of_mem _ hd)⟩

/-- Wherever its answers lead a call, it has been fair, and goes on to keep the terms. -/
theorem fair_of_path {job : Fetch} {p : Code Nat} (h : Path (fetchAndProcess job) t p)
    (hsettled : ∀ e ∈ t, Settled sure e) :
    Fair sure t ∧ Keeps (terms sure) (Ends job.consumer) t p := by
  have hkeeps := keeps_fetchAndProcess sure job
  have hhonest := honest_of_settled (u := []) hsettled
  have hfair := hkeeps.history (I := Fair sure) h hhonest
    (fun u e hu hmay _ => hu.answered hmay) fair_nil
  have hrest := hkeeps.path h hhonest
  rw [foldl_note, List.nil_append] at hfair hrest
  exact ⟨hfair, hrest⟩

/-- A call that returns has settled each message as often as it has fetched it, each
once it was handled or given back, and returns the number of its acknowledgements. It raises
the error of a `nak`, and what it still had then it leaves unsettled. -/
theorem a_call_settles_what_it_fetches {job : Fetch} {r : Except Raised Nat}
    (h : Path (fetchAndProcess job) t (.done r)) :
    Ends job.consumer t r ∧
      (∀ seq r, (⟨.ack seq, r⟩ : Answered Ask Answer) ∈ t → Handled t seq) ∧
      ∀ seq, tally (acks seq) t ≤ tally (successes seq) t ∧
        tally (handlings seq) t ≤ tally (fetches seq) t := by
  have hsettled : ∀ e ∈ t, Settled False e := by
    rintro ⟨q, r⟩ -
    cases q <;> simp [Settled]
  obtain ⟨hfair, hends⟩ := fair_of_path h hsettled
  exact ⟨hends, hfair.handled, fun seq => ⟨hfair.acks seq, hfair.handlings seq⟩⟩

end orchestra.task_queue
