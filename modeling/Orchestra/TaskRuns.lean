-- Runs of the task queue: what any number of workers do to the messages of the stream,
-- in any order of steps.
import Orchestra.TaskQueue

open dicts jsons machine programs Program orchestra.key_rotation SecureNatsProvider

namespace orchestra.task_queue

/-! ## What a step does to a message -/

variable {J : Jose} {D : Deployment} {q : Queue}

/-- What a move does to the message with this number. -/
inductive Message.Moves (D : Deployment) (seq : Nat) (m : Message) :
    Move Event Fetch Ask Answer → Message → Prop
  | stays {move : Move Event Fetch Ask Answer} (fetched : move.weight (fetches seq) = 0)
    (settled : D.lossy = false → move.weight (acks seq) = 0 ∧ move.weight (naks seq) = 0) :
    m.Moves D seq move m
  | delivered {i batchSize : Nat} {r : Except Raised (List Msg)} (h : m.Deliverable D)
    (most : fetches seq ⟨.fetch batchSize, r⟩ ≤ 1)
    (all : D.lossy = false → fetches seq ⟨.fetch batchSize, r⟩ = 1) :
    m.Moves D seq (.answer i ⟨.fetch batchSize, r⟩) m.deliver
  | acked {i : Nat} {r : Except Raised Unit} (through : D.lossy = false → r = .ok ()) :
    m.Moves D seq (.answer i ⟨.ack seq, r⟩) m.ack
  | naked {i : Nat} {r : Except Raised Unit} (through : D.lossy = false → r = .ok ()) :
    m.Moves D seq (.answer i ⟨.nak seq, r⟩) m.nak
  | expired (h : D.lossy = true) : m.Moves D seq (.turn (.ackWaitOver seq)) m.nak
  | removed : m.Moves D seq (.turn (.remove seq)) { m with progress := .removed }

/-- What is new on the stream has not been delivered, and what a publisher put there is the
token of its task. -/
structure Message.Fresh (J : Jose) (m : Message) : Prop where
  deliveries : m.deliveries = 0
  progress : m.progress = .waiting
  genuine : ∀ jwm, m.task = some jwm →
    jwm.Distinct ∧ ∃ header x, m.data = (J.encryptCompact header (dumps jwm) x).toUTF8

theorem get_deliver (q : Queue) (seqs : List Nat) (seq : Nat) :
    (q.deliver seqs).messages[seq]? =
      q.messages[seq]?.map (fun m => if seq ∈ seqs then m.deliver else m) := by
  simp [Queue.deliver]

theorem get_change (q : Queue) (i seq : Nat) (f : Message → Message) :
    (q.change i f).messages[seq]? = q.messages[seq]?.map (fun m => if i = seq then f m else m) := by
  simp [Queue.change, List.getElem?_modify]

/-- A publication leaves the stream as it is, or adds one message to it. -/
theorem messages_publish (q : Queue) (m : Message) (headers : Dict String String) :
    (q.publish m headers).1.messages = q.messages ∨
      (q.publish m headers).1.messages = q.messages ++ [m] := by
  unfold Queue.publish
  split
  · exact Or.inl rfl
  · exact Or.inr rfl

theorem messages_task (J : Jose) (p : SecureNatsProvider) (q : Queue) (agentType : String)
    (r : Request) (dedupId : Option String) (reached : Bool) :
    (TaskPublisher.publish J p q agentType r dedupId reached).2.1.messages = q.messages ∨
      ∃ m : Message, m.Fresh J ∧ (TaskPublisher.publish J p q agentType r dedupId
        reached).2.1.messages = q.messages ++ [m] := by
  unfold TaskPublisher.publish
  simp only
  rcases htoken : (p.encryptFor J r).2 with e | token
  · exact Or.inl rfl
  · cases reached with
    | false => exact Or.inl rfl
    | true =>
      have hgenuine : ∃ header x, token = J.encryptCompact header (dumps r.jwm) x := by
        simp only [encryptFor] at htoken
        rcases hkey : ((p.rotateKeysIfNeeded J r.now r.fresh).resolveRecipient J
          r.recipientDid).2 with e | key
        · rw [hkey] at htoken
          cases htoken
        · rw [hkey] at htoken
          exact ⟨_, key.2, (Except.ok.inj htoken).symm⟩
      obtain ⟨header, x, rfl⟩ := hgenuine
      rcases messages_publish q
        ⟨taskSubject agentType, (J.encryptCompact header (dumps r.jwm) x).toUTF8, some r.jwm, 0,
          .waiting⟩ (taskHeaders dedupId) with h | h
      · exact Or.inl h
      · refine Or.inr ⟨_, ⟨rfl, rfl, fun jwm hjwm => ?_⟩, h⟩
        obtain rfl := Option.some.inj hjwm
        exact ⟨distinct_jwm r, header, x, rfl⟩

/-- An event puts one message on the stream, or changes one that is there, or leaves all
as they are. -/
theorem messages_after (J : Jose) (q : Queue) (event : Event) :
    (q.after J event).messages = q.messages ∨
      (∃ m : Message, m.Fresh J ∧ (q.after J event).messages = q.messages ++ [m]) ∨
      (∃ seq, event = .ackWaitOver seq ∧ q.after J event = q.change seq Message.nak) ∨
      ∃ seq, event = .remove seq ∧
        q.after J event = q.change seq (fun m => { m with progress := .removed }) := by
  cases event with
  | publish i agentType r dedupId reached =>
    simp only [Queue.after]
    split
    · exact Or.inl rfl
    · rename_i p hp
      rcases messages_task J p q agentType r dedupId reached with h | ⟨m, hm, h⟩
      · exact Or.inl h
      · exact Or.inr (Or.inl ⟨m, hm, h⟩)
  | foreign subject data =>
    refine Or.inr (Or.inl ⟨_, ⟨rfl, rfl, fun jwm hjwm => ?_⟩, rfl⟩)
    cases hjwm
  | rotateKeys i f => exact Or.inl rfl
  | ackWaitOver seq => exact Or.inr (Or.inr (Or.inl ⟨seq, rfl, rfl⟩))
  | remove seq => exact Or.inr (Or.inr (Or.inr ⟨seq, rfl, rfl⟩))
  | forget id => exact Or.inl rfl

/-- What is delivered counts as fetched once, if the fetch does not fail. -/
theorem fetches_of_fetched (seq : Nat) {batchSize : Nat} {seqs : List Nat}
    {r : Except Raised (List Msg)}
    (hnodup : seqs.Nodup) (h : q.fetched D batchSize seqs r) :
    fetches seq ⟨.fetch batchSize, r⟩ ≤ (if seq ∈ seqs then 1 else 0) ∧
      (D.lossy = false → fetches seq ⟨.fetch batchSize, r⟩ = if seq ∈ seqs then 1 else 0) := by
  rcases r with e | msgs
  · refine ⟨Nat.zero_le _, fun hsure => ?_⟩
    rw [h hsure]
    rfl
  · obtain ⟨rfl, -, -⟩ := h
    rw [← List.Nodup.count hnodup]
    exact ⟨Nat.le_refl _, fun _ => rfl⟩

/-- A settlement takes place, or it is lost. -/
theorem settled_cases {q' : Queue} {i seq : Nat} {f : Message → Message} {r : Except Raised Unit}
    (h : q.settled D i f r q') {m : Message} (hm : q.messages[seq]? = some m) :
    (q'.messages[seq]? = some m ∧ (D.lossy = true ∨ i ≠ seq)) ∨
      (i = seq ∧ q'.messages[seq]? = some (f m) ∧ (D.lossy = false → r = .ok ())) := by
  have hchange : (q.change i f).messages[seq]? = some (if i = seq then f m else m) := by
    rw [get_change, hm]
    rfl
  by_cases hseq : i = seq
  · rw [if_pos hseq] at hchange
    rcases h with ⟨rfl, rfl⟩ | ⟨hlossy, rfl | rfl⟩
    · exact Or.inr ⟨hseq, hchange, fun _ => rfl⟩
    · exact Or.inl ⟨hm, Or.inl hlossy⟩
    · exact Or.inr ⟨hseq, hchange, fun hsure => by simp [hlossy] at hsure⟩
  · rw [if_neg hseq] at hchange
    rcases h with ⟨rfl, rfl⟩ | ⟨hlossy, rfl | rfl⟩
    · exact Or.inl ⟨hchange, Or.inr hseq⟩
    · exact Or.inl ⟨hm, Or.inl hlossy⟩
    · exact Or.inl ⟨hchange, Or.inl hlossy⟩

/-- What a step can do to a message. -/
theorem moves {P P' : Pool Queue Fetch Ask Answer Raised Nat} {move : Move Event Fetch Ask Answer}
    (hstep : (taskQueue J D).machine.step P move P') {seq : Nat} {m : Message}
    (hm : P.shared.messages[seq]? = some m) :
    ∃ m', P'.shared.messages[seq]? = some m' ∧ m.Moves D seq move m' := by
  cases move with
  | start job =>
    obtain ⟨-, rfl⟩ := hstep
    exact ⟨m, hm, .stays rfl (fun _ => ⟨rfl, rfl⟩)⟩
  | answer i e =>
    obtain ⟨-, hserves⟩ := hstep
    obtain ⟨_ | _ | _ | _ | _, r⟩ := e
    · rename_i batchSize
      obtain ⟨seqs, hdeliverable, hfetched, hq⟩ := hserves
      obtain ⟨hmost, hall⟩ := fetches_of_fetched seq hdeliverable.nodup hfetched
      rw [hq, get_deliver, hm]
      by_cases hin : seq ∈ seqs
      · obtain ⟨m', hm', hgives⟩ := hdeliverable.each seq hin
        obtain rfl := Option.some.inj (hm.symm.trans hm')
        rw [if_pos hin] at hmost hall
        exact ⟨m.deliver, by simp [hin], .delivered hgives hmost hall⟩
      · rw [if_neg hin] at hmost
        exact ⟨m, by simp [hin], .stays (Nat.le_zero.mp hmost) (fun _ => ⟨rfl, rfl⟩)⟩
    · obtain ⟨-, hq⟩ := hserves
      rw [hq]
      exact ⟨m, hm, .stays rfl (fun _ => ⟨rfl, rfl⟩)⟩
    · rw [show P'.shared = P.shared from hserves]
      exact ⟨m, hm, .stays rfl (fun _ => ⟨rfl, rfl⟩)⟩
    · rename_i s
      rcases settled_cases hserves hm with ⟨hm', hwhy⟩ | ⟨rfl, hm', hthrough⟩
      · refine ⟨m, hm', .stays rfl (fun hsure => ⟨?_, rfl⟩)⟩
        rcases r with e | _
        · rfl
        · have hne : s ≠ seq := hwhy.resolve_left (by simp [hsure])
          simp [Move.weight, acks, hne]
      · exact ⟨_, hm', .acked hthrough⟩
    · rename_i s
      rcases settled_cases hserves hm with ⟨hm', hwhy⟩ | ⟨rfl, hm', hthrough⟩
      · refine ⟨m, hm', .stays rfl (fun hsure => ⟨rfl, ?_⟩)⟩
        rcases r with e | _
        · rfl
        · have hne : s ≠ seq := hwhy.resolve_left (by simp [hsure])
          simp [Move.weight, naks, hne]
      · exact ⟨_, hm', .naked hthrough⟩
  | turn event =>
    obtain ⟨⟨hq, hevent⟩, -⟩ := hstep
    rw [hq]
    rcases messages_after J P.shared event with h | ⟨m', -, h⟩ | ⟨i, rfl, h⟩ | ⟨i, rfl, h⟩
    · rw [h]
      exact ⟨m, hm, .stays rfl (fun _ => ⟨rfl, rfl⟩)⟩
    · rw [h, List.getElem?_append_left (List.getElem?_eq_some_iff.mp hm).1]
      exact ⟨m, hm, .stays rfl (fun _ => ⟨rfl, rfl⟩)⟩
    · rw [h, get_change, hm]
      by_cases hseq : i = seq
      · subst hseq
        refine ⟨m.nak, by simp, .expired ?_⟩
        by_contra hsure
        exact hevent (by simpa using hsure) i rfl
      · exact ⟨m, by simp [hseq], .stays rfl (fun _ => ⟨rfl, rfl⟩)⟩
    · rw [h, get_change, hm]
      by_cases hseq : i = seq
      · subst hseq
        exact ⟨{ m with progress := .removed }, by simp, .removed⟩
      · exact ⟨m, by simp [hseq], .stays rfl (fun _ => ⟨rfl, rfl⟩)⟩

abbrev Workers : Type := Pool Queue Fetch Ask Answer Raised Nat

/-- A message that was not there before is new. -/
theorem appears {P P' : Workers} {move : Move Event Fetch Ask Answer}
    (hstep : (taskQueue J D).machine.step P move P') {seq : Nat} {m : Message}
    (hm : P'.shared.messages[seq]? = some m) (hnone : P.shared.messages[seq]? = none) :
    m.Fresh J ∧ ∃ event, move = .turn event := by
  have hgone {q' : Queue} {f : Message → Message}
      (h : q'.messages[seq]? = P.shared.messages[seq]?.map f) : q'.messages[seq]? ≠ some m := by
    simp [h, hnone]
  cases move with
  | start job =>
    obtain ⟨-, rfl⟩ := hstep
    simp [hnone] at hm
  | answer i e =>
    obtain ⟨-, hserves⟩ := hstep
    obtain ⟨_ | _ | _ | _ | _, r⟩ := e
    · obtain ⟨seqs, -, -, hq⟩ := hserves
      exact absurd (hq ▸ hm) (hgone (get_deliver ..))
    · obtain ⟨-, hq⟩ := hserves
      simp [hq, hnone] at hm
    · rw [show P'.shared = P.shared from hserves] at hm
      simp [hnone] at hm
    all_goals
      rcases hserves with ⟨hq, -⟩ | ⟨-, hq | hq⟩
      · exact absurd (hq ▸ hm) (hgone (get_change ..))
      · simp [hq, hnone] at hm
      · exact absurd (hq ▸ hm) (hgone (get_change ..))
  | turn event =>
    obtain ⟨⟨hq, -⟩, -⟩ := hstep
    rw [hq] at hm
    rcases messages_after J P.shared event with h | ⟨m', hfresh, h⟩ | ⟨i, -, h⟩ | ⟨i, -, h⟩
    · simp [h, hnone] at hm
    · refine ⟨?_, event, rfl⟩
      rw [h, List.getElem?_append_right (List.getElem?_eq_none_iff.mp hnone)] at hm
      obtain ⟨-, rfl⟩ : _ ∧ m' = m := by
        simpa [List.getElem?_singleton] using hm
      exact hfresh
    · exact absurd (h ▸ hm) (hgone (get_change ..))
    · exact absurd (h ▸ hm) (hgone (get_change ..))

/-! ## Every run -/

theorem Message.Moves.same {seq : Nat} {m m' : Message} {move : Move Event Fetch Ask Answer}
    (h : m.Moves D seq move m') : m'.data = m.data ∧ m'.task = m.task := by
  cases h with
  | acked =>
    unfold Message.ack
    split <;> exact ⟨rfl, rfl⟩
  | naked | expired =>
    unfold Message.nak
    split <;> exact ⟨rfl, rfl⟩
  | _ => exact ⟨rfl, rfl⟩

/-- What the stream and the providers still show of an answer. -/
def Recorded (J : Jose) (D : Deployment) (q : Queue) : Answered Ask Answer → Prop
  | ⟨.fetch _, .ok msgs⟩ => ∀ msg ∈ msgs, ∃ m, q.messages[msg.seq]? = some m ∧ m.data = msg.data
  | ⟨.decrypt _ data, .ok plaintext⟩ => ∃ p, decryptData J p data = .ok plaintext
  | e => Settled (D.lossy = false) e

theorem recorded {P : Workers} (h : Reachable (taskQueue J D).machine P) :
    ∀ task ∈ P.tasks, ∀ e ∈ task.trace, Recorded J D P.shared e := by
  refine Pool.recorded (fun q e q' hserves => ?_) (fun P move P' e hstep he => ?_) h
  · obtain ⟨_ | _ | _ | _ | _, r⟩ := e
    · rcases r with e | msgs
      · trivial
      · obtain ⟨seqs, -, ⟨-, -, hthere⟩, rfl⟩ := hserves
        intro msg hmsg
        obtain ⟨m, hm, hdata⟩ := hthere msg hmsg
        rw [get_deliver, hm]
        refine ⟨_, rfl, ?_⟩
        split <;> exact hdata
    · obtain ⟨⟨p, -, hr⟩, -⟩ := hserves
      rcases r with e | plaintext
      · trivial
      · exact ⟨p, hr.symm⟩
    · trivial
    all_goals
      intro hsure
      rcases hserves with ⟨-, hr⟩ | ⟨hlossy, -⟩
      · exact hr
      · rw [hsure] at hlossy
        cases hlossy
  · obtain ⟨_ | _ | _ | _ | _, r⟩ := e
    · rcases r with e | msgs
      · trivial
      · intro msg hmsg
        obtain ⟨m, hm, hdata⟩ := he msg hmsg
        obtain ⟨m', hm', hmoves⟩ := moves hstep hm
        exact ⟨m', hm', hmoves.same.1.trans hdata⟩
    · rcases r with e | plaintext
      · trivial
      · exact he
    all_goals
      exact he

/-- What is not on the stream has not been fetched. -/
theorem fetches_none {P : Workers} (h : Reachable (taskQueue J D).machine P) {seq : Nat}
    (hnone : P.shared.messages[seq]? = none) : P.tally (fetches seq) = 0 := by
  refine Pool.tally_eq_zero fun task htask e he => ?_
  have hrecorded := recorded h task htask e he
  obtain ⟨_ | _ | _ | _ | _, r⟩ := e
  · rcases r with e | msgs
    · rfl
    · refine List.count_eq_zero.mpr fun hin => ?_
      obtain ⟨msg, hmsg, rfl⟩ := List.mem_map.mp hin
      obtain ⟨m, hm, -⟩ := hrecorded msg hmsg
      rw [hnone] at hm
      cases hm
  all_goals
    rfl

/-- What holds of every new message and is kept by whatever happens to it holds of all
messages in every run. -/
theorem message_invariant {I : Workers → Nat → Message → Prop}
    (hfresh : ∀ P seq m, Reachable (taskQueue J D).machine P → m.Fresh J →
      P.tally (fetches seq) = 0 → I P seq m)
    (hmoves : ∀ P move P' seq m m', Reachable (taskQueue J D).machine P →
      (taskQueue J D).machine.step P move P' → m.Moves D seq move m' → I P seq m → I P' seq m')
    {P : Workers} (h : Reachable (taskQueue J D).machine P) :
    ∀ seq m, P.shared.messages[seq]? = some m → I P seq m := by
  have hboth : Reachable (taskQueue J D).machine P ∧
      ∀ seq m, P.shared.messages[seq]? = some m → I P seq m := by
    refine h.invariant (I := fun P => Reachable (taskQueue J D).machine P ∧
      ∀ seq m, P.shared.messages[seq]? = some m → I P seq m) (fun P hinit => ?_)
      (fun P move P' hP hstep => ⟨hP.1.step hstep, fun seq m' hm' => ?_⟩)
    · refine ⟨reachable_init hinit, fun seq m hm => ?_⟩
      rw [hinit.1.1] at hm
      cases hm
    · rcases hm : P.shared.messages[seq]? with _ | m
      · obtain ⟨hnew, event, rfl⟩ := appears hstep hm' hm
        refine hfresh P' seq m' (hP.1.step hstep) hnew ?_
        rw [Pool.tally_step _ hstep, fetches_none hP.1 hm]
        rfl
      · obtain ⟨m'', hm'', hmove⟩ := moves hstep hm
        obtain rfl := Option.some.inj (hm'.symm.trans hm'')
        exact hmoves P move P' seq m m' hP.1 hstep hmove (hP.2 seq m hm)
  exact hboth.2

/-- Every call of every run is fair. In a deployment that is not lossy, settlements are sure. -/
theorem fair {P : Workers} (h : Reachable (taskQueue J D).machine P) {task : Task Fetch Ask Answer
    Raised Nat} (htask : task ∈ P.tasks) :
    Fair (D.lossy = false) task.trace ∧
      Keeps (terms (D.lossy = false)) (Ends task.job.consumer) task.trace task.code := by
  refine fair_of_path (Pool.follows h task htask) fun e he => ?_
  have hrecorded := recorded h task htask e he
  obtain ⟨_ | _ | _ | _ | _, r⟩ := e
  case ack | nak => exact hrecorded
  all_goals
    trivial

theorem successes_naks_le {P : Workers} (h : Reachable (taskQueue J D).machine P)
    (hsure : D.lossy = false) (seq : Nat) :
    P.tally (successes seq) + P.tally (naks seq) ≤ P.tally (fetches seq) := by
  rw [← Pool.tally_add]
  refine Pool.tally_le fun task htask => ?_
  rw [tally_add]
  exact (fair h htask).1.sure hsure seq

theorem acks_le_successes {P : Workers} (h : Reachable (taskQueue J D).machine P) (seq : Nat) :
    P.tally (acks seq) ≤ P.tally (successes seq) :=
  Pool.tally_le fun _ htask => (fair h htask).1.acks seq

/-- How often an acknowledgement was sent, whether or not it came through. -/
def ackAsks (seq : Nat) : Answered Ask Answer → Nat
  | ⟨.ack s, _⟩ => if s = seq then 1 else 0
  | _ => 0

/-- What the stream knows about its messages. -/
structure Ledger (D : Deployment) (P : Workers) (seq : Nat) (m : Message) : Prop where
  fetched : P.tally (fetches seq) ≤ m.deliveries
  most : ∀ n, D.maxDeliver = some n → m.deliveries ≤ n
  acked : m.progress = .acked → 0 < P.tally (ackAsks seq)

theorem ledger {P : Workers} (h : Reachable (taskQueue J D).machine P) {seq : Nat} {m : Message}
    (hm : P.shared.messages[seq]? = some m) : Ledger D P seq m := by
  refine message_invariant (I := Ledger D) (fun P seq m hP hnew hnone => ?_)
    (fun P move P' seq m m' hP hstep hmove hI => ?_) h seq m hm
  · refine ⟨by omega, fun n _ => ?_, fun hacked => ?_⟩
    · rw [hnew.deliveries]
      exact Nat.zero_le n
    · rw [hnew.progress] at hacked
      cases hacked
  · obtain ⟨hfetched, hmost, hacked⟩ := hI
    have hthen := Pool.tally_step (fetches seq) hstep
    have hasks := Pool.tally_step (ackAsks seq) hstep
    cases hmove with
    | stays hnone =>
      refine ⟨by omega, hmost, fun h => ?_⟩
      have := hacked h
      omega
    | delivered hgives hone =>
      refine ⟨?_, fun n hn => hgives.left n hn, fun h => by cases h⟩
      simp only [Message.deliver, Move.weight] at hthen ⊢
      omega
    | acked =>
      have hone : P'.tally (ackAsks seq) = P.tally (ackAsks seq) + 1 := by
        simpa [Move.weight, ackAsks] using hasks
      have hzero : P'.tally (fetches seq) = P.tally (fetches seq) := hthen
      unfold Message.ack
      split
      · exact ⟨by omega, hmost, fun _ => by omega⟩
      · refine ⟨?_, hmost, fun _ => by omega⟩
        show P'.tally (fetches seq) ≤ m.deliveries
        omega
    | naked | expired =>
      have hzero : P'.tally (fetches seq) = P.tally (fetches seq) := hthen
      unfold Message.nak
      split
      · refine ⟨?_, hmost, fun h => by cases h⟩
        show P'.tally (fetches seq) ≤ m.deliveries
        omega
      · refine ⟨by omega, hmost, fun h => ?_⟩
        have := hacked h
        omega
    | removed =>
      have hzero : P'.tally (fetches seq) = P.tally (fetches seq) := hthen
      refine ⟨?_, hmost, fun h => by cases h⟩
      show P'.tally (fetches seq) ≤ m.deliveries
      omega

/-- In every run, the handlers are called on a message no more often than it is delivered, and
it is delivered no more often than `max_deliver` allows. -/
theorem handler_calls_within_deliveries {P : Workers} (h : Reachable (taskQueue J D).machine P)
    {seq : Nat} {m : Message} (hm : P.shared.messages[seq]? = some m) :
    P.tally (handlings seq) ≤ m.deliveries ∧ ∀ n, D.maxDeliver = some n → m.deliveries ≤ n := by
  obtain ⟨hfetched, hmost, -⟩ := ledger h hm
  have hhandled : P.tally (handlings seq) ≤ P.tally (fetches seq) :=
    Pool.tally_le fun _ htask => (fair h htask).1.handlings seq
  exact ⟨by omega, hmost⟩

/-! ## What handlers get -/

theorem decryptData_toUTF8 (p : SecureNatsProvider) (token : String) :
    decryptData J p token.toUTF8 = p.decrypt J token := by
  unfold decryptData
  rw [show String.fromUTF8? token.toUTF8 = some token from dif_pos token.isValidUTF8]

/-- The token of a task decrypts to the task or not at all. -/
theorem decryptData_token (hJ : J.Sound) {p : SecureNatsProvider} {header : List (String × String)}
    {x : peer_did.Bytes} {jwm plaintext : Json} (hjwm : jwm.Distinct)
    (h : decryptData J p (J.encryptCompact header (dumps jwm) x).toUTF8 = .ok plaintext) :
    plaintext = jwm := by
  rw [decryptData_toUTF8] at h
  unfold decrypt at h
  rw [tryKeys_token hJ header x hjwm] at h
  split at h
  · exact (Except.ok.inj h).symm
  · cases h

/-- What a publisher put on the stream. -/
theorem genuine {P : Workers} (h : Reachable (taskQueue J D).machine P) {seq : Nat} {m : Message}
    (hm : P.shared.messages[seq]? = some m) : ∀ jwm, m.task = some jwm →
      jwm.Distinct ∧ ∃ header x, m.data = (J.encryptCompact header (dumps jwm) x).toUTF8 := by
  refine message_invariant (J := J) (I := fun _ _ m => ∀ jwm, m.task = some jwm →
    jwm.Distinct ∧ ∃ header x, m.data = (J.encryptCompact header (dumps jwm) x).toUTF8)
    (fun P seq m _ hnew _ => hnew.genuine) (fun P move P' seq m m' _ _ hmove hI => ?_) h seq m hm
  obtain ⟨hdata, htask⟩ := hmove.same
  rw [hdata, htask]
  exact hI

/-- In every run, all that a handler is ever given of a published task is this task, and a
task that is acknowledged was handled by a call that came through. -/
theorem handlers_get_what_was_published (hJ : J.Sound) {P : Workers}
    (h : Reachable (taskQueue J D).machine P) {seq : Nat} {m : Message}
    (hm : P.shared.messages[seq]? = some m) {jwm : Json} (hjwm : m.task = some jwm) :
    (∀ task ∈ P.tasks, ∀ plaintext r, (⟨.handle seq plaintext, r⟩ : Answered Ask Answer) ∈ task.trace →
        plaintext = jwm) ∧
      (m.progress = .acked → ∃ task ∈ P.tasks,
        (⟨.handle seq jwm, .ok ()⟩ : Answered Ask Answer) ∈ task.trace) := by
  obtain ⟨hdistinct, header, x, hdata⟩ := genuine h hm jwm hjwm
  have hall : ∀ task ∈ P.tasks, ∀ plaintext, Decrypted task.trace seq plaintext →
      plaintext = jwm := by
    rintro task htask plaintext ⟨batchSize, msgs, msg, worker, hfetch, hmsg, rfl, hdecrypt⟩
    obtain ⟨m', hm', hsame⟩ := recorded h task htask _ hfetch msg hmsg
    obtain rfl := Option.some.inj (hm.symm.trans hm')
    obtain ⟨p, hp⟩ := recorded h task htask _ hdecrypt
    rw [← hsame, hdata] at hp
    exact decryptData_token hJ hdistinct hp
  refine ⟨fun task htask plaintext r hr => ?_, fun hacked => ?_⟩
  · exact hall task htask plaintext ((fair h htask).1.decrypted seq plaintext r hr)
  · obtain ⟨task, htask, ⟨q, r⟩, he, hpos⟩ := Pool.exists_of_tally_pos ((ledger h hm).acked hacked)
    cases q with
    | ack s =>
      simp only [ackAsks] at hpos
      split at hpos
      · subst s
        obtain ⟨plaintext, hdecrypted, hhandle⟩ := (fair h htask).1.handled seq r he
        rw [hall task htask plaintext hdecrypted] at hhandle
        exact ⟨task, htask, hhandle⟩
      · omega
    | _ =>
      simp only [ackAsks] at hpos
      omega

/-! ## Exactly once -/

/-- A message when nothing gets lost: it is in flight when it was delivered once more than it
was given back. -/
structure Steady (P : Workers) (seq : Nat) (m : Message) : Prop where
  fetched : P.tally (fetches seq) = m.deliveries
  most : m.deliveries ≤ P.tally (naks seq) + 1
  waiting : m.progress = .waiting → m.deliveries = P.tally (naks seq)
  inFlight : m.progress = .inFlight → m.deliveries = P.tally (naks seq) + 1
  acked : m.progress = .acked → 0 < P.tally (acks seq)
  settled : 0 < P.tally (acks seq) → m.progress = .acked ∨ m.progress = .removed

theorem steady {P : Workers} (h : Reachable (taskQueue J D).machine P) (hsure : D.lossy = false)
    {seq : Nat} {m : Message} (hm : P.shared.messages[seq]? = some m) : Steady P seq m := by
  refine message_invariant (J := J) (D := D) (I := Steady) (fun P seq m hP hnew hnone => ?_)
    (fun P move P' seq m m' hP hstep hmove hI => ?_) h seq m hm
  · have hfair := successes_naks_le hP hsure seq
    have hacks := acks_le_successes hP seq
    obtain ⟨hdeliveries, hprogress, -⟩ := hnew
    refine ⟨by omega, by omega, fun _ => by omega, fun h => ?_, fun h => ?_, fun _ => by omega⟩
    all_goals
      rw [hprogress] at h
      cases h
  · obtain ⟨hfetched, hmost, hwaiting, hinFlight, hacked, hsettled⟩ := hI
    have hfetches := Pool.tally_step (fetches seq) hstep
    have hnaks := Pool.tally_step (naks seq) hstep
    have hacks := Pool.tally_step (acks seq) hstep
    have hfair := successes_naks_le (hP.step hstep) hsure seq
    cases hmove with
    | stays hnone hsame =>
      obtain ⟨hnoack, hnonak⟩ := hsame hsure
      rw [hnone, Nat.add_zero] at hfetches
      rw [hnonak, Nat.add_zero] at hnaks
      rw [hnoack, Nat.add_zero] at hacks
      exact ⟨by rw [hfetches, hfetched], by rwa [hnaks], by rwa [hnaks], by rwa [hnaks],
        by rwa [hacks], by rwa [hacks]⟩
    | delivered hgives hmost hone =>
      have hwait := hwaiting hgives.waiting
      have hnow := hone hsure
      have hnoack : ¬0 < P.tally (acks seq) := by
        intro hpos
        have hdone := hsettled hpos
        rw [hgives.waiting] at hdone
        simp at hdone
      simp only [Move.weight, hnow] at hfetches
      simp only [Move.weight, naks, Nat.add_zero] at hnaks
      simp only [Move.weight, acks, Nat.add_zero] at hacks
      refine ⟨?_, ?_, by simp [Message.deliver], fun _ => ?_, by simp [Message.deliver],
        fun h => by omega⟩
      all_goals
        simp only [Message.deliver]
        omega
    | acked hthrough =>
      rw [hthrough hsure] at hfetches hnaks hacks
      simp only [Move.weight, fetches, Nat.add_zero] at hfetches
      simp only [Move.weight, naks, Nat.add_zero] at hnaks
      simp only [Move.weight, acks, if_true] at hacks
      unfold Message.ack
      split
      · rename_i hremoved
        refine ⟨by omega, by omega, fun h => ?_, fun h => ?_, fun _ => by omega,
          fun _ => Or.inr hremoved⟩
        all_goals
          rw [hremoved] at h
          cases h
      · exact ⟨hfetches.trans hfetched, by simpa [hnaks] using hmost, by simp, by simp,
          fun _ => by omega, fun _ => Or.inl rfl⟩
    | naked hthrough =>
      rw [hthrough hsure] at hfetches hnaks hacks
      simp only [Move.weight, fetches, Nat.add_zero] at hfetches
      simp only [Move.weight, naks, if_true] at hnaks
      simp only [Move.weight, acks, Nat.add_zero] at hacks
      unfold Message.nak
      split
      · rename_i hflight
        have hone := hinFlight hflight
        have hnoack : ¬0 < P.tally (acks seq) := by
          intro hpos
          have hdone := hsettled hpos
          rw [hflight] at hdone
          simp at hdone
        refine ⟨?_, ?_, fun _ => ?_, by simp, by simp, fun h => by omega⟩
        all_goals
          simp only
          omega
      · rename_i hflight
        -- a worker gives back only what it was given, so the message is not waiting
        have hnot : m.progress ≠ .waiting := by
          intro h
          have := hwaiting h
          omega
        exact ⟨by omega, by omega, fun h => absurd h hnot, fun h => absurd h hflight,
          by rwa [hacks], by rwa [hacks]⟩
    | expired hlossy =>
      rw [hsure] at hlossy
      cases hlossy
    | removed =>
      have hzero : ∀ w : Answered Ask Answer → Nat, P'.tally w = P.tally w :=
        fun w => Pool.tally_step w hstep
      refine ⟨by simpa [hzero] using hfetched, by simpa [hzero] using hmost, by simp, by simp,
        by simp, fun _ => Or.inr rfl⟩

/-- When nothing gets lost, no message has a handler come through on it twice, in any order
of any number of calls: one that is acknowledged had exactly one come through, and once all
calls have returned none is left in flight. -/
theorem a_task_is_handled_once {P : Workers} (h : Reachable (taskQueue J D).machine P)
    (hsure : D.lossy = false) {seq : Nat} {m : Message}
    (hm : P.shared.messages[seq]? = some m) :
    P.tally (successes seq) ≤ 1 ∧ (m.progress = .acked → P.tally (successes seq) = 1) ∧
      ((∀ task ∈ P.tasks, task.code.ended = true) → m.progress ≠ .inFlight) := by
  obtain ⟨hfetched, hmost, -, hinFlight, hacked, hsettled⟩ := steady h hsure hm
  have hfair := successes_naks_le h hsure seq
  have hacks := acks_le_successes h seq
  refine ⟨by omega, fun hack => ?_, fun hended hflight => ?_⟩
  · have hpos := hacked hack
    omega
  · have hone := hinFlight hflight
    -- a call that has ended has settled all that it has fetched
    have hall : P.tally (fun e => acks seq e + naks seq e) = P.tally (fetches seq) := by
      refine Pool.tally_congr fun task htask => ?_
      rw [tally_add]
      have hends := (fair h htask).2
      have hdone := hended task htask
      rcases hcode : task.code with (e | n) | ⟨q, next⟩
      · rw [hcode] at hends
        rcases hends with ⟨-, hnil, -⟩ | ⟨u, s, htrace⟩
        · rw [hnil]
          rfl
        · have hlost := recorded h task htask ⟨.nak s, .error e⟩ (by simp [htrace])
          cases hlost hsure
      · rw [hcode] at hends
        exact hends.2 seq
      · rw [hcode] at hdone
        cases hdone
    rw [Pool.tally_add] at hall
    have hdone := hsettled (by omega)
    rw [hflight] at hdone
    simp at hdone

/-! ## A run -/

def testRequest : Request where
  id := "1"
  createdTime := 0
  body := [("goal", .str "review")]
  distinct := by simp [Json.Distinct, DistinctMembers]
  recipientDid := "did:peer:worker"
  now := 0
  fresh := secondFresh

/-- A provider that knows its own key by a DID, and keeps it. -/
def testProvider : SecureNatsProvider where
  ownKeys := generateKeyMaterial testJose testUrl firstFresh
  keyRotationInterval := 0
  natsUrl := testUrl
  keyCreatedAt := 0
  keyWallTime := 0
  recipientCache := Dict.empty.set "did:peer:worker" ("key-1", firstFresh.keypair.x)
  keyHistory := []

def testDeployment : Deployment := ⟨"research", some 3, false⟩

/-- The task as it is on its way. -/
@[irreducible] def testToken : String :=
  testJose.encryptCompact (baseProtectedHeader ++ [("kid", "key-0")]) (dumps testRequest.jwm)
    firstFresh.keypair.x

def testMsg : Msg := ⟨0, testToken.toUTF8⟩

/-- The queue when the one task on it was delivered so many times. -/
def testQueue (deliveries : Nat) (progress : Progress) : Queue where
  messages := [⟨"orchestra.tasks.research", testToken.toUTF8, some testRequest.jwm, deliveries,
    progress⟩]
  providers := [testProvider]
  seen := .empty

/-- One worker has handled one task. -/
def testPool : Workers :=
  ⟨testQueue 1 .acked, [⟨⟨⟨0, true⟩, 1⟩,
    [⟨.fetch 1, .ok [testMsg]⟩, ⟨.decrypt 0 testMsg.data, .ok testRequest.jwm⟩,
      ⟨.handle 0 testRequest.jwm, .ok ()⟩, ⟨.ack 0, .ok ()⟩],
    .done (.ok 1)⟩]⟩

theorem testProvider_decrypts : decryptData testJose testProvider testMsg.data =
    .ok testRequest.jwm := by
  have hown : testProvider.ownKeys.keypair.x = firstFresh.keypair.x := rfl
  refine (decryptData_toUTF8 testProvider testToken).trans ?_
  unfold testToken
  have htoken := tryKeys_token testJose_sound (baseProtectedHeader ++ [("kid", "key-0")])
    firstFresh.keypair.x (distinct_jwm testRequest)
    (testProvider.ownKeys :: testProvider.keyHistory.reverse)
  rw [if_pos ⟨testProvider.ownKeys, List.mem_cons_self .., hown⟩] at htoken
  exact htoken

theorem reachable_testPool : Reachable (taskQueue testJose testDeployment).machine testPool := by
  let M := (taskQueue testJose testDeployment).machine
  have h0 : Reachable M ⟨⟨[], [testProvider], .empty⟩, []⟩ :=
    reachable_init ⟨⟨rfl, rfl⟩, rfl⟩
  have h1 : Reachable M ⟨testQueue 0 .waiting, []⟩ := by
    refine h0.step (a := .turn (.publish 0 "research" testRequest none true)) ⟨⟨?_, nofun⟩, rfl⟩
    unfold testQueue testToken
    rfl
  have h2 := Pool.reachable_start h1 ⟨⟨0, true⟩, 1⟩ trivial
  have hdeliverable : (testQueue 0 .waiting).Deliverable testDeployment [0] := by
    refine ⟨List.nodup_singleton 0, fun seq hseq => ?_⟩
    rw [List.mem_singleton.mp hseq]
    refine ⟨_, rfl, rfl, rfl, fun n hn => ?_⟩
    obtain rfl := Option.some.inj hn
    decide
  have h3 := Pool.reachable_answer (s := testQueue 1 .inFlight) h2 0 ⟨.fetch 1, .ok [testMsg]⟩ rfl rfl
    ⟨[0], hdeliverable, ⟨rfl, Nat.le_refl 1, fun msg hmsg => by
      obtain rfl := List.mem_singleton.mp hmsg
      refine ⟨⟨"orchestra.tasks.research", testToken.toUTF8, some testRequest.jwm, 0, .waiting⟩, ?_, ?_⟩
      · rfl
      · rfl⟩, rfl⟩
  have h4 := Pool.reachable_answer (s := testQueue 1 .inFlight) h3 0
    ⟨.decrypt 0 testMsg.data, .ok testRequest.jwm⟩ rfl rfl
    ⟨⟨testProvider, rfl, testProvider_decrypts.symm⟩, rfl⟩
  have h5 := Pool.reachable_answer (s := testQueue 1 .inFlight) h4 0
    ⟨.handle 0 testRequest.jwm, .ok ()⟩ rfl rfl rfl
  exact Pool.reachable_answer (s := testQueue 1 .acked) h5 0 ⟨.ack 0, .ok ()⟩ rfl rfl
    (Or.inl ⟨rfl, rfl⟩)

/-- The one handler call of the run got the task that was published. -/
theorem a_published_task_is_handled :
    (∀ task ∈ testPool.tasks, ∀ plaintext r,
        (⟨.handle 0 plaintext, r⟩ : Answered Ask Answer) ∈ task.trace →
          plaintext = testRequest.jwm) ∧
      ∃ task ∈ testPool.tasks,
        (⟨.handle 0 testRequest.jwm, .ok ()⟩ : Answered Ask Answer) ∈ task.trace := by
  have hmessage : testPool.shared.messages[0]? = some _ := rfl
  obtain ⟨hall, hacked⟩ :=
    handlers_get_what_was_published testJose_sound reachable_testPool hmessage rfl
  exact ⟨hall, hacked rfl⟩

/-- Of the three deliveries that it may have, the task took one. -/
theorem one_delivery_is_handled : testPool.tally (handlings 0) ≤ 1 ∧ 1 ≤ 3 := by
  have hmessage : testPool.shared.messages[0]? = some _ := rfl
  obtain ⟨hcalls, hmost⟩ := handler_calls_within_deliveries reachable_testPool hmessage
  exact ⟨hcalls, hmost 3 rfl⟩

/-- Nothing was lost on the way. -/
theorem the_task_came_through_once : testPool.tally (successes 0) = 1 := by
  have hmessage : testPool.shared.messages[0]? = some _ := rfl
  obtain ⟨-, honce, -⟩ := a_task_is_handled_once reachable_testPool rfl hmessage
  exact honce rfl

/-- The call of the run returns 1, for the one task that it has acknowledged. -/
theorem the_call_counts_its_task : 1 = tally allAcks (testPool.tasks.flatMap (·.trace)) := by
  have hpath : Path (fetchAndProcess ⟨⟨0, true⟩, 1⟩) _ (.done (.ok 1)) :=
    Pool.follows reachable_testPool _ (List.mem_cons_self ..)
  obtain ⟨⟨hcount, -⟩, -⟩ := a_call_settles_what_it_fetches hpath
  exact hcount

end orchestra.task_queue
