-- Who learns the outcome of a diligence run. All clients of a run share one queue, and its
-- last three messages are put once: so they reach a client only when it is the only one
-- that reads, and nobody came for them before.
import Orchestra.Tprm.Server

open dicts machine orchestra.tprm.server

namespace orchestra.tprm.outcomes

/-! ## The law -/

/-- The client got the verdict or the error of the run, and then `done`. -/
def Learned (received : List Event) : Prop :=
  ∃ before o, o.isOutcome = true ∧ received = before ++ [o, .done]

/-- The task has ended and nothing is left in the queue, so that no client gets anything more
from it. -/
structure Drained (r : Run) : Prop where
  ended : r.task = .ended
  empty : r.queue = []

/-- In a drained run each client that still listens has learned the outcome, unless it was
past its deadline. -/
def AllLearned (s : Server) : Prop :=
  ∀ runId r, s.runs.get? runId = some r → Drained r →
    ∀ c ∈ r.clients, c.listening = true → c.phase ≠ .expired → Learned c.received

/-! ## The condition -/

/-- The verdict or the error is still in the queue, or to come. -/
def OutcomeAhead (r : Run) : Prop :=
  r.task = .ended → ∃ o, o.isOutcome = true ∧ some o ∈ r.queue

/-- The head of the queue is none of the last three messages. -/
def EarlyHead (r : Run) : Prop := ∀ m, r.queue.head? = some m → ∃ e, m = some e ∧ e.isEarly = true

/-- No other client reads the queue. -/
def Alone (r : Run) (i : Nat) : Prop :=
  ∀ (j : Nat) (c : Client), r.clients[j]? = some c → c.Reads → j = i

/-- A run is in the registry when its task writes its status, a client connects while the
outcome can still reach it, and the last three messages are taken by a stream that no other
client reads beside. -/
def Allowed (s : Server) : Action → Prop
  | .start runId _ | .finish runId _ _ => s.registered runId = true
  | .connect runId => ∀ r, s.runs.get? runId = some r → OutcomeAhead r
  | .take runId i => ∀ r, s.runs.get? runId = some r → EarlyHead r ∨ Alone r i
  | _ => True

/-! ## The invariant -/

/-- What the client got and what is in the queue end with the outcome, `done` and the
sentinel. -/
def Owed (c : Client) (queue : List (Option Event)) : Prop :=
  ∃ whole, Learned whole ∧ c.received.map some ++ queue = whole.map some ++ [none]

/-- How far a run is: nothing but early messages, all of the last three in the queue, or some
of them taken by the one client that reads. -/
inductive Stage (r : Run) : Prop
  | running (early : List Event) (notEnded : r.task ≠ .ended)
    (isEarly : ∀ e ∈ early, e.isEarly = true) (queue : r.queue = early.map some)
  | complete (early : List Event) (o : Event) (ended : r.task = .ended)
    (outcome : o.isOutcome = true) (isEarly : ∀ e ∈ early, e.isEarly = true)
    (queue : r.queue = early.map some ++ ending o)
  | last (ended : r.task = .ended) (late : ∀ m ∈ r.queue, m = some .done ∨ m = none)
    (owed : ∀ c ∈ r.clients, c.Reads → Owed c r.queue)

structure Fine (r : Run) : Prop where
  closed : ∀ c ∈ r.clients, c.listening = true → c.phase = .closed → Learned c.received
  uncancelled : ∀ c ∈ r.clients, c.listening = true → c.phase ≠ .cancelled
  stage : Stage r

theorem fine_new : Fine .new := by
  refine ⟨?_, ?_, .running [] TaskPhase.noConfusion ?_ rfl⟩
  · rintro c ⟨⟩
  · rintro c ⟨⟩
  · rintro e ⟨⟩

/-! ## A client takes a step -/

variable {r t : Run} {i : Nat}

theorem atClient_some {f : Client → Option Client} (h : r.atClient i f = some t) :
    ∃ c c', r.clients[i]? = some c ∧ f c = some c' ∧
      t = { r with clients := r.clients.set i c' } := by
  unfold Run.atClient at h
  rcases hc : r.clients[i]? with _ | c
  · rw [hc] at h
    cases h
  · rcases hf : f c with _ | c'
    · rw [hc] at h
      simp only [Option.bind_eq_bind, Option.bind_some, hf] at h
      cases h
    · rw [hc] at h
      simp only [Option.bind_eq_bind, Option.bind_some, hf] at h
      cases h
      exact ⟨c, c', rfl, hf, rfl⟩

/-- What of a client a step that takes nothing leaves as it was. -/
structure Idle (c c' : Client) : Prop where
  received : c'.received = c.received
  listening : c'.listening = true → c.listening = true
  reads : c'.Reads → c.Reads
  closed : c'.phase = .closed → c.phase = .closed
  cancelled : c'.phase = .cancelled → c.phase = .cancelled ∨ c'.listening = false

theorem idle_look {now : Nat} {c c' : Client} (h : c.look now = some c') : Idle c c' := by
  unfold Client.look at h
  split at h
  · rename_i hphase
    split at h <;> cases h
    · exact ⟨rfl, id, fun hr => ⟨hr.1, .inl hphase⟩, nofun, nofun⟩
    · exact ⟨rfl, id, fun hr => ⟨hr.1, .inl hphase⟩, nofun, nofun⟩
  · cases h

theorem idle_heartbeat {c c' : Client} (h : c.heartbeat = some c') : Idle c c' := by
  unfold Client.heartbeat at h
  split at h
  · rename_i hphase
    cases h
    exact ⟨rfl, id, fun hr => ⟨hr.1, .inr hphase⟩, nofun, nofun⟩
  · cases h

theorem idle_leave {c c' : Client} (h : c.leave = some c') : Idle c c' := by
  cases h
  exact ⟨rfl, nofun, fun hr => absurd hr.1 nofun, id, fun _ => .inr rfl⟩

theorem idle_cancel {c c' : Client} (h : c.cancel = some c') : Idle c c' := by
  unfold Client.cancel at h
  split at h
  · rename_i hgone
    cases h
    refine ⟨rfl, id, fun hr => ?_, nofun, fun _ => .inr hgone⟩
    rw [Client.Reads] at hr
    rcases hr.2 with hp | hp <;> cases hp
  · cases h

theorem fine_idle {f : Client → Option Client} (hf : ∀ c c', f c = some c' → Idle c c')
    (h : Fine r) (hstep : r.atClient i f = some t) : Fine t := by
  obtain ⟨c, c', hc, hcc, rfl⟩ := atClient_some hstep
  have hidle := hf c c' hcc
  have hmem : c ∈ r.clients := List.mem_of_getElem? hc
  refine ⟨?_, ?_, ?_⟩
  · intro x hx hl hp
    rcases List.mem_or_eq_of_mem_set hx with hx | rfl
    · exact h.closed x hx hl hp
    · rw [hidle.received]
      exact h.closed c hmem (hidle.listening hl) (hidle.closed hp)
  · intro x hx hl hp
    rcases List.mem_or_eq_of_mem_set hx with hx | rfl
    · exact h.uncancelled x hx hl hp
    · rcases hidle.cancelled hp with hp | hgone
      · exact h.uncancelled c hmem (hidle.listening hl) hp
      · rw [hgone] at hl
        cases hl
  · cases h.stage with
    | running early notEnded isEarly queue => exact .running early notEnded isEarly queue
    | complete early o ended outcome isEarly queue =>
      exact .complete early o ended outcome isEarly queue
    | last ended late owed =>
      refine .last ended late (fun x hx hr => ?_)
      rcases List.mem_or_eq_of_mem_set hx with hx | rfl
      · exact owed x hx hr
      · have howed := owed c hmem (hidle.reads hr)
        unfold Owed at howed ⊢
        rwa [hidle.received]

/-! ## A stream takes a message -/

theorem take_some (h : r.take i = some t) :
    ∃ m rest c c', r.queue = m :: rest ∧ r.clients[i]? = some c ∧ c.get m = some c' ∧
      t = { r with queue := rest, clients := r.clients.set i c' } := by
  unfold Run.take at h
  rcases hqueue : r.queue with _ | ⟨m, rest⟩
  · rw [hqueue] at h
    cases h
  · rw [hqueue] at h
    obtain ⟨c, c', hc, hget, rfl⟩ := atClient_some h
    exact ⟨m, rest, c, c', rfl, hc, hget, rfl⟩

theorem get_event {e : Event} {c c' : Client} (h : c.get (some e) = some c') :
    c.phase = .waiting ∧ c'.phase = .checking ∧ c'.listening = c.listening ∧
      (c.listening = true → c'.received = c.received ++ [e]) := by
  unfold Client.get at h
  split at h
  · rename_i hphase
    cases h
    exact ⟨hphase, rfl, rfl, fun hl => if_pos hl⟩
  · cases h

theorem get_sentinel {c c' : Client} (h : c.get none = some c') :
    c.phase = .waiting ∧ c' = { c with phase := .closed } := by
  unfold Client.get at h
  split at h
  · rename_i hphase
    cases h
    exact ⟨hphase, rfl⟩
  · cases h

/-- The sentinel stands once, at the end. -/
theorem before_sentinel {xs ys : List Event} {rest : List (Option Event)}
    (h : xs.map some ++ none :: rest = ys.map some ++ [none]) : xs = ys ∧ rest = [] := by
  induction xs generalizing ys with
  | nil =>
    cases ys with
    | nil => exact ⟨rfl, (List.cons.inj h).2⟩
    | cons y ys => cases (List.cons.inj h).1
  | cons x xs ih =>
    cases ys with
    | nil => cases (List.cons.inj h).1
    | cons y ys =>
      obtain ⟨hhead, htail⟩ := List.cons.inj h
      obtain ⟨rfl, hrest⟩ := ih htail
      exact ⟨congrArg (· :: xs) (Option.some.inj hhead), hrest⟩

/-- After a step of a client that reads alone, no other client reads. -/
theorem reads_set {c' x : Client} (halone : Alone r i) (hx : x ∈ r.clients.set i c')
    (hr : x.Reads) : x = c' := by
  obtain ⟨j, hj⟩ := List.mem_iff_getElem?.mp hx
  by_cases hij : i = j
  · subst hij
    rw [List.getElem?_set_self' ] at hj
    rcases hget : r.clients[i]? with _ | c
    · rw [hget] at hj
      cases hj
    · rw [hget] at hj
      exact (Option.some.inj hj).symm
  · rw [List.getElem?_set_ne hij] at hj
    exact absurd (halone j x hj hr).symm hij

theorem early_not_outcome {e : Event} (h : e.isOutcome = true) : e.isEarly = false := by
  cases e <;> first | rfl | cases h

/-- The parts of the invariant about clients, when the client that took is none that the
sentinel closed. -/
theorem fine_event {m : Event} {rest : List (Option Event)} {c c' : Client} (h : Fine r)
    (hget : c.get (some m) = some c')
    (hstage : Stage { r with queue := rest, clients := r.clients.set i c' }) :
    Fine { r with queue := rest, clients := r.clients.set i c' } := by
  obtain ⟨-, hphase, -, -⟩ := get_event hget
  refine ⟨?_, ?_, hstage⟩
  · intro x hx hl hp
    rcases List.mem_or_eq_of_mem_set hx with hx | rfl
    · exact h.closed x hx hl hp
    · rw [hphase] at hp
      cases hp
  · intro x hx hl hp
    rcases List.mem_or_eq_of_mem_set hx with hx | rfl
    · exact h.uncancelled x hx hl hp
    · rw [hphase] at hp
      cases hp

/-- The client that took a message alone is owed the rest. -/
theorem owed_taken {e : Event} {rest : List (Option Event)} {c c' x : Client} (halone : Alone r i)
    (hget : c.get (some e) = some c') (howed : c.Reads → Owed c (some e :: rest))
    (hx : x ∈ r.clients.set i c') (hr : x.Reads) : Owed x rest := by
  obtain rfl := reads_set halone hx hr
  obtain ⟨hphase, -, hlistening, hreceived⟩ := get_event hget
  have hl : c.listening = true := by rw [← hlistening]; exact hr.1
  obtain ⟨whole, hlearned, hwhole⟩ := howed ⟨hl, .inr hphase⟩
  refine ⟨whole, hlearned, ?_⟩
  rw [hreceived hl, List.map_append, List.append_assoc]
  exact hwhole

theorem fine_take (h : Fine r) (hallowed : EarlyHead r ∨ Alone r i) (hstep : r.take i = some t) :
    Fine t := by
  obtain ⟨m, rest, c, c', hqueue, hc, hget, rfl⟩ := take_some hstep
  have hmem : c ∈ r.clients := List.mem_of_getElem? hc
  have halone (hlate : ∀ e, m = some e → e.isEarly = false) : Alone r i := by
    rcases hallowed with hearly | halone
    · obtain ⟨e, he, hisEarly⟩ := hearly m (by rw [hqueue]; rfl)
      rw [hlate e he] at hisEarly
      cases hisEarly
    · exact halone
  cases h.stage with
  | running early notEnded isEarly queue =>
    rw [hqueue] at queue
    rcases early with _ | ⟨e, early⟩
    · cases queue
    · obtain ⟨rfl, rfl⟩ := List.cons.inj queue
      exact fine_event h hget (.running early notEnded
        (fun e he => isEarly e (List.mem_cons_of_mem _ he)) rfl)
  | complete early o ended outcome isEarly queue =>
    rw [hqueue] at queue
    rcases early with _ | ⟨e, early⟩
    · obtain ⟨rfl, rfl⟩ := List.cons.inj queue
      have hlate : ∀ e, some o = some e → e.isEarly = false := by
        rintro e ⟨⟩
        exact early_not_outcome outcome
      refine fine_event h hget (.last ended ?_ fun x hx hr => ?_)
      · intro m hm
        rcases List.mem_pair.mp hm with rfl | rfl
        · exact .inl rfl
        · exact .inr rfl
      · refine owed_taken (halone hlate) hget (fun _ => ⟨c.received ++ [o, .done],
          ⟨c.received, o, outcome, rfl⟩, ?_⟩) hx hr
        simp
    · obtain ⟨rfl, rfl⟩ := List.cons.inj queue
      exact fine_event h hget (.complete early o ended outcome
        (fun e he => isEarly e (List.mem_cons_of_mem _ he)) rfl)
  | last ended late owed =>
    have hlater : ∀ m ∈ rest, m = some .done ∨ m = none := by
      intro m hm
      refine late m ?_
      rw [hqueue]
      exact List.mem_cons_of_mem _ hm
    rcases late m (by rw [hqueue]; exact List.mem_cons_self ..) with rfl | rfl
    · have hlate : ∀ e, some Event.done = some e → e.isEarly = false := by
        rintro e ⟨⟩
        rfl
      refine fine_event h hget (.last ended hlater fun x hx hr => ?_)
      refine owed_taken (halone hlate) hget (fun hreads => ?_) hx hr
      rw [← hqueue]
      exact owed c hmem hreads
    · obtain ⟨hphase, rfl⟩ := get_sentinel hget
      refine ⟨?_, ?_, .last ended hlater fun x hx hr => ?_⟩
      · intro x hx hl hp
        rcases List.mem_or_eq_of_mem_set hx with hx | rfl
        · exact h.closed x hx hl hp
        · obtain ⟨whole, hlearned, hwhole⟩ := owed c hmem ⟨hl, .inr hphase⟩
          rw [hqueue] at hwhole
          rwa [← (before_sentinel hwhole).1] at hlearned
      · intro x hx hl hp
        rcases List.mem_or_eq_of_mem_set hx with hx | rfl
        · exact h.uncancelled x hx hl hp
        · cases hp
      · obtain rfl := reads_set (halone nofun) hx hr
        rcases hr.2 with hp | hp <;> cases hp

/-! ## The task takes a step -/

/-- A run whose task has not ended has early messages in its queue only. -/
theorem early_of_live (h : Fine r) (hlive : r.task ≠ .ended) :
    ∃ early : List Event, r.queue = early.map some ∧ ∀ e ∈ early, e.isEarly = true := by
  cases h.stage with
  | running early _ isEarly queue => exact ⟨early, queue, isEarly⟩
  | complete _ _ ended => exact absurd ended hlive
  | last ended => exact absurd ended hlive

theorem fine_poll (h : Fine r) (hlive : r.task ≠ .ended) {events : List Event}
    (hevents : ∀ e ∈ events, e.isEarly = true) {task : TaskPhase} (htask : task ≠ .ended) :
    Fine { r with queue := r.queue ++ events.map some, task := task } := by
  obtain ⟨early, hqueue, hearly⟩ := early_of_live h hlive
  refine ⟨h.closed, h.uncancelled, .running (early ++ events) htask ?_ ?_⟩
  · exact List.forall_mem_append.mpr ⟨hearly, hevents⟩
  · show r.queue ++ events.map some = _
    rw [hqueue, List.map_append]

theorem fine_finish (h : Fine r) (hlive : r.task ≠ .ended) {events : List Event}
    (hevents : ∀ e ∈ events, e.isEarly = true) {o : Event} (ho : o.isOutcome = true) :
    Fine (r.finish true events o) := by
  obtain ⟨early, hqueue, hearly⟩ := early_of_live h hlive
  refine ⟨h.closed, h.uncancelled, .complete (early ++ events) o rfl ho ?_ ?_⟩
  · exact List.forall_mem_append.mpr ⟨hearly, hevents⟩
  · show r.queue ++ events.map some ++ ending o = _
    rw [hqueue, List.map_append]

theorem fine_connect (h : Fine r) (hahead : OutcomeAhead r) (now : Nat) :
    Fine { r with clients := r.clients ++ [.new now] } := by
  refine ⟨?_, ?_, ?_⟩
  · intro x hx hl hp
    rcases List.mem_append.mp hx with hx | hx
    · exact h.closed x hx hl hp
    · obtain rfl := List.mem_singleton.mp hx
      cases hp
  · intro x hx hl hp
    rcases List.mem_append.mp hx with hx | hx
    · exact h.uncancelled x hx hl hp
    · obtain rfl := List.mem_singleton.mp hx
      cases hp
  · cases h.stage with
    | running early notEnded isEarly queue => exact .running early notEnded isEarly queue
    | complete early o ended outcome isEarly queue =>
      exact .complete early o ended outcome isEarly queue
    | last ended late owed =>
      obtain ⟨o, houtcome, hmem⟩ := hahead ended
      rcases late _ hmem with heq | heq
      · cases heq
        cases houtcome
      · cases heq

/-! ## The server takes a step -/

def AllFine (s : Server) : Prop := ∀ runId r, s.runs.get? runId = some r → Fine r

variable {s u : Server} {runId : String}

theorem allFine_set (h : AllFine s) (hr : Fine r) (hruns : u.runs = s.runs.set runId r) :
    AllFine u := by
  intro id x hx
  rw [hruns, Dict.get?_set] at hx
  split at hx
  · cases hx
    exact hr
  · exact h id x hx

theorem allFine_atRun {f : Run → Option Run} (h : AllFine s)
    (hf : ∀ r r', s.runs.get? runId = some r → Fine r → f r = some r' → Fine r')
    (hstep : s.atRun runId f = some u) : AllFine u := by
  unfold Server.atRun at hstep
  rcases hr : s.runs.get? runId with _ | r
  · rw [hr] at hstep
    cases hstep
  · rcases hfr : f r with _ | r'
    · rw [hr] at hstep
      simp only [Option.bind_eq_bind, Option.bind_some, hfr] at hstep
      cases hstep
    · rw [hr] at hstep
      simp only [Option.bind_eq_bind, Option.bind_some, hfr] at hstep
      cases hstep
      exact allFine_set h (hf r r' hr (h runId r hr) hfr) rfl

@[simp] theorem runs_setStatus (s : Server) (runId : String) (status : RunStatus) :
    (s.setStatus runId status).runs = s.runs := by
  unfold Server.setStatus
  split <;> rfl

theorem early_nodes (nodes : List String) :
    ∀ e ∈ nodes.map Event.nodeDone, e.isEarly = true := by
  intro e he
  obtain ⟨node, -, rfl⟩ := List.mem_map.mp he
  rfl

theorem allFine_post (h : AllFine s) (hstep : s.post runId = some u) : AllFine u := by
  unfold Server.post at hstep
  split at hstep
  · cases hstep
  · cases hstep
    exact allFine_set h fine_new rfl

/-- Only the runs themselves matter. -/
theorem allFine_setStatus (h : AllFine s) (status : RunStatus) :
    AllFine (s.setStatus runId status) := by
  intro id x hx
  rw [runs_setStatus] at hx
  exact h id x hx

theorem allFine_start (h : AllFine s) (hregistered : s.registered runId = true)
    {failure : Option String} (hstep : s.start runId failure = some u) : AllFine u := by
  have hstarted : ∀ e ∈ [Event.started], e.isEarly = true := by
    intro e he
    rw [List.mem_singleton.mp he]
    rfl
  unfold Server.start at hstep
  simp only [hregistered] at hstep
  rcases failure with _ | message
  · refine allFine_atRun (allFine_setStatus h _) (fun r r' _ hr hstep => ?_) hstep
    split at hstep
    · rename_i hcreated
      cases hstep
      exact fine_poll hr (by rw [hcreated]; decide) hstarted (by decide)
    · cases hstep
  · refine allFine_atRun (allFine_setStatus h _) (fun r r' _ hr hstep => ?_) hstep
    split at hstep
    · rename_i hcreated
      cases hstep
      exact fine_finish hr (by rw [hcreated]; decide) hstarted rfl
    · cases hstep

theorem allFine_finish (h : AllFine s) (hregistered : s.registered runId = true)
    {nodes : List String} {outcome : Except String String}
    (hstep : s.finish runId nodes outcome = some u) : AllFine u := by
  have houtcome : (Server.outcomeOf outcome).isOutcome = true := by cases outcome <;> rfl
  refine allFine_atRun (allFine_setStatus h _) (fun r r' _ hr hstep => ?_) hstep
  split at hstep
  · rename_i hpolling
    rw [hregistered] at hstep
    cases hstep
    exact fine_finish hr (by rw [hpolling]; decide) (early_nodes nodes) houtcome
  · cases hstep

/-- An allowed step keeps the invariant of every run. -/
theorem allFine_step {a : Action} (h : AllFine s) (hallowed : Allowed s a)
    (hstep : s.step a = some u) : AllFine u := by
  cases a with
  | tick =>
    cases hstep
    exact h
  | post runId => exact allFine_post h hstep
  | start runId failure => exact allFine_start h hallowed hstep
  | poll runId nodes =>
    refine allFine_atRun h (fun r r' _ hr hpoll => ?_) hstep
    split at hpoll
    · rename_i hpolling
      cases hpoll
      exact fine_poll hr (by rw [hpolling]; decide) (early_nodes nodes)
        (by rw [hpolling]; decide)
    · cases hpoll
  | finish runId nodes outcome => exact allFine_finish h hallowed hstep
  | connect runId =>
    simp only [Server.step, Server.connect] at hstep
    split at hstep
    · refine allFine_atRun h (fun r r' hget hr hconnect => ?_) hstep
      cases hconnect
      exact fine_connect hr (hallowed r hget) _
    · cases hstep
  | look runId i =>
    exact allFine_atRun h (fun r r' _ hr hlook => fine_idle (fun _ _ => idle_look) hr hlook) hstep
  | take runId i =>
    exact allFine_atRun h (fun r r' hget hr htake => fine_take hr (hallowed r hget) htake) hstep
  | heartbeat runId i =>
    exact allFine_atRun h
      (fun r r' _ hr hbeat => fine_idle (fun _ _ => idle_heartbeat) hr hbeat) hstep
  | leave runId i =>
    exact allFine_atRun h (fun r r' _ hr hleave => fine_idle (fun _ _ => idle_leave) hr hleave)
      hstep
  | cancel runId i =>
    exact allFine_atRun h (fun r r' _ hr hcancel => fine_idle (fun _ _ => idle_cancel) hr hcancel)
      hstep

/-! ## Every client learns the outcome -/

/-- In a drained run nobody reads who has not learned. -/
theorem learned_of_fine (h : Fine r) (hdrained : Drained r) {c : Client} (hc : c ∈ r.clients)
    (hl : c.listening = true) (hexpired : c.phase ≠ .expired) : Learned c.received := by
  have hreading (hreads : c.Reads) : Learned c.received := by
    cases h.stage with
    | running _ notEnded => exact absurd hdrained.ended notEnded
    | complete early o _ _ _ queue =>
      rw [hdrained.empty] at queue
      simp [ending] at queue
    | last _ _ owed =>
      obtain ⟨whole, -, hwhole⟩ := owed c hc hreads
      rw [hdrained.empty, List.append_nil] at hwhole
      have hnone : (none : Option Event) ∈ c.received.map some := by
        rw [hwhole]
        exact List.mem_append_right _ (List.mem_singleton.mpr rfl)
      obtain ⟨e, -, he⟩ := List.mem_map.mp hnone
      cases he
  rcases hphase : c.phase with _ | _ | _ | _ | _
  · exact hreading ⟨hl, .inl hphase⟩
  · exact hreading ⟨hl, .inr hphase⟩
  · exact h.closed c hc hl hphase
  · exact absurd hphase hexpired
  · exact absurd hphase (h.uncancelled c hc hl)

/-- In every run of the server whose steps all meet the condition, each client that stays
learns the outcome of its run. -/
theorem clients_learn_the_outcome {s : Server}
    (h : Reachable (serverMachine.restrict Allowed) s) : AllLearned s := by
  have hfine : AllFine s := by
    refine Reachable.invariant ?_ ?_ h
    · rintro s rfl runId r ⟨⟩
    · rintro s a u hs ⟨hstep, hallowed⟩
      exact allFine_step hs hallowed hstep
  intro runId r hr hdrained c hc hl hexpired
  exact learned_of_fine (hfine runId r hr) hdrained hc hl hexpired

theorem alone_of_length (h : r.clients.length = 1) : Alone r 0 := by
  intro j c hc _
  obtain ⟨hj, -⟩ := List.getElem?_eq_some_iff.mp hc
  omega

/-- A client connects at once and reads alone, and the run fails at its start. -/
theorem the_only_client_learns :
    ∃ s, Reachable serverMachine s ∧ AllLearned s ∧
      ∃ r, s.runs.get? "r" = some r ∧ Drained r ∧ r.clients.length = 1 := by
  have hposted := (reachable_init (M := serverMachine.restrict Allowed) rfl).step
    (a := Action.post "r") ⟨rfl, trivial⟩
  have hconnected := hposted.step (a := Action.connect "r") ⟨rfl, fun r hr => by cases hr; exact nofun⟩
  have hfailed := hconnected.step (a := Action.start "r" (some "no key")) ⟨rfl, rfl⟩
  have htook := (hfailed.step (a := Action.look "r" 0) ⟨rfl, trivial⟩).step (a := Action.take "r" 0)
    ⟨rfl, fun r hr => by cases hr; exact .inr (alone_of_length rfl)⟩
  have htook := (htook.step (a := Action.look "r" 0) ⟨rfl, trivial⟩).step (a := Action.take "r" 0)
    ⟨rfl, fun r hr => by cases hr; exact .inr (alone_of_length rfl)⟩
  have htook := (htook.step (a := Action.look "r" 0) ⟨rfl, trivial⟩).step (a := Action.take "r" 0)
    ⟨rfl, fun r hr => by cases hr; exact .inr (alone_of_length rfl)⟩
  have hclosed := (htook.step (a := Action.look "r" 0) ⟨rfl, trivial⟩).step (a := Action.take "r" 0)
    ⟨rfl, fun r hr => by cases hr; exact .inr (alone_of_length rfl)⟩
  exact ⟨_, hclosed.of_restrict, clients_learn_the_outcome hclosed, _, rfl, ⟨rfl, rfl⟩, rfl⟩

/-- The actions of a run that a first client follows to its end, before a second one comes. -/
def reconnecting : List Action :=
  [.post "r", .connect "r", .start "r" none, .look "r" 0, .take "r" 0,
    .finish "r" [] (.ok "approve"), .look "r" 0, .take "r" 0, .look "r" 0, .take "r" 0,
    .look "r" 0, .take "r" 0, .connect "r", .look "r" 1]

/-- A client that comes after another one took the outcome waits for it in vain. -/
theorem the_second_client_waits_in_vain :
    ∃ s, Reachable serverMachine s ∧ ¬ AllLearned s := by
  have hrun : ∃ s, reconnecting.foldlM Server.step .new = some s := ⟨_, rfl⟩
  obtain ⟨s, hs⟩ := hrun
  refine ⟨s, ⟨.new, reconnecting, rfl, run_of_foldlM (fun _ _ _ h => h) hs⟩, fun h => ?_⟩
  cases hs
  obtain ⟨before, o, -, heq⟩ := h "r" _ rfl ⟨rfl, rfl⟩ ⟨[], 900, true, .waiting⟩ (by decide) rfl
    (by decide)
  simp at heq

end orchestra.tprm.outcomes
