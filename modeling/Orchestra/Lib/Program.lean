-- Programs that ask: a program ends with a result or an error, or it asks a
-- question and goes on with the answer. What a program keeps whatever the
-- answers are, and a pool of programs that run side by side.
import Mathlib.Algebra.BigOperators.Group.List.Basic
import Mathlib.Algebra.Order.BigOperators.Group.List
import Mathlib.Algebra.Order.Ring.Nat
import Mathlib.Tactic.Abel
import Orchestra.Lib.Logged
import Orchestra.Lib.Machine

open logged machine

namespace programs

/-! ## Programs -/

/-- A program that asks questions of `Q`. The type of an answer depends on
the question. -/
inductive Program (Q : Type) (A : Q → Type) (ε α : Type) : Type
  | done (result : Except ε α)
  | ask (q : Q) (next : A q → Program Q A ε α)

/-- A question with its answer. -/
abbrev Answered (Q : Type) (A : Q → Type) : Type := (q : Q) × A q

variable {Q : Type} {A : Q → Type} {ε α β : Type}

namespace Program

/-- Run `p`, then `f` on its result. An error of `p` ends it. -/
def andThen : Program Q A ε α → (α → Program Q A ε β) → Program Q A ε β
  | .done (.ok a), f => f a
  | .done (.error e), _ => .done (.error e)
  | .ask q next, f => .ask q (fun a => (next a).andThen f)

instance : Monad (Program Q A ε) where
  pure a := .done (.ok a)
  bind := andThen

def fail (e : ε) : Program Q A ε α := .done (.error e)

def ofExcept (r : Except ε α) : Program Q A ε α := .done r

/-- Ask one question. -/
def query (q : Q) : Program Q A ε (A q) := .ask q pure

def ended : Program Q A ε α → Bool
  | .done _ => true
  | .ask _ _ => false

@[simp] theorem done_bind (a : α) (f : α → Program Q A ε β) :
    (done (.ok a) >>= f : Program Q A ε β) = f a := rfl

@[simp] theorem pure_bind' (a : α) (f : α → Program Q A ε β) :
    (pure a >>= f : Program Q A ε β) = f a := rfl

@[simp] theorem fail_bind (e : ε) (f : α → Program Q A ε β) :
    (fail e >>= f : Program Q A ε β) = fail e := rfl

@[simp] theorem query_bind (q : Q) (f : A q → Program Q A ε β) :
    (query q >>= f : Program Q A ε β) = ask q f := rfl

@[simp] theorem ask_bind (q : Q) (next : A q → Program Q A ε α) (f : α → Program Q A ε β) :
    (ask q next >>= f : Program Q A ε β) = ask q (fun a => next a >>= f) := rfl

theorem bind_bind {γ : Type} (p : Program Q A ε α) (f : α → Program Q A ε β)
    (g : β → Program Q A ε γ) : p >>= f >>= g = p >>= fun a => f a >>= g := by
  induction p with
  | done r =>
    rcases r with e | a
    · rfl
    · rfl
  | ask q next ih =>
    show Program.ask q _ = Program.ask q _
    congr 1
    funext a
    exact ih a

/-- The program with its errors read as others. -/
def mapError {ε' : Type} (f : ε → ε') : Program Q A ε α → Program Q A ε' α
  | .done r => .done (r.mapError f)
  | .ask q next => .ask q (fun a => (next a).mapError f)

section mapError

variable {ε' ε'' : Type} (f : ε → ε')

@[simp] theorem mapError_pure (a : α) : (pure a : Program Q A ε α).mapError f = pure a := rfl

@[simp] theorem mapError_fail (e : ε) : (fail e : Program Q A ε α).mapError f = fail (f e) := rfl

@[simp] theorem mapError_bind (p : Program Q A ε α) (k : α → Program Q A ε β) :
    (p >>= k).mapError f = p.mapError f >>= fun a => (k a).mapError f := by
  induction p with
  | done r =>
    rcases r with e | a
    · rfl
    · rfl
  | ask q next ih =>
    show Program.ask q _ = Program.ask q _
    congr 1
    funext a
    exact ih a

/-- Errors that are read as others and back again. -/
theorem mapError_mapError {g : ε' → ε} (hback : ∀ e, g (f e) = e) (p : Program Q A ε α) :
    (p.mapError f).mapError g = p := by
  induction p with
  | done r =>
    rcases r with e | a
    · simp [mapError, Except.mapError, hback]
    · rfl
  | ask q next ih =>
    show Program.ask q _ = Program.ask q _
    congr 1
    funext a
    exact ih a

end mapError

/-- `p` comes to `p'` when it is given these answers. -/
inductive Path : Program Q A ε α → List (Answered Q A) → Program Q A ε α → Prop
  | stay (p : Program Q A ε α) : Path p [] p
  | answer {q : Q} {next : A q → Program Q A ε α} {p : Program Q A ε α}
    {trace : List (Answered Q A)} (a : A q) (rest : Path (next a) trace p) :
    Path (.ask q next) (⟨q, a⟩ :: trace) p

theorem Path.bind {p : Program Q A ε α} {trace : List (Answered Q A)} {p' : Program Q A ε α}
    (h : Path p trace p') (f : α → Program Q A ε β) : Path (p >>= f) trace (p' >>= f) := by
  induction h with
  | stay p => exact .stay _
  | answer a rest ih => exact .answer a ih

theorem Path.append {p p' p'' : Program Q A ε α} {t u : List (Answered Q A)}
    (h : Path p t p') (h' : Path p' u p'') : Path p (t ++ u) p'' := by
  induction h with
  | stay p => exact h'
  | answer a rest ih => exact .answer a (ih h')

theorem Path.andThen {p : Program Q A ε α} {t u : List (Answered Q A)} {a : α}
    {f : α → Program Q A ε β} {p' : Program Q A ε β} (h : Path p t (.done (.ok a)))
    (h' : Path (f a) u p') : Path (p >>= f) (t ++ u) p' :=
  (h.bind f).append h'

theorem Path.andFail {p : Program Q A ε α} {t : List (Answered Q A)} {e : ε}
    (h : Path p t (.done (.error e))) (f : α → Program Q A ε β) :
    Path (p >>= f) t (.done (.error e)) :=
  h.bind f

/-- A way through a composition ends at a question or an error of the first part, or
it goes all through that part and on in the second one. -/
inductive Path.Split (p : Program Q A ε α) (f : α → Program Q A ε β) :
    List (Answered Q A) → Program Q A ε β → Prop
  | asks {trace : List (Answered Q A)} {q : Q} {next : A q → Program Q A ε α}
    (h : Path p trace (.ask q next)) : Split p f trace (.ask q (fun a => next a >>= f))
  | fails {trace : List (Answered Q A)} {e : ε} (h : Path p trace (.done (.error e))) :
    Split p f trace (.done (.error e))
  | goes {t u : List (Answered Q A)} {a : α} {p' : Program Q A ε β}
    (h : Path p t (.done (.ok a))) (h' : Path (f a) u p') : Split p f (t ++ u) p'

theorem Path.split {p : Program Q A ε α} {f : α → Program Q A ε β}
    {trace : List (Answered Q A)} {p' : Program Q A ε β} (h : Path (p >>= f) trace p') :
    Path.Split p f trace p' := by
  induction p generalizing trace with
  | done r =>
    rcases r with e | a
    · cases h
      exact .fails (.stay _)
    · exact .goes (t := []) (.stay _) h
  | ask q next ih =>
    cases h with
    | stay => exact .asks (.stay _)
    | answer a rest =>
      cases ih a rest with
      | asks h' => exact .asks (.answer a h')
      | fails h' => exact .fails (.answer a h')
      | goes h' h'' => exact .goes (t := _ :: _) (.answer a h') h''

/-! ## What a program keeps -/

/-- The terms on which a program asks: the history that its answers add up to,
what is given about an answer in the light of the history, and which question
it may ask. -/
structure Terms (Q : Type) (A : Q → Type) (κ : Type) where
  note : κ → Answered Q A → κ
  given : κ → Answered Q A → Prop
  may : κ → Q → Prop

variable {κ : Type} {T : Terms Q A κ} {post : κ → Except ε α → Prop}

/-- From the history `h` on, `p` asks only what it may, and it ends as `post`
says, as long as the answers are as given. -/
def Keeps (T : Terms Q A κ) (post : κ → Except ε α → Prop) : κ → Program Q A ε α → Prop
  | h, .done r => post h r
  | h, .ask q next => T.may h q ∧ ∀ a, T.given h ⟨q, a⟩ → Keeps T post (T.note h ⟨q, a⟩) (next a)

theorem keeps_pure {h : κ} {a : α} (ha : post h (.ok a)) : Keeps T post h (pure a) := ha

theorem keeps_fail {h : κ} {e : ε} (he : post h (.error e)) : Keeps T post h (fail e) := he

theorem keeps_ask {h : κ} {q : Q} {next : A q → Program Q A ε α} (hmay : T.may h q)
    (hnext : ∀ a, T.given h ⟨q, a⟩ → Keeps T post (T.note h ⟨q, a⟩) (next a)) :
    Keeps T post h (.ask q next) :=
  ⟨hmay, hnext⟩

theorem keeps_query {h : κ} {q : Q} {post : κ → Except ε (A q) → Prop} (hmay : T.may h q)
    (hpost : ∀ a, T.given h ⟨q, a⟩ → post (T.note h ⟨q, a⟩) (.ok a)) :
    Keeps T post h (query q) :=
  ⟨hmay, hpost⟩

/-- What is asked of the first part of a composition: a result hands over to the
second part, and an error ends the whole. -/
def handsOver (T : Terms Q A κ) (post : κ → Except ε β → Prop) (f : α → Program Q A ε β) :
    κ → Except ε α → Prop
  | h, .ok a => Keeps T post h (f a)
  | h, .error e => post h (.error e)

theorem keeps_bind {post : κ → Except ε β → Prop} {h : κ} {p : Program Q A ε α}
    {f : α → Program Q A ε β} (hp : Keeps T (handsOver T post f) h p) :
    Keeps T post h (p >>= f) := by
  induction p generalizing h with
  | done r =>
    rcases r with e | a
    · exact hp
    · exact hp
  | ask q next ih => exact ⟨hp.1, fun a ha => ih a (hp.2 a ha)⟩

theorem Keeps.weaken {post' : κ → Except ε α → Prop} {h : κ} {p : Program Q A ε α}
    (hp : Keeps T post h p) (hpost : ∀ h r, post h r → post' h r) : Keeps T post' h p := by
  induction p generalizing h with
  | done r => exact hpost h r hp
  | ask q next ih => exact ⟨hp.1, fun a ha => ih a (hp.2 a ha)⟩

/-- The rule of composition: what the first part ends with is enough for the
second one. -/
theorem Keeps.andThen {middle : κ → Except ε α → Prop} {post : κ → Except ε β → Prop} {h : κ}
    {p : Program Q A ε α} {f : α → Program Q A ε β} (hp : Keeps T middle h p)
    (hok : ∀ h a, middle h (.ok a) → Keeps T post h (f a))
    (herror : ∀ h e, middle h (.error e) → post h (.error e)) : Keeps T post h (p >>= f) := by
  refine keeps_bind (hp.weaken (fun h' r hr => ?_))
  rcases r with e | a
  · exact herror h' e hr
  · exact hok h' a hr

/-- Every question of a program is one of `ok`, whatever the answers are. -/
def Asks (ok : Q → Prop) : Program Q A ε α → Prop
  | .done _ => True
  | .ask q next => ok q ∧ ∀ a, Asks ok (next a)

section Asks

variable {ok : Q → Prop}

theorem asks_pure (a : α) : Asks ok (pure a : Program Q A ε α) := trivial

theorem asks_fail (e : ε) : Asks ok (fail e : Program Q A ε α) := trivial

theorem asks_ofExcept (r : Except ε α) : Asks ok (ofExcept r : Program Q A ε α) := trivial

theorem asks_query {q : Q} (h : ok q) : Asks ok (query q : Program Q A ε (A q)) :=
  ⟨h, fun _ => trivial⟩

theorem asks_bind {p : Program Q A ε α} {f : α → Program Q A ε β} (hp : Asks ok p)
    (hf : ∀ a, Asks ok (f a)) : Asks ok (p >>= f) := by
  induction p with
  | done r =>
    rcases r with e | a
    · trivial
    · exact hf a
  | ask q next ih => exact ⟨hp.1, fun a => ih a (hp.2 a)⟩

theorem Asks.mono {ok' : Q → Prop} {p : Program Q A ε α} (hp : Asks ok p)
    (h : ∀ q, ok q → ok' q) : Asks ok' p := by
  induction p with
  | done r => trivial
  | ask q next ih => exact ⟨h q hp.1, fun a => ih a (hp.2 a)⟩

/-- Questions that may be asked and whose answers add nothing to the history
leave it as it is. -/
theorem Asks.keeps {h : κ} {p : Program Q A ε α} (hp : Asks ok p) (hmay : ∀ q, ok q → T.may h q)
    (hnote : ∀ q a, ok q → T.given h ⟨q, a⟩ → T.note h ⟨q, a⟩ = h) :
    Keeps T (fun h' _ => h' = h) h p := by
  induction p with
  | done r => rfl
  | ask q next ih =>
    refine ⟨hmay q hp.1, fun a ha => ?_⟩
    rw [hnote q a hp.1 ha]
    exact ih a (hp.2 a)

/-- A question that a program comes to is one of those it asks. -/
theorem Asks.path {p : Program Q A ε α} {trace : List (Answered Q A)} {q : Q}
    {next : A q → Program Q A ε α} (hp : Asks ok p) (hpath : Path p trace (.ask q next)) : ok q := by
  generalize hend : Program.ask q next = p' at hpath
  induction hpath with
  | stay p =>
    subst hend
    exact hp.1
  | answer a rest ih => exact ih (hp.2 a) hend

end Asks

theorem Keeps.mapError {ε' : Type} {f : ε → ε'} {post : κ → Except ε' α → Prop} {h : κ}
    {p : Program Q A ε α} (hp : Keeps T (fun h r => post h (r.mapError f)) h p) :
    Keeps T post h (p.mapError f) := by
  induction p generalizing h with
  | done r => exact hp
  | ask q next ih => exact ⟨hp.1, fun a ha => ih a (hp.2 a ha)⟩

/-- All answers of a trace are as given. -/
def Terms.Honest (T : Terms Q A κ) : κ → List (Answered Q A) → Prop
  | _, [] => True
  | h, e :: trace => T.given h e ∧ T.Honest (T.note h e) trace

/-- What a program keeps, it keeps wherever the answers lead it. -/
theorem Keeps.path {h : κ} {p p' : Program Q A ε α} {trace : List (Answered Q A)}
    (hp : Keeps T post h p) (hpath : Path p trace p') (hhonest : T.Honest h trace) :
    Keeps T post (trace.foldl T.note h) p' := by
  induction hpath generalizing h with
  | stay p => exact hp
  | answer a rest ih => exact ih (hp.2 a hhonest.1) hhonest.2

/-- What the answers to the questions that may be asked keep, a trace keeps. -/
theorem Keeps.history {I : κ → Prop} {h : κ} {p p' : Program Q A ε α}
    {trace : List (Answered Q A)} (hp : Keeps T post h p) (hpath : Path p trace p')
    (hhonest : T.Honest h trace)
    (hstep : ∀ h e, I h → T.may h e.1 → T.given h e → I (T.note h e)) (hI : I h) :
    I (trace.foldl T.note h) := by
  induction hpath generalizing h with
  | stay p => exact hI
  | answer a rest ih => exact ih (hp.2 a hhonest.1) hhonest.2 (hstep h _ hI hp.1 hhonest.1)

/-! ## One run against an oracle -/

/-- The run of `p` when each question has one answer, as an observer logs it who
sees of each answer what `seen` says. -/
def observe {ν : Type} (oracle : (q : Q) → A q) (seen : Answered Q A → Option ν) :
    Program Q A ε α → Logged ν ε α
  | .done r => ⟨[], r⟩
  | .ask q next =>
    let rest := (next (oracle q)).observe oracle seen
    ⟨(seen ⟨q, oracle q⟩).toList ++ rest.log, rest.result⟩

variable {ν : Type} (oracle : (q : Q) → A q) (seen : Answered Q A → Option ν)

@[simp] theorem observe_pure (a : α) :
    (pure a : Program Q A ε α).observe oracle seen = pure a := rfl

@[simp] theorem observe_fail (e : ε) :
    (fail e : Program Q A ε α).observe oracle seen = Logged.fail e := rfl

@[simp] theorem observe_ofExcept (r : Except ε α) :
    (ofExcept r : Program Q A ε α).observe oracle seen = Logged.ofExcept r := rfl

/-- An observer sees the parts of a composition one after the other. -/
@[simp] theorem observe_bind (p : Program Q A ε α) (f : α → Program Q A ε β) :
    (p >>= f).observe oracle seen = p.observe oracle seen >>= fun a => (f a).observe oracle seen := by
  induction p with
  | done r =>
    rcases r with e | a
    · rfl
    · exact (pure_bind a (fun a => (f a).observe oracle seen)).symm
  | ask q next ih =>
    rw [ask_bind]
    simp only [observe, ih]
    rcases hr : ((next (oracle q)).observe oracle seen).result with e | a
    · rw [Logged.bind_error _ hr, Logged.bind_error _ rfl]
    · rw [Logged.bind_ok _ hr, Logged.bind_ok _ rfl]
      simp [List.append_assoc]

end Program

open Program

/-! ## Programs side by side -/

/-- A job under way: what its program asked so far, and what is left of it. -/
structure Task (J Q : Type) (A : Q → Type) (ε α : Type) where
  job : J
  trace : List (Answered Q A)
  code : Program Q A ε α

/-- All jobs that were started, and what they share. -/
structure Pool (σ J Q : Type) (A : Q → Type) (ε α : Type) where
  shared : σ
  tasks : List (Task J Q A ε α)

/-- A move of a pool: a job starts, the question of one task is answered, or
the surroundings change. -/
inductive Move (μ J Q : Type) (A : Q → Type) : Type
  | start (job : J)
  | answer (i : Nat) (e : Answered Q A)
  | turn (m : μ)

/-- How the jobs of a pool run and what they share. -/
structure System (σ μ J Q : Type) (A : Q → Type) (ε α : Type) where
  init : σ → Prop
  code : J → Program Q A ε α
  opens : σ → J → Prop
  serves : σ → Answered Q A → σ → Prop
  turns : Pool σ J Q A ε α → μ → σ → Prop

variable {σ μ J : Type}

/-- The task in place `i` gets this answer. -/
inductive Pool.Answers (P : Pool σ J Q A ε α) (i : Nat) (e : Answered Q A) :
    List (Task J Q A ε α) → Prop
  | intro {task : Task J Q A ε α} {next : A e.1 → Program Q A ε α}
    (there : P.tasks[i]? = some task) (asks : task.code = .ask e.1 next) :
    P.Answers i e (P.tasks.set i ⟨task.job, task.trace ++ [e], next e.2⟩)

/-- The machine of a pool. Any task may be next at any time. -/
def System.machine (S : System σ μ J Q A ε α) : Machine (Pool σ J Q A ε α) (Move μ J Q A) where
  init P := S.init P.shared ∧ P.tasks = []
  step P move P' :=
    match move with
    | .start job => S.opens P.shared job ∧ P' = ⟨P.shared, P.tasks ++ [⟨job, [], S.code job⟩]⟩
    | .answer i e => P.Answers i e P'.tasks ∧ S.serves P.shared e P'.shared
    | .turn m => S.turns P m P'.shared ∧ P'.tasks = P.tasks

theorem Pool.reachable_start {S : System σ μ J Q A ε α} {P : Pool σ J Q A ε α}
    (h : Reachable S.machine P) (job : J) (hopen : S.opens P.shared job) :
    Reachable S.machine ⟨P.shared, P.tasks ++ [⟨job, [], S.code job⟩]⟩ :=
  h.step (a := .start job) ⟨hopen, rfl⟩

theorem Pool.reachable_answer {S : System σ μ J Q A ε α} {P : Pool σ J Q A ε α}
    (h : Reachable S.machine P) (i : Nat) (e : Answered Q A) {s : σ} {task : Task J Q A ε α}
    {next : A e.1 → Program Q A ε α} (hthere : P.tasks[i]? = some task)
    (hasks : task.code = .ask e.1 next) (hserves : S.serves P.shared e s) :
    Reachable S.machine ⟨s, P.tasks.set i ⟨task.job, task.trace ++ [e], next e.2⟩⟩ :=
  h.step (a := .answer i e) ⟨.intro hthere hasks, hserves⟩

/-- How a task came to be as it is after a move. -/
inductive Pool.Came (S : System σ μ J Q A ε α) (P : Pool σ J Q A ε α) :
    Move μ J Q A → Task J Q A ε α → Prop
  | old {move : Move μ J Q A} {task : Task J Q A ε α} (h : task ∈ P.tasks) : P.Came S move task
  | started {job : J} (opens : S.opens P.shared job) : P.Came S (.start job) ⟨job, [], S.code job⟩
  | answered {i : Nat} {e : Answered Q A} {task : Task J Q A ε α} {next : A e.1 → Program Q A ε α}
    (there : P.tasks[i]? = some task) (asks : task.code = .ask e.1 next) :
    P.Came S (.answer i e) ⟨task.job, task.trace ++ [e], next e.2⟩

theorem Pool.came {S : System σ μ J Q A ε α} {P P' : Pool σ J Q A ε α} {move : Move μ J Q A}
    (hstep : S.machine.step P move P') {task : Task J Q A ε α} (htask : task ∈ P'.tasks) :
    P.Came S move task := by
  cases move with
  | start job =>
    obtain ⟨hopen, rfl⟩ := hstep
    rcases List.mem_append.mp htask with hold | hnew
    · exact .old hold
    · rw [List.mem_singleton.mp hnew]
      exact .started hopen
  | answer i e =>
    obtain ⟨hanswer, -⟩ := hstep
    generalize P'.tasks = tasks at hanswer htask
    obtain ⟨hthere, hasks⟩ := hanswer
    rcases List.mem_or_eq_of_mem_set htask with hold | rfl
    · exact .old hold
    · exact .answered hthere hasks
  | turn m =>
    obtain ⟨-, htasks⟩ := hstep
    rw [htasks] at htask
    exact .old htask

/-- A step at which the answer to a task is as the terms of its job give it. -/
def System.Given {κ : Type} (T : J → Terms Q A κ) (start : J → κ)
    (P : Pool σ J Q A ε α) : Move μ J Q A → Prop
  | .answer i e => ∀ task next, P.tasks[i]? = some task → task.code = .ask e.1 next →
      (T task.job).given (task.trace.foldl (T task.job).note (start task.job)) e
  | _ => True

/-- Every task keeps the terms of its job from where it stands. -/
def Pool.Kept {κ : Type} (T : J → Terms Q A κ) (start : J → κ)
    (post : J → κ → Except ε α → Prop) (P : Pool σ J Q A ε α) : Prop :=
  ∀ task ∈ P.tasks, Keeps (T task.job) (post task.job)
    (task.trace.foldl (T task.job).note (start task.job)) task.code

variable {κ : Type} {S : System σ μ J Q A ε α} {T : J → Terms Q A κ} {start : J → κ}
  {post : J → κ → Except ε α → Prop}

/-- One step keeps it: the start of a job by what its program keeps, an answer
because it is as given. -/
theorem Pool.Kept.step {P P' : Pool σ J Q A ε α} {move : Move μ J Q A}
    (hcode : ∀ job, move = .start job → S.opens P.shared job →
      Keeps (T job) (post job) (start job) (S.code job))
    (h : P.Kept T start post) (hstep : S.machine.step P move P')
    (hgiven : System.Given T start P move) : P'.Kept T start post := by
  intro task htask
  cases Pool.came hstep htask with
  | old hold => exact h task hold
  | started hopen => exact hcode _ rfl hopen
  | answered hthere hasks =>
    rename_i e before next
    have hkept := h before (List.mem_of_getElem? hthere)
    rw [hasks] at hkept
    simp only [List.foldl_append, List.foldl_cons, List.foldl_nil]
    exact hkept.2 e.2 (hgiven before next hthere hasks)

/-- What every program keeps, every run keeps of every task, as long as each
answer is as given. Jobs may rely on what every step keeps of the rest. -/
theorem Pool.Kept.run {I : Pool σ J Q A ε α → Prop}
    {allowed : Pool σ J Q A ε α → Move μ J Q A → Prop}
    (hI : ∀ P move P', I P → (S.machine.restrict allowed).step P move P' → I P')
    (hcode : ∀ P job, I P → S.opens P.shared job → allowed P (.start job) →
      Keeps (T job) (post job) (start job) (S.code job))
    (hallowed : ∀ P move, I P → allowed P move → System.Given T start P move)
    {P P' : Pool σ J Q A ε α} {moves : List (Move μ J Q A)}
    (hrun : Run (S.machine.restrict allowed) P moves P') (h0 : I P) (h : P.Kept T start post) :
    P'.Kept T start post := by
  have hboth : I P' ∧ P'.Kept T start post := by
    refine hrun.invariant (I := fun u => I u ∧ u.Kept T start post) (fun u move v hu hstep => ?_)
      ⟨h0, h⟩
    refine ⟨hI u move v hu.1 hstep, ?_⟩
    refine hu.2.step (fun job hjob hopen => ?_) hstep.1 (hallowed u move hu.1 hstep.2)
    subst hjob
    exact hcode u job hu.1 hopen hstep.2
  exact hboth.2

/-- Every task has come to where it stands by the answers in its trace. -/
def Pool.Follows (S : System σ μ J Q A ε α) (P : Pool σ J Q A ε α) : Prop :=
  ∀ task ∈ P.tasks, Path (S.code task.job) task.trace task.code

theorem Pool.follows_init {P : Pool σ J Q A ε α} (h : P.tasks = []) : P.Follows S := by
  intro task htask
  rw [h] at htask
  cases htask

theorem Pool.Follows.step {P P' : Pool σ J Q A ε α} {move : Move μ J Q A} (h : P.Follows S)
    (hstep : S.machine.step P move P') : P'.Follows S := by
  intro task htask
  cases Pool.came hstep htask with
  | old hold => exact h task hold
  | started hopen => exact .stay _
  | answered hthere hasks =>
    rename_i e before next
    have hbefore := h before (List.mem_of_getElem? hthere)
    rw [hasks] at hbefore
    exact hbefore.append (.answer e.2 (.stay _))

theorem Pool.follows {P : Pool σ J Q A ε α} (h : Reachable S.machine P) : P.Follows S := by
  refine h.invariant (I := Pool.Follows S) (fun P0 hinit => ?_) (fun P move P' hP hstep => ?_)
  · exact Pool.follows_init hinit.2
  · exact hP.step hstep

/-- What the shared state shows of an answer when it is given, and shows from then on, it
shows of all answers. -/
theorem Pool.recorded {R : σ → Answered Q A → Prop}
    (hserves : ∀ s e s', S.serves s e s' → R s' e)
    (hkept : ∀ P move P' d, S.machine.step P move P' → R P.shared d → R P'.shared d)
    {P : Pool σ J Q A ε α} (h : Reachable S.machine P) :
    ∀ task ∈ P.tasks, ∀ e ∈ task.trace, R P.shared e := by
  refine h.invariant (I := fun P => ∀ task ∈ P.tasks, ∀ e ∈ task.trace, R P.shared e)
    (fun P hinit task htask => ?_) (fun P move P' hP hstep task htask d hd => ?_)
  · rw [hinit.2] at htask
    cases htask
  · have hstable := hkept P move P' d hstep
    cases Pool.came hstep htask with
    | old hold => exact hstable (hP task hold d hd)
    | started hopen => cases hd
    | answered hthere hasks =>
      rcases List.mem_append.mp hd with hd | hd
      · exact hstable (hP _ (List.mem_of_getElem? hthere) d hd)
      · rw [List.mem_singleton.mp hd]
        exact hserves _ _ _ hstep.2

/-- The move leads a task to this question. -/
inductive Pool.Poses (S : System σ μ J Q A ε α) (P : Pool σ J Q A ε α) : Move μ J Q A → Q → Prop
  | start {job : J} {q : Q} {next : A q → Program Q A ε α} (h : S.code job = .ask q next) :
    P.Poses S (.start job) q
  | answer {i : Nat} {e : Answered Q A} {task : Task J Q A ε α} {next : A e.1 → Program Q A ε α}
    {q : Q} {next' : A q → Program Q A ε α} (there : P.tasks[i]? = some task)
    (asks : task.code = .ask e.1 next) (h : next e.2 = .ask q next') :
    P.Poses S (.answer i e) q

/-- The answer that a move gives. -/
def Move.answered? : Move μ J Q A → Option (Answered Q A)
  | .answer _ e => some e
  | _ => none

/-- A task that a move leads to a question has the answer of the move for its last
one, and no answer at all when the move starts it. -/
theorem Pool.Poses.lands {P P' : Pool σ J Q A ε α} {move : Move μ J Q A} {q : Q}
    (h : P.Poses S move q) (hstep : S.machine.step P move P') :
    ∃ task ∈ P'.tasks, (∃ next, task.code = .ask q next) ∧
      task.trace.getLast? = move.answered? := by
  cases h with
  | start hcode =>
    obtain ⟨-, rfl⟩ := hstep
    refine ⟨_, List.mem_append_right _ (List.mem_singleton.mpr rfl), ⟨_, hcode⟩, rfl⟩
  | answer hthere hasks hnext =>
    rename_i i e task next next'
    obtain ⟨hanswer, -⟩ := hstep
    generalize P'.tasks = tasks at hanswer
    obtain ⟨hthere', hasks'⟩ := hanswer
    obtain rfl : task = _ := Option.some.inj (hthere.symm.trans hthere')
    obtain rfl : next = _ := by
      have hsame := hasks.symm.trans hasks'
      simpa using hsame
    refine ⟨_, List.mem_set (List.getElem?_eq_some_iff.mp hthere).1 _, ⟨_, hnext⟩, ?_⟩
    simp [Move.answered?]

/-- A move leads to one of the questions that the programs ask. -/
theorem Pool.Poses.asked {ok : Q → Prop} {P : Pool σ J Q A ε α} {move : Move μ J Q A} {q : Q}
    (h : P.Poses S move q) (hstart : ∀ job, move = .start job → Asks ok (S.code job))
    (htasks : ∀ task ∈ P.tasks, Asks ok task.code) : ok q := by
  cases h with
  | start hcode =>
    have hasks := hstart _ rfl
    rw [hcode] at hasks
    exact hasks.1
  | answer hthere hcode hnext =>
    rename_i e task next next'
    have hasks := htasks task (List.mem_of_getElem? hthere)
    rw [hcode] at hasks
    have hrest := hasks.2 e.2
    rw [hnext] at hrest
    exact hrest.1

/-- A task that asks was at its question before, or the move led it there. -/
theorem Pool.asked_or_poses {P P' : Pool σ J Q A ε α} {move : Move μ J Q A}
    (hstep : S.machine.step P move P') {task : Task J Q A ε α} (htask : task ∈ P'.tasks) {q : Q}
    {next : A q → Program Q A ε α} (hcode : task.code = .ask q next) :
    task ∈ P.tasks ∨ P.Poses S move q := by
  cases Pool.came hstep htask with
  | old hold => exact Or.inl hold
  | started hopen => exact Or.inr (.start hcode)
  | answered hthere hasks => exact Or.inr (.answer hthere hasks hcode)

theorem Pool.kept_init {P : Pool σ J Q A ε α} (h : P.tasks = []) : P.Kept T start post := by
  intro task htask
  rw [h] at htask
  cases htask

/-- The task in place `i` goes on, with the answer that `reply` has for its
question. -/
def Pool.play (serve : σ → Answered Q A → σ) (reply : σ → (q : Q) → A q) (P : Pool σ J Q A ε α)
    (i : Nat) : Pool σ J Q A ε α :=
  match P.tasks[i]? with
  | some ⟨job, trace, .ask q next⟩ =>
    let e : Answered Q A := ⟨q, reply P.shared q⟩
    ⟨serve P.shared e, P.tasks.set i ⟨job, trace ++ [e], next e.2⟩⟩
  | _ => P

/-- A game of replies is a run, when each reply is served and allowed where `I`
holds, which the game keeps. -/
theorem Pool.reachable_play {I : Pool σ J Q A ε α → Prop} {serve : σ → Answered Q A → σ}
    {reply : σ → (q : Q) → A q} {allowed : Pool σ J Q A ε α → Move μ J Q A → Prop}
    (hserves : ∀ s q, S.serves s ⟨q, reply s q⟩ (serve s ⟨q, reply s q⟩))
    (hallowed : ∀ P i task q next, I P → P.tasks[i]? = some task → task.code = .ask q next →
      allowed P (.answer i ⟨q, reply P.shared q⟩))
    {P : Pool σ J Q A ε α} (hP : Reachable (S.machine.restrict allowed) P) (hI : I P) (i : Nat) :
    Reachable (S.machine.restrict allowed) (P.play serve reply i) := by
  unfold Pool.play
  split
  · rename_i job trace q next hthere
    refine hP.step (a := .answer i ⟨q, reply P.shared q⟩)
      ⟨⟨?_, hserves _ q⟩, hallowed P i _ q next hI hthere rfl⟩
    exact Pool.Answers.intro hthere rfl
  · exact hP

theorem Pool.reachable_plays {I : Pool σ J Q A ε α → Prop} {serve : σ → Answered Q A → σ}
    {reply : σ → (q : Q) → A q} {allowed : Pool σ J Q A ε α → Move μ J Q A → Prop}
    (hserves : ∀ s q, S.serves s ⟨q, reply s q⟩ (serve s ⟨q, reply s q⟩))
    (hallowed : ∀ P i task q next, I P → P.tasks[i]? = some task → task.code = .ask q next →
      allowed P (.answer i ⟨q, reply P.shared q⟩))
    (hplay : ∀ P i, I P → I (Pool.play serve reply P i))
    {P : Pool σ J Q A ε α} (hP : Reachable (S.machine.restrict allowed) P) (hI : I P)
    (order : List Nat) :
    Reachable (S.machine.restrict allowed) (order.foldl (Pool.play serve reply) P) := by
  induction order generalizing P with
  | nil => exact hP
  | cons i rest ih => exact ih (Pool.reachable_play hserves hallowed hP hI i) (hplay P i hI)

/-! ## Tallies -/

variable {M : Type} [AddCommMonoid M]

/-- The weight of a trace. -/
def tally (w : Answered Q A → M) (trace : List (Answered Q A)) : M := (trace.map w).sum

/-- The weight of all that was asked in a pool. -/
def Pool.tally (w : Answered Q A → M) (P : Pool σ J Q A ε α) : M :=
  (P.tasks.map (fun task => programs.tally w task.trace)).sum

@[simp] theorem tally_nil (w : Answered Q A → M) : tally w [] = 0 := rfl

theorem tally_append (w : Answered Q A → M) (t u : List (Answered Q A)) :
    tally w (t ++ u) = tally w t + tally w u := by
  simp [tally]

theorem Pool.tally_nil (w : Answered Q A → M) {P : Pool σ J Q A ε α} (h : P.tasks = []) :
    P.tally w = 0 := by
  simp [Pool.tally, h]

theorem tally_concat (w : Answered Q A → M) (t : List (Answered Q A)) (e : Answered Q A) :
    tally w (t ++ [e]) = tally w t + w e := by
  rw [tally_append]
  simp [tally]

theorem tally_add (w w' : Answered Q A → M) (t : List (Answered Q A)) :
    tally (fun e => w e + w' e) t = tally w t + tally w' t := by
  simp [tally]

theorem Pool.tally_add (w w' : Answered Q A → M) (P : Pool σ J Q A ε α) :
    P.tally (fun e => w e + w' e) = P.tally w + P.tally w' := by
  simp [Pool.tally, programs.tally_add]

/-- What is no more in any trace is no more in the pool. -/
theorem Pool.tally_le {N : Type} [AddCommMonoid N] [PartialOrder N] [IsOrderedAddMonoid N]
    {w w' : Answered Q A → N} {P : Pool σ J Q A ε α}
    (h : ∀ task ∈ P.tasks, programs.tally w task.trace ≤ programs.tally w' task.trace) :
    P.tally w ≤ P.tally w' :=
  List.sum_le_sum h

/-- What no answer weighs weighs nothing. -/
theorem Pool.tally_eq_zero {w : Answered Q A → M} {P : Pool σ J Q A ε α}
    (h : ∀ task ∈ P.tasks, ∀ e ∈ task.trace, w e = 0) : P.tally w = 0 := by
  refine List.sum_eq_zero fun x hx => ?_
  obtain ⟨task, htask, rfl⟩ := List.mem_map.mp hx
  refine List.sum_eq_zero fun y hy => ?_
  obtain ⟨e, he, rfl⟩ := List.mem_map.mp hy
  exact h task htask e he

/-- What weighs something has an answer that does. -/
theorem Pool.exists_of_tally_pos {w : Answered Q A → Nat} {P : Pool σ J Q A ε α}
    (h : 0 < P.tally w) : ∃ task ∈ P.tasks, ∃ e ∈ task.trace, 0 < w e := by
  by_contra hnone
  push Not at hnone
  have hzero := P.tally_eq_zero (w := w)
    fun task htask e he => Nat.le_zero.mp (hnone task htask e he)
  omega

/-- What is the same in each trace is the same in the pool. -/
theorem Pool.tally_congr {w w' : Answered Q A → M} {P : Pool σ J Q A ε α}
    (h : ∀ task ∈ P.tasks, programs.tally w task.trace = programs.tally w' task.trace) :
    P.tally w = P.tally w' := by
  unfold Pool.tally
  rw [List.map_congr_left h]

/-- A history that adds up weights is the tally of the trace. -/
theorem foldl_tally (w : Answered Q A → M) (m : M) (trace : List (Answered Q A)) :
    trace.foldl (fun m e => m + w e) m = m + programs.tally w trace := by
  induction trace generalizing m with
  | nil => simp
  | cons e rest ih =>
    rw [List.foldl_cons, ih]
    simp [programs.tally, add_assoc]

/-- A tally of what each answer brings is the sum of all that was brought. -/
theorem tally_flatMap {C : Type} (f : Answered Q A → List C) (w : C → M)
    (trace : List (Answered Q A)) :
    tally (fun e => ((f e).map w).sum) trace = ((trace.flatMap f).map w).sum := by
  induction trace with
  | nil => rfl
  | cons e rest ih =>
    have hrest : ((rest.map (fun e => ((f e).map w).sum)).sum : M) =
        ((rest.flatMap f).map w).sum := ih
    simp [tally, hrest]

/-- Only an answer adds to a tally. -/
def Move.weight (w : Answered Q A → M) : Move μ J Q A → M
  | .answer _ e => w e
  | _ => 0

theorem Pool.tally_step (w : Answered Q A → M) {P P' : Pool σ J Q A ε α} {move : Move μ J Q A}
    (hstep : S.machine.step P move P') : P'.tally w = P.tally w + move.weight w := by
  cases move with
  | start job =>
    obtain ⟨-, rfl⟩ := hstep
    simp [Pool.tally, Move.weight]
  | answer i e =>
    obtain ⟨hanswer, -⟩ := hstep
    unfold Pool.tally
    generalize P'.tasks = tasks at hanswer
    obtain ⟨hthere, -⟩ := hanswer
    rename_i task next
    obtain ⟨hlt, hget⟩ := List.getElem?_eq_some_iff.mp hthere
    have hsplit : P.tasks = P.tasks.take i ++ task :: P.tasks.drop (i + 1) := by
      rw [← hget, List.getElem_cons_drop, List.take_append_drop]
    rw [List.set_eq_take_append_cons_drop, if_pos hlt]
    conv_rhs => rw [hsplit]
    simp only [List.map_append, List.map_cons, List.sum_append, List.sum_cons, tally_append,
      Move.weight]
    have hone : programs.tally w [e] = w e := by simp [programs.tally]
    rw [hone]
    abel
  | turn m =>
    obtain ⟨-, htasks⟩ := hstep
    simp [Pool.tally, htasks, Move.weight]

end programs
