-- The throttle of forks (`server/routes/runs.py`, `_check_fork_rate`): a log of the last accepted
-- forks of each run, pruned from its front.
import Orchestra.Server
import Orchestra.Lib.Windows
import Mathlib.Algebra.Order.Field.Rat
import Mathlib.Tactic.Linarith
import Mathlib.Data.List.Induction
import Mathlib.Data.List.TakeWhile

open dicts windows orchestra.server

namespace orchestra.fork_rate

/-! ## The throttle -/

def forkLimit : Nat := 10

def forkWindow : Rat := 60

/-- `_fork_history`. A run that is not in it has an empty log. -/
abbrev ForkHistory := Dict String (List Rat)

def logOf (history : ForkHistory) (runId : String) : List Rat := (history.get? runId).getD []

/-- `while hist and now - hist[0] > _FORK_WINDOW: hist.popleft()` -/
def prune (now : Rat) (hist : List Rat) : List Rat := hist.dropWhile fun t => forkWindow < now - t

/-- `_check_fork_rate`. The log stays pruned when the attempt is refused. -/
def checkForkRate (history : ForkHistory) (runId : String) (now : Rat) :
    ForkHistory × Except HTTPException Unit :=
  let hist := prune now (logOf history runId)
  if forkLimit ≤ hist.length then
    (history.set runId hist, .error ⟨429, "Fork rate limit exceeded for run '" ++ runId ++
      "' (max " ++ toString forkLimit ++ "/min)"⟩)
  else (history.set runId (hist ++ [now]), .ok ())

/-! ## Attempts -/

/-- A run and a time. -/
abbrev Attempt := Entry String Rat

/-- The logs after an attempt, and the attempts that were accepted. -/
def attempt (s : ForkHistory × List Attempt) (a : Attempt) : ForkHistory × List Attempt :=
  match checkForkRate s.1 a.key a.time with
  | (history, .ok ()) => (history, s.2 ++ [a])
  | (history, .error _) => (history, s.2)

def throttle (attempts : List Attempt) : ForkHistory × List Attempt :=
  attempts.foldl attempt (.empty, [])

theorem attempt_cases (s : ForkHistory × List Attempt) (a : Attempt) :
    let hist := prune a.time (logOf s.1 a.key)
    (forkLimit ≤ hist.length ∧ attempt s a = (s.1.set a.key hist, s.2)) ∨
      (hist.length < forkLimit ∧
        attempt s a = (s.1.set a.key (hist ++ [a.time]), s.2 ++ [a])) := by
  intro hist
  unfold attempt checkForkRate
  by_cases hfull : forkLimit ≤ hist.length
  · refine Or.inl ⟨hfull, ?_⟩
    simp only [hist] at hfull
    simp only [hfull, if_true, hist]
  · refine Or.inr ⟨Nat.not_le.mp hfull, ?_⟩
    simp only [hist] at hfull
    simp only [hfull, if_false, hist]

/-! ## The log of a run -/

variable {runId : String}

/-- The log of a run is the end of what was accepted of it. What is not in it is too old. -/
structure Logged (runId : String) (attempts : List Attempt) (s : ForkHistory × List Attempt) :
    Prop where
  split : ∃ dropped, timesOf runId s.2 = dropped ++ logOf s.1 runId ∧
    ∀ d ∈ dropped, ∃ t ∈ timesOf runId attempts, forkWindow < t - d
  short : (logOf s.1 runId).length ≤ forkLimit
  order : (timesOf runId s.2).Pairwise (· ≤ ·)
  known : ∀ t ∈ timesOf runId s.2, t ∈ timesOf runId attempts
  bound : ∀ start, countIn start (start + forkWindow) (timesOf runId s.2) ≤ forkLimit

/-- Once its log is pruned for `now`, it holds what was accepted in the window before `now`. -/
structure Pruned (accepted hist : List Rat) (now : Rat) : Prop where
  split : ∃ dropped, accepted = dropped ++ hist ∧ ∀ d ∈ dropped, forkWindow < now - d
  count : countIn (now - forkWindow) now accepted = hist.length

theorem pruned {attempts : List Attempt} {s : ForkHistory × List Attempt}
    (h : Logged runId attempts s) {now : Rat} (hnow : ∀ t ∈ timesOf runId attempts, t ≤ now) :
    Pruned (timesOf runId s.2) (prune now (logOf s.1 runId)) now := by
  obtain ⟨dropped, hsplit, hdropped⟩ := h.split
  have horder := h.order
  have hpast : ∀ t ∈ timesOf runId s.2, t ≤ now := fun t ht => hnow t (h.known t ht)
  rw [hsplit, List.pairwise_append] at horder
  generalize hlog : logOf s.1 runId = log at *
  have hparts : log.takeWhile (fun t => forkWindow < now - t) ++ prune now log = log :=
    List.takeWhile_append_dropWhile
  have hold : ∀ d ∈ dropped ++ log.takeWhile (fun t => forkWindow < now - t),
      forkWindow < now - d := by
    intro d hd
    rcases List.mem_append.mp hd with hbefore | hfirst
    · obtain ⟨t, ht, hlate⟩ := hdropped d hbefore
      have := hnow t ht
      linarith
    · simpa using List.mem_takeWhile_imp hfirst
  have hrecent : ∀ t ∈ prune now log, now - t ≤ forkWindow := by
    intro t ht
    have := not_of_mem_dropWhile (fun t => decide (forkWindow < now - t))
      (fun s t hst ht => by simp only [decide_eq_true_eq] at ht ⊢; linarith) horder.2.1 t ht
    simpa using this
  have hall : timesOf runId s.2 =
      (dropped ++ log.takeWhile fun t => forkWindow < now - t) ++ prune now log := by
    rw [List.append_assoc, hparts, hsplit]
  refine ⟨⟨_, hall, hold⟩, ?_⟩
  rw [hall] at hpast
  rw [hall, countIn_append, countIn_of_before, countIn_of_forall, Nat.zero_add]
  · intro t ht
    have := hrecent t ht
    linarith
  · exact fun t ht => hpast t (List.mem_append_right _ ht)
  · intro d hd
    have := hold d hd
    linarith

theorem Pruned.length_le {attempts : List Attempt} {s : ForkHistory × List Attempt}
    (h : Logged runId attempts s) (now : Rat) :
    (prune now (logOf s.1 runId)).length ≤ forkLimit :=
  (List.length_dropWhile_le _ _).trans h.short

theorem logged_other {attempts : List Attempt} {s : ForkHistory × List Attempt}
    (h : Logged runId attempts s) {a : Attempt} (hne : a.key ≠ runId) :
    Logged runId (attempts ++ [a]) (attempt s a) := by
  have hlog : ∀ hist, logOf (s.1.set a.key hist) runId = logOf s.1 runId := by
    intro hist
    unfold logOf
    rw [Dict.get?_set_ne _ _ hne]
  obtain ⟨hsplit, hshort, horder, hknown, hbound⟩ := h
  obtain ⟨-, heq⟩ | ⟨-, heq⟩ := attempt_cases s a
  · rw [heq]
    constructor
    all_goals simp only [hlog, timesOf_snoc_other hne]
    all_goals assumption
  · rw [heq]
    constructor
    all_goals simp only [hlog, timesOf_snoc_other hne]
    all_goals assumption

theorem logged_own {attempts : List Attempt} {s : ForkHistory × List Attempt}
    (h : Logged runId attempts s) {a : Attempt} (heq : a.key = runId)
    (hnow : ∀ t ∈ timesOf runId attempts, t ≤ a.time) :
    Logged runId (attempts ++ [a]) (attempt s a) := by
  subst heq
  obtain ⟨⟨dropped, hsplit, hdropped⟩, hcount⟩ := pruned h hnow
  have hlast : a.time ∈ timesOf a.key (attempts ++ [a]) := by
    rw [timesOf_snoc_self rfl]
    exact List.mem_append_right _ (List.mem_singleton_self _)
  have hknown : ∀ t ∈ timesOf a.key s.2, t ∈ timesOf a.key (attempts ++ [a]) := by
    intro t ht
    rw [timesOf_snoc_self rfl]
    exact List.mem_append_left _ (h.known t ht)
  have hlog : ∀ hist, logOf (s.1.set a.key hist) a.key = hist := by
    intro hist
    unfold logOf
    rw [Dict.get?_set_self, Option.getD_some]
  obtain ⟨-, hcase⟩ | ⟨hroom, hcase⟩ := attempt_cases s a
  · rw [hcase]
    refine ⟨⟨dropped, ?_, fun d hd => ⟨a.time, hlast, hdropped d hd⟩⟩, ?_, h.order, hknown, h.bound⟩
    · rw [hlog]
      exact hsplit
    · rw [hlog]
      exact Pruned.length_le h a.time
  · rw [hcase]
    have hpast : ∀ t ∈ timesOf a.key s.2, t ≤ a.time := fun t ht => hnow t (h.known t ht)
    refine ⟨⟨dropped, ?_, fun d hd => ⟨a.time, hlast, hdropped d hd⟩⟩, ?_, ?_, ?_, fun start => ?_⟩
    · rw [hlog, timesOf_snoc_self rfl, ← List.append_assoc, ← hsplit]
    · rw [hlog, List.length_append]
      exact hroom
    · rw [timesOf_snoc_self rfl, List.pairwise_append]
      refine ⟨h.order, List.pairwise_singleton _ _, fun t ht t' ht' => ?_⟩
      rw [List.mem_singleton.mp ht']
      exact hpast t ht
    · intro t ht
      rw [timesOf_snoc_self rfl] at ht
      rcases List.mem_append.mp ht with hbefore | hnew
      · exact hknown t hbefore
      · rw [List.mem_singleton.mp hnew]
        exact hlast
    · rw [timesOf_snoc_self rfl]
      by_cases hin : start ≤ a.time ∧ a.time ≤ start + forkWindow
      · -- The window ends with this attempt, and what was accepted in it is in the log.
        have hwindow : countIn start (start + forkWindow) (timesOf a.key s.2) ≤
            (prune a.time (logOf s.1 a.key)).length := by
          rw [← hcount, countIn_of_after (fun t ht => (hpast t ht).trans hin.2) hpast]
          exact countIn_mono (by linarith) _ _
        rw [countIn_snoc_of_mem hin.1 hin.2]
        omega
      · rw [countIn_snoc_of_not hin]
        exact h.bound start

theorem logged_throttle (attempts : List Attempt)
    (horder : (timesOf runId attempts).Pairwise (· ≤ ·)) :
    Logged runId attempts (throttle attempts) := by
  induction attempts using List.reverseRecOn with
  | nil =>
    exact
      { split := ⟨[], rfl, by simp⟩
        short := Nat.zero_le _
        order := List.Pairwise.nil
        known := by simp [throttle, timesOf]
        bound := fun start => Nat.zero_le _ }
  | append_singleton attempts a ih =>
    have hlogged := ih (pairwise_of_snoc horder)
    have hsnoc : throttle (attempts ++ [a]) = attempt (throttle attempts) a := by
      simp only [throttle, List.foldl_append, List.foldl_cons, List.foldl_nil]
    rw [hsnoc]
    by_cases ha : a.key = runId
    · exact logged_own hlogged ha (le_of_pairwise_snoc ha horder)
    · exact logged_other hlogged ha

/-- Over every sequence of attempts, no closed window of 60 seconds has more than 10 accepted
forks of a run, and an attempt is refused only where the window before it has 10 of its run. -/
theorem fork_rate_bounds_every_window (attempts : List Attempt)
    (horder : (attempts.map (·.time)).Pairwise (· ≤ ·)) :
    (∀ runId start, countIn start (start + 60) (timesOf runId (throttle attempts).2) ≤ 10) ∧
    ∀ before a after, attempts = before ++ a :: after → ∀ e,
      (checkForkRate (throttle before).1 a.key a.time).2 = .error e →
        countIn (a.time - 60) a.time (timesOf a.key (throttle before).2) = 10 := by
  refine ⟨fun runId start => ?_, ?_⟩
  · exact (logged_throttle attempts (pairwise_timesOf horder runId)).bound start
  · rintro before a after rfl e he
    have hfirst : (timesOf a.key (before ++ [a])).Pairwise (· ≤ ·) := by
      rw [List.append_cons, List.map_append] at horder
      exact pairwise_timesOf (List.pairwise_append.mp horder).1 a.key
    have hlogged := logged_throttle before (pairwise_of_snoc hfirst)
    have hcount := (pruned hlogged (le_of_pairwise_snoc rfl hfirst)).count
    have hshort := Pruned.length_le hlogged a.time
    unfold checkForkRate at he
    by_cases hfull : forkLimit ≤ (prune a.time (logOf (throttle before).1 a.key)).length
    · exact hcount.trans (Nat.le_antisymm hshort hfull)
    · simp only [hfull, if_false] at he
      cases he

/-- Twelve forks of a run, one a second. -/
def twelve : List Attempt := (List.range 12).map fun (n : Nat) => ⟨"run", n⟩

theorem the_eleventh_fork_is_refused :
    (timesOf "run" (throttle twelve).2).length = 10 ∧
      countIn (10 - 60) 10 (timesOf "run" (throttle (twelve.take 10)).2) = 10 := by
  refine ⟨by decide +kernel, ?_⟩
  exact (fork_rate_bounds_every_window twelve (by decide +kernel)).2 (twelve.take 10) ⟨"run", 10⟩
    [⟨"run", 11⟩] rfl ⟨429, "Fork rate limit exceeded for run 'run' (max 10/min)"⟩
    (by decide +kernel)

end orchestra.fork_rate
