-- Replay of recorded responses (`ReplayProvider` of `providers/replay.py`): a request is
-- answered with the next recording under the hash of its prompt, and when there is none left
-- with the next recording of all.
import Orchestra.Agents
import Orchestra.PromptHash

open dicts

namespace orchestra.replay

open orchestra.commitments orchestra.prompt_hash orchestra.agents

/-! ## Recordings -/

/-- What a replay reads of an `LLMCalled` event. A recording without a hash has `""`. -/
structure LLMCalled where
  model : String
  content : Option String
  toolCalls : List PyDict
  inputTokens : Nat
  outputTokens : Nat
  costUsd : Rat
  promptHash : String

inductive HistoricalEvent
  | llmCalled (call : LLMCalled)
  | other

def HistoricalEvent.call? : HistoricalEvent → Option LLMCalled
  | .llmCalled call => some call
  | .other => none

structure ReplayProvider where
  llmCalls : List LLMCalled
  ptr : Nat
  byHash : Dict String (List Nat)

/-- The recordings that are left under a hash. -/
def queue (byHash : Dict String (List Nat)) (h : String) : List Nat := (byHash.get? h).getD []

/-- One round of the loop of `__init__`. -/
def indexCall (byHash : Dict String (List Nat)) (entry : LLMCalled × Nat) :
    Dict String (List Nat) :=
  let h := entry.1.promptHash
  if h ≠ "" then byHash.set h (queue byHash h ++ [entry.2]) else byHash

/-- `__init__` -/
def ReplayProvider.init (historicalEvents : List HistoricalEvent) : ReplayProvider :=
  let llmCalls := historicalEvents.filterMap HistoricalEvent.call?
  ⟨llmCalls, 0, llmCalls.zipIdx.foldl indexCall .empty⟩

/-! ## A request -/

/-- The recording that `complete` takes for a prompt hash. -/
def next (p : ReplayProvider) (h : String) : ReplayProvider × Option Nat :=
  match queue p.byHash h with
  | idx :: rest => ({ p with byHash := p.byHash.set h rest }, some idx)
  | [] =>
    if p.ptr < p.llmCalls.length then ({ p with ptr := p.ptr + 1 }, some p.ptr) else (p, none)

/-- The response of a recording. `validate` is `ToolCall.model_validate`. -/
def response (validate : PyDict → Except Raised agent.ToolCall) (call : LLMCalled) :
    Except Raised LLMResponse := do
  let toolCalls ← call.toolCalls.mapM validate
  let usage : TokenUsage :=
    ⟨⟨call.inputTokens, call.outputTokens, call.costUsd⟩, call.inputTokens + call.outputTokens⟩
  pure ⟨some (call.content.getD ""), toolCalls, some usage, call.model⟩

def exhausted : Raised :=
  ⟨"RuntimeError", "ReplayProvider exhausted historical LLM calls. " ++
    "The workflow has diverged from history.", false⟩

def answer (validate : PyDict → Except Raised agent.ToolCall) (llmCalls : List LLMCalled)
    (idx : Option Nat) : Except Raised LLMResponse :=
  match idx.bind (llmCalls[·]?) with
  | some call => response validate call
  | none => .error exhausted

def complete (sha256 : Bytes → String) (validate : PyDict → Except Raised agent.ToolCall)
    (p : ReplayProvider) (messages : List Message) :
    ReplayProvider × Except Raised LLMResponse :=
  let (p', idx) := next p (hashMessages sha256 messages)
  (p', answer validate p.llmCalls idx)

/-- The recordings that a provider takes for requests that come one after the other.
`complete` never waits, so branches take turns between requests only. -/
def serve (p : ReplayProvider) : List String → List (Option Nat)
  | [] => []
  | h :: rest => (next p h).2 :: serve (next p h).1 rest

def completeAll (sha256 : Bytes → String) (validate : PyDict → Except Raised agent.ToolCall)
    (p : ReplayProvider) : List (List Message) → List (Except Raised LLMResponse)
  | [] => []
  | messages :: rest =>
    (complete sha256 validate p messages).2 ::
      completeAll sha256 validate (complete sha256 validate p messages).1 rest

theorem next_llmCalls (p : ReplayProvider) (h : String) : (next p h).1.llmCalls = p.llmCalls := by
  unfold next
  split
  · rfl
  · split <;> rfl

/-- The responses of a run are those of the recordings taken. -/
theorem completeAll_eq (sha256 : Bytes → String)
    (validate : PyDict → Except Raised agent.ToolCall) (p : ReplayProvider)
    (prompts : List (List Message)) :
    completeAll sha256 validate p prompts =
      (serve p (prompts.map (hashMessages sha256))).map (answer validate p.llmCalls) := by
  induction prompts generalizing p with
  | nil => rfl
  | cons messages rest ih =>
    have hrest := ih (next p (hashMessages sha256 messages)).1
    rw [next_llmCalls] at hrest
    exact congrArg (answer validate p.llmCalls _ :: ·) hrest

/-! ## What a request is to be answered with -/

/-- The recordings under a hash, in the order they were made. -/
def placesOf (calls : List LLMCalled) (h : String) : List Nat :=
  (calls.zipIdx.filter fun entry => entry.1.promptHash ≠ "" ∧ entry.1.promptHash = h).map (·.2)

/-- A request finds nothing left under its hash. -/
def Overdue (calls : List LLMCalled) (before : List String) (h : String) : Prop :=
  (placesOf calls h).length ≤ before.count h

instance (calls : List LLMCalled) (before : List String) (h : String) :
    Decidable (Overdue calls before h) :=
  inferInstanceAs (Decidable (_ ≤ _))

def excessFrom (calls : List LLMCalled) (before : List String) : List String → Nat
  | [] => 0
  | h :: rest =>
    (if Overdue calls before h then 1 else 0) + excessFrom calls (before ++ [h]) rest

/-- How many requests found nothing left under their hash. -/
def excess (calls : List LLMCalled) (requests : List String) : Nat := excessFrom calls [] requests

/-- What a request is answered with. -/
def serving (calls : List LLMCalled) (before : List String) (h : String) : Option Nat :=
  match (placesOf calls h)[before.count h]? with
  | some idx => some idx
  | none => if excess calls before < calls.length then some (excess calls before) else none

/-- A replay is faithful when no recording is taken twice, and the requests of a recorded
prompt take its recordings in order. -/
structure ServesFaithfully (calls : List LLMCalled) (requests : List String)
    (served : List (Option Nat)) : Prop where
  once : ∀ (j k idx : Nat), served[j]? = some (some idx) → served[k]? = some (some idx) → j = k
  samePrompt : ∀ (j : Nat) h, requests[j]? = some h → placesOf calls h ≠ [] →
    served[j]? = some (placesOf calls h)[(requests.take j).count h]?

/-- A prompt that was recorded is asked for more often than it was recorded only when all
recordings have been handed out in a row. -/
def LateExcess (calls : List LLMCalled) (requests : List String) : Prop :=
  ∀ (j : Nat) h, requests[j]? = some h → placesOf calls h ≠ [] →
    Overdue calls (requests.take j) h → calls.length ≤ excess calls (requests.take j)

/-- The recordings that are handed out in a row are not taken under their hash. -/
def Apart (calls : List LLMCalled) (requests : List String) : Prop :=
  ∀ h, ∀ idx ∈ (placesOf calls h).take (requests.count h), excess calls requests ≤ idx

/-! ## The index -/

theorem queue_set (byHash : Dict String (List Nat)) (k h : String) (left : List Nat) :
    queue (byHash.set k left) h = if k = h then left else queue byHash h := by
  unfold queue
  rw [Dict.get?_set]
  split <;> rfl

theorem queue_index (entries : List (LLMCalled × Nat)) (byHash : Dict String (List Nat))
    (h : String) :
    queue (entries.foldl indexCall byHash) h = queue byHash h ++
      (entries.filter fun e => e.1.promptHash ≠ "" ∧ e.1.promptHash = h).map (·.2) := by
  induction entries generalizing byHash with
  | nil => simp
  | cons entry rest ih =>
    rw [List.foldl_cons, ih]
    unfold indexCall
    by_cases hempty : entry.1.promptHash = ""
    · simp [hempty]
    · by_cases hkey : entry.1.promptHash = h
      · subst hkey
        simp [hempty, queue_set]
      · simp [hempty, hkey, queue_set]

/-- After some requests each queue has lost one recording for each request of its prompt. -/
structure Standing (calls : List LLMCalled) (before : List String) (p : ReplayProvider) :
    Prop where
  llmCalls : p.llmCalls = calls
  queues : ∀ h, queue p.byHash h = (placesOf calls h).drop (before.count h)
  ptr : p.ptr = min (excess calls before) calls.length

theorem standing_init (events : List HistoricalEvent) :
    Standing (events.filterMap HistoricalEvent.call?) [] (.init events) where
  llmCalls := rfl
  queues h := queue_index _ .empty h
  ptr := (Nat.zero_min _).symm

/-! ## The run -/

theorem excessFrom_append (calls : List LLMCalled) (before xs ys : List String) :
    excessFrom calls before (xs ++ ys) =
      excessFrom calls before xs + excessFrom calls (before ++ xs) ys := by
  induction xs generalizing before with
  | nil => simp [excessFrom]
  | cons h xs ih =>
    rw [List.cons_append, excessFrom, excessFrom, ih, List.append_assoc, List.singleton_append]
    omega

theorem excess_append (calls : List LLMCalled) (before : List String) (h : String) :
    excess calls (before ++ [h]) =
      excess calls before + if Overdue calls before h then 1 else 0 := by
  unfold excess
  rw [excessFrom_append, List.nil_append]
  rfl

theorem overdue_iff {calls : List LLMCalled} {before : List String} {h : String} :
    Overdue calls before h ↔ (placesOf calls h)[before.count h]? = none :=
  List.getElem?_eq_none_iff.symm

theorem serving_of_place {calls : List LLMCalled} {before : List String} {h : String} {idx : Nat}
    (hidx : (placesOf calls h)[before.count h]? = some idx) :
    serving calls before h = some idx := by
  unfold serving
  rw [hidx]

theorem serving_of_overdue {calls : List LLMCalled} {before : List String} {h : String}
    (hover : Overdue calls before h) : serving calls before h =
      if excess calls before < calls.length then some (excess calls before) else none := by
  unfold serving
  rw [overdue_iff.mp hover]

theorem next_spec {calls : List LLMCalled} {before : List String} {p : ReplayProvider}
    (hp : Standing calls before p) (h : String) :
    (next p h).2 = serving calls before h ∧ Standing calls (before ++ [h]) (next p h).1 := by
  have hqueue := hp.queues h
  have hexcess := excess_append calls before h
  have hcount (k : String) :
      (before ++ [h]).count k = before.count k + if h = k then 1 else 0 := by
    rw [List.count_append, List.count_singleton]
    simp
  rcases hfound : (placesOf calls h)[before.count h]? with _ | idx
  · -- nothing is left under the hash
    have hover : Overdue calls before h := overdue_iff.mpr hfound
    have hempty : queue p.byHash h = [] := by rw [hqueue]; exact List.drop_eq_nil_of_le hover
    have hqueues (k : String) :
        queue p.byHash k = (placesOf calls k).drop ((before ++ [h]).count k) := by
      rw [hcount]
      split
      · rename_i hk
        subst hk
        rw [hempty, List.drop_eq_nil_of_le (Nat.le_succ_of_le hover)]
      · exact hp.queues k
    have hptr := hp.ptr
    rw [if_pos hover] at hexcess
    rw [serving_of_overdue hover]
    unfold next
    rw [hempty]
    by_cases hlt : excess calls before < calls.length
    · have hat : p.ptr = excess calls before := by omega
      simp only [hp.llmCalls, hat, hlt, if_true]
      refine ⟨trivial, rfl, hqueues, ?_⟩
      show excess calls before + 1 = _
      omega
    · have hend : ¬ p.ptr < calls.length := by omega
      simp only [hp.llmCalls, hend, hlt, if_false]
      exact ⟨trivial, hp.llmCalls, hqueues, by omega⟩
  · have hover : ¬ Overdue calls before h := by rw [overdue_iff, hfound]; simp
    rw [if_neg hover] at hexcess
    obtain ⟨hlt, hidx⟩ := List.getElem?_eq_some_iff.mp hfound
    have hcons : queue p.byHash h = idx :: (placesOf calls h).drop (before.count h + 1) := by
      rw [hqueue, List.drop_eq_getElem_cons hlt, hidx]
    rw [serving_of_place hfound]
    unfold next
    rw [hcons]
    refine ⟨rfl, hp.llmCalls, ?_, by rw [hexcess]; exact hp.ptr⟩
    intro k
    simp only [queue_set, hcount]
    split
    · rename_i hk
      rw [hk]
    · exact hp.queues k

theorem serve_getElem {calls : List LLMCalled} {before : List String} {p : ReplayProvider}
    (hp : Standing calls before p) (requests : List String) (j : Nat) :
    (serve p requests)[j]? =
      requests[j]?.map fun h => serving calls (before ++ requests.take j) h := by
  induction requests generalizing before p j with
  | nil => simp [serve]
  | cons h rest ih =>
    obtain ⟨hserved, hnext⟩ := next_spec hp h
    rcases j with _ | j
    · simp [serve, hserved]
    · simp only [serve, List.getElem?_cons_succ, List.take_succ_cons]
      rw [ih hnext j, List.append_assoc, List.singleton_append]

/-! ## Counts that grow by one -/

section counts

variable {α : Type} {c : List α → Nat}

theorem take_succ_of_getElem {xs : List α} {j : Nat} {x : α} (hx : xs[j]? = some x) :
    xs.take (j + 1) = xs.take j ++ [x] := by
  rw [List.take_add_one, hx]
  rfl

theorem count_take_le (hkeeps : ∀ xs x, c xs ≤ c (xs ++ [x])) (xs : List α) {j k : Nat}
    (hjk : j ≤ k) : c (xs.take j) ≤ c (xs.take k) := by
  induction k, hjk using Nat.le_induction with
  | base => exact Nat.le_refl _
  | succ k _ ih =>
    rcases hx : xs[k]? with _ | x
    · rw [List.take_add_one, hx]
      simpa using ih
    · rw [take_succ_of_getElem hx]
      exact Nat.le_trans ih (hkeeps _ x)

/-- A count that grows by at most one with each element comes by every number. -/
theorem exists_count_eq (hnil : c [] = 0) (hgrows : ∀ xs x, c (xs ++ [x]) ≤ c xs + 1) {i : Nat}
    {xs : List α} (hi : i < c xs) :
    ∃ (j : Nat) (x : α), xs[j]? = some x ∧ c (xs.take j) = i ∧ c (xs.take j ++ [x]) = i + 1 := by
  induction xs using List.reverseRecOn with
  | nil => omega
  | append_singleton xs x ih =>
    rcases Nat.lt_or_ge i (c xs) with hearlier | hhere
    · obtain ⟨j, y, hy, hbefore, hat⟩ := ih hearlier
      have hj : j < xs.length := (List.getElem?_eq_some_iff.mp hy).1
      have htake : (xs ++ [x]).take j = xs.take j :=
        List.take_append_of_le_length (Nat.le_of_lt hj)
      rw [← htake] at hbefore hat
      exact ⟨j, y, by rw [List.getElem?_append_left hj]; exact hy, hbefore, hat⟩
    · have hlast := hgrows xs x
      refine ⟨xs.length, x, by simp, ?_, ?_⟩
      · rw [List.take_left]
        omega
      · rw [List.take_left]
        omega

end counts

theorem count_le (h : String) (xs : List String) (x : String) :
    xs.count h ≤ (xs ++ [x]).count h := by
  rw [List.count_append]
  omega

theorem count_grows (h : String) (xs : List String) (x : String) :
    (xs ++ [x]).count h ≤ xs.count h + 1 := by
  rw [List.count_append]
  have hone : [x].count h ≤ 1 := List.count_le_length
  omega

theorem excess_le (calls : List LLMCalled) (xs : List String) (x : String) :
    excess calls xs ≤ excess calls (xs ++ [x]) := by
  rw [excess_append]
  omega

theorem excess_grows (calls : List LLMCalled) (xs : List String) (x : String) :
    excess calls (xs ++ [x]) ≤ excess calls xs + 1 := by
  rw [excess_append]
  split <;> omega

/-- The next request is among those that the count of the whole list counts. -/
theorem count_next_le {c : List String → Nat} (hkeeps : ∀ xs x, c xs ≤ c (xs ++ [x]))
    {requests : List String} {j : Nat} {h : String} (hj : requests[j]? = some h) :
    c (requests.take j ++ [h]) ≤ c requests := by
  have hlt : j < requests.length := (List.getElem?_eq_some_iff.mp hj).1
  have hle := count_take_le hkeeps requests (Nat.succ_le_of_lt hlt)
  rw [take_succ_of_getElem hj, List.take_length] at hle
  exact hle

/-! ## When a replay is faithful -/

section faithful

variable {calls : List LLMCalled} {requests : List String} {served : List (Option Nat)}

theorem mem_placesOf {h : String} {idx : Nat} :
    idx ∈ placesOf calls h ↔
      ∃ call, calls[idx]? = some call ∧ call.promptHash ≠ "" ∧ call.promptHash = h := by
  unfold placesOf
  simp only [List.mem_map, List.mem_filter, decide_eq_true_eq, Prod.exists,
    List.mem_zipIdx_iff_getElem?]
  constructor
  · rintro ⟨call, _, ⟨hcall, hhash⟩, rfl⟩
    exact ⟨call, hcall, hhash⟩
  · rintro ⟨call, hcall, hhash⟩
    exact ⟨call, idx, ⟨hcall, hhash⟩, rfl⟩

theorem nodup_placesOf (calls : List LLMCalled) (h : String) : (placesOf calls h).Nodup := by
  have hall : (calls.zipIdx.map Prod.snd).Nodup := by
    rw [List.zipIdx_map_snd]
    exact List.nodup_range'
  exact hall.sublist (List.filter_sublist.map _)

/-- A recording is taken under its hash, or it is the next one of all. -/
theorem serving_cases {before : List String} {h : String} {idx : Nat}
    (hidx : serving calls before h = some idx) :
    (placesOf calls h)[before.count h]? = some idx ∨
      (Overdue calls before h ∧ excess calls before = idx) := by
  rcases hfound : (placesOf calls h)[before.count h]? with _ | place
  · have hover : Overdue calls before h := overdue_iff.mpr hfound
    rw [serving_of_overdue hover] at hidx
    split at hidx
    · exact Or.inr ⟨hover, Option.some.inj hidx⟩
    · nomatch hidx
  · rw [serving_of_place hfound] at hidx
    exact Or.inl hidx

/-- What is taken under its hash and what is handed out in a row are apart. -/
theorem not_both (hapart : Apart calls requests) {j k : Nat} {h h' : String} {idx : Nat}
    (hj : requests[j]? = some h) (hk : requests[k]? = some h')
    (hplace : (placesOf calls h)[(requests.take j).count h]? = some idx)
    (hover : Overdue calls (requests.take k) h') (hidx : excess calls (requests.take k) = idx) :
    False := by
  have hcount : (requests.take j).count h < requests.count h := by
    have hle := count_next_le (count_le h) hj
    rw [List.count_append, List.count_singleton_self] at hle
    omega
  have hmem : idx ∈ (placesOf calls h).take (requests.count h) := by
    refine List.mem_of_getElem? (i := (requests.take j).count h) ?_
    rw [List.getElem?_take_of_lt hcount]
    exact hplace
  have hle := count_next_le (excess_le calls) hk
  rw [excess_append, if_pos hover] at hle
  have hbound := hapart h idx hmem
  omega

/-- Nothing that was taken is taken again. -/
theorem not_again (hapart : Apart calls requests) {j k : Nat} (hjk : j < k) {h h' : String}
    {idx : Nat} (hj : requests[j]? = some h) (hk : requests[k]? = some h')
    (hfirst : serving calls (requests.take j) h = some idx)
    (hsecond : serving calls (requests.take k) h' = some idx) : False := by
  rcases serving_cases hfirst with hplace | ⟨hover, hidx⟩
  · rcases serving_cases hsecond with hplace' | ⟨hover', hidx'⟩
    · obtain ⟨call, hcall, -, hhash⟩ := mem_placesOf.mp (List.mem_of_getElem? hplace)
      obtain ⟨call', hcall', -, hhash'⟩ := mem_placesOf.mp (List.mem_of_getElem? hplace')
      have hsame : h = h' := by
        rw [hcall] at hcall'
        rw [← hhash, ← hhash', Option.some.inj hcall']
      subst hsame
      have hlt := (List.getElem?_eq_some_iff.mp hplace).1
      have hcounts : (requests.take j).count h = (requests.take k).count h :=
        (List.getElem?_inj hlt (nodup_placesOf calls h)).mp (hplace.trans hplace'.symm)
      have hle := count_take_le (count_le h) requests (Nat.succ_le_of_lt hjk)
      rw [Nat.succ_eq_add_one, take_succ_of_getElem hj, List.count_append,
        List.count_singleton_self] at hle
      omega
    · exact not_both hapart hj hk hplace hover' hidx'
  · rcases serving_cases hsecond with hplace' | ⟨-, hidx'⟩
    · exact not_both hapart hk hj hplace' hover hidx
    · have hle := count_take_le (excess_le calls) requests (Nat.succ_le_of_lt hjk)
      rw [Nat.succ_eq_add_one, take_succ_of_getElem hj, excess_append, if_pos hover] at hle
      omega

theorem once_iff (hserved : ∀ j : Nat,
      served[j]? = requests[j]?.map fun h => serving calls (requests.take j) h) :
    (∀ (j k idx : Nat), served[j]? = some (some idx) → served[k]? = some (some idx) → j = k) ↔
      Apart calls requests := by
  constructor
  · intro honce h idx hmem
    by_contra hlt
    -- one request takes the recording under its hash
    obtain ⟨n, hn⟩ := List.mem_iff_getElem?.mp hmem
    have hcount : n < requests.count h := by
      have hlen := (List.getElem?_eq_some_iff.mp hn).1
      rw [List.length_take] at hlen
      omega
    rw [List.getElem?_take_of_lt hcount] at hn
    obtain ⟨j, g, hj, hbefore, hat⟩ :=
      exists_count_eq (c := List.count h) List.count_nil (count_grows h) hcount
    have hg : g = h := by
      rw [List.count_append, List.count_singleton, hbefore] at hat
      by_contra hne
      simp [hne] at hat
    subst hg
    rw [← hbefore] at hn
    -- and another one is handed it in a row
    obtain ⟨k, g', hk, hbefore', hat'⟩ :=
      exists_count_eq (c := excess calls) rfl (excess_grows calls) (Nat.lt_of_not_le hlt)
    have hover : Overdue calls (requests.take k) g' := by
      rw [excess_append, hbefore'] at hat'
      by_contra hno
      simp [hno] at hat'
    have hlen : idx < calls.length := by
      obtain ⟨call, hcall, -⟩ := mem_placesOf.mp (List.mem_of_getElem? hn)
      exact (List.getElem?_eq_some_iff.mp hcall).1
    have hfirst : served[j]? = some (some idx) := by
      rw [hserved, hj, Option.map_some, serving_of_place hn]
    have hsecond : served[k]? = some (some idx) := by
      rw [hserved, hk, Option.map_some, serving_of_overdue hover, hbefore', if_pos hlen]
    obtain rfl := honce j k idx hfirst hsecond
    rw [hj] at hk
    obtain rfl := Option.some.inj hk
    rw [overdue_iff.mp hover] at hn
    nomatch hn
  · intro hapart j k idx hj hk
    rw [hserved, Option.map_eq_some_iff] at hj hk
    obtain ⟨h, hj, hfirst⟩ := hj
    obtain ⟨h', hk, hsecond⟩ := hk
    rcases Nat.lt_trichotomy j k with hlt | heq | hlt
    · exact (not_again hapart hlt hj hk hfirst hsecond).elim
    · exact heq
    · exact (not_again hapart hlt hk hj hsecond hfirst).elim

theorem samePrompt_iff (hserved : ∀ j : Nat,
      served[j]? = requests[j]?.map fun h => serving calls (requests.take j) h) :
    (∀ (j : Nat) h, requests[j]? = some h → placesOf calls h ≠ [] →
      served[j]? = some (placesOf calls h)[(requests.take j).count h]?) ↔
      LateExcess calls requests := by
  constructor
  · intro hsame j h hj hrecorded hover
    have hnone := hsame j h hj hrecorded
    rw [hserved, hj, Option.map_some, overdue_iff.mp hover, serving_of_overdue hover] at hnone
    by_contra hlt
    rw [if_pos (Nat.lt_of_not_le hlt)] at hnone
    nomatch hnone
  · intro hlate j h hj hrecorded
    rw [hserved, hj, Option.map_some]
    rcases hfound : (placesOf calls h)[(requests.take j).count h]? with _ | place
    · have hover : Overdue calls (requests.take j) h := overdue_iff.mpr hfound
      have hall := hlate j h hj hrecorded hover
      rw [serving_of_overdue hover, if_neg (Nat.not_lt.mpr hall)]
    · rw [serving_of_place hfound]

theorem servesFaithfully_iff (hserved : ∀ j : Nat,
      served[j]? = requests[j]?.map fun h => serving calls (requests.take j) h) :
    ServesFaithfully calls requests served ↔ LateExcess calls requests ∧ Apart calls requests := by
  constructor
  · intro h
    exact ⟨(samePrompt_iff hserved).mp h.samePrompt, (once_iff hserved).mp h.once⟩
  · rintro ⟨hlate, hapart⟩
    exact ⟨(once_iff hserved).mpr hapart, (samePrompt_iff hserved).mpr hlate⟩

end faithful

/-- Whichever order the requests come in, the replay answers them with the recordings of
`serve`. It is faithful just when no request beyond the recorded ones is handed a recording
that belongs to another one. Two prompts have different hashes just when they are hashed as
different texts. -/
theorem replay_faithful_iff {sha256 : Bytes → String} (hsha : Function.Injective sha256)
    (validate : PyDict → Except Raised agent.ToolCall) (events : List HistoricalEvent)
    (prompts : List (List Message)) :
    let calls := events.filterMap HistoricalEvent.call?
    let requests := prompts.map (hashMessages sha256)
    let served := serve (.init events) requests
    completeAll sha256 validate (.init events) prompts = served.map (answer validate calls) ∧
    (ServesFaithfully calls requests served ↔
      LateExcess calls requests ∧ Apart calls requests) ∧
    ∀ ms ns, hashMessages sha256 ms ≠ hashMessages sha256 ns ↔ pieces ms ≠ pieces ns := by
  intro calls requests served
  have hserved (j : Nat) :
      served[j]? = requests[j]?.map fun h => serving calls (requests.take j) h :=
    serve_getElem (standing_init events) requests j
  refine ⟨completeAll_eq sha256 validate _ prompts, servesFaithfully_iff hserved, ?_⟩
  intro ms ns
  exact not_congr (hashMessages_eq_iff hsha ms ns)

/-- A digest that keeps every byte. -/
def plainDigest (bytes : Bytes) : String := String.ofList (bytes.map fun b => Char.ofNat b.toNat)

theorem plainDigest_injective : Function.Injective plainDigest := by
  intro xs ys h
  refine List.map_injective_iff.mpr ?_ (String.ofList_inj.mp h)
  intro a b hab
  have hnat : (Char.ofNat a.toNat).toNat = (Char.ofNat b.toNat).toNat := congrArg Char.toNat hab
  have hbyte (c : UInt8) : (Char.ofNat c.toNat).toNat = c.toNat := by
    have hlt := c.toNat_lt
    rw [Char.ofNat, dif_pos (Or.inl (by omega))]
    rfl
  rw [hbyte, hbyte] at hnat
  exact UInt8.toNat_inj.mp hnat

def userMessage (content : String) : Message :=
  ⟨.user, content, none, none, none, none, .empty⟩

/-- A message of an assistant that calls a tool and says nothing. -/
def toolMessage (tool : String) : Message :=
  ⟨.assistant, "", none, none, some [⟨"call_1", tool, .empty⟩], none, .empty⟩

def recorded (content reply : String) : HistoricalEvent :=
  .llmCalled ⟨"gpt-4o", some reply, [], 3, 2, 0, hashMessages plainDigest [userMessage content]⟩

/-- A recorded prompt that is asked once takes its recording. -/
theorem a_recorded_prompt_is_served :
    ServesFaithfully ([recorded "hi" "hello"].filterMap HistoricalEvent.call?)
      ([[userMessage "hi"]].map (hashMessages plainDigest))
      (serve (.init [recorded "hi" "hello"])
        ([[userMessage "hi"]].map (hashMessages plainDigest))) := by
  refine (replay_faithful_iff plainDigest_injective (fun _ => .error exhausted)
    [recorded "hi" "hello"] [[userMessage "hi"]]).2.1.mpr ⟨?_, ?_⟩
  · rintro (_ | j) h hj - hover
    · obtain rfl := Option.some.inj hj
      exact absurd hover (by decide +kernel)
    · nomatch hj
  · intro h idx hmem
    exact Nat.zero_le _

/-- A prompt that was never recorded takes the recording of another one, which is then taken
again. Messages that call different tools have one hash. -/
theorem a_new_prompt_takes_a_recorded_response :
    ¬ ServesFaithfully ([recorded "hi" "hello"].filterMap HistoricalEvent.call?)
      ([[userMessage "bye"], [userMessage "hi"]].map (hashMessages plainDigest))
      (serve (.init [recorded "hi" "hello"])
        ([[userMessage "bye"], [userMessage "hi"]].map (hashMessages plainDigest))) ∧
    [toolMessage "read"] ≠ [toolMessage "delete"] ∧
    hashMessages plainDigest [toolMessage "read"] =
      hashMessages plainDigest [toolMessage "delete"] := by
  refine ⟨?_, ?_, rfl⟩
  · intro h
    have hserved : serve (.init [recorded "hi" "hello"])
        ([[userMessage "bye"], [userMessage "hi"]].map (hashMessages plainDigest)) =
        [some 0, some 0] := by decide +kernel
    rw [hserved] at h
    exact absurd (h.once 0 1 0 rfl rfl) (by decide)
  · intro h
    have hcalls := congrArg Message.toolCalls (List.cons.inj h).1
    have hnames := congrArg (Option.map (List.map agent.ToolCall.name)) hcalls
    exact absurd hnames (by decide)

end orchestra.replay
