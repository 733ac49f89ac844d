-- What the update of an agent node tells of an output that a guardrail has fixed
-- (`GuardedAgent.run` of `security/guardrails.py`, the update that `_execute_agent_node` of
-- `compiled.py` makes of its result): two outputs that are fixed to one text, side by side.
import Orchestra.Retries

open dicts logged orchestra.state orchestra.nodes

namespace orchestra.fixed_output

open orchestra.agents orchestra.guardrails orchestra.retries

/-! ## The update of a fixed result -/

/-- The chain fixes the output of the result, in this attempt. -/
def FixesTo (g : Guarded) (attempt : Nat) (r : agents.AgentResult) (text : String) : Prop :=
  ∃ chain verdict, g.outputGuardrails = some chain ∧
    guardrails.run (some attempt) chain r.output = .ok verdict ∧ verdict.passed = true ∧
    verdict.output = some text ∧ text ≠ r.output

/-- The node of the agent in its graph, and the state in which it is run. -/
structure Place where
  schema : Option Schema
  nodeId : String
  node : AgentNode
  state : PyDict

/-- The update that the engine makes of a result. -/
def Place.update (p : Place) (r : agents.AgentResult) : Except EngineError PyDict :=
  (mapResult p.schema p.nodeId p.node p.state r.toAgentResult).result

/-- Equal answers: the same error, or dicts with the same values under the same keys. -/
inductive SameAnswer {ε : Type} : Except ε PyDict → Except ε PyDict → Prop
  | ok {d e : PyDict} (same : ∀ key, d.get? key = e.get? key) : SameAnswer (.ok d) (.ok e)
  | error (e : ε) : SameAnswer (.error e) (.error e)

/-- Whatever the text is to which the outputs of both results are fixed: the updates of what
the guarded agent returns are the same. -/
def HidesRaw (g : Guarded) (p : Place) (i j : Nat) (r s : agents.AgentResult) : Prop :=
  ∀ text, FixesTo g i r text → FixesTo g j s text →
    ∃ r' s', (g.attempts (fun _ => .ok r) i 1).2 = .ok r' ∧
      (g.attempts (fun _ => .ok s) j 1).2 = .ok s' ∧ SameAnswer (p.update r') (p.update s')

/-! ## What else an update shows -/

/-- The fields that show the text of the output. -/
def Place.textKeys (p : Place) : List String :=
  (if "output" ∈ schemaFields p.schema then ["output"] else []) ++ [outputKeyOf p.nodeId p.node]

/-- The text of an output, in a field that shows it. -/
def Place.shown (p : Place) (text key : String) : Option Value :=
  if text ≠ "" ∧ key ∈ p.textKeys then some (.str text) else none

/-- What a result puts into a field next to its text: its messages, and with `map_output` the
fields of its structured output. -/
def Place.exposed (p : Place) (r : agents.AgentResult) (key : String) : Option Value :=
  if key = "messages" ∧ r.messages ≠ [] ∧ "messages" ∈ p.schema.elim p.state.keys (·.fields) then
    some (.list r.messages)
  else if p.node.mapOutput = true ∧ key ∈ schemaFields p.schema then
    r.structuredOutput.bind (·.get? key)
  else none

/-- The results do not differ in what they put into a field next to the fixed text: they put
the same there, or each puts nothing or that text there, where the text is shown. -/
def AgreeAt (p : Place) (text key : String) (r s : agents.AgentResult) : Prop :=
  p.exposed r key = p.exposed s key ∨
    (p.shown text key = some (.str text) ∧
      (p.exposed r key = none ∨ p.exposed r key = some (.str text)) ∧
      (p.exposed s key = none ∨ p.exposed s key = some (.str text)))

/-- An `output_mapper` makes the same of both results, with the text in place. Without one,
they agree in all fields. -/
def Agree (p : Place) (text : String) (r s : agents.AgentResult) : Prop :=
  match p.node.outputMapper with
  | some f => SameAnswer (f (r.withOutput (some text)).toAgentResult)
      (f (s.withOutput (some text)).toAgentResult)
  | none => ∀ key, AgreeAt p text key r s

variable {g : Guarded} {p : Place} {r s : agents.AgentResult} {text : String} {attempt : Nat}

theorem FixesTo.ne (h : FixesTo g attempt r text) : text ≠ r.output := by
  obtain ⟨chain, verdict, -, -, -, -, hne⟩ := h
  exact hne

/-- The guarded agent returns the result with the fixed text. -/
theorem attempts_of_fixesTo (h : FixesTo g attempt r text) :
    (g.attempts (fun _ => .ok r) attempt 1).2 = .ok (r.withOutput (some text)) := by
  obtain ⟨chain, verdict, hchain, hverdict, hpassed, houtput, -⟩ := h
  unfold Guarded.attempts
  simp only [hchain, hverdict, hpassed, if_true, houtput]

/-- Entries that are kept by their keys. -/
theorem lookup_filter_keys (q : String → Bool) (es : List (String × Value)) (key : String) :
    (es.filter (fun e => q e.1)).lookup key = if q key then es.lookup key else none := by
  induction es with
  | nil => simp
  | cons e es ih =>
    obtain ⟨k, v⟩ := e
    by_cases hk : key = k
    · subst hk
      by_cases hq : q key = true
      · simp [hq]
      · simp [hq, ih]
    · have hbeq : (key == k) = false := by simpa using hk
      rw [List.lookup_cons, hbeq, ← ih, List.filter_cons]
      split
      · rw [List.lookup_cons, hbeq]
      · rfl

/-- Entries that all have one value. -/
theorem lookup_const (keys : List String) (v : Value) (key : String) :
    (keys.map (fun k => (k, v))).lookup key = if key ∈ keys then some v else none := by
  induction keys with
  | nil => simp
  | cons k keys ih =>
    by_cases hk : key = k
    · simp [hk]
    · have hbeq : (key == k) = false := by simpa using hk
      rw [List.map_cons, List.lookup_cons, hbeq, ih]
      simp [hk]

theorem lookup_text (p : Place) (text key : String) :
    (if text ≠ "" then
      (if "output" ∈ schemaFields p.schema then [("output", Value.str text)] else []) ++
        [(outputKeyOf p.nodeId p.node, .str text)]
    else []).reverse.lookup key = p.shown text key := by
  unfold Place.shown
  by_cases htext : text = ""
  · simp [htext]
  · have hlist : (if "output" ∈ schemaFields p.schema then [("output", Value.str text)] else []) ++
        [(outputKeyOf p.nodeId p.node, .str text)] =
        p.textKeys.map (fun k => (k, Value.str text)) := by
      unfold Place.textKeys
      split
      · rfl
      · rfl
    rw [if_pos htext, hlist, ← List.map_reverse, lookup_const]
    simp [htext]

/-- The entries that a dump gives to the fields of the state class. -/
theorem lookup_dump (p : Place) (dump : Option PyDict) (key : String) :
    (match dump with
    | some dump =>
      if p.node.mapOutput then
        dump.entries.filter (fun e : String × Value => e.1 ∈ schemaFields p.schema)
      else []
    | none => ([] : List (String × Value))).reverse.lookup key =
      if p.node.mapOutput = true ∧ key ∈ schemaFields p.schema then dump.bind (·.get? key)
      else none := by
  rcases dump with _ | dump
  · simp
  by_cases hmap : p.node.mapOutput = true
  · have hkept : ((dump.entries.filter (fun e => e.1 ∈ schemaFields p.schema)).map
        Prod.fst).Nodup := dump.nodup.sublist (List.filter_sublist.map _)
    simp only [hmap, if_true, true_and, Option.bind_some]
    rw [lookup_perm (List.reverse_perm _) hkept,
      lookup_filter_keys (fun k => decide (k ∈ schemaFields p.schema))]
    simp only [decide_eq_true_eq]
    rfl
  · simp [hmap]

/-- A field of an update: what the result exposes there, or else its text. -/
theorem get?_update (hnone : p.node.outputMapper = none) (hfixed : text ≠ r.output) :
    ∃ d, p.update (r.withOutput (some text)) = .ok d ∧
      ∀ key, d.get? key = (p.exposed r key).or (p.shown text key) := by
  have hupdate : p.update (r.withOutput (some text)) = .ok (Dict.empty.setAll
      (mappedFields p.schema p.nodeId p.node p.state
        (r.withOutput (some text)).toAgentResult)) := by
    unfold Place.update mapResult agents.AgentResult.withOutput
    simp only [hnone, ne_eq, hfixed, not_false_eq_true, if_true]
    rfl
  refine ⟨_, hupdate, fun key => ?_⟩
  rw [Dict.get?_setAll_reverse, Dict.get?_empty, Option.or_none]
  unfold mappedFields agents.AgentResult.withOutput
  simp only [hfixed, ne_eq, not_false_eq_true, if_true, List.reverse_append, List.lookup_append]
  rw [← Option.or_assoc]
  refine congrArg₂ Option.or ?_ (lookup_text p text key)
  refine (congrArg₂ Option.or ?_ (lookup_dump p r.structuredOutput key)).trans
    (b := (if key = "messages" ∧ r.messages ≠ [] ∧
      "messages" ∈ p.schema.elim p.state.keys (·.fields) then some (.list r.messages)
    else none).or _) ?_
  · by_cases hsome : r.messages = []
    · simp [hsome]
    · by_cases hfield : "messages" ∈ p.schema.elim p.state.keys (·.fields)
      · by_cases hkey : key = "messages"
        · simp [hsome, hfield, hkey]
        · have hbeq : (key == "messages") = false := by simpa using hkey
          simp [hsome, hfield, hkey, List.lookup_cons, hbeq]
      · simp [hsome, hfield]
  · unfold Place.exposed
    split
    · rfl
    · rfl

/-- Fields that are the same with their text are those in which the results agree. -/
theorem agreeAt_iff (p : Place) (text key : String) (r s : agents.AgentResult) :
    AgreeAt p text key r s ↔
      (p.exposed r key).or (p.shown text key) = (p.exposed s key).or (p.shown text key) := by
  unfold AgreeAt
  have hshown : p.shown text key = none ∨ p.shown text key = some (.str text) := by
    unfold Place.shown
    split
    · exact .inr rfl
    · exact .inl rfl
  rcases hshown with hnone | hsome
  · rw [hnone]
    simp
  · rw [hsome]
    rcases p.exposed r key with _ | v
    · rcases p.exposed s key with _ | w
      · simp
      · simp [eq_comm]
    · rcases p.exposed s key with _ | w
      · simp
      · simp only [Option.some_or, Option.some.injEq, reduceCtorEq, false_or, true_and]
        refine ⟨fun h => h.elim id fun h => h.1.trans h.2.symm, Or.inl⟩

theorem sameAnswer_outside_iff (x y : Except Raised PyDict) :
    SameAnswer (outside x).result (outside y).result ↔ SameAnswer x y := by
  constructor
  · intro h
    rcases x with e | d
    · rcases y with f | d'
      · cases h
        exact .error e
      · cases h
    · rcases y with f | d'
      · cases h
      · cases h with
        | ok same => exact .ok same
  · intro h
    cases h with
    | ok same => exact .ok same
    | error e => exact .error _

theorem sameAnswer_update_iff (hr : text ≠ r.output) (hs : text ≠ s.output) :
    SameAnswer (p.update (r.withOutput (some text))) (p.update (s.withOutput (some text))) ↔
      Agree p text r s := by
  unfold Agree
  rcases hmapper : p.node.outputMapper with _ | f
  · obtain ⟨d, hd, hgetD⟩ := get?_update (p := p) hmapper hr
    obtain ⟨e, he, hgetE⟩ := get?_update (p := p) hmapper hs
    rw [hd, he]
    constructor
    · intro h key
      cases h with
      | ok same =>
        rw [agreeAt_iff, ← hgetD, ← hgetE]
        exact same key
    · intro h
      refine .ok fun key => ?_
      rw [hgetD, hgetE, ← agreeAt_iff]
      exact h key
  · have hupdate : ∀ q : agents.AgentResult, p.update q = (outside (f q.toAgentResult)).result := by
      intro q
      unfold Place.update mapResult
      rw [hmapper]
    rw [hupdate, hupdate]
    exact sameAnswer_outside_iff _ _

/-- The updates of two fixed results are the same just when the results agree in all that an
update shows besides the text. -/
theorem hidesRaw_iff (g : Guarded) (p : Place) (i j : Nat) (r s : agents.AgentResult) :
    HidesRaw g p i j r s ↔
      ∀ text, FixesTo g i r text → FixesTo g j s text → Agree p text r s := by
  have hreturned : ∀ text, FixesTo g i r text → FixesTo g j s text →
      ((∃ r' s', (g.attempts (fun _ => .ok r) i 1).2 = .ok r' ∧
        (g.attempts (fun _ => .ok s) j 1).2 = .ok s' ∧ SameAnswer (p.update r') (p.update s')) ↔
      Agree p text r s) := by
    intro text hr hs
    rw [attempts_of_fixesTo hr, attempts_of_fixesTo hs, ← sameAnswer_update_iff hr.ne hs.ne]
    constructor
    · rintro ⟨r', s', hr', hs', hsame⟩
      cases hr'
      cases hs'
      exact hsame
    · intro hsame
      exact ⟨_, _, rfl, rfl, hsame⟩
  constructor
  · intro h text hr hs
    exact (hreturned text hr hs).mp (h text hr hs)
  · intro h text hr hs
    exact (hreturned text hr hs).mpr (h text hr hs)

/-! ## The messages of an agent -/

/-- An agent whose output is cut after three letters. -/
def short : Guarded where
  base := ⟨"a", none, "p", [], none, 1, 0, none⟩
  inputGuardrails := none
  outputGuardrails := some [(⟨3, .fix, by decide⟩ : MaxLengthGuardrail).guard]
  maxRetries := 0

/-- What the agent returns on a response of the model with this text. -/
def answered (text : String) : agents.AgentResult :=
  finalResult short.base ⟨some text, [], none, "m"⟩ .zero []

/-- A node of a graph whose state has messages. -/
def chatNode : Place where
  schema := none
  nodeId := "n"
  node :=
    ⟨"a", fun _ _ => ⟨[], false, .error (typeError "")⟩, none, false, none, none, false, false⟩
  state := Dict.ofList [("messages", .list [])]

/-- Two outputs are cut to one text, and the messages of the update tell them apart. -/
theorem messages_tell_cut_outputs_apart :
    ¬ ∀ (g : Guarded) (p : Place) (i j : Nat) (r s : agents.AgentResult), HidesRaw g p i j r s := by
  intro h
  have hone : FixesTo short 0 (answered "pin 1") "pin" := ⟨_, _, rfl, rfl, rfl, rfl, by decide⟩
  have htwo : FixesTo short 0 (answered "pin 2") "pin" := ⟨_, _, rfl, rfl, rfl, rfl, by decide⟩
  obtain ⟨r, s, hr, hs, hsame⟩ := h short chatNode 0 0 _ _ "pin" hone htwo
  cases hr
  cases hs
  cases hsame with
  | ok same => exact absurd (same "messages") (by decide)

end orchestra.fixed_output
