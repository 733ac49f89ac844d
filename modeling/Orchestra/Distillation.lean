-- What distillation keeps of a history (`context_distill.py`): the leading system messages, the
-- last turns, and of what is dropped the first words.
import Orchestra.Distill
import Mathlib.Data.List.TakeWhile

namespace orchestra.distill

/-! ## Words of texts that are joined -/

/-- A blank ends a word. -/
theorem splitFrom_append {c : Char} (hc : isSpace c = true) (word l m : List Char) :
    splitFrom word (l ++ c :: m) = splitFrom word l ++ splitFrom [] m := by
  induction l generalizing word with
  | nil =>
    simp only [List.nil_append, splitFrom, hc, if_true]
    split
    · rfl
    · rfl
  | cons d l ih =>
    simp only [List.cons_append, splitFrom]
    split
    · split
      · exact ih []
      · rw [ih [], List.cons_append]
    · exact ih (d :: word)

theorem split_intercalate (texts : List String) :
    split (" ".intercalate texts) = texts.flatMap split := by
  induction texts with
  | nil => rfl
  | cons text rest ih =>
    cases rest with
    | nil => simp
    | cons next more =>
      have hjoined : (" ".intercalate (text :: next :: more)).toList =
          text.toList ++ ' ' :: (" ".intercalate (next :: more)).toList := by
        rw [String.intercalate_cons_cons]
        simp
      unfold split at ih ⊢
      rw [hjoined, splitFrom_append (by decide), ih]
      simp only [List.flatMap_cons]

/-- The words of a text are not empty, and have no blanks. -/
structure IsWord (w : String) : Prop where
  nonempty : w.toList ≠ []
  plain : ∀ c ∈ w.toList, isSpace c = false

theorem isWord_of_mem_splitFrom {word l : List Char} (hword : ∀ c ∈ word, isSpace c = false) :
    ∀ w ∈ splitFrom word l, IsWord w := by
  have hread : word ≠ [] → IsWord (String.ofList word.reverse) := by
    intro hne
    refine ⟨by simpa using hne, fun c hc => hword c ?_⟩
    simpa using hc
  induction l generalizing word with
  | nil =>
    intro w hw
    simp only [splitFrom] at hw
    split at hw
    · cases hw
    · rename_i hne
      rw [List.mem_singleton.mp hw]
      exact hread (by simpa using hne)
  | cons c l ih =>
    intro w hw
    have hfresh : ∀ w ∈ splitFrom [] l, IsWord w := ih (by simp) (by simp)
    simp only [splitFrom] at hw
    split at hw
    · split at hw
      · exact hfresh w hw
      · rename_i hne
        rcases List.mem_cons.mp hw with rfl | hlater
        · exact hread (by simpa using hne)
        · exact hfresh w hlater
    · rename_i hc
      have hmore : ∀ d ∈ c :: word, isSpace d = false := by
        intro d hd
        rcases List.mem_cons.mp hd with rfl | hold
        · simpa using hc
        · exact hword d hold
      refine ih hmore (fun _ => ?_) w hw
      refine ⟨by simp, fun d hd => hmore d ?_⟩
      simpa [or_comm] using hd

/-! ## The three zones -/

/-- The leading system messages. -/
def prefixOf (messages : List Value) : List Value :=
  messages.takeWhile fun msg => getRole msg = "system"

def restOf (messages : List Value) : List Value :=
  messages.dropWhile fun msg => getRole msg = "system"

/-- What is dropped. -/
def middlewareOf (keepLastNTurns : Nat) (messages : List Value) : List Value :=
  (restOf messages).take ((restOf messages).length - keepLastNTurns)

/-- The last turns. -/
def suffixOf (keepLastNTurns : Nat) (messages : List Value) : List Value :=
  (restOf messages).drop ((restOf messages).length - keepLastNTurns)

/-- The words that messages hold, read by `text`. -/
def wordsOf (text : Value → String) (messages : List Value) : List String :=
  messages.flatMap fun msg => split (text msg)

/-- A message that carries these words as a summary. -/
def Summarizes (words : List String) (msg : Value) : Prop :=
  getRole msg = "assistant" ∧
    getContent msg = "[Context summary: " ++ " ".intercalate words ++ "]"

/-- The frame that a distillation keeps: the system messages in front, one summary if and only if
something was dropped, and the last turns. The summary has at most so many words, the first of
those that `text` reads in what was dropped. -/
structure Frame (text : Value → String) (maxMiddlewareTokens keepLastNTurns : Nat)
    (messages distilled : List Value) : Prop where
  suffix : (suffixOf keepLastNTurns messages).length =
    min keepLastNTurns (restOf messages).length
  zones : ∃ summaries, distilled =
      prefixOf messages ++ summaries ++ suffixOf keepLastNTurns messages ∧
    summaries.length ≤ 1 ∧ (summaries = [] ↔ middlewareOf keepLastNTurns messages = []) ∧
    ∀ msg ∈ summaries, ∃ words, Summarizes words msg ∧ (∀ w ∈ words, IsWord w) ∧
      words.length ≤ maxMiddlewareTokens ∧
        words <+: wordsOf text (middlewareOf keepLastNTurns messages)

theorem prefix_rest (messages : List Value) : prefixOf messages ++ restOf messages = messages :=
  List.takeWhile_append_dropWhile

theorem middleware_suffix (keepLastNTurns : Nat) (messages : List Value) :
    middlewareOf keepLastNTurns messages ++ suffixOf keepLastNTurns messages = restOf messages :=
  List.take_append_drop _ _

theorem length_suffix (keepLastNTurns : Nat) (messages : List Value) :
    (suffixOf keepLastNTurns messages).length = min keepLastNTurns (restOf messages).length := by
  unfold suffixOf
  rw [List.length_drop]
  omega

theorem middleware_eq_nil_iff {keepLastNTurns : Nat} (h : 1 ≤ keepLastNTurns)
    (messages : List Value) :
    middlewareOf keepLastNTurns messages = [] ↔ (restOf messages).length ≤ keepLastNTurns := by
  unfold middlewareOf
  rw [List.take_eq_nil_iff, ← List.length_eq_zero_iff]
  omega

/-- `distill_context`, zone by zone. -/
theorem distillMessages_eq {maxMiddlewareTokens keepLastNTurns : Nat} (h : 1 ≤ keepLastNTurns)
    (first : Value) (more : List Value) :
    distillMessages maxMiddlewareTokens keepLastNTurns (first :: more) =
      if middlewareOf keepLastNTurns (first :: more) = [] then first :: more
      else prefixOf (first :: more) ++ makeSummaryMessage first (summaryText maxMiddlewareTokens
        (middlewareOf keepLastNTurns (first :: more))) ::
          suffixOf keepLastNTurns (first :: more) := by
  have hall := prefix_rest (first :: more)
  have hparts := middleware_suffix keepLastNTurns (first :: more)
  have hlength := length_suffix keepLastNTurns (first :: more)
  have hnil := middleware_eq_nil_iff h (first :: more)
  unfold distillMessages
  change (let rest := restOf (first :: more)
    let middleware := middlewareOf keepLastNTurns (first :: more)
    let suffix := if keepLastNTurns > 0 then suffixOf keepLastNTurns (first :: more) else []
    if rest.isEmpty then prefixOf (first :: more)
    else if middleware.isEmpty || suffix.isEmpty then prefixOf (first :: more) ++ suffix
    else prefixOf (first :: more) ++
      makeSummaryMessage first (summaryText maxMiddlewareTokens middleware) :: suffix) = _
  generalize restOf (first :: more) = rest at *
  generalize prefixOf (first :: more) = head at *
  generalize middlewareOf keepLastNTurns (first :: more) = middleware at *
  generalize suffixOf keepLastNTurns (first :: more) = suffix at *
  simp only [if_pos (show keepLastNTurns > 0 by omega)]
  by_cases hnone : middleware = []
  · rw [hnone, List.nil_append] at hparts
    subst hparts
    rw [if_pos hnone, hnone, List.isEmpty_nil, Bool.true_or, if_pos rfl, hall]
    split
    · rename_i hempty
      rw [List.isEmpty_iff.mp hempty, List.append_nil] at hall
      exact hall
    · rfl
  · have hlong : keepLastNTurns < rest.length := Nat.not_le.mp fun hle => hnone (hnil.mpr hle)
    have hrest : rest.isEmpty = false := by
      rw [List.isEmpty_eq_false_iff, ← List.length_pos_iff]
      omega
    have hsuffix : suffix.isEmpty = false := by
      rw [List.isEmpty_eq_false_iff, ← List.length_pos_iff]
      omega
    rw [if_neg hnone, hrest, hsuffix, List.isEmpty_eq_false_iff.mpr hnone]
    rfl

/-! ## The summary -/

theorem getContent_message {text : String} (h : text ≠ "") :
    getContent (.obj "Message" [("role", .str "assistant"), ("content", .str text)]) = text := by
  have hfield : (Value.obj "Message" [("role", .str "assistant"), ("content", .str text)]).field
      "content" = some (.str text) := rfl
  have htruthy : (Value.str text).truthy = true := by simp [Value.truthy, h]
  simp only [getContent, hfield, htruthy, if_true]
  rfl

theorem summarizes_make (template : Value) (words : List String) :
    Summarizes words (makeSummaryMessage template
      ("[Context summary: " ++ " ".intercalate words ++ "]")) := by
  have hne : ("[Context summary: " ++ " ".intercalate words ++ "]") ≠ "" := by
    intro hempty
    have := congrArg String.length hempty
    simp at this
  cases template with
  | dict items => exact ⟨rfl, rfl⟩
  | _ => exact ⟨rfl, getContent_message hne⟩

/-- The words of the messages are the words of what is joined from them. -/
theorem wordsOf_eq (messages : List Value) :
    split (" ".intercalate ((messages.map getContent).filter (· ≠ ""))) =
      wordsOf getContent messages := by
  rw [split_intercalate]
  unfold wordsOf
  induction messages with
  | nil => rfl
  | cons msg messages ih =>
    rw [List.map_cons, List.filter_cons, List.flatMap_cons]
    split
    · rw [List.flatMap_cons, ih]
    · rename_i hempty
      have hnone : getContent msg = "" := by simpa using hempty
      rw [ih, hnone]
      rfl

theorem isWord_of_mem_wordsOf {text : Value → String} {messages : List Value} :
    ∀ w ∈ wordsOf text messages, IsWord w := by
  intro w hw
  obtain ⟨msg, -, hmsg⟩ := List.mem_flatMap.mp hw
  exact isWord_of_mem_splitFrom (by simp) w hmsg

theorem frame_distill {keepLastNTurns : Nat} (h : 1 ≤ keepLastNTurns) (maxMiddlewareTokens : Nat)
    (messages : List Value) :
    Frame getContent maxMiddlewareTokens keepLastNTurns messages
      (distillMessages maxMiddlewareTokens keepLastNTurns messages) := by
  refine ⟨length_suffix keepLastNTurns messages, ?_⟩
  by_cases hnone : middlewareOf keepLastNTurns messages = []
  · have hparts := middleware_suffix keepLastNTurns messages
    rw [hnone, List.nil_append] at hparts
    have hsame : distillMessages maxMiddlewareTokens keepLastNTurns messages = messages := by
      cases messages with
      | nil => rfl
      | cons first more => rw [distillMessages_eq h, if_pos hnone]
    refine ⟨[], ?_, Nat.zero_le _, by simp [hnone], by simp⟩
    rw [hsame, List.append_nil, hparts, prefix_rest]
  · cases messages with
    | nil => exact absurd (by simp [middlewareOf, restOf]) hnone
    | cons first more =>
      have hwords := wordsOf_eq (middlewareOf keepLastNTurns (first :: more))
      rw [distillMessages_eq h, if_neg hnone]
      refine ⟨[_], by rw [List.append_assoc]; rfl, le_rfl, by simp [hnone], fun msg hmsg => ?_⟩
      rw [List.mem_singleton.mp hmsg]
      refine ⟨_, summarizes_make first _, fun w hw => ?_, List.length_take_le _ _, ?_⟩
      · rw [hwords] at hw
        exact isWord_of_mem_wordsOf w (List.mem_of_mem_take hw)
      · rw [hwords]
        exact List.take_prefix _ _

/-! ## Once more -/

theorem prefix_system (messages : List Value) :
    ∀ msg ∈ prefixOf messages, getRole msg = "system" := by
  intro msg hmsg
  simpa using List.mem_takeWhile_imp hmsg

/-- The zones of a history that was distilled: the summary is what is dropped next. -/
theorem zones_of_summary {head : List Value} (tail : List Value) {summary : Value}
    (hhead : ∀ msg ∈ head, getRole msg = "system") (hsummary : getRole summary = "assistant") :
    prefixOf (head ++ summary :: tail) = head ∧ restOf (head ++ summary :: tail) =
      summary :: tail := by
  have hne : ¬ getRole summary = "system" := by
    rw [hsummary]
    decide
  unfold prefixOf restOf
  rw [List.takeWhile_append_of_pos (by simpa using hhead),
    List.dropWhile_append_of_pos (by simpa using hhead)]
  simp [hne]

/-- A second distillation keeps the zones and the length of the first. -/
theorem distill_again {keepLastNTurns : Nat} (h : 1 ≤ keepLastNTurns) (maxMiddlewareTokens : Nat)
    (messages : List Value) :
    ∃ summaries again,
      distillMessages maxMiddlewareTokens keepLastNTurns messages =
        prefixOf messages ++ summaries ++ suffixOf keepLastNTurns messages ∧
      distillMessages maxMiddlewareTokens keepLastNTurns
        (distillMessages maxMiddlewareTokens keepLastNTurns messages) =
          prefixOf messages ++ again ++ suffixOf keepLastNTurns messages ∧
      again.length = summaries.length := by
  obtain ⟨hlength, summaries, hzones, hone, hnone, hsummary⟩ :=
    frame_distill h maxMiddlewareTokens messages
  rcases summaries with _ | ⟨summary, _ | ⟨second, more⟩⟩
  · -- Nothing was dropped, so the history is what it was.
    have hparts := middleware_suffix keepLastNTurns messages
    rw [hnone.mp rfl, List.nil_append] at hparts
    have hsame : distillMessages maxMiddlewareTokens keepLastNTurns messages = messages := by
      rw [hzones, List.append_nil, hparts, prefix_rest]
    refine ⟨[], [], hzones, ?_, rfl⟩
    rw [hsame]
    exact hzones
  · -- The first distillation leaves one message more than the last turns.
    obtain ⟨words, ⟨hrole, -⟩, -⟩ := hsummary summary (List.mem_singleton_self _)
    have hfull : (suffixOf keepLastNTurns messages).length = keepLastNTurns := by
      have hlong : ¬ (restOf messages).length ≤ keepLastNTurns := fun hle =>
        List.cons_ne_nil _ _ (hnone.mpr ((middleware_eq_nil_iff h messages).mpr hle))
      omega
    rw [List.append_assoc, List.singleton_append] at hzones
    obtain ⟨hhead, hrest⟩ := zones_of_summary (suffixOf keepLastNTurns messages)
      (prefix_system messages) hrole
    rw [← hzones] at hhead hrest
    have hmiddle : middlewareOf keepLastNTurns
        (distillMessages maxMiddlewareTokens keepLastNTurns messages) = [summary] := by
      unfold middlewareOf
      rw [hrest, List.length_cons, hfull, Nat.add_sub_cancel_left]
      rfl
    have hsuffix : suffixOf keepLastNTurns
        (distillMessages maxMiddlewareTokens keepLastNTurns messages) =
          suffixOf keepLastNTurns messages := by
      change (restOf _).drop ((restOf _).length - keepLastNTurns) = _
      rw [hrest, List.length_cons, hfull, Nat.add_sub_cancel_left]
      rfl
    cases hdistilled : distillMessages maxMiddlewareTokens keepLastNTurns messages with
    | nil =>
      rw [hdistilled] at hzones
      simp at hzones
    | cons first more =>
      rw [hdistilled] at hhead hmiddle hsuffix hzones
      refine ⟨[summary], [makeSummaryMessage first (summaryText maxMiddlewareTokens [summary])],
        by rw [hzones, List.append_assoc]; rfl, ?_, rfl⟩
      rw [distillMessages_eq h, hmiddle, if_neg (List.cons_ne_nil _ _), hhead, hsuffix,
        List.append_assoc]
      rfl
  · simp at hone

/-- A distilled history is the system messages in front, at most one summary, and the last turns
as they were. The summary is there if and only if something was dropped, and has at most the
allowed number of words, the first ones of what was dropped, where a message without content reads
as the word `None`. A second distillation keeps the system messages, the last turns and the
length. -/
theorem distillation_keeps_the_frame {keepLastNTurns : Nat} (h : 1 ≤ keepLastNTurns)
    (maxMiddlewareTokens : Nat) (messages : List Value) :
    Frame getContent maxMiddlewareTokens keepLastNTurns messages
        (distillMessages maxMiddlewareTokens keepLastNTurns messages) ∧
      ∃ summaries again,
        distillMessages maxMiddlewareTokens keepLastNTurns messages =
          prefixOf messages ++ summaries ++ suffixOf keepLastNTurns messages ∧
        distillMessages maxMiddlewareTokens keepLastNTurns
          (distillMessages maxMiddlewareTokens keepLastNTurns messages) =
            prefixOf messages ++ again ++ suffixOf keepLastNTurns messages ∧
        again.length = summaries.length :=
  ⟨frame_distill h maxMiddlewareTokens messages, distill_again h maxMiddlewareTokens messages⟩

/-- A history of three turns and a system message, of which two turns are kept. -/
def dialogue : List Value :=
  [.dict [("role", .str "system"), ("content", .str "Be brief.")],
    .dict [("role", .str "user"), ("content", .str "count the words")],
    .dict [("role", .str "assistant"), ("content", .str "three")],
    .dict [("role", .str "user"), ("content", .str "again")]]

theorem a_dialogue_is_cut :
    Frame getContent 2 2 dialogue (distillMessages 2 2 dialogue) ∧
      ∃ summaries again,
        distillMessages 2 2 dialogue = prefixOf dialogue ++ summaries ++ suffixOf 2 dialogue ∧
        distillMessages 2 2 (distillMessages 2 2 dialogue) =
            prefixOf dialogue ++ again ++ suffixOf 2 dialogue ∧
        again.length = summaries.length :=
  distillation_keeps_the_frame (by decide) 2 dialogue

/-- What a message says: its content, and nothing where it has none. -/
def said (msg : Value) : String :=
  match msg.field "content" with
  | none => ""
  | some .none => ""
  | some content => content.text

/-- A message without content. -/
def silent : Value := .dict [("role", .str "user")]

def greeting : Value := .dict [("role", .str "user"), ("content", .str "hi")]

/-- The summary of a message that says nothing has the word `None`. -/
theorem a_missing_content_is_a_word :
    ¬ ∀ (maxMiddlewareTokens keepLastNTurns : Nat) (messages : List Value),
      1 ≤ keepLastNTurns → Frame said maxMiddlewareTokens keepLastNTurns messages
        (distillMessages maxMiddlewareTokens keepLastNTurns messages) := by
  intro hclaim
  obtain ⟨-, summaries, hzones, -, -, hsummary⟩ := hclaim 500 1 [silent, greeting] le_rfl
  have hdistilled : distillMessages 500 1 [silent, greeting] =
      [.dict [("role", .str "assistant"), ("content", .str "[Context summary: None]")],
        greeting] := by decide
  have hhead : prefixOf [silent, greeting] = [] := by decide
  have htail : suffixOf 1 [silent, greeting] = [greeting] := by decide
  rw [hdistilled, hhead, htail, List.nil_append] at hzones
  have hone : summaries =
      [.dict [("role", .str "assistant"), ("content", .str "[Context summary: None]")]] := by
    exact (List.append_inj_left' hzones rfl).symm
  obtain ⟨words, ⟨-, hcontent⟩, -, -, hwords⟩ := hsummary _ (hone ▸ List.mem_singleton_self _)
  have hnothing : wordsOf said (middlewareOf 1 [silent, greeting]) = [] := by decide
  rw [hnothing, List.prefix_nil] at hwords
  subst hwords
  exact absurd hcontent (by decide)

end orchestra.distill
