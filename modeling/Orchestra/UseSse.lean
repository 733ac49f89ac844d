-- The reader of the event stream in the UI (`hooks/useSSE.ts`). It cuts the text at two line feeds,
-- and a record into lines at one. The format has three ways to end a line.
import Orchestra.Lib.Chunks
import Orchestra.Lib.Json

open texts chunks

namespace orchestra.use_sse

/-! ## The reader -/

/-- `EVENT_TYPES` -/
def eventTypes : List String :=
  ["execution.started", "execution.completed", "execution.forked", "node.started",
    "node.completed", "state.updated", "error.occurred", "llm.called", "tool.called",
    "edge.traversed", "parallel.started", "parallel.completed", "interrupt.requested",
    "interrupt.resumed", "checkpoint.created", "security.violation",
    "security.restricted_mode_entered", "input.rejected", "output.rejected",
    "handoff.initiated", "handoff.completed", "done"]

/-- `JSON.parse`, which is `none` where it throws, and the field `sequence` of what it gives when
that is a number. -/
structure Payload (V : Type) where
  parse : List Char → Option V
  sequence : V → Option Int

/-- The references of the hook, and the calls that it has made: the events for `onEvent`, and how
often `onDone`. -/
structure Hook (V : Type) where
  lastId : String
  lastSeq : Int
  received : List V
  dones : Nat
  closed : Bool

/-- The fields of a record. -/
structure Fields where
  eventType : String
  dataLines : List (List Char)
  id : String

def noFields : Fields := ⟨"message", [], ""⟩

/-- One line of a record: a comment, or a field with its value. -/
def readLine (f : Fields) (line : List Char) : Fields :=
  if line.head? = some ':' ∨ line = [] then f
  else
    let field := line.takeWhile (· ≠ ':')
    let value :=
      match line.dropWhile (· ≠ ':') with
      | [] => []
      | _ :: ' ' :: value => value
      | _ :: value => value
    if field = "event".toList then { f with eventType := String.ofList value }
    else if field = "data".toList then { f with dataLines := f.dataLines ++ [value] }
    else if field = "id".toList then { f with id := String.ofList value }
    else f

/-- The fields of the lines of a record. -/
def fieldsOf (record : List Char) : Fields := (record.splitOn '\n').foldl readLine noFields

variable {V : Type}

/-- `if (id) lastIdRef.current = id` -/
def remember (s : Hook V) (id : String) : Hook V := if id ≠ "" then { s with lastId := id } else s

def dispatchRecord (P : Payload V) (s : Hook V) (f : Fields) : Hook V :=
  let s := remember s f.id
  if f.eventType = "done" then { s with dones := s.dones + 1, closed := true }
  else if f.eventType ∉ eventTypes then s
  else
    let raw := ['\n'].intercalate f.dataLines
    if raw = [] then s
    else
      match P.parse raw with
      | none => s
      | some data =>
        { s with
          lastSeq := (P.sequence data).getD s.lastSeq
          received := s.received ++ [data] }

/-- The loop over the records of the buffer. It gives back what follows the last one. -/
def parseAndDispatch (P : Payload V) (s : Hook V) (buffer : List Char) : Hook V × List Char :=
  match h : cutAt ['\n', '\n'] buffer with
  | none => (s, buffer)
  | some (record, remaining) =>
    have := length_of_cutAt h
    parseAndDispatch P (dispatchRecord P s (fieldsOf record)) remaining
termination_by buffer.length

/-- The loop over the chunks of the response. A closed hook has aborted the request, and reads no
other chunk. At the end of the response the hook is done. -/
def readChunks (P : Payload V) (s : Hook V) (buffer : List Char) : List (List Char) → Hook V
  | [] => if s.closed then s else { s with dones := s.dones + 1, closed := true }
  | chunk :: chunks =>
    let t := parseAndDispatch P s (buffer ++ chunk)
    if t.1.closed then t.1 else readChunks P t.1 t.2 chunks

/-- The hook when it connects, with the last id that it knows. -/
def connected (lastId : String) : Hook V := ⟨lastId, -1, [], 0, false⟩

def useSSE (P : Payload V) (lastId : String) (chunks : List (List Char)) : Hook V :=
  readChunks P (connected lastId) [] chunks

/-! ## The format -/

/-- The lines of a text that are ended: by CR LF, by LF or by CR alone. -/
def linesOf (line : List Char) : List Char → List (List Char)
  | [] => []
  | '\r' :: '\n' :: rest => line :: linesOf [] rest
  | '\r' :: rest => line :: linesOf [] rest
  | '\n' :: rest => line :: linesOf [] rest
  | c :: rest => linesOf (line ++ [c]) rest

/-- The records of the lines: a blank line ends one, and what follows the last is no record. -/
def recordsOfLines (f : Fields) : List (List Char) → List Fields
  | [] => []
  | line :: lines =>
    if line = [] then f :: recordsOfLines noFields lines
    else recordsOfLines (readLine f line) lines

/-- The workflow event of a record. A record that says done is none. -/
def eventOf (P : Payload V) (f : Fields) : Option V :=
  if f.eventType ∈ eventTypes ∧ f.eventType ≠ "done" ∧ ['\n'].intercalate f.dataLines ≠ [] then
    P.parse (['\n'].intercalate f.dataLines)
  else none

/-- The last id that is not empty. -/
def lastOf (last : String) (f : Fields) : String := if f.id ≠ "" then f.id else last

/-- The events of the records, and the last of their ids. -/
def content (P : Payload V) (lastId : String) (records : List Fields) : List V × String :=
  (records.filterMap (eventOf P), records.foldl lastOf lastId)

/-- What the format says of a text. -/
def standard (P : Payload V) (lastId : String) (text : List Char) : List V × String :=
  content P lastId (recordsOfLines noFields (linesOf [] text))

/-- What is seen of a hook: the events that it passed on, and the id that it remembers. -/
def seen (s : Hook V) : List V × String := (s.received, s.lastId)

/-! ## The records of a text -/

/-- The records that the hook finds in a text. -/
def recordsOf (text : List Char) : List (List Char) := (cutAll '\n' ['\n'] text).1

def dispatch (P : Payload V) (s : Hook V) (record : List Char) : Hook V :=
  dispatchRecord P s (fieldsOf record)

def dispatchAll (P : Payload V) (s : Hook V) (records : List (List Char)) : Hook V :=
  records.foldl (dispatch P) s

def isDone (record : List Char) : Bool := (fieldsOf record).eventType = "done"

/-- The records up to the first that says done. -/
def untilDone : List (List Char) → List (List Char)
  | [] => []
  | record :: records => record :: if isDone record then [] else untilDone records

def afterDone : List (List Char) → List (List Char)
  | [] => []
  | record :: records => if isDone record then records else afterDone records

theorem untilDone_append_afterDone (records : List (List Char)) :
    untilDone records ++ afterDone records = records := by
  induction records with
  | nil => rfl
  | cons record records ih =>
    unfold untilDone afterDone
    split
    · rfl
    · rw [List.cons_append, ih]

theorem parseAndDispatch_eq (P : Payload V) (s : Hook V) (buffer : List Char) :
    parseAndDispatch P s buffer =
      (dispatchAll P s (recordsOf buffer), (cutAll '\n' ['\n'] buffer).2) := by
  induction buffer using cut_induction (c := '\n') (p := ['\n']) generalizing s with
  | last buffer h =>
    rw [parseAndDispatch, recordsOf, cutAll_of_none h]
    split
    · rfl
    · rename_i hsome
      rw [h] at hsome
      cases hsome
  | piece buffer record remaining h ih =>
    rw [parseAndDispatch, recordsOf, cutAll_of_some h]
    split
    · rename_i hnone
      rw [h] at hnone
      cases hnone
    · rename_i hsome
      rw [h] at hsome
      cases hsome
      exact ih _

@[simp] theorem closed_remember (s : Hook V) (id : String) : (remember s id).closed = s.closed := by
  unfold remember
  split <;> rfl

/-- Only a record that says done closes the hook. -/
theorem closed_dispatch (P : Payload V) (s : Hook V) (record : List Char) :
    (dispatch P s record).closed = (s.closed || isDone record) := by
  unfold dispatch dispatchRecord isDone
  dsimp only
  split
  · rename_i hdone
    simp [hdone]
  · rename_i hdone
    have hopen : (remember s (fieldsOf record).id).closed =
        (s.closed || decide ((fieldsOf record).eventType = "done")) := by simp [hdone]
    split
    · exact hopen
    split
    · exact hopen
    split
    · exact hopen
    · exact hopen

theorem closed_dispatchAll (P : Payload V) (s : Hook V) (records : List (List Char)) :
    (dispatchAll P s records).closed = (s.closed || records.any isDone) := by
  induction records generalizing s with
  | nil => simp [dispatchAll]
  | cons record records ih =>
    have hrest := ih (dispatch P s record)
    rw [closed_dispatch, Bool.or_assoc] at hrest
    exact hrest

theorem dispatchAll_append (P : Payload V) (s : Hook V) (records more : List (List Char)) :
    dispatchAll P s (records ++ more) = dispatchAll P (dispatchAll P s records) more :=
  List.foldl_append

theorem seen_dispatch (P : Payload V) (s : Hook V) (record : List Char) :
    seen (dispatch P s record) =
      (s.received ++ (eventOf P (fieldsOf record)).toList, lastOf s.lastId (fieldsOf record)) := by
  have hreceived : (remember s (fieldsOf record).id).received = s.received := by
    unfold remember
    split <;> rfl
  have hid : (remember s (fieldsOf record).id).lastId = lastOf s.lastId (fieldsOf record) := by
    unfold remember lastOf
    split <;> rfl
  unfold dispatch dispatchRecord eventOf seen
  dsimp only
  split
  · rename_i hdone
    simp [hreceived, hid, hdone]
  · rename_i hdone
    split
    · rename_i hunknown
      simp [hreceived, hid, hunknown]
    · rename_i hknown
      split
      · rename_i hraw
        simp [hreceived, hid, hraw]
      · rename_i hraw
        rw [if_pos ⟨not_not.mp hknown, hdone, hraw⟩]
        split
        · rename_i hparse
          simp [hreceived, hid, hparse]
        · rename_i hparse
          simp [hreceived, hid, hparse]

theorem seen_dispatchAll (P : Payload V) (s : Hook V) (records : List (List Char)) :
    seen (dispatchAll P s records) =
      (s.received ++ (content P s.lastId (records.map fieldsOf)).1,
        (content P s.lastId (records.map fieldsOf)).2) := by
  induction records generalizing s with
  | nil => simp [dispatchAll, seen, content]
  | cons record records ih =>
    have hfirst := seen_dispatch P s record
    rw [seen, Prod.mk.injEq] at hfirst
    have hrest := ih (dispatch P s record)
    rw [hfirst.1, hfirst.2] at hrest
    rw [dispatchAll, List.foldl_cons]
    refine hrest.trans ?_
    cases heventOf : eventOf P (fieldsOf record) <;> simp [content, heventOf]

/-- What the hook shows of some records when it has just connected. -/
theorem seen_connected (P : Payload V) (lastId : String) (records : List (List Char)) :
    seen (dispatchAll P (connected lastId) records) = content P lastId (records.map fieldsOf) := by
  rw [seen_dispatchAll]
  rfl

/-! ## Chunks -/

theorem untilDone_prefix_append {records : List (List Char)} (h : records.any isDone = true)
    (more : List (List Char)) : untilDone (records ++ more) <+: records := by
  induction records with
  | nil => cases h
  | cons record records ih =>
    rw [List.cons_append, untilDone, List.cons_prefix_cons]
    refine ⟨rfl, ?_⟩
    split
    · exact List.nil_prefix
    · rename_i hdone
      refine ih ?_
      simpa [hdone] using h

theorem untilDone_append {records : List (List Char)} (h : records.any isDone = false)
    (more : List (List Char)) : untilDone (records ++ more) = records ++ untilDone more := by
  induction records with
  | nil => rfl
  | cons record records ih =>
    rw [List.any_cons, Bool.or_eq_false_iff] at h
    rw [List.cons_append, untilDone, h.1, ih h.2]
    rfl

theorem recordsOf_append (text more : List Char) :
    recordsOf (text ++ more) =
      recordsOf text ++ recordsOf ((cutAll '\n' ['\n'] text).2 ++ more) := by
  unfold recordsOf
  rw [cutAll_append]

/-- The hook reads some of the records, in their order: all up to the first that says done, and at
times some that follow it. -/
theorem readChunks_reads (P : Payload V) {s : Hook V} (hopen : s.closed = false)
    {buffer : List Char} (hbuffer : recordsOf buffer = []) (chunks : List (List Char)) :
    ∃ records, seen (readChunks P s buffer chunks) = seen (dispatchAll P s records) ∧
      records <+: recordsOf (buffer ++ chunks.flatten) ∧
        untilDone (recordsOf (buffer ++ chunks.flatten)) <+: records := by
  induction chunks generalizing s buffer with
  | nil =>
    refine ⟨[], ?_, List.nil_prefix, ?_⟩
    · simp [readChunks, hopen, seen, dispatchAll]
    · simp [hbuffer, untilDone]
  | cons chunk chunks ih =>
    have hall : recordsOf (buffer ++ (chunk :: chunks).flatten) = recordsOf (buffer ++ chunk) ++
        recordsOf ((cutAll '\n' ['\n'] (buffer ++ chunk)).2 ++ chunks.flatten) := by
      rw [List.flatten_cons, ← List.append_assoc, recordsOf_append]
    have hclosed := closed_dispatchAll P s (recordsOf (buffer ++ chunk))
    rw [hopen, Bool.false_or] at hclosed
    rw [readChunks, parseAndDispatch_eq, hall]
    dsimp only
    cases hdone : (recordsOf (buffer ++ chunk)).any isDone with
    | true =>
      rw [hdone] at hclosed
      rw [if_pos hclosed]
      exact ⟨_, rfl, List.prefix_append _ _, untilDone_prefix_append hdone _⟩
    | false =>
      rw [hdone] at hclosed
      have hrest : recordsOf (cutAll '\n' ['\n'] (buffer ++ chunk)).2 = [] := by
        unfold recordsOf
        rw [cutAll_rest]
      obtain ⟨records, hseen, hpre, huntil⟩ := ih hclosed hrest
      rw [if_neg (by simp [hclosed]), untilDone_append hdone]
      refine ⟨recordsOf (buffer ++ chunk) ++ records, ?_, ?_, ?_⟩
      · rw [hseen, dispatchAll_append]
      · exact (List.prefix_append_right_inj _).mpr hpre
      · exact (List.prefix_append_right_inj _).mpr huntil

theorem any_untilDone (records : List (List Char)) :
    (untilDone records).any isDone = records.any isDone := by
  induction records with
  | nil => rfl
  | cons record records ih =>
    rw [untilDone, List.any_cons, List.any_cons]
    cases isDone record with
    | true => rfl
    | false => simpa using ih

theorem useSSE_cons (P : Payload V) (lastId : String) (chunk : List Char)
    (chunks : List (List Char)) :
    useSSE P lastId (chunk :: chunks) =
      if (recordsOf chunk).any isDone then dispatchAll P (connected lastId) (recordsOf chunk)
      else readChunks P (dispatchAll P (connected lastId) (recordsOf chunk))
        (cutAll '\n' ['\n'] chunk).2 chunks := by
  have hclosed := closed_dispatchAll P (connected lastId) (recordsOf chunk)
  unfold useSSE
  rw [readChunks, List.nil_append, parseAndDispatch_eq]
  dsimp only
  rw [hclosed]
  rfl

/-- However many of the records after the first that says done are read, the hook reads as many for
some chunks. -/
theorem exists_chunks (P : Payload V) (lastId : String) {text : List Char}
    {records : List (List Char)} (h : records <+: afterDone (recordsOf text)) :
    ∃ chunks, chunks.flatten = text ∧ seen (useSSE P lastId chunks) =
      seen (dispatchAll P (connected lastId) (untilDone (recordsOf text) ++ records)) := by
  have hall := untilDone_append_afterDone (recordsOf text)
  cases hdone : (recordsOf text).any isDone with
  | false =>
    have huntil : untilDone (recordsOf text) = recordsOf text := by
      have happend := untilDone_append hdone []
      rwa [List.append_nil, untilDone, List.append_nil] at happend
    have hafter : afterDone (recordsOf text) = [] := by
      rw [huntil] at hall
      exact List.append_right_eq_self.mp hall
    rw [hafter, List.prefix_nil] at h
    refine ⟨[text], by simp, ?_⟩
    rw [useSSE_cons, hdone, h, huntil, List.append_nil]
    simp only [readChunks, seen, Bool.false_eq_true, if_false]
    split <;> rfl
  | true =>
    have hpre := (List.prefix_append_right_inj (untilDone (recordsOf text))).mpr h
    rw [hall] at hpre
    obtain ⟨start, rest, rfl, hstart⟩ := exists_start hpre
    have hrecords : recordsOf start = untilDone (recordsOf (start ++ rest)) ++ records :=
      congrArg Prod.fst hstart
    refine ⟨[start, rest], by simp, ?_⟩
    rw [useSSE_cons, hrecords, List.any_append, any_untilDone, hdone]
    rfl

/-! ## Texts with line feeds only -/

theorem linesOf_piece {piece : List Char} (hfeed : '\n' ∉ piece) (hreturn : '\r' ∉ piece)
    (line rest : List Char) :
    linesOf line (piece ++ '\n' :: rest) = (line ++ piece) :: linesOf [] rest := by
  induction piece generalizing line with
  | nil => rw [List.nil_append, List.append_nil, linesOf]
  | cons c piece ih =>
    rw [List.mem_cons, not_or] at hfeed hreturn
    rw [List.cons_append, linesOf, ih hfeed.2 hreturn.2]
    · simp
    · exact fun _ heq _ => absurd heq.symm hreturn.1
    · exact fun heq => absurd heq.symm hreturn.1
    · exact fun heq => absurd heq.symm hfeed.1

theorem linesOf_fragment {piece : List Char} (hfeed : '\n' ∉ piece) (hreturn : '\r' ∉ piece)
    (line : List Char) : linesOf line piece = [] := by
  induction piece generalizing line with
  | nil => rfl
  | cons c piece ih =>
    rw [List.mem_cons, not_or] at hfeed hreturn
    rw [linesOf, ih hfeed.2 hreturn.2]
    · exact fun _ heq _ => absurd heq.symm hreturn.1
    · exact fun heq => absurd heq.symm hreturn.1
    · exact fun heq => absurd heq.symm hfeed.1

/-- Lines that are joined by line feeds. -/
def joined (first : List Char) (others : List (List Char)) : List Char :=
  first ++ others.flatMap fun line => '\n' :: line

theorem linesOf_joined {first : List Char} {others : List (List Char)}
    (hfeed : ∀ line ∈ first :: others, '\n' ∉ line) (hreturn : '\r' ∉ joined first others)
    (rest : List Char) :
    linesOf [] (joined first others ++ '\n' :: rest) = first :: others ++ linesOf [] rest := by
  induction others generalizing first with
  | nil =>
    rw [joined, List.flatMap_nil, List.append_nil] at hreturn ⊢
    rw [linesOf_piece (hfeed first List.mem_cons_self) hreturn]
    rfl
  | cons next others ih =>
    have hparts : joined first (next :: others) = first ++ '\n' :: joined next others := rfl
    rw [hparts, List.mem_append, List.mem_cons, not_or, not_or] at hreturn
    rw [hparts, List.append_assoc, List.cons_append,
      linesOf_piece (hfeed first List.mem_cons_self) hreturn.1,
      ih (fun line hline => hfeed line (List.mem_cons_of_mem _ hline)) hreturn.2.2]
    rfl

/-- The lines of a text at its line feeds. -/
theorem exists_joined (text : List Char) : ∃ first others, text.splitOn '\n' = first :: others ∧
    text = joined first others ∧ ∀ line ∈ first :: others, '\n' ∉ line := by
  induction text with
  | nil => exact ⟨[], [], rfl, rfl, by simp⟩
  | cons c text ih =>
    obtain ⟨first, others, hsplit, rfl, hplain⟩ := ih
    rw [List.splitOn_cons_eq_if_modifyHead, hsplit]
    by_cases hc : c = '\n'
    · subst hc
      exact ⟨[], first :: others, by simp, rfl, List.forall_mem_cons.mpr ⟨by simp, hplain⟩⟩
    · obtain ⟨hfirst, hothers⟩ := List.forall_mem_cons.mp hplain
      refine ⟨c :: first, others, by simp [hc], rfl, List.forall_mem_cons.mpr ⟨?_, hothers⟩⟩
      rw [List.mem_cons, not_or]
      exact ⟨Ne.symm hc, hfirst⟩

/-- A blank line that is not the first has two line feeds before its end. -/
theorem infix_of_blank (first : List Char) {others : List (List Char)} (h : [] ∈ others) :
    ∃ before after, joined first others ++ ['\n'] = before ++ '\n' :: '\n' :: after ∧
      before.length < (joined first others).length := by
  obtain ⟨a, b, rfl⟩ := List.append_of_mem h
  have hparts : joined first (a ++ [] :: b) ++ ['\n'] =
      joined first a ++ '\n' :: ((b.flatMap fun line => '\n' :: line) ++ ['\n']) := by
    simp [joined]
  have hlength : (joined first a).length < (joined first (a ++ [] :: b)).length := by
    simp only [joined, List.flatMap_append, List.flatMap_cons, List.length_append,
      List.length_cons]
    omega
  cases b with
  | nil => exact ⟨_, [], hparts, hlength⟩
  | cons next b => exact ⟨_, _, hparts, hlength⟩

theorem content_cons (P : Payload V) (lastId : String) (f : Fields) (records : List Fields) :
    content P lastId (f :: records) =
      ((eventOf P f).toList ++ (content P (lastOf lastId f) records).1,
        (content P (lastOf lastId f) records).2) := by
  cases heventOf : eventOf P f <;> simp [content, heventOf]

/-- The lines of one record, which are blank at most at their start. A blank line there ends a
record without fields. -/
theorem content_record (P : Payload V) (lastId : String) (first : List Char)
    {others : List (List Char)} (h : [] ∉ others) (rest : List (List Char)) :
    content P lastId (recordsOfLines noFields (first :: others ++ rest)) =
      content P lastId (recordsOfLines ((first :: others).foldl readLine noFields) rest) := by
  have hothers (f : Fields) : recordsOfLines f (others ++ rest) =
      recordsOfLines (others.foldl readLine f) rest := by
    induction others generalizing f with
    | nil => rfl
    | cons line others ih =>
      rw [List.mem_cons, not_or] at h
      rw [List.cons_append, recordsOfLines, if_neg (Ne.symm h.1), List.foldl_cons]
      exact ih h.2 _
  rw [List.cons_append, recordsOfLines, List.foldl_cons]
  split
  · rename_i hblank
    subst hblank
    rw [hothers]
    exact content_cons P lastId noFields _
  · rw [hothers]

/-- In a text with line feeds only the hook finds what the format finds. -/
theorem content_of_feeds (P : Payload V) {text : List Char} (h : '\r' ∉ text) (lastId : String) :
    content P lastId (recordsOfLines noFields (linesOf [] text)) =
      content P lastId ((recordsOf text).map fieldsOf) := by
  induction text using cut_induction (c := '\n') (p := ['\n']) generalizing lastId with
  | last text hcut =>
    obtain ⟨first, others, -, rfl, hplain⟩ := exists_joined text
    have hnot : ¬ ['\n', '\n'] <:+: joined first others := by
      rw [← isSome_cutAt_iff, hcut]
      simp
    rw [recordsOf, cutAll_of_none hcut]
    rcases List.eq_nil_or_concat' others with rfl | ⟨middle, fragment, rfl⟩
    · rw [joined, List.flatMap_nil, List.append_nil] at h ⊢
      rw [linesOf_fragment (hplain first List.mem_cons_self) h]
      rfl
    · have hparts : joined first (middle ++ [fragment]) =
          joined first middle ++ '\n' :: fragment := by simp [joined]
      have hblank : [] ∉ middle := by
        intro hmem
        obtain ⟨before, after, hbefore, -⟩ := infix_of_blank first hmem
        refine hnot ⟨before, after ++ fragment, ?_⟩
        have hwhole := congrArg (· ++ fragment) hbefore
        simpa [hparts] using hwhole.symm
      rw [hparts] at h ⊢
      rw [List.mem_append, List.mem_cons, not_or, not_or] at h
      have hfeed : ∀ line ∈ first :: middle, '\n' ∉ line := fun line hline =>
        hplain line (List.mem_append_left [fragment] hline)
      rw [linesOf_joined hfeed h.1, linesOf_fragment (hplain fragment (by simp)) h.2.2,
        content_record P lastId first hblank]
      rfl
  | piece text record rest hcut ih =>
    have hfirst := firstCut_of_cutAt hcut
    obtain ⟨first, others, hsplit, hrecord, hplain⟩ := exists_joined record
    have hparts : text = joined first others ++ '\n' :: '\n' :: rest := by
      rw [hfirst.parts, ← hrecord, List.append_assoc]
      rfl
    have hblank : [] ∉ others := by
      intro hmem
      obtain ⟨before, after, hbefore, hlength⟩ := infix_of_blank first hmem
      refine Nat.not_le.mpr hlength (hrecord ▸ hfirst.first before (after ++ '\n' :: rest) ?_)
      have hwhole := congrArg (· ++ '\n' :: rest) hbefore
      simpa [hparts] using hwhole
    rw [hparts, List.mem_append, List.mem_cons, List.mem_cons, not_or, not_or, not_or] at h
    rw [recordsOf, cutAll_of_some hcut, hparts, linesOf_joined hplain h.1, linesOf,
      content_record P lastId first hblank, recordsOfLines, if_pos rfl, ← hsplit, content_cons,
      ih h.2.2.2 _]
    exact (content_cons P lastId (fieldsOf record) _).symm

/-! ## Texts without two line feeds in a row -/

inductive LineEnd
  | lf
  | crlf
  | cr
deriving DecidableEq

def LineEnd.text : LineEnd → List Char
  | .lf => ['\n']
  | .crlf => ['\r', '\n']
  | .cr => ['\r']

/-- Lines that all end in one way. -/
def endedLines (e : LineEnd) (lines : List (List Char)) : List Char :=
  lines.flatMap fun line => line ++ e.text

/-- Two line feeds in a row come from lines that end with a line feed alone. -/
theorem uncut_of_returns {e : LineEnd} (he : e ≠ .lf) {lines : List (List Char)}
    (h : ∀ line ∈ lines, '\n' ∉ line) : ¬ ['\n', '\n'] <:+: endedLines e lines := by
  have hline : ∀ line, '\n' ∉ line → ∀ rest, rest.head? ≠ some '\n' →
      ['\n', '\n'] <:+: line ++ e.text ++ rest → ['\n', '\n'] <:+: rest := by
    intro line hplain rest hrest
    induction line with
    | nil =>
      cases e with
      | lf => exact absurd rfl he
      | crlf =>
        rintro hinfix
        simp only [LineEnd.text, List.nil_append, List.cons_append, List.infix_cons_iff] at hinfix
        rcases hinfix with hpre | hpre | hpre
        · simp at hpre
        · obtain ⟨t, ht⟩ := hpre
          obtain ⟨-, ht⟩ := List.cons.inj ht
          exact absurd (by rw [← ht]; rfl) hrest
        · exact hpre
      | cr =>
        intro hinfix
        simp only [LineEnd.text, List.nil_append, List.cons_append, List.infix_cons_iff] at hinfix
        rcases hinfix with hpre | hpre
        · simp at hpre
        · exact hpre
    | cons c line ih =>
      rw [List.mem_cons, not_or] at hplain
      intro hinfix
      simp only [List.cons_append, List.infix_cons_iff] at hinfix
      rcases hinfix with hpre | hpre
      · obtain ⟨t, ht⟩ := hpre
        exact absurd (List.cons.inj ht).1 hplain.1
      · exact ih hplain.2 hpre
  have hhead : ∀ lines : List (List Char), (∀ line ∈ lines, '\n' ∉ line) →
      (endedLines e lines).head? ≠ some '\n' := by
    intro lines hlines
    cases lines with
    | nil => simp [endedLines]
    | cons line lines =>
      have hplain := hlines line List.mem_cons_self
      cases line with
      | nil => cases e <;> simp_all [endedLines, LineEnd.text]
      | cons c line =>
        rw [List.mem_cons, not_or] at hplain
        simpa [endedLines] using Ne.symm hplain.1
  induction lines with
  | nil => simp [endedLines]
  | cons line lines ih =>
    obtain ⟨hplain, hlines⟩ := List.forall_mem_cons.mp h
    intro hinfix
    exact ih hlines (hline line hplain _ (hhead lines hlines) hinfix)

/-! ## When chunks do not matter -/

/-- For all chunks of the text the hook passes on the events of the text that are ended by a blank
line, each once and in order, and remembers the last id of theirs that is not empty. -/
def IgnoresChunks (P : Payload V) (lastId : String) (text : List Char) : Prop :=
  ∀ chunks : List (List Char), chunks.flatten = text →
    seen (useSSE P lastId chunks) = standard P lastId text

theorem ignoresChunks_iff (P : Payload V) (lastId : String) (text : List Char) :
    IgnoresChunks P lastId text ↔ ∀ records, records <+: afterDone (recordsOf text) →
      content P lastId ((untilDone (recordsOf text) ++ records).map fieldsOf) =
        standard P lastId text := by
  constructor
  · intro h records hrecords
    obtain ⟨chunks, htext, hseen⟩ := exists_chunks P lastId hrecords
    rw [← seen_connected, ← hseen]
    exact h chunks htext
  · rintro h chunks rfl
    have hstart : recordsOf [] = [] := congrArg Prod.fst (cutAll_of_none rfl)
    obtain ⟨records, hseen, hpre, ⟨more, rfl⟩⟩ := readChunks_reads P
      (rfl : (connected lastId).closed = false) hstart chunks
    rw [List.nil_append] at hseen hpre
    have hmore : more <+: afterDone (recordsOf chunks.flatten) := by
      refine (List.prefix_append_right_inj (untilDone (recordsOf chunks.flatten))).mp ?_
      rw [untilDone_append_afterDone]
      exact hpre
    rw [useSSE, hseen, seen_connected]
    exact h more hmore

/-- A record that shows nothing: it has no event, and no other id than the last. -/
def Silent (P : Payload V) (last : String) (f : Fields) : Prop :=
  eventOf P f = none ∧ lastOf last f = last

theorem content_append (P : Payload V) (lastId : String) (records more : List Fields) :
    content P lastId (records ++ more) =
      ((content P lastId records).1 ++ (content P (content P lastId records).2 more).1,
        (content P (content P lastId records).2 more).2) := by
  simp [content]

theorem content_silent {P : Payload V} {last : String} {records : List Fields}
    (h : ∀ f ∈ records, Silent P last f) : content P last records = ([], last) := by
  induction records with
  | nil => rfl
  | cons f records ih =>
    obtain ⟨⟨hevent, hlast⟩, hrest⟩ := List.forall_mem_cons.mp h
    rw [content_cons, hevent, hlast, ih hrest]
    rfl

/-- Records show nothing, wherever one stops to read them, if and only if each is silent. -/
theorem content_prefix_iff (P : Payload V) (last : String) (more : List Fields) :
    (∀ records, records <+: more → content P last records = ([], last)) ↔
      ∀ f ∈ more, Silent P last f := by
  constructor
  · intro h
    induction more with
    | nil => simp
    | cons f more ih =>
      have hfirst := h [f] (by simp)
      rw [content_cons] at hfirst
      obtain ⟨hevents, hlast⟩ := Prod.mk.inj hfirst
      have hnone : eventOf P f = none := by simpa [content] using hevents
      refine List.forall_mem_cons.mpr ⟨⟨hnone, hlast⟩, ih fun records hpre => ?_⟩
      have hcons := h (f :: records) (List.cons_prefix_cons.mpr ⟨rfl, hpre⟩)
      rw [content_cons, hnone, show lastOf last f = last from hlast] at hcons
      exact hcons
  · intro h records hpre
    exact content_silent fun f hf => h f (hpre.subset hf)

/-- Where the hook finds no record, it stays as it was when it connected. -/
theorem seen_of_no_records (P : Payload V) (lastId : String) {chunks : List (List Char)}
    (h : recordsOf chunks.flatten = []) : seen (useSSE P lastId chunks) = ([], lastId) := by
  have hstart : recordsOf [] = [] := congrArg Prod.fst (cutAll_of_none rfl)
  obtain ⟨records, hseen, hpre, -⟩ := readChunks_reads P
    (rfl : (connected lastId).closed = false) hstart chunks
  rw [List.nil_append, h, List.prefix_nil] at hpre
  rw [useSSE, hseen, hpre]
  rfl

/-- The values of a JSON text, for the payloads of a stream. -/
def jsonPayload : Payload jsons.Json where
  parse raw := jsons.loads (String.ofList raw)
  sequence data :=
    match data with
    | .obj members =>
      match members.lookup "sequence" with
      | some (.int n) => some n
      | _ => none
    | _ => none

/-- One event, as the server's library writes it. -/
def oneEvent (e : LineEnd) : List Char :=
  endedLines e ["id: 7".toList, "event: node.started".toList, "data: \x7b\x7d".toList, []]

/-- With the line ends that the server's library writes by default, nothing comes through. -/
theorem an_event_in_crlf_is_lost :
    (standard jsonPayload "0" (oneEvent .crlf)).1.length = 1 ∧
      (standard jsonPayload "0" (oneEvent .crlf)).2 = "7" ∧
        ∀ chunks : List (List Char), chunks.flatten = oneEvent .crlf →
          seen (useSSE jsonPayload "0" chunks) = ([], "0") := by
  refine ⟨by decide +kernel, by decide +kernel, fun chunks htext => ?_⟩
  have hnone : recordsOf (oneEvent .crlf) = [] :=
    congrArg Prod.fst (cutAll_uncut (uncut_of_returns (by decide) (by decide)))
  exact seen_of_no_records jsonPayload "0" (htext ▸ hnone)

/-- Chunks do not matter, and the hook reads what the format says, exactly where the text gives the
same events and the same id when it is cut at line feeds only, with any number of the records that
follow the first that says done. In a text without carriage returns this is so when these records
have no event and no other id, and in a text without two line feeds in a row when there is nothing
to read. -/
theorem chunks_do_not_matter_iff (P : Payload V) (lastId : String) (text : List Char) :
    (IgnoresChunks P lastId text ↔ ∀ records, records <+: afterDone (recordsOf text) →
        content P lastId ((untilDone (recordsOf text) ++ records).map fieldsOf) =
          standard P lastId text) ∧
      ('\r' ∉ text →
        (IgnoresChunks P lastId text ↔ ∀ record ∈ afterDone (recordsOf text),
          Silent P (content P lastId ((untilDone (recordsOf text)).map fieldsOf)).2
            (fieldsOf record))) ∧
      (¬ ['\n', '\n'] <:+: text →
        (IgnoresChunks P lastId text ↔ standard P lastId text = ([], lastId))) := by
  refine ⟨ignoresChunks_iff P lastId text, fun hreturn => ?_, fun hfeeds => ?_⟩
  · have hsame := content_of_feeds P hreturn lastId
    rw [← untilDone_append_afterDone (recordsOf text), List.map_append] at hsame
    rw [ignoresChunks_iff, standard, hsame]
    rw [← List.forall_mem_map (P := Silent P _), ← content_prefix_iff]
    constructor
    · intro h records hpre
      obtain ⟨records, hrecords, rfl⟩ := List.prefix_map_iff.mp hpre
      have hnone := h [] List.nil_prefix
      have hthese := h records hrecords
      rw [← hnone, List.append_nil, List.map_append, content_append, Prod.mk.injEq,
        List.append_right_eq_self] at hthese
      exact Prod.ext hthese.1 hthese.2
    · intro h records hpre
      rw [List.map_append, content_append, h _ (hpre.map fieldsOf), content_append,
        h _ List.prefix_rfl]
  · have hnone : recordsOf text = [] := congrArg Prod.fst (cutAll_uncut hfeeds)
    rw [ignoresChunks_iff, hnone]
    simp only [afterDone, untilDone, List.prefix_nil, forall_eq, List.append_nil]
    exact eq_comm

theorem an_event_in_lf_is_read : IgnoresChunks jsonPayload "0" (oneEvent .lf) := by
  have hcut : cutAt ['\n', '\n'] (oneEvent .lf) =
      some ("id: 7\nevent: node.started\ndata: \x7b\x7d".toList, []) := by decide
  have hrecords : recordsOf (oneEvent .lf) =
      ["id: 7\nevent: node.started\ndata: \x7b\x7d".toList] := by
    rw [recordsOf, cutAll_of_some hcut, cutAll_of_none rfl]
  refine ((chunks_do_not_matter_iff jsonPayload "0" (oneEvent .lf)).2.1 (by decide)).mpr ?_
  have hdone : isDone "id: 7\nevent: node.started\ndata: \x7b\x7d".toList = false := by decide
  rw [hrecords, afterDone, hdone]
  simp [afterDone]

end orchestra.use_sse
