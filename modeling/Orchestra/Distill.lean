-- The history that a handoff passes on (`context_distill.py`): the leading
-- system messages, one summary of the middle, and the last turns.
import Orchestra.Edges

namespace orchestra.distill

/-! ## Words -/

/-- The letters at which `str.split()` cuts. -/
def isSpace (c : Char) : Bool :=
  [9, 10, 11, 12, 13, 28, 29, 30, 31, 32, 133, 160, 5760, 8232, 8233, 8239, 8287, 12288].elem
    c.toNat || (8192 ≤ c.toNat && c.toNat ≤ 8202)

/-- `word` holds the letters of the word that is being read, last one first. -/
def splitFrom (word : List Char) : List Char → List String
  | [] => if word.isEmpty then [] else [String.ofList word.reverse]
  | c :: cs =>
    if isSpace c then
      if word.isEmpty then splitFrom [] cs else String.ofList word.reverse :: splitFrom [] cs
    else splitFrom (c :: word) cs

/-- `text.split()` -/
def split (text : String) : List String := splitFrom [] text.toList

/-! ## Messages -/

/-- The role of a message, which is a `Message` or a dict. -/
def getRole (msg : Value) : String :=
  match msg.field "role" with
  | some role => role.text
  | none => ""

/-- The content of a message. A dict without one reads as `None`. -/
def getContent : Value → String
  | .dict items =>
    match items.lookup "content" with
    | some content => content.text
    | none => "None"
  | msg =>
    match msg.field "content" with
    | some content => if content.truthy then content.text else ""
    | none => ""

def makeSummaryMessage (template : Value) (text : String) : Value :=
  match template with
  | .dict _ => .dict [("role", .str "assistant"), ("content", .str text)]
  | _ => .obj "Message" [("role", .str "assistant"), ("content", .str text)]

/-- The one message that stands for the middle of the history. -/
def summaryText (maxMiddlewareTokens : Nat) (middleware : List Value) : String :=
  let parts := (middleware.map getContent).filter (fun content => content ≠ "")
  let words := split (" ".intercalate parts)
  "[Context summary: " ++ " ".intercalate (words.take maxMiddlewareTokens) ++ "]"

/-! ## The three zones -/

/-- `distill_context` on a list of messages. -/
def distillMessages (maxMiddlewareTokens keepLastNTurns : Nat) (messages : List Value) :
    List Value :=
  match messages with
  | [] => []
  | first :: _ =>
    let head := messages.takeWhile (fun msg => getRole msg = "system")
    let rest := messages.dropWhile (fun msg => getRole msg = "system")
    let middleware := rest.take (rest.length - keepLastNTurns)
    let suffix := if keepLastNTurns > 0 then rest.drop (rest.length - keepLastNTurns) else []
    if rest.isEmpty then head
    else if middleware.isEmpty || suffix.isEmpty then head ++ suffix
    else
      head ++ makeSummaryMessage first (summaryText maxMiddlewareTokens middleware) :: suffix

/-- `distill_context` on what the state holds under `messages`, with the
limits that the engine uses. Only a list can be indexed by number, so a dict
that would need a summary is an error. -/
def distillContext (messages : Value) : Except Raised (List Value) :=
  if messages.truthy then
    match messages.iterate with
    | .error e => .error e
    | .ok items =>
      match messages with
      | .dict _ =>
        if items.length ≤ 3 then .ok items else .error ⟨"KeyError", "0", false⟩
      | _ => .ok (distillMessages 500 3 items)
  else .ok []

/-- `full_passthrough`: every message, as it is. -/
def fullPassthrough (messages : Value) : Except Raised (List Value) := messages.iterate

end orchestra.distill
