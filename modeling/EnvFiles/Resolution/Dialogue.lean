import EnvFiles.Plugin.Basic

/-!
# Asking for values

A dialogue is a function of the replies that are left. An open question is asked until a reply
settles it: a reply that is not blank is the value, a blank one takes the example value or skips
an optional variable. For a required variable without an example value a blank reply leads to a
second question, whether to skip it for now; unless the reply to that is `y` the first question
comes again. A yes/no question is asked once.
-/

namespace EnvFiles

/-- How a dialogue went: its outcome, the questions asked and the replies left. -/
structure Dialogue where
  outcome : Except Failure Resolved
  asked : List Text
  left : List Text

/-- A dialogue after one more question before it. -/
def Dialogue.after (questions : List Text) (dialogue : Dialogue) : Dialogue :=
  { dialogue with asked := questions ++ dialogue.asked }

/-- What stands for the variable in a question: its description, or its name. -/
def questionHint (definition : Definition) : Text :=
  if definition.description.isEmpty then definition.name else definition.description

/-- The open question for a variable. -/
def promptQuestion (definition : Definition) : Text :=
  let byDefault : Text := if definition.exampleValue.isEmpty then []
    else " (default: " ++ definition.exampleValue ++ ")"
  let skipping : Text := if !definition.isRequired && definition.exampleValue.isEmpty then
    " (Enter to skip)" else []
  "? " ++ questionHint definition ++ "\n  Enter " ++ definition.name ++ byDefault ++ skipping ++ ": "

/-- The question whether to skip a required variable. -/
def skipQuestion : Text := "  No value provided. Skip for now? (y/N): "

/-- What a reply to the open question settles, if anything. -/
def settle? (definition : Definition) (reply : Text) : Option Resolved :=
  let value := Text.trim reply
  if !value.isEmpty then some { value, source := "prompted" }
  else if !definition.exampleValue.isEmpty then
    some { value := definition.exampleValue, source := "prompted" }
  else if !definition.isRequired then some { source := "prompted", skipped := true }
  else none

/-- A required variable that was skipped on request. -/
def skippedRequired (definition : Definition) : Resolved where
  source := "prompted"
  skipped := true
  warning := some ("Skipped required variable: " ++ definition.name)

/-- Whether a reply says yes to skipping. -/
def saysSkip (reply : Text) : Bool := Text.lower (Text.trim reply) == ("y" : Text)

/-- The open question, asked until it is settled. -/
def promptDialogue (definition : Definition) : List Text → Dialogue
  | [] => ⟨.error .outOfReplies, [promptQuestion definition], []⟩
  | [reply] =>
    match settle? definition reply with
    | some resolved => ⟨.ok resolved, [promptQuestion definition], []⟩
    | none => ⟨.error .outOfReplies, [promptQuestion definition, skipQuestion], []⟩
  | reply :: second :: rest =>
    match settle? definition reply with
    | some resolved => ⟨.ok resolved, [promptQuestion definition], second :: rest⟩
    | none =>
      let questions := [promptQuestion definition, skipQuestion]
      if saysSkip second then ⟨.ok (skippedRequired definition), questions, rest⟩
      else (promptDialogue definition rest).after questions

/-- Whether the example value of a yes/no variable says yes. -/
def defaultIsYes (definition : Definition) (yes : Text) : Bool :=
  let word := Text.lower definition.exampleValue
  definition.exampleValue == yes || word == ("true" : Text) || word == ("yes" : Text)

/-- The literal that the example value of a yes/no variable stands for. -/
def booleanDefault (definition : Definition) (yes no : Text) : Text :=
  if defaultIsYes definition yes then yes else no

/-- The yes/no question for a variable. -/
def booleanQuestion (definition : Definition) (yes no : Text) : Text :=
  let literals : Text := if yes = ("true" : Text) ∧ no = ("false" : Text) then []
    else " (" ++ yes ++ "/" ++ no ++ ")"
  let choices : Text := if defaultIsYes definition yes then "Y/n" else "y/N"
  "? " ++ questionHint definition ++ literals ++ "\n  " ++ definition.name ++ " (" ++ choices ++ "): "

/-- The literal that a reply to a yes/no question stands for. -/
def booleanReply (definition : Definition) (yes no reply : Text) : Text :=
  match Text.lower (Text.trim reply) with
  | [] => booleanDefault definition yes no
  | c :: _ => if c = 'y' then yes else no

/-- The yes/no question, asked once. -/
def booleanDialogue (definition : Definition) (yes no : Text) : List Text → Dialogue
  | [] => ⟨.error .outOfReplies, [booleanQuestion definition yes no], []⟩
  | reply :: rest =>
    ⟨.ok { value := booleanReply definition yes no reply, source := "prompted" },
      [booleanQuestion definition yes no], rest⟩

/-- Hold a dialogue at the desk. -/
def DeskStep.converse (dialogue : List Text → Dialogue) : DeskStep Resolved :=
  Attempt.ofFunction fun desk =>
    let result := dialogue desk.replies
    (result.outcome, { desk with replies := result.left, asked := desk.asked ++ result.asked })

end EnvFiles
