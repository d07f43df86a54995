import PvNet.Cli.Failure
import PvNet.Text.Blank
set_option autoImplicit false

/-!
# Durations on the command line

A duration is a whole positive number of seconds, with or without the unit `s`, or
of milliseconds with the unit `ms`.
-/

namespace PvNet.Cli

/-- The duration that an argument stands for. -/
def durationOfText (text : String) : Except Failure Duration :=
  let text := Text.trim text
  if text = "" then .error ⟨.usage, "duration must not be empty"⟩
  else
    let (number, unit) :=
      match Text.withoutEnd? "ms" text, Text.withoutEnd? "s" text with
      | some number, _ => (number, Duration.ofMillis)
      | none, some number => (number, Duration.ofSeconds)
      | none, none => (text, Duration.ofSeconds)
    match Decimal.below? UInt64.size number with
    | none => .error ⟨.usage, s!"invalid duration value: {text}"⟩
    | some 0 => .error ⟨.usage, "duration must be greater than zero"⟩
    | some n => .ok (unit n)

end PvNet.Cli
