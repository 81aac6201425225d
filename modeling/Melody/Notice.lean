/-! Notices that operations leave for whoever watches them. -/

namespace Melody

/-- How serious a notice is. -/
inductive Severity where
  | warning
  | error
  /-- The program has ended, and what would follow is never reached. -/
  | fatal
deriving DecidableEq, Repr

/-- A line of text for the log. -/
structure Notice where
  severity : Severity
  text : String
deriving DecidableEq, Repr

end Melody
