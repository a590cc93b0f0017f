/-!
# Identifiers of processes and pages

Processes and pages are named by numbers. Their texts are the ones that every
message of the machine uses.
-/

namespace Timeshare

/-- The number of a process. Processes are numbered from 1 in the order in which
they are submitted, and no number is used twice. -/
abbrev ProcessId := Nat

/-- The text of a process number in messages. -/
def ProcessId.text (pid : ProcessId) : String := s!"pid {pid}"

/-- The number of a page of the address space. -/
abbrev PageNumber := Nat

/-- The text of a page number in messages. -/
def PageNumber.text (page : PageNumber) : String := s!"page {page}"

end Timeshare
