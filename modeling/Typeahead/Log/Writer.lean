import Typeahead.Text

/-!
# The log writer

Log entries go out in batches, and no batch is started before the one under way has settled.  An
entry that comes meanwhile waits in the queue; once the batch has settled, well or badly, all that
waits goes out as the next batch.
-/

namespace Typeahead

/-- The entries that wait, and the batch under way. -/
structure LogWriter where
  queue : List Text
  inFlight : Option (List Text)
deriving Repr, DecidableEq

/-- What happens to a writer: an entry comes, or the batch under way settles, perhaps with a failure. -/
inductive LogEvent where
  | entry (t : Text)
  | settled (failure : Option Text)
deriving Repr, DecidableEq

/-- What a writer does: it starts to append a batch, or reports a failure. -/
inductive LogAction where
  | append (batch : List Text)
  | report (failure : Text)
deriving Repr, DecidableEq

namespace LogWriter

def idle : LogWriter := ⟨[], none⟩

/-- Sends out all that waits, unless a batch is under way. -/
def start (w : LogWriter) : LogWriter × List LogAction :=
  match w.inFlight, w.queue with
  | none, t :: rest => (⟨[], some (t :: rest)⟩, [.append (t :: rest)])
  | _, _ => (w, [])

def log (w : LogWriter) (t : Text) : LogWriter × List LogAction :=
  { w with queue := w.queue ++ [t] }.start

/-- Settles the batch under way: a failure is reported, and the next batch starts. -/
def settle (w : LogWriter) (failure : Option Text) : LogWriter × List LogAction :=
  match w.inFlight with
  | none => (w, [])
  | some _ =>
    let (w, next) := { w with inFlight := none }.start
    (w, (failure.map .report).toList ++ next)

def handle (w : LogWriter) : LogEvent → LogWriter × List LogAction
  | .entry t => w.log t
  | .settled failure => w.settle failure

def handleAll (w : LogWriter) : List LogEvent → LogWriter × List LogAction
  | [] => (w, [])
  | event :: rest =>
    let (w, now) := w.handle event
    let (w, later) := w.handleAll rest
    (w, now ++ later)

/-- What is still to be settled, counted so that settling a batch lowers it. -/
def backlog (w : LogWriter) : Nat := w.queue.length + w.inFlight.toList.length

theorem backlog_settle_lt {w : LogWriter} {batch : List Text} (h : w.inFlight = some batch)
    (failure : Option Text) : (w.settle failure).1.backlog < w.backlog := by
  obtain ⟨queue, inFlight⟩ := w
  subst h
  cases queue <;> simp [settle, start, backlog]

end LogWriter

end Typeahead
