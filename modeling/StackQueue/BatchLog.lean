import Mathlib.Data.List.Basic

namespace BatchLog

/-!
# An atomic log of batches

Items are appended to the current batch, which is opened by the first of them
and closed as a whole.  Appending and closing are single steps here: a log is
what a concurrent container of batches can be compared with, operation by
operation.
-/

variable {Item : Type*}

/-- The batches closed so far, and the one that still takes items. -/
structure Log (Item : Type*) where
  closed : List (List Item)
  current : Option (List Item)

/-- A log without batches. -/
def Log.empty : Log Item :=
  ⟨[], none⟩

/-- What can be done to a log. -/
inductive Operation (Item : Type*) where
  | push (item : Item)
  | close
  deriving Repr, DecidableEq

/-- An operation that was performed, and what its caller is told. -/
inductive Event (Item : Type*) where
  /-- An item was appended, and opened a batch if one is named. -/
  | pushed (item : Item) (opened : Option Nat)
  /-- A batch was closed with these items. -/
  | closed (batch : Nat) (items : List Item)
  deriving Repr, DecidableEq

namespace Event

/-- What the caller of a push is told. -/
def pushed? : Event Item → Option (Item × Option Nat)
  | .pushed item opened => some (item, opened)
  | .closed _ _ => none

/-- What the caller of a close is told. -/
def closed? : Event Item → Option (Nat × List Item)
  | .pushed _ _ => none
  | .closed batch items => some (batch, items)

end Event

namespace Log

/-- Perform one operation; only a current batch can be closed. -/
def perform (log : Log Item) :
    Operation Item → Option (Log Item × Event Item)
  | .push item =>
      match log.current with
      | some items =>
          some ({ log with current := some (items ++ [item]) },
            .pushed item none)
      | none =>
          some ({ log with current := some [item] },
            .pushed item (some log.closed.length))
  | .close =>
      log.current.map fun items =>
        (⟨log.closed ++ [items], none⟩,
          .closed log.closed.length items)

/-- Perform operations one after another. -/
def performAll (log : Log Item) :
    List (Operation Item) → Option (Log Item × List (Event Item))
  | [] => some (log, [])
  | operation :: rest =>
      (log.perform operation).bind fun performed =>
        (performed.1.performAll rest).map fun later =>
          (later.1, performed.2 :: later.2)

/-- One more operation is performed after the others. -/
theorem performAll_concat
    {log middle after : Log Item}
    {operations : List (Operation Item)}
    {operation : Operation Item}
    {events : List (Event Item)}
    {event : Event Item}
    (earlier : log.performAll operations = some (middle, events))
    (last : middle.perform operation = some (after, event)) :
    log.performAll (operations ++ [operation]) =
      some (after, events ++ [event]) := by
  induction operations generalizing log events with
  | nil =>
      simp only [performAll, Option.some.injEq, Prod.mk.injEq] at earlier
      obtain ⟨isMiddle, isEmpty⟩ := earlier
      subst isMiddle isEmpty
      simp [performAll, last]
  | cons first rest inductionHypothesis =>
      obtain ⟨⟨next, begun⟩, performed, later⟩ :=
        Option.bind_eq_some_iff.mp earlier
      obtain ⟨⟨final, remaining⟩, continued, shape⟩ :=
        Option.map_eq_some_iff.mp later
      cases shape
      simp [performAll, performed, inductionHypothesis continued]

end Log

end BatchLog
