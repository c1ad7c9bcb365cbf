import Mathlib

set_option autoImplicit false

/-! # Watch channels

A channel that holds one value, overwritten by its sender, with one receiver. The receiver learns that
the value is newer than what it saw, never how often it changed in between, and a read gives the
latest value: publications are coalesced, and none is lost. -/

variable {α : Type}

structure Watch (α : Type) where
  value : α
  /-- The receiver has not seen the value. -/
  unseen : Bool := false
  /-- The sender is gone. -/
  closed : Bool := false

/-- What waiting for a change finds. -/
inductive Watch.Change where
  /-- A value that was not seen. -/
  | unseen
  /-- The value was seen, and no other will come. -/
  | closed
  /-- Nothing yet. -/
  | pending
deriving DecidableEq, Repr

namespace Watch

/-- Publish a value unless it is the current one. -/
def sendIfModified [DecidableEq α] (w : Watch α) (new : α) : Watch α :=
  if w.value = new then w else { w with value := new, unseen := true }

def close (w : Watch α) : Watch α := { w with closed := true }

def markSeen (w : Watch α) : Watch α := { w with unseen := false }

/-- Read the value and mark it as seen. -/
def borrowAndUpdate (w : Watch α) : α × Watch α := (w.value, w.markSeen)

def change (w : Watch α) : Change :=
  if w.unseen then .unseen else if w.closed then .closed else .pending

@[simp] theorem sendIfModified_value [DecidableEq α] (w : Watch α) (new : α) :
    (w.sendIfModified new).value = new := by
  unfold sendIfModified
  split
  · assumption
  · rfl

theorem sendIfModified_closed [DecidableEq α] (w : Watch α) (new : α) :
    (w.sendIfModified new).closed = w.closed := by
  unfold sendIfModified
  split <;> rfl

@[simp] theorem close_value (w : Watch α) : w.close.value = w.value := rfl

@[simp] theorem markSeen_value (w : Watch α) : w.markSeen.value = w.value := rfl

@[simp] theorem markSeen_closed (w : Watch α) : w.markSeen.closed = w.closed := rfl

/-- What the receiver read is still the value, or it will be told. -/
def UpToDate (w : Watch α) (read : α) : Prop := w.unseen = false → read = w.value

theorem upToDate_markSeen (w : Watch α) : w.markSeen.UpToDate w.value := fun _ => rfl

/-- **No publication is missed.** -/
theorem UpToDate.sendIfModified [DecidableEq α] {w : Watch α} {read : α} (h : w.UpToDate read)
    (new : α) : (w.sendIfModified new).UpToDate read := by
  unfold Watch.sendIfModified
  split
  · exact h
  · intro hseen
    cases hseen

theorem UpToDate.close {w : Watch α} {read : α} (h : w.UpToDate read) : w.close.UpToDate read := h

theorem UpToDate.eq_of_change {w : Watch α} {read : α} (h : w.UpToDate read)
    (hchange : w.change ≠ .unseen) : read = w.value := by
  refine h ?_
  unfold change at hchange
  split at hchange
  · exact absurd rfl hchange
  · next hunseen => simpa using hunseen

theorem closed_of_change {w : Watch α} (h : w.change = .closed) : w.closed = true := by
  unfold change at h
  split at h
  · cases h
  · split at h
    · assumption
    · cases h

end Watch
