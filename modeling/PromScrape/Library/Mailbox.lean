import Mathlib

set_option autoImplicit false

/-! # Requests with one answer each

Many parties put requests into a bounded channel, and one party takes them out and answers each
through a channel of its own that carries one answer. When the receiving end goes away, what is still
in the channel is thrown away, and those who wait for it learn that no answer will come. A party sends
one request at most. -/

variable {Id Request Reply : Type}

structure Mailbox (Id Request Reply : Type) where
  capacity : Nat
  queue : List (Id × Request) := []
  /-- All that was ever put in. -/
  sent : List (Id × Request) := []
  answered : List ((Id × Request) × Reply) := []
  /-- What was thrown away with the receiving end. -/
  discarded : List (Id × Request) := []
  closed : Bool := false

namespace Mailbox

/-! ## Operations -/

def isFull (m : Mailbox Id Request Reply) : Bool := m.capacity ≤ m.queue.length

def send (m : Mailbox Id Request Reply) (id : Id) (request : Request) :
    Mailbox Id Request Reply :=
  { m with queue := m.queue ++ [(id, request)], sent := m.sent ++ [(id, request)] }

/-- Answer the oldest request, if there is one. -/
def answer (m : Mailbox Id Request Reply) (reply : Reply) : Mailbox Id Request Reply :=
  match m.queue with
  | [] => m
  | request :: rest => { m with queue := rest, answered := m.answered ++ [(request, reply)] }

def close (m : Mailbox Id Request Reply) : Mailbox Id Request Reply :=
  { m with queue := [], discarded := m.discarded ++ m.queue, closed := true }

/-- What waiting for an answer finds. -/
inductive Reception (Reply : Type) where
  | replied (reply : Reply)
  /-- No answer will come. -/
  | dropped
  | pending
deriving DecidableEq, Repr

def reception [DecidableEq Id] (m : Mailbox Id Request Reply) (id : Id) : Reception Reply :=
  match m.answered.find? (·.1.1 = id) with
  | some (_, reply) => .replied reply
  | none => if m.discarded.any (·.1 = id) then .dropped else .pending

@[simp] theorem answer_closed (m : Mailbox Id Request Reply) (reply : Reply) :
    (m.answer reply).closed = m.closed := by
  unfold answer
  split <;> rfl

@[simp] theorem answer_sent (m : Mailbox Id Request Reply) (reply : Reply) :
    (m.answer reply).sent = m.sent := by
  unfold answer
  split <;> rfl

theorem answer_eq {m : Mailbox Id Request Reply} {request : Id × Request}
    {rest : List (Id × Request)} (h : m.queue = request :: rest) (reply : Reply) :
    m.answer reply = { m with queue := rest, answered := m.answered ++ [(request, reply)] } := by
  unfold answer
  rw [h]

/-! ## Accounts -/

/-- Every request that was ever sent is answered, thrown away or still there, in this order, so that
    requests are answered first come, first served; and no party sends twice. -/
structure Accounted (m : Mailbox Id Request Reply) : Prop where
  order : m.answered.map Prod.fst ++ m.discarded ++ m.queue = m.sent
  once : (m.sent.map Prod.fst).Nodup
  bounded : m.queue.length ≤ m.capacity
  closed : m.closed = true → m.queue = []
  kept : m.closed = false → m.discarded = []

theorem accounted_empty (capacity : Nat) :
    Accounted ({ capacity := capacity } : Mailbox Id Request Reply) :=
  ⟨rfl, List.nodup_nil, Nat.zero_le _, fun _ => rfl, fun _ => rfl⟩

namespace Accounted

variable {m : Mailbox Id Request Reply}

theorem send (h : m.Accounted) {id : Id} (hnew : id ∉ m.sent.map Prod.fst) (hroom : m.isFull = false)
    (hopen : m.closed = false) (request : Request) : (m.send id request).Accounted where
  order := by
    rw [Mailbox.send, ← List.append_assoc, h.order]
  once := by
    rw [Mailbox.send, List.map_append, List.nodup_append]
    refine ⟨h.once, List.nodup_singleton _, ?_⟩
    intro a ha b hb hab
    simp only [List.map_cons, List.map_nil, List.mem_singleton] at hb
    exact hnew (hb ▸ hab ▸ ha)
  bounded := by
    simp only [isFull, decide_eq_false_iff_not] at hroom
    simp only [Mailbox.send, List.length_append, List.length_singleton]
    omega
  closed hclosed := by
    rw [Mailbox.send, hopen] at hclosed
    cases hclosed
  kept := h.kept

theorem answer (h : m.Accounted) (hopen : m.closed = false) (reply : Reply) :
    (m.answer reply).Accounted := by
  cases hqueue : m.queue with
  | nil =>
      unfold Mailbox.answer
      rw [hqueue]
      exact h
  | cons request rest =>
      have horder := h.order
      have hbounded := h.bounded
      rw [h.kept hopen, hqueue] at horder
      rw [hqueue, List.length_cons] at hbounded
      rw [answer_eq hqueue]
      refine ⟨?_, h.once, Nat.le_of_succ_le hbounded, ?_, h.kept⟩
      · rw [h.kept hopen, ← horder]
        simp
      · intro hclosed
        rw [hopen] at hclosed
        cases hclosed

theorem close (h : m.Accounted) : m.close.Accounted where
  order := by
    rw [Mailbox.close, List.append_nil, ← List.append_assoc]
    exact h.order
  once := h.once
  bounded := Nat.zero_le _
  closed _ := rfl
  kept hclosed := by cases hclosed

/-- A party has one request. -/
theorem request_unique (h : m.Accounted) {id : Id} {a b : Request} (ha : (id, a) ∈ m.sent)
    (hb : (id, b) ∈ m.sent) : a = b := by
  have hsame := List.inj_on_of_nodup_map h.once ha hb rfl
  exact congrArg Prod.snd hsame

theorem answered_sent (h : m.Accounted) {request : Id × Request} {reply : Reply}
    (hmem : (request, reply) ∈ m.answered) : request ∈ m.sent := by
  rw [← h.order]
  exact List.mem_append_left _ (List.mem_append_left _ (List.mem_map_of_mem hmem))

theorem discarded_sent (h : m.Accounted) {request : Id × Request} (hmem : request ∈ m.discarded) :
    request ∈ m.sent := by
  rw [← h.order]
  exact List.mem_append_left _ (List.mem_append_right _ hmem)

variable [DecidableEq Id]

/-- An answer that a party finds was given to its own request. -/
theorem of_replied (h : m.Accounted) {id : Id} {request : Request} (hsent : (id, request) ∈ m.sent)
    {reply : Reply} (hreply : m.reception id = .replied reply) :
    ((id, request), reply) ∈ m.answered := by
  unfold reception at hreply
  split at hreply
  · next entry found hfind =>
      injection hreply with hreply
      have hmem := List.mem_of_find?_eq_some hfind
      have hid := List.find?_some hfind
      rw [decide_eq_true_eq] at hid
      have hrequest : entry = (id, request) := by
        obtain ⟨entryId, entryRequest⟩ := entry
        obtain rfl : entryId = id := hid
        rw [h.request_unique (h.answered_sent hmem) hsent]
      rw [← hrequest, ← hreply]
      exact hmem
  · split at hreply <;> cases hreply

/-- A party that learns that no answer will come had its request thrown away. -/
theorem of_dropped (h : m.Accounted) {id : Id} {request : Request} (hsent : (id, request) ∈ m.sent)
    (hdropped : m.reception id = .dropped) : (id, request) ∈ m.discarded := by
  unfold reception at hdropped
  split at hdropped
  · cases hdropped
  · split at hdropped
    · next hany =>
        obtain ⟨⟨id', request'⟩, hmem, hid⟩ := List.any_eq_true.mp hany
        rw [decide_eq_true_eq] at hid
        obtain rfl : id' = id := hid
        rw [h.request_unique hsent (h.discarded_sent hmem)]
        exact hmem
    · cases hdropped

end Accounted

end Mailbox
