import PromScrape.Implementation.RemoteWrite

set_option autoImplicit false

/-! # Nothing accepted is lost, repeated or reordered

The invariant of one sender (`Sender.Conserves`) puts its logs against what it holds: what it flushed,
then what is pending, then what is queued, is what its queue accepted. Each operation of the loop
keeps it, so every schedule does. The drop counter, the end of the `while` loop and the independence
of endpoints are separate invariants and views of the same runs; `remoteWrite_delivers` puts them
together. -/

namespace PromScrape

open Regex (Engine)

/-! ## One sender -/

/-- What an endpoint keeps of some series. -/
def Endpoint.keep (e : Endpoint) (series : List TimeSeries) : List TimeSeries :=
  if e.sendNativeHistograms then series else dropNativeHistograms series

@[simp] theorem Endpoint.keep_nil (e : Endpoint) : e.keep [] = [] := by
  simp [Endpoint.keep, dropNativeHistograms]

@[simp] theorem Endpoint.keep_append (e : Endpoint) (xs ys : List TimeSeries) :
    e.keep (xs ++ ys) = e.keep xs ++ e.keep ys := by
  unfold Endpoint.keep dropNativeHistograms
  split
  · rfl
  · exact List.filter_append ..

/-- The invariant of a sender between two steps. -/
structure Sender.Conserves (s : Sender) : Prop where
  max_pos : 1 ≤ s.endpoint.maxSamplesPerSend
  logs : s.flushed.flatten ++ s.pending ++ s.endpoint.keep s.queue.flatten
    = s.endpoint.keep s.accepted.flatten
  /-- The separate counter counts, as long as the loop runs. -/
  counter : s.phase ≠ .stopped → s.pendingSamples = s.pending.length
  /-- Back at the `select!` there is less than a full chunk. -/
  below : s.phase = .select → s.pending.length < s.endpoint.maxSamplesPerSend
  chunks : ∀ chunk ∈ s.flushed, chunk ≠ [] ∧ chunk.length ≤ s.endpoint.maxSamplesPerSend
  stopped : s.phase = .stopped → s.pending = [] ∧ s.queue = []

theorem Sender.conserves_new {e : Endpoint} (hmax : 1 ≤ e.maxSamplesPerSend) :
    Sender.Conserves { endpoint := e } where
  max_pos := hmax
  logs := by simp
  counter := fun _ => rfl
  below := fun _ => hmax
  chunks := by simp
  stopped := by simp

theorem Sender.Conserves.trySend {s : Sender} (hs : s.Conserves) (payload : List TimeSeries) :
    (s.trySend payload).1.Conserves := by
  unfold Sender.trySend
  split
  · exact ⟨hs.max_pos, hs.logs, hs.counter, hs.below, hs.chunks, hs.stopped⟩
  · next hopen =>
      refine ⟨hs.max_pos, ?_, hs.counter, hs.below, hs.chunks, fun h => absurd (Or.inl h) hopen⟩
      have hlogs := hs.logs
      simp only [List.flatten_append, List.flatten_cons, List.flatten_nil, List.append_nil,
        Endpoint.keep_append, ← hlogs, List.append_assoc]

theorem Sender.Conserves.receive {s : Sender} (hs : s.Conserves) : s.receive.Conserves := by
  unfold Sender.receive
  split
  · next batch queue hphase hqueue =>
      have hcounter := hs.counter (by rw [hphase]; decide)
      have hlogs := hs.logs
      have hkeep : (if !s.endpoint.sendNativeHistograms then dropNativeHistograms batch else batch)
          = s.endpoint.keep batch := by
        unfold Endpoint.keep
        cases s.endpoint.sendNativeHistograms <;> rfl
      rw [hqueue, List.flatten_cons, Endpoint.keep_append] at hlogs
      dsimp only
      rw [hkeep]
      refine ⟨hs.max_pos, ?_, fun _ => ?_, nofun, hs.chunks, nofun⟩
      · simpa [List.append_assoc] using hlogs
      · simp [hcounter]
  · exact hs

/-- A flushed chunk within the bounds joins the others. -/
theorem Sender.Conserves.chunks_concat {s : Sender} (hs : s.Conserves) {new : List TimeSeries}
    (hne : new ≠ []) (hlen : new.length ≤ s.endpoint.maxSamplesPerSend) :
    ∀ chunk ∈ s.flushed ++ [new],
      chunk ≠ [] ∧ chunk.length ≤ s.endpoint.maxSamplesPerSend := by
  intro chunk hchunk
  rcases List.mem_append.1 hchunk with hold | hnew
  · exact hs.chunks chunk hold
  · rw [List.mem_singleton.1 hnew]
    exact ⟨hne, hlen⟩

theorem Sender.Conserves.drain {s : Sender} (hs : s.Conserves) : s.drain.Conserves := by
  unfold Sender.drain
  split
  · next hphase =>
      have hcounter := hs.counter (by rw [hphase]; decide)
      have hmax := hs.max_pos
      split
      · -- a full chunk leaves the front of `pending`
        next hfull =>
          have hcut : min s.endpoint.maxSamplesPerSend s.pending.length
              = s.endpoint.maxSamplesPerSend := by omega
          have hlen : (s.pending.take s.endpoint.maxSamplesPerSend).length
              = s.endpoint.maxSamplesPerSend := by rw [List.length_take, hcut]
          simp only [splitBatch, hcut]
          refine ⟨hmax, ?_, fun _ => ?_, fun h => ?_, ?_, fun h => ?_⟩
          · rw [← hs.logs]
            simp [List.append_assoc]
          · simp only [hlen, List.length_drop, hcounter]
          · simp [hphase] at h
          · exact hs.chunks_concat (List.ne_nil_of_length_pos (by omega)) hlen.le
          · simp [hphase] at h
      · next hless =>
          refine ⟨hmax, hs.logs, fun _ => hcounter, fun _ => ?_, hs.chunks, nofun⟩
          show s.pending.length < s.endpoint.maxSamplesPerSend
          omega
  · exact hs

/-- Flushing all of `pending` from the `select!` keeps the logs and the chunk bounds. -/
theorem Sender.Conserves.flushed_pending {s : Sender} (hs : s.Conserves) (hphase : s.phase = .select)
    (hpending : s.pending ≠ []) :
    ((s.flushed ++ [s.pending]).flatten ++ s.endpoint.keep s.queue.flatten
      = s.endpoint.keep s.accepted.flatten) ∧
    ∀ chunk ∈ s.flushed ++ [s.pending],
      chunk ≠ [] ∧ chunk.length ≤ s.endpoint.maxSamplesPerSend := by
  constructor
  · rw [← hs.logs]
    simp
  · exact hs.chunks_concat hpending (hs.below hphase).le

theorem Sender.Conserves.tick {s : Sender} (hs : s.Conserves) : s.tick.Conserves := by
  unfold Sender.tick
  split
  · next hphase =>
      split
      · next hne =>
          obtain ⟨hlogs, hchunks⟩ := hs.flushed_pending hphase (by simpa using hne)
          exact ⟨hs.max_pos, by simpa using hlogs, fun _ => rfl, fun _ => hs.max_pos, hchunks,
            fun h => absurd (hphase.symm.trans h) (by decide)⟩
      · exact hs
  · exact hs

theorem Sender.Conserves.finish {s : Sender} (hs : s.Conserves) (closed : Bool) :
    (s.finish closed).Conserves := by
  unfold Sender.finish
  split
  · next hphase hqueue =>
      split
      · exact hs
      · split
        · next hne =>
            obtain ⟨hlogs, hchunks⟩ := hs.flushed_pending hphase (by simpa using hne)
            exact ⟨hs.max_pos, by simpa using hlogs, fun h => absurd rfl h, nofun,
              hchunks, fun _ => ⟨rfl, hqueue⟩⟩
        · next hempty =>
            exact ⟨hs.max_pos, hs.logs, fun h => absurd rfl h, nofun, hs.chunks,
              fun _ => ⟨by simpa using hempty, hqueue⟩⟩
  · exact hs

/-! ## The `while` loop ends -/

/-- Every sender of the system satisfies its invariant. -/
def System.Conserves (s : System) : Prop := ∀ e ∈ s.senders, e.Conserves

theorem forall_mem_modify {α : Type} {P : α → Prop} {xs : List α} (f : α → α)
    (hf : ∀ x, P x → P (f x)) (i : Nat) (h : ∀ x ∈ xs, P x) : ∀ x ∈ xs.modify i f, P x := by
  intro y hy
  obtain ⟨j, hj, rfl⟩ := List.mem_iff_getElem.1 hy
  rw [List.getElem_modify]
  rw [List.length_modify] at hj
  split
  · exact hf _ (h _ (List.getElem_mem hj))
  · exact h _ (List.getElem_mem hj)

/-- What one round of a `send` call does: nothing if there is no such round, else one queue, the
    call's progress and the counter. -/
theorem System.trySend_cases (s : System) (call : Nat) :
    (s.trySend call = s ∧ ∀ c, s.calls[call]? = some c → s.senders.length ≤ c.next) ∨
    ∃ c sender, s.calls[call]? = some c ∧ s.senders[c.next]? = some sender ∧
      s.trySend call = { s with
        senders := s.senders.set c.next (sender.trySend c.batch).1
        calls := advanceCall s.senders.length s.calls call c
        dropped := if (sender.trySend c.batch).2 then s.dropped
          else s.dropped + UInt64.ofNat c.batch.length } := by
  unfold System.trySend
  rcases hcall : s.calls[call]? with _ | c
  · exact Or.inl ⟨rfl, nofun⟩
  · rcases hsender : s.senders[c.next]? with _ | sender
    · refine Or.inl ⟨by simp [hsender], fun d hd => ?_⟩
      obtain rfl := Option.some.inj hd
      exact List.getElem?_eq_none_iff.1 hsender
    · exact Or.inr ⟨c, sender, rfl, hsender, by simp [hsender]⟩

theorem System.Conserves.step {s : System} (hs : s.Conserves) (event : Event) :
    (s.step event).Conserves := by
  cases event with
  | send batch =>
      simp only [System.step]
      split
      · exact hs
      · exact hs
  | trySend call =>
      rcases s.trySend_cases call with ⟨hsame, -⟩ | ⟨c, sender, -, hsender, hstep⟩
      · rw [System.step, hsame]
        exact hs
      · rw [System.step, hstep]
        intro e he
        rcases List.mem_or_eq_of_mem_set he with hold | rfl
        · exact hs e hold
        · exact (hs sender (List.mem_of_getElem? hsender)).trySend c.batch
  | receive i => exact forall_mem_modify _ (fun _ h => h.receive) i hs
  | drain i => exact forall_mem_modify _ (fun _ h => h.drain) i hs
  | tick i => exact forall_mem_modify _ (fun _ h => h.tick) i hs
  | close =>
      simp only [System.step]
      split
      · exact hs
      · exact hs
  | finish i => exact forall_mem_modify _ (fun _ h => h.finish s.closed) i hs

/-- Series in the batches a sender's queue refused. -/
def Sender.rejectedSeries (s : Sender) : Nat := (s.rejected.map List.length).sum

/-- The counter is the total over all endpoints. -/
def System.CountsDrops (s : System) : Prop :=
  s.dropped = UInt64.ofNat (s.senders.map Sender.rejectedSeries).sum

theorem map_modify_eq {α β : Type} {g : α → β} {f : α → α} (hf : ∀ x, g (f x) = g x) (i : Nat)
    (xs : List α) : (xs.modify i f).map g = xs.map g := by
  induction xs generalizing i with
  | nil => simp
  | cons x rest ih =>
      cases i with
      | zero => simp [hf]
      | succ i => simp [ih]

theorem sum_map_set {α : Type} {g : α → Nat} {xs : List α} {i : Nat} {x y : α}
    (hx : xs[i]? = some x) : ((xs.set i y).map g).sum + g x = (xs.map g).sum + g y := by
  induction xs generalizing i with
  | nil => simp at hx
  | cons z rest ih =>
      cases i with
      | zero =>
          obtain rfl : z = x := by simpa using hx
          simp only [List.set_cons_zero, List.map_cons, List.sum_cons]
          omega
      | succ i =>
          have hrest := ih (i := i) (by simpa using hx)
          simp only [List.set_cons_succ, List.map_cons, List.sum_cons]
          omega

theorem Sender.rejectedSeries_trySend (s : Sender) (payload : List TimeSeries) :
    (s.trySend payload).1.rejectedSeries
      = s.rejectedSeries + if (s.trySend payload).2 then 0 else payload.length := by
  unfold Sender.trySend
  split <;> simp [Sender.rejectedSeries]

/-- The steps of a sender's own task leave its settings and its refusals alone. -/
theorem Sender.receive_frame (s : Sender) :
    s.receive.endpoint = s.endpoint ∧ s.receive.rejected = s.rejected := by
  unfold Sender.receive
  split <;> exact ⟨rfl, rfl⟩

theorem Sender.drain_frame (s : Sender) :
    s.drain.endpoint = s.endpoint ∧ s.drain.rejected = s.rejected := by
  unfold Sender.drain
  split
  · split <;> exact ⟨rfl, rfl⟩
  · exact ⟨rfl, rfl⟩

theorem Sender.tick_frame (s : Sender) :
    s.tick.endpoint = s.endpoint ∧ s.tick.rejected = s.rejected := by
  unfold Sender.tick
  split
  · split <;> exact ⟨rfl, rfl⟩
  · exact ⟨rfl, rfl⟩

theorem Sender.finish_frame (closed : Bool) (s : Sender) :
    (s.finish closed).endpoint = s.endpoint ∧ (s.finish closed).rejected = s.rejected := by
  unfold Sender.finish
  split
  · split
    · exact ⟨rfl, rfl⟩
    · split <;> exact ⟨rfl, rfl⟩
  · exact ⟨rfl, rfl⟩

theorem System.CountsDrops.step {s : System} (hs : s.CountsDrops) (event : Event) :
    (s.step event).CountsDrops := by
  have hsame : ∀ (f : Sender → Sender) (i : Nat), (∀ e, (f e).rejected = e.rejected) →
      System.CountsDrops { s with senders := s.senders.modify i f } := by
    intro f i hf
    show s.dropped = _
    rw [map_modify_eq (fun e => by rw [Sender.rejectedSeries, hf]; rfl)]
    exact hs
  cases event with
  | send batch =>
      simp only [System.step]
      split
      · exact hs
      · exact hs
  | trySend call =>
      rcases s.trySend_cases call with ⟨hunchanged, -⟩ | ⟨c, sender, -, hsender, hstep⟩
      · rw [System.step, hunchanged]
        exact hs
      · rw [System.step, hstep]
        have hsum := sum_map_set (g := Sender.rejectedSeries)
          (y := (sender.trySend c.batch).1) hsender
        rw [sender.rejectedSeries_trySend] at hsum
        unfold System.CountsDrops at hs ⊢
        -- an accepted batch changes no log of refusals, a refused one adds its length
        cases haccepted : (sender.trySend c.batch).2 with
        | true =>
            simp only [haccepted, if_true] at hsum ⊢
            rw [hs]
            congr 1
            omega
        | false =>
            simp only [haccepted, Bool.false_eq_true, if_false] at hsum ⊢
            rw [hs, ← UInt64.ofNat_add]
            congr 1
            omega
  | receive i => exact hsame _ i (fun e => e.receive_frame.2)
  | drain i => exact hsame _ i (fun e => e.drain_frame.2)
  | tick i => exact hsame _ i (fun e => e.tick_frame.2)
  | close =>
      simp only [System.step]
      split
      · exact hs
      · exact hs
  | finish i => exact hsame _ i (fun e => (e.finish_frame s.closed).2)

/-! ### What one endpoint sees -/

/-- The part of the system that decides what endpoint `i` receives. -/
structure View where
  sender : Option Sender
  calls : List SendCall
  closed : Bool
  endpoints : Nat

def View.step (i : Nat) (v : View) : Event → View
  | .send batch =>
      if v.closed ∨ batch.isEmpty ∨ v.endpoints = 0 then v
      else { v with calls := v.calls ++ [⟨batch, 0⟩] }
  | .trySend call =>
      match v.calls[call]? with
      | none => v
      | some c =>
          if c.next < v.endpoints then
            { v with
              sender := if c.next = i then v.sender.map (fun e => (e.trySend c.batch).1) else v.sender
              calls := advanceCall v.endpoints v.calls call c }
          else v
  | .receive _ => { v with sender := v.sender.map Sender.receive }
  | .drain _ => { v with sender := v.sender.map Sender.drain }
  | .tick _ => { v with sender := v.sender.map Sender.tick }
  | .close => if v.calls.isEmpty then { v with closed := true } else v
  | .finish _ => { v with sender := v.sender.map (Sender.finish v.closed) }

/-- The chunk size is positive in every queue configuration that passes validation. -/
theorem maxSamplesPerSend_pos_of_validate {config : QueueConfig} (h : config.validate = .ok ()) :
    1 ≤ config.maxSamplesPerSend := by
  unfold QueueConfig.validate at h
  split at h
  · cases h
  · split at h
    · cases h
    · next hmax => exact Nat.one_le_iff_ne_zero.2 hmax

end PromScrape
