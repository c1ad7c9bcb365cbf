import PromScrape.Library.Snappy
import PromScrape.Spec.Delivery
import PromScrape.Proofs.Relabel

set_option autoImplicit false

/-! # No chunk is lost between the loop and the receiver

The invariant follows one chunk through `flush`: handed over by the loop, on its way, and dealt with.
While it is on its way all its answers ask for another attempt, and the pause that comes next is known
from their number. -/

namespace PromScrape

variable {deps : RelabelDeps} {dd : DeliveryDeps} {task : EndpointTask deps} {r : EndpointRun}

/-! ## Answers -/

theorem Answer.not_asksAgain_of_accepts {statusText : Nat → String} (answer : Answer)
    (h : answer.accepts = true) : answer.asksAgain statusText = false := by
  cases answer with
  | failed err => cases h
  | response status samples histograms text =>
      have hstatus : isSuccess status = true := h
      simp [Answer.asksAgain, sendOnce, hstatus]

theorem Answer.accepts_of_sendOnce {statusText : Nat → String} {answer : Answer}
    (h : sendOnce statusText answer = .ok ()) : answer.accepts = true := by
  cases answer with
  | failed err => cases h
  | response status samples histograms text =>
      show isSuccess status = true
      by_contra hstatus
      rw [Bool.not_eq_true] at hstatus
      simp only [sendOnce, hstatus, Bool.false_eq_true, if_false] at h
      split_ifs at h

theorem Answer.not_accepts_of_sendOnce {statusText : Nat → String} {answer : Answer}
    {err : SendError} (h : sendOnce statusText answer = .error err) : answer.accepts = false := by
  cases answer with
  | failed err => rfl
  | response status samples histograms text =>
      show isSuccess status = false
      by_contra hstatus
      simp only [Bool.not_eq_false] at hstatus
      simp only [sendOnce, hstatus, if_true] at h
      cases h

/-! ## The loop -/

/-- A step of the loop keeps its invariant and hands over at most one chunk. -/
structure Sender.LoopStep (step : Sender → Sender) : Prop where
  conserves : ∀ s : Sender, s.Conserves → (step s).Conserves
  flushes : ∀ s : Sender, (step s).flushed = s.flushed ∨
    ∃ chunk, (step s).flushed = s.flushed ++ [chunk]

theorem Sender.loopStep_receive : Sender.LoopStep Sender.receive where
  conserves _ h := h.receive
  flushes s := by
    unfold Sender.receive
    split <;> exact .inl rfl

theorem Sender.loopStep_drain : Sender.LoopStep Sender.drain where
  conserves _ h := h.drain
  flushes s := by
    unfold Sender.drain
    split
    · split
      · exact .inr ⟨_, rfl⟩
      · exact .inl rfl
    · exact .inl rfl

theorem Sender.loopStep_tick : Sender.LoopStep Sender.tick where
  conserves _ h := h.tick
  flushes s := by
    unfold Sender.tick
    split
    · split
      · exact .inr ⟨_, rfl⟩
      · exact .inl rfl
    · exact .inl rfl

theorem Sender.loopStep_finish (closed : Bool) : Sender.LoopStep (Sender.finish closed) where
  conserves _ h := h.finish closed
  flushes s := by
    unfold Sender.finish
    split
    · split
      · exact .inl rfl
      · split
        · exact .inr ⟨_, rfl⟩
        · exact .inl rfl
    · exact .inl rfl

theorem Sender.handedOver_of_eq {s s' : Sender} (h : s'.flushed = s.flushed) :
    s.handedOver s' = none := by
  rw [Sender.handedOver, h, List.drop_length]
  rfl

theorem Sender.handedOver_of_concat {s s' : Sender} {chunk : List TimeSeries}
    (h : s'.flushed = s.flushed ++ [chunk]) : s.handedOver s' = some chunk := by
  rw [Sender.handedOver, h, List.drop_left]
  rfl

/-- Offering a batch to the queue flushes nothing. -/
theorem Sender.trySend_flushed (s : Sender) (payload : List TimeSeries) :
    (s.trySend payload).1.flushed = s.flushed := by
  unfold Sender.trySend
  split <;> rfl

/-! ## The invariant -/

/-- A chunk on its way with `n` pauses behind it, and the pause after the next one. -/
structure Delivery.Underway (dd : DeliveryDeps) (task : EndpointTask deps) (delivery : Delivery)
    (n : Nat) (backoff : Duration) : Prop where
  prepared : delivery.Prepared dd task
  opened : Retry.Open (Answer.asksAgain dd.statusText) delivery.answers
  paced : delivery.Paced dd task
  backoff : backoff =
    ⟨Retry.pause task.connection.minBackoff.nanos task.connection.maxBackoff.nanos n⟩

/-- What holds where `flush` is. -/
def FlushPhase.Inv (dd : DeliveryDeps) (task : EndpointTask deps) : FlushPhase → Prop
  | .sending delivery backoff => delivery.Underway dd task delivery.attempts.length backoff
  | .pausing delivery backoff =>
      ∃ n, delivery.attempts.length = n + 1 ∧ delivery.Underway dd task n backoff
  | _ => True

structure EndpointInv (dd : DeliveryDeps) (task : EndpointTask deps) (r : EndpointRun) : Prop where
  chunks : r.outcomes.map Prod.fst ++ (r.flush.delivery?.map Delivery.chunk).toList = r.sender.flushed
  justified : ∀ outcome ∈ r.outcomes, outcome.2.Justified dd task outcome.1
  wire : r.wire = r.outcomes.flatMap (·.2.exchanges) ++
    (r.flush.delivery?.map Delivery.exchanges).getD []
  conserves : r.flush ≠ .panicked → r.sender.Conserves
  phase : r.flush.Inv dd task

theorem endpointInv_init (task : EndpointTask deps) (hmax : 1 ≤ task.endpoint.maxSamplesPerSend) :
    EndpointInv dd task (EndpointRun.init task) where
  chunks := rfl
  justified := fun _ houtcome => absurd houtcome List.not_mem_nil
  wire := rfl
  conserves := fun _ => Sender.conserves_new hmax
  phase := trivial

/-- The queue fills on its own. -/
theorem EndpointInv.trySend (h : EndpointInv dd task r) (payload : List TimeSeries) :
    EndpointInv dd task (r.trySend payload) :=
  ⟨h.chunks.trans (r.sender.trySend_flushed payload).symm, h.justified, h.wire,
    fun hflush => (h.conserves hflush).trySend payload, h.phase⟩

/-! ## A chunk is handed over -/

/-- The loop has handed over a chunk, and `flush` has not done anything yet. -/
structure HandedOver (dd : DeliveryDeps) (task : EndpointTask deps) (r : EndpointRun)
    (chunk : List TimeSeries) : Prop where
  chunks : r.outcomes.map Prod.fst ++ [chunk] = r.sender.flushed
  justified : ∀ outcome ∈ r.outcomes, outcome.2.Justified dd task outcome.1
  wire : r.wire = r.outcomes.flatMap (·.2.exchanges)
  conserves : r.sender.Conserves

theorem justified_concat {outcomes : List (List TimeSeries × Outcome)} {chunk : List TimeSeries}
    {outcome : Outcome} (h : ∀ o ∈ outcomes, o.2.Justified dd task o.1)
    (hnew : outcome.Justified dd task chunk) :
    ∀ o ∈ outcomes ++ [(chunk, outcome)], o.2.Justified dd task o.1 := by
  intro o ho
  rcases List.mem_append.mp ho with hold | hlast
  · exact h o hold
  · rw [List.mem_singleton.mp hlast]
    exact hnew

/-- Nothing is sent of the chunk. -/
theorem HandedOver.settle {chunk : List TimeSeries} (h : HandedOver dd task r chunk)
    {outcome : Outcome} (houtcome : outcome.Justified dd task chunk)
    (hexchanges : outcome.exchanges = []) : EndpointInv dd task (r.settle chunk outcome) where
  chunks := by
    show (r.outcomes ++ [(chunk, outcome)]).map Prod.fst ++ [] = r.sender.flushed
    rw [List.append_nil, List.map_append]
    exact h.chunks
  justified := justified_concat h.justified houtcome
  wire := by
    show r.wire = (r.outcomes ++ [(chunk, outcome)]).flatMap _ ++ []
    rw [List.append_nil, List.flatMap_append, List.flatMap_singleton, hexchanges, List.append_nil,
      h.wire]
  conserves := fun _ => h.conserves
  phase := trivial

theorem HandedOver.panic {chunk : List TimeSeries} (h : HandedOver dd task r chunk)
    (hpanic : Outcome.Justified dd task chunk .panicked) :
    EndpointInv dd task (r.panic chunk) where
  chunks := by
    show (r.outcomes ++ [(chunk, Outcome.panicked)]).map Prod.fst ++ [] = r.sender.flushed
    rw [List.append_nil, List.map_append]
    exact h.chunks
  justified := justified_concat h.justified hpanic
  wire := by
    show r.wire = (r.outcomes ++ [(chunk, Outcome.panicked)]).flatMap _ ++ []
    rw [List.append_nil, List.flatMap_append, h.wire]
    exact (List.append_nil _).symm
  conserves := fun hflush => absurd rfl hflush
  phase := trivial

theorem HandedOver.beginFlush {chunk : List TimeSeries} (h : HandedOver dd task r chunk) :
    EndpointInv dd task (r.beginFlush dd task chunk) := by
  unfold EndpointRun.beginFlush
  split
  · next fault hfault => exact h.panic (.inl ⟨fault, hfault⟩)
  · next hempty => exact h.settle hempty rfl
  · next batch hne hbatch =>
      split
      · next hencode => exact h.panic (.inr ⟨batch, r.scratch, hbatch, hencode⟩)
      · next encoded scratch hencode =>
          have hscratch : HandedOver dd task { r with scratch := scratch } chunk :=
            ⟨h.chunks, h.justified, h.wire, h.conserves⟩
          simp only []
          split
          · next err hcompress =>
              exact hscratch.settle ⟨batch, r.scratch, encoded, scratch, hbatch, hencode, hcompress⟩
                rfl
          · next compressed hcompress =>
              have hnonempty : batch ≠ [] := by
                rintro rfl
                exact hne rfl
              refine ⟨h.chunks, h.justified, ?_, fun _ => h.conserves, ?_, Retry.open_nil, ?_, rfl⟩
              · rw [h.wire]
                exact (List.append_nil _).symm
              · exact ⟨hbatch, hnonempty, rfl, r.scratch, encoded, scratch, compressed, hencode,
                  hcompress, rfl⟩
              · intro i attempt hattempt
                cases hattempt

theorem EndpointInv.loopStep (h : EndpointInv dd task r) {step : Sender → Sender}
    (hstep : Sender.LoopStep step) : EndpointInv dd task (r.loopStep dd task step) := by
  unfold EndpointRun.loopStep
  split
  · next hidle =>
      have hconserves := hstep.conserves _ (h.conserves (by rw [hidle]; exact FlushPhase.noConfusion))
      have hchunks := h.chunks
      have hwire := h.wire
      rw [hidle] at hchunks hwire
      rcases hstep.flushes r.sender with hsame | ⟨chunk, hchunk⟩
      · simp only [Sender.handedOver_of_eq hsame]
        refine ⟨?_, h.justified, h.wire, fun _ => hconserves, h.phase⟩
        rw [hsame]
        exact h.chunks
      · simp only [Sender.handedOver_of_concat hchunk]
        refine HandedOver.beginFlush ⟨?_, h.justified, ?_, hconserves⟩
        · rw [hchunk, ← hchunks]
          simp [FlushPhase.delivery?]
        · simpa [FlushPhase.delivery?] using hwire
  · exact h

/-! ## An answer arrives -/

theorem Delivery.exchanges_concat (delivery : Delivery) (attempt : Attempt) :
    Delivery.exchanges { delivery with attempts := delivery.attempts ++ [attempt] } =
      delivery.exchanges ++ [(delivery.request, attempt.answer)] := by
  simp [Delivery.exchanges, Delivery.answers]

theorem Delivery.answers_concat (delivery : Delivery) (attempt : Attempt) :
    Delivery.answers { delivery with attempts := delivery.attempts ++ [attempt] } =
      delivery.answers ++ [attempt.answer] := by
  simp [Delivery.answers]

/-- The pause that goes with an answer. -/
theorem Delivery.Paced.concat {delivery : Delivery} (h : delivery.Paced dd task) {attempt : Attempt}
    (hpause : attempt.pause = if attempt.answer.asksAgain dd.statusText then
      some ⟨Retry.pause task.connection.minBackoff.nanos task.connection.maxBackoff.nanos
        delivery.attempts.length⟩ else none) :
    Delivery.Paced dd task { delivery with attempts := delivery.attempts ++ [attempt] } := by
  intro i a ha
  rw [List.getElem?_append] at ha
  split at ha
  · exact h i a ha
  · next hi =>
      obtain ⟨hlt, rfl⟩ := List.getElem?_eq_some_iff.mp ha
      have hlast : i = delivery.attempts.length := by
        rw [List.length_singleton] at hlt
        omega
      subst hlast
      simpa using hpause

/-- A final answer ends the attempts. -/
theorem Delivery.Underway.endedBy {delivery : Delivery} {backoff : Duration}
    (h : delivery.Underway dd task delivery.attempts.length backoff) {answer : Answer}
    (hfinal : answer.asksAgain dd.statusText = false) :
    Delivery.EndedBy dd task
      { delivery with attempts := delivery.attempts ++ [⟨answer, none⟩] } delivery.chunk answer where
  chunk := rfl
  prepared := ⟨h.prepared.batch, h.prepared.nonempty, h.prepared.written, h.prepared.request⟩
  paced := h.paced.concat (by rw [hfinal]; rfl)
  settled := by
    rw [Delivery.answers_concat]
    exact h.opened.settled hfinal

/-- A chunk is dealt with, the answer in the log. -/
theorem EndpointInv.settled {delivery : Delivery} {backoff : Duration} (h : EndpointInv dd task r)
    (hflush : r.flush = .sending delivery backoff) {answer : Answer} {outcome : Outcome}
    (houtcome : outcome.Justified dd task delivery.chunk)
    (hexchanges : outcome.exchanges = delivery.exchanges ++ [(delivery.request, answer)])
    (metrics : Metrics) (warnings : List PartialWrite) :
    EndpointInv dd task
      { EndpointRun.settle
          { r with wire := r.wire ++ [(delivery.request, answer)], warnings := warnings }
          delivery.chunk outcome with metrics := metrics } where
  chunks := by
    have hchunks := h.chunks
    rw [hflush] at hchunks
    show (r.outcomes ++ [(delivery.chunk, outcome)]).map Prod.fst ++ [] = r.sender.flushed
    rw [List.append_nil, List.map_append]
    exact hchunks
  justified := justified_concat h.justified houtcome
  wire := by
    have hwire := h.wire
    rw [hflush] at hwire
    show r.wire ++ [(delivery.request, answer)] =
      (r.outcomes ++ [(delivery.chunk, outcome)]).flatMap _ ++ []
    rw [List.append_nil, List.flatMap_append, List.flatMap_singleton, hexchanges, hwire]
    exact List.append_assoc ..
  conserves := fun _ => h.conserves (by rw [hflush]; exact FlushPhase.noConfusion)
  phase := trivial

theorem EndpointInv.answer (h : EndpointInv dd task r) (answer : Answer) :
    EndpointInv dd task (r.answer dd task answer) := by
  unfold EndpointRun.answer
  split
  · next delivery backoff hflush =>
      have hphase := h.phase
      rw [hflush] at hphase
      have hunderway : delivery.Underway dd task delivery.attempts.length backoff := hphase
      simp only []
      split
      · next hok =>
          have haccepts := Answer.accepts_of_sendOnce hok
          have hended := hunderway.endedBy (answer.not_asksAgain_of_accepts haccepts)
          have houtcome : Outcome.Justified dd task delivery.chunk (.delivered _) :=
            ⟨answer, hended, haccepts⟩
          exact h.settled hflush houtcome (delivery.exchanges_concat _) _ _
      · next message herr =>
          have hfinal : answer.asksAgain dd.statusText = false := by
            rw [Answer.asksAgain, herr]
          have houtcome : Outcome.Justified dd task delivery.chunk (.dropped _ message) :=
            ⟨answer, hunderway.endedBy hfinal, herr⟩
          exact h.settled hflush houtcome (delivery.exchanges_concat _) _ _
      · next message herr =>
          have hagain : answer.asksAgain dd.statusText = true := by
            rw [Answer.asksAgain, herr]
          have hwire := h.wire
          have hchunks := h.chunks
          rw [hflush] at hwire hchunks
          refine ⟨hchunks, h.justified, ?_, fun _ => h.conserves (by rw [hflush]; exact
            FlushPhase.noConfusion), delivery.attempts.length, List.length_append, ?_⟩
          · show r.wire ++ [(delivery.request, answer)] = r.outcomes.flatMap _ ++
              Delivery.exchanges _
            rw [delivery.exchanges_concat, hwire]
            exact List.append_assoc ..
          · refine ⟨⟨hunderway.prepared.batch, hunderway.prepared.nonempty,
              hunderway.prepared.written, hunderway.prepared.request⟩, ?_, ?_, hunderway.backoff⟩
            · rw [Delivery.answers_concat]
              exact hunderway.opened.concat hagain
            · refine hunderway.paced.concat ?_
              rw [hagain, if_pos rfl, hunderway.backoff]
  · exact h

theorem EndpointInv.wake (h : EndpointInv dd task r) : EndpointInv dd task (r.wake task) := by
  unfold EndpointRun.wake
  split
  · next delivery backoff hflush =>
      have hphase := h.phase
      have hwire := h.wire
      have hchunks := h.chunks
      rw [hflush] at hphase hwire hchunks
      obtain ⟨n, hlength, hunderway⟩ := hphase
      refine ⟨hchunks, h.justified, hwire, fun _ => h.conserves (by rw [hflush]; exact
        FlushPhase.noConfusion), hunderway.prepared, hunderway.opened, hunderway.paced, ?_⟩
      rw [hlength, Retry.pause, hunderway.backoff]
  · exact h

/-! ## Every run -/

theorem EndpointInv.step (h : EndpointInv dd task r) (event : EndpointEvent) :
    EndpointInv dd task (EndpointRun.step dd task r event) := by
  cases event with
  | trySend payload => exact h.trySend payload
  | receive => exact h.loopStep Sender.loopStep_receive
  | drain => exact h.loopStep Sender.loopStep_drain
  | tick => exact h.loopStep Sender.loopStep_tick
  | finish closed => exact h.loopStep (Sender.loopStep_finish closed)
  | answer a => exact h.answer a
  | wake => exact h.wake

theorem endpoint_invariant (dd : DeliveryDeps) (task : EndpointTask deps)
    (hmax : 1 ≤ task.endpoint.maxSamplesPerSend) (events : List EndpointEvent) :
    EndpointInv dd task (EndpointRun.after dd task events) :=
  Transition.run_invariant (fun _ event h => h.step event) (endpointInv_init task hmax) events

/-! ## What receivers accepted -/

theorem Delivery.filter_exchanges (delivery : Delivery) :
    delivery.exchanges.filter (·.2.accepts) =
      (delivery.answers.filter Answer.accepts).map (delivery.request, ·) := by
  rw [Delivery.exchanges, List.filter_map]
  rfl

/-- Of the attempts of a chunk that was delivered, the last one was accepted; of others none. -/
theorem Outcome.Justified.accepted {chunk : List TimeSeries} {outcome : Outcome}
    (h : outcome.Justified dd task chunk) :
    (outcome.exchanges.filter (·.2.accepts)).map Prod.fst = outcome.accepted.toList := by
  cases outcome with
  | empty | panicked | uncompressed err => rfl
  | delivered delivery =>
      obtain ⟨last, hended, haccepts⟩ := h
      rw [Outcome.exchanges, delivery.filter_exchanges,
        hended.settled.filter_accept Answer.not_asksAgain_of_accepts, if_pos haccepts]
      rfl
  | dropped delivery message =>
      obtain ⟨last, hended, herr⟩ := h
      rw [Outcome.exchanges, delivery.filter_exchanges,
        hended.settled.filter_accept Answer.not_asksAgain_of_accepts,
        Answer.not_accepts_of_sendOnce herr]
      rfl

theorem filter_exchanges_outcomes {outcomes : List (List TimeSeries × Outcome)}
    (h : ∀ o ∈ outcomes, o.2.Justified dd task o.1) :
    ((outcomes.flatMap (·.2.exchanges)).filter (·.2.accepts)).map Prod.fst =
      outcomes.filterMap (·.2.accepted) := by
  induction outcomes with
  | nil => rfl
  | cons outcome rest ih =>
      have hrest := ih fun o ho => h o (List.mem_cons_of_mem _ ho)
      have hhead := (h outcome List.mem_cons_self).accepted
      rw [List.flatMap_cons, List.filter_append, List.map_append, hrest, hhead, List.filterMap_cons]
      cases outcome.2.accepted <;> rfl

/-- A chunk still on its way was not accepted. -/
theorem FlushPhase.Inv.filter_exchanges {phase : FlushPhase} (h : phase.Inv dd task) :
    ((phase.delivery?.map Delivery.exchanges).getD []).filter (·.2.accepts) = [] := by
  have hopen : ∀ (delivery : Delivery) (n : Nat) (backoff : Duration),
      delivery.Underway dd task n backoff → delivery.exchanges.filter (·.2.accepts) = [] := by
    intro delivery n backoff hunderway
    rw [delivery.filter_exchanges, hunderway.opened.filter_accept Answer.not_asksAgain_of_accepts]
    rfl
  cases phase with
  | idle | panicked => rfl
  | sending delivery backoff => exact hopen delivery _ backoff h
  | pausing delivery backoff =>
      obtain ⟨n, -, hunderway⟩ := h
      exact hopen delivery n backoff hunderway

/-- What was accepted is each delivered chunk's request, once and in order. -/
theorem EndpointInv.accepted (h : EndpointInv dd task r) :
    (r.wire.filter (·.2.accepts)).map Prod.fst = r.outcomes.filterMap (·.2.accepted) := by
  rw [h.wire, List.filter_append, h.phase.filter_exchanges, List.append_nil,
    filter_exchanges_outcomes h.justified]

/-- An endpoint that has returned has dealt with all that its queue accepted. -/
theorem EndpointInv.returned (h : EndpointInv dd task r) (hstopped : r.sender.phase = .stopped)
    (hidle : r.flush = .idle) :
    (r.outcomes.map Prod.fst).flatten = r.sender.endpoint.keep r.sender.accepted.flatten := by
  have hconserves := h.conserves (by rw [hidle]; exact FlushPhase.noConfusion)
  have hchunks := h.chunks
  obtain ⟨hpending, hqueue⟩ := hconserves.stopped hstopped
  rw [hidle, show (FlushPhase.idle.delivery?.map Delivery.chunk).toList = [] from rfl,
    List.append_nil] at hchunks
  have hlogs := hconserves.logs
  rw [hpending, hqueue] at hlogs
  rw [hchunks, ← hlogs]
  simp

/-- **Every accepted batch is delivered in order, or its end is accounted for.** After every schedule
    of offers, loop steps, answers and pauses: each chunk that the loop handed over was dealt with, or
    is the one on its way; only a final answer ends its attempts, which all send the same request, with
    doubling pauses; and what receivers accepted is each delivered chunk once, in order. A chunk that
    cannot be relabeled or encoded ends the task by a panic. -/
theorem endpoint_delivers (dd : DeliveryDeps) (task : EndpointTask deps)
    (hmax : 1 ≤ task.endpoint.maxSamplesPerSend) (events : List EndpointEvent) :
    Delivers dd task (EndpointRun.after dd task events) := by
  have h := endpoint_invariant dd task hmax events
  exact ⟨h.chunks, h.justified, h.wire, h.accepted, fun hflush => (h.conserves hflush).logs,
    h.returned⟩

/-- Blocks without copies are compressed. -/
def snappyDeps : DeliveryDeps where
  compress bytes :=
    match Snappy.compressLiteral bytes with
    | some compressed => .ok compressed
    | none => .error "not a literal"
  statusText status := if status = 503 then "503 Service Unavailable" else toString status

def snappyTask : EndpointTask fragmentDeps where
  Cert := Unit
  endpoint := { sendNativeHistograms := false, maxSamplesPerSend := 2000, slots := 100 }
  connection :=
    { name := "http://a", url := "http://a", protocol := .writeRequestV1
      client := { timeout := .fromSecs 30 }, credentials := .none, extraHeaders := []
      minBackoff := .fromMillis 30, maxBackoff := .fromSecs 5 }
  writeRelabelConfigs := []

/-- One series, accepted at the third attempt; then the endpoint returns. -/
def thirdAttempt : List EndpointEvent :=
  [.trySend [⟨[⟨"a", "b"⟩], ⟨.zero, 1⟩, 0, none⟩], .receive, .drain, .tick,
    .answer (.failed "connection reset"), .wake, .answer (.response 503 none none "busy"), .wake,
    .answer (.response 200 none none ""), .finish true]

theorem endpoint_delivers_thirdAttempt :
    (EndpointRun.after snappyDeps snappyTask thirdAttempt).wire.length = 3 ∧
      Delivers snappyDeps snappyTask (EndpointRun.after snappyDeps snappyTask thirdAttempt) :=
  ⟨by decide +kernel, endpoint_delivers snappyDeps snappyTask (by decide) thirdAttempt⟩

end PromScrape
