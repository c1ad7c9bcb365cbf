import PromScrape.Proofs.Delivery

set_option autoImplicit false

/-! # The counters of an endpoint

Each step keeps the counters equal to what the logs hold. Only an answer and a refused batch move one;
a partial write is reported with the answer that ends the attempts, so the earlier ones warn of
nothing. -/

namespace PromScrape

variable {deps : RelabelDeps} {dd : DeliveryDeps} {task : EndpointTask deps} {r : EndpointRun}

theorem Telemetry.Value.add_ofNat {v : Telemetry.Value} {n : Nat} (h : v.get = UInt64.ofNat n)
    (m : Nat) : (v.add (UInt64.ofNat m)).get = UInt64.ofNat (n + m) := by
  show v.bits + UInt64.ofNat m = _
  have hbits : v.bits = UInt64.ofNat n := h
  rw [hbits, UInt64.ofNat_add]

/-! ## Warnings -/

theorem partialWrites_of_not_accepts {protocol : ProtobufMessage} {written : Written}
    {answer : Answer} (h : answer.accepts = false) : partialWrites protocol written answer = [] := by
  cases answer with
  | failed err => rfl
  | response status samples histograms text =>
      have hstatus : isSuccess status = false := h
      simp [partialWrites, hstatus]

/-- While a request is open, nothing is warned about. -/
theorem partialWrites_of_open {protocol : ProtobufMessage} {written : Written}
    {answers : List Answer} (h : Retry.Open (Answer.asksAgain dd.statusText) answers) :
    answers.flatMap (partialWrites protocol written) = [] := by
  rw [List.flatMap_eq_nil_iff]
  intro answer hanswer
  refine partialWrites_of_not_accepts ?_
  by_contra haccepts
  have hfinal : answer.asksAgain dd.statusText = false :=
    answer.not_asksAgain_of_accepts (by simpa using haccepts)
  rw [h answer hanswer] at hfinal
  cases hfinal

/-! ## Steps -/

theorem counted_init (task : EndpointTask deps) : Counted dd task (EndpointRun.init task) :=
  ⟨rfl, rfl, rfl, rfl, rfl, rfl⟩

theorem Counted.trySend (h : Counted dd task r) (payload : List TimeSeries) :
    Counted dd task (r.trySend payload) := by
  by_cases hfull : r.sender.phase = .stopped ∨ r.sender.endpoint.slots ≤ r.sender.queue.length
  · simp only [EndpointRun.trySend, Sender.trySend, if_pos hfull, Bool.false_eq_true, if_false]
    refine ⟨h.batches, h.sentBytes, h.failed, h.retries, ?_, h.warnings⟩
    show (r.metrics.remoteWriteDroppedSeriesTotal.add _).get =
      UInt64.ofNat ((r.sender.rejected ++ [payload]).map List.length).sum
    rw [Telemetry.Value.add_ofNat h.droppedSeries]
    simp
  · simp only [EndpointRun.trySend, Sender.trySend, if_neg hfull, if_true]
    exact ⟨h.batches, h.sentBytes, h.failed, h.retries, h.droppedSeries, h.warnings⟩

/-- A chunk of which nothing is sent moves no counter. -/
theorem Counted.unsent (h : Counted dd task r) {r' : EndpointRun} {chunk : List TimeSeries}
    {outcome : Outcome} (houtcomes : r'.outcomes = r.outcomes ++ [(chunk, outcome)])
    (haccepted : outcome.accepted = none) (hdropped : outcome.isDropped = false)
    (hdelivered : outcome.isDelivered = false)
    (hshort : outcome.partialWrites task.connection.protocol = [])
    (hmetrics : r'.metrics = r.metrics) (hwarnings : r'.warnings = r.warnings)
    (hwire : r'.wire = r.wire) (hrejected : r'.sender.rejected = r.sender.rejected) :
    Counted dd task r' := by
  constructor
  · rw [hmetrics, houtcomes, List.countP_append, List.countP_singleton, hdelivered, h.batches]
    rfl
  · rw [hmetrics, houtcomes, List.filterMap_append, h.sentBytes]
    simp [haccepted]
  · rw [hmetrics, houtcomes, List.countP_append, List.countP_singleton, hdropped, h.failed]
    rfl
  · rw [hmetrics, hwire, h.retries]
  · rw [hmetrics, hrejected, h.droppedSeries]
  · rw [hwarnings, houtcomes, List.flatMap_append, List.flatMap_singleton, hshort,
      List.append_nil, h.warnings]

theorem Counted.beginFlush (h : Counted dd task r) (chunk : List TimeSeries) :
    Counted dd task (r.beginFlush dd task chunk) := by
  unfold EndpointRun.beginFlush
  split
  · exact h.unsent rfl rfl rfl rfl rfl rfl rfl rfl rfl
  · exact h.unsent rfl rfl rfl rfl rfl rfl rfl rfl rfl
  · split
    · exact h.unsent rfl rfl rfl rfl rfl rfl rfl rfl rfl
    · simp only []
      split
      · exact h.unsent rfl rfl rfl rfl rfl rfl rfl rfl rfl
      · exact ⟨h.batches, h.sentBytes, h.failed, h.retries, h.droppedSeries, h.warnings⟩

theorem Counted.loopStep (h : Counted dd task r) {step : Sender → Sender}
    (hstep : ∀ s : Sender, (step s).rejected = s.rejected) :
    Counted dd task (r.loopStep dd task step) := by
  have hsender : Counted dd task { r with sender := step r.sender } := by
    refine ⟨h.batches, h.sentBytes, h.failed, h.retries, ?_, h.warnings⟩
    show _ = UInt64.ofNat ((step r.sender).rejected.map List.length).sum
    rw [hstep]
    exact h.droppedSeries
  unfold EndpointRun.loopStep
  split
  · simp only []
    split
    · exact hsender.beginFlush _
    · exact hsender
  · exact h

theorem Counted.answer (h : Counted dd task r) (hinv : EndpointInv dd task r) (answer : Answer) :
    Counted dd task (r.answer dd task answer) := by
  unfold EndpointRun.answer
  split
  · next delivery backoff hflush =>
      have hphase := hinv.phase
      rw [hflush] at hphase
      have hunderway : delivery.Underway dd task delivery.attempts.length backoff := hphase
      have hnone : delivery.answers.flatMap
          (partialWrites task.connection.protocol delivery.written) = [] :=
        partialWrites_of_open hunderway.opened
      simp only []
      split
      · next hok =>
          have haccepts := Answer.accepts_of_sendOnce hok
          have hfinal : answer.asksAgain dd.statusText = false :=
            answer.not_asksAgain_of_accepts haccepts
          refine ⟨?_, ?_, ?_, ?_, h.droppedSeries, ?_⟩
          · show (r.metrics.remoteWriteBatchesTotal.add (UInt64.ofNat 1)).get = _
            rw [Telemetry.Value.add_ofNat h.batches]
            simp [EndpointRun.settle, List.countP_append, Outcome.isDelivered]
          · show (r.metrics.remoteWriteSentBytesTotal.add _).get = _
            rw [Telemetry.Value.add_ofNat h.sentBytes]
            simp [EndpointRun.settle, Outcome.accepted]
          · simpa [EndpointRun.settle, List.countP_append, Outcome.isDropped] using h.failed
          · simpa [EndpointRun.settle, List.countP_append, hfinal] using h.retries
          · simp [EndpointRun.settle, Outcome.partialWrites, Delivery.answers_concat, hnone,
              h.warnings]
      · next message herr =>
          have hnot := Answer.not_accepts_of_sendOnce herr
          have hfinal : answer.asksAgain dd.statusText = false := by
            rw [Answer.asksAgain, herr]
          refine ⟨?_, ?_, ?_, ?_, h.droppedSeries, ?_⟩
          · simpa [EndpointRun.settle, List.countP_append, Outcome.isDelivered] using h.batches
          · simpa [EndpointRun.settle, Outcome.accepted] using h.sentBytes
          · show (r.metrics.remoteWriteFailedBatchesTotal.add (UInt64.ofNat 1)).get = _
            rw [Telemetry.Value.add_ofNat h.failed]
            simp [EndpointRun.settle, List.countP_append, Outcome.isDropped]
          · simpa [EndpointRun.settle, List.countP_append, hfinal] using h.retries
          · simp [EndpointRun.settle, Outcome.partialWrites, partialWrites_of_not_accepts hnot,
              h.warnings]
      · next message herr =>
          have hnot := Answer.not_accepts_of_sendOnce herr
          have hagain : answer.asksAgain dd.statusText = true := by
            rw [Answer.asksAgain, herr]
          refine ⟨h.batches, h.sentBytes, h.failed, ?_, h.droppedSeries, ?_⟩
          · show (r.metrics.remoteWriteRetriesTotal.add (UInt64.ofNat 1)).get = _
            rw [Telemetry.Value.add_ofNat h.retries]
            simp [List.countP_append, hagain]
          · simp [partialWrites_of_not_accepts hnot, h.warnings]
  · exact h

theorem Counted.wake (h : Counted dd task r) : Counted dd task (r.wake task) := by
  unfold EndpointRun.wake
  split
  · exact ⟨h.batches, h.sentBytes, h.failed, h.retries, h.droppedSeries, h.warnings⟩
  · exact h

theorem Counted.step (h : Counted dd task r) (hinv : EndpointInv dd task r)
    (event : EndpointEvent) : Counted dd task (EndpointRun.step dd task r event) := by
  cases event with
  | trySend payload => exact h.trySend payload
  | receive => exact h.loopStep fun s => (s.receive_frame).2
  | drain => exact h.loopStep fun s => (s.drain_frame).2
  | tick => exact h.loopStep fun s => (s.tick_frame).2
  | finish closed => exact h.loopStep fun s => (s.finish_frame closed).2
  | answer a => exact h.answer hinv a
  | wake => exact h.wake

/-- **The counters tell the truth.** After every schedule the endpoint's counters are the numbers of
    delivered and of dropped batches, of accepted bytes, of attempts that were repeated and of series
    that the queue refused, and the warnings are the shortfalls that receivers reported. -/
theorem endpoint_counted (dd : DeliveryDeps) (task : EndpointTask deps)
    (hmax : 1 ≤ task.endpoint.maxSamplesPerSend) (events : List EndpointEvent) :
    Counted dd task (EndpointRun.after dd task events) := by
  have hstep : ∀ (r : EndpointRun) (event : EndpointEvent),
      EndpointInv dd task r ∧ Counted dd task r →
        EndpointInv dd task (EndpointRun.step dd task r event) ∧
          Counted dd task (EndpointRun.step dd task r event) :=
    fun _ event h => ⟨h.1.step event, h.2.step h.1 event⟩
  exact (Transition.run_invariant hstep ⟨endpointInv_init task hmax, counted_init task⟩ events).2

theorem endpoint_counted_thirdAttempt :
    (EndpointRun.after snappyDeps snappyTask thirdAttempt).metrics.remoteWriteRetriesTotal.get = 2 ∧
      Counted snappyDeps snappyTask (EndpointRun.after snappyDeps snappyTask thirdAttempt) :=
  ⟨by decide +kernel, endpoint_counted snappyDeps snappyTask (by decide) thirdAttempt⟩

end PromScrape
