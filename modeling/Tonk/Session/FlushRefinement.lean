import Tonk.Session.FlushRuns

/-!
A flush that does not fail does what `Flushing` does with the datagrams it takes off the queues, and sends
the packets `Flushing` makes of them. So what is known of those packets holds for its datagrams.
-/

set_option autoImplicit false

namespace Tonk.Session
open Protocol

/-- A packet on its way: with padding behind it, and its reliable part in the FEC encoder. -/
def Emitted.Sends (e : Emitted) (p : Packet) : Prop :=
  (∃ padding, e.messages = p.messages ++ padding) ∧
    e.original = if p.messages.length ≤ p.reliableOffset then none
      else some (p.reliableOffset, p.messages.drop p.reliableOffset)

namespace FlushRun

variable {z : Zstd} {config : FlushConfig} {s s' : FlushRun} {f : Flushing}

/-- The locals are those of `f`, and its packets went out behind the full datagrams of the unreliable
queue. -/
structure Refines (s : FlushRun) (f : Flushing) : Prop where
  locals_eq : f = ⟨s.compressor, s.finalUnreliable, s.combined, s.reliableOffset, s.prevCompressFailed,
    f.packets⟩
  emitted_eq : ∃ full sent, s.emitted = full ++ sent ∧ (∀ e ∈ full, e.original = none) ∧
    List.Forall₂ Emitted.Sends sent f.packets

def Failed (s : FlushRun) : Prop := ∃ error, s.phase = .returned (some error)

theorem Refines.openCombined (h : s.Refines f) : s.openCombined.Refines f.openCombined := by
  obtain ⟨hlocals, hemitted⟩ := h
  rw [hlocals]
  unfold FlushRun.openCombined Flushing.openCombined
  dsimp only
  cases hcombined : s.combined with
  | some bytes => exact ⟨by rw [hcombined], hemitted⟩
  | none =>
    cases hfinal : s.finalUnreliable with
    | none => exact ⟨rfl, hemitted⟩
    | some unreliable => exact ⟨rfl, hemitted⟩

theorem Refines.append (h : s.Refines f) (part : Part) :
    (s.append part).Refines { f with combined := some (f.combined.getD [] ++ part.wire) } := by
  obtain ⟨hlocals, hemitted⟩ := h
  rw [hlocals]
  exact ⟨rfl, hemitted⟩

theorem Refines.compressed (h : s.Refines f) (compressor : RingBuffer) (prevCompressFailed : Bool) :
    Refines { s with compressor := compressor, prevCompressFailed := prevCompressFailed }
      { f with compressor := compressor, prevCompressFailed := prevCompressFailed } := by
  obtain ⟨hlocals, hemitted⟩ := h
  rw [hlocals]
  exact ⟨rfl, hemitted⟩

theorem Refines.cleared (h : s.Refines f) :
    Refines { s with prevCompressFailed := false } { f with prevCompressFailed := false } := by
  obtain ⟨hlocals, hemitted⟩ := h
  rw [hlocals]
  exact ⟨rfl, hemitted⟩

theorem Refines.restart (h : s.Refines f) : s.restart.Refines
    { f with combined := some [], reliableOffset := 0, prevCompressFailed := false } := by
  obtain ⟨hlocals, hemitted⟩ := h
  rw [hlocals]
  exact ⟨rfl, hemitted⟩

theorem Refines.sendQueuedReliable (h : s.Refines f) {t : FlushTurn}
    (hs : s.sendQueuedReliable config t = .ok s') : s'.Refines f.shrinkWrapAndSendReliable := by
  obtain ⟨hlocals, full, sent, hemitted, hfull, hsent⟩ := h
  have hpacket : ∀ e : Emitted, e.Sends ⟨s.combined.getD [], s.reliableOffset⟩ →
      ∃ full sent, s.emitted ++ [e] = full ++ sent ∧ (∀ e ∈ full, e.original = none) ∧
        List.Forall₂ Emitted.Sends sent (f.packets ++ [⟨s.combined.getD [], s.reliableOffset⟩]) := by
    intro e he
    refine ⟨full, sent ++ [e], ?_, hfull, List.rel_append hsent (.cons he .nil)⟩
    rw [hemitted, List.append_assoc]
  rw [hlocals]
  unfold FlushRun.sendQueuedReliable at hs
  dsimp only at hs
  split at hs
  · next hnone =>
    cases hs
    exact ⟨rfl, hpacket _ ⟨⟨_, rfl⟩, (if_pos hnone).symm⟩⟩
  · next hsome =>
    split at hs
    · cases hs
    · cases hs
      exact ⟨rfl, hpacket _ ⟨⟨_, rfl⟩, (if_neg hsome).symm⟩⟩

theorem Refines.storeDatagram (h : s.Refines f) (config : FlushConfig) (t : FlushTurn)
    (queueIndex : QueueIndex) (syncOverhead : Nat) (datagram : Bytes) :
    (s.storeDatagram config t queueIndex syncOverhead datagram).Failed ∨
      (s.storeDatagram config t queueIndex syncOverhead datagram).Refines
        (f.storeDatagram syncOverhead datagram) := by
  have hcombined : f.combined = s.combined := by rw [h.locals_eq]
  unfold FlushRun.storeDatagram Flushing.storeDatagram
  rw [hcombined]
  split
  · cases hs : s.sendQueuedReliable config t with
    | error error => exact .inl ⟨_, rfl⟩
    | ok s' =>
      dsimp only
      split
      · exact .inr ((h.sendQueuedReliable hs).restart.append _)
      · exact .inl ⟨_, rfl⟩
  · right
    split
    · have happended := (h.append ⟨queueIndex, writeMessageFrameHeader messageTypeCompressed 0,
        []⟩).append ⟨queueIndex, datagram, datagram⟩
      rw [hcombined] at happended
      exact happended
    · have happended := h.append ⟨queueIndex, datagram, datagram⟩
      rw [hcombined] at happended
      exact happended

theorem Refines.storeCompressed (h : s.Refines f) (config : FlushConfig) (t : FlushTurn)
    (queueIndex : QueueIndex) (datagram written : Bytes) :
    (s.storeCompressed config t queueIndex datagram written).Failed ∨
      (s.storeCompressed config t queueIndex datagram written).Refines (f.storeCompressed written) := by
  have hcombined : f.combined = s.combined := by rw [h.locals_eq]
  unfold FlushRun.storeCompressed Flushing.storeCompressed
  dsimp only
  rw [hcombined]
  split
  · right
    have happended := h.cleared.append ⟨queueIndex,
      writeMessageFrameHeader messageTypeCompressed written.length ++ written, datagram⟩
    simp only [hcombined] at happended
    exact happended
  · split
    · cases hs : FlushRun.sendQueuedReliable config { s with prevCompressFailed := false } t with
      | error error => exact .inl ⟨_, rfl⟩
      | ok s' =>
        right
        exact (h.cleared.sendQueuedReliable hs).restart.append ⟨queueIndex,
          writeMessageFrameHeader messageTypeCompressed written.length ++ written, datagram⟩
    · exact .inl ⟨_, rfl⟩

/-- `queueIndex > Queue_Unmetered && Deps.EnableCompression`. -/
def attempts (config : FlushConfig) (queueIndex : QueueIndex) : Bool :=
  decide (queueIndex ≠ .unmetered) && config.enableCompression

theorem Refines.combine (h : s.Refines f) (config : FlushConfig) (t : FlushTurn)
    (queueIndex : QueueIndex) (datagram : Bytes) :
    (s.combine z config t queueIndex datagram).Failed ∨
      ∃ f', f.flushDatagram z (attempts config queueIndex) datagram = .ok f' ∧
        (s.combine z config t queueIndex datagram).Refines f' := by
  unfold FlushRun.combine
  split
  · exact .inl ⟨_, rfl⟩
  · have hopen := h.openCombined
    unfold Flushing.flushDatagram
    generalize s.openCombined = s at hopen ⊢
    generalize f.openCombined = f at hopen ⊢
    have hcompressor : f.compressor = s.compressor := by rw [hopen.locals_eq]
    have hfailed : f.prevCompressFailed = s.prevCompressFailed := by rw [hopen.locals_eq]
    by_cases hattempt : queueIndex ≠ .unmetered ∧ config.enableCompression = true
    · have hattempts : attempts config queueIndex = true := by
        simp only [attempts, hattempt.2, Bool.and_true, decide_eq_true_eq]
        exact hattempt.1
      simp only [if_pos hattempt, hattempts, if_true, hcompressor, hfailed]
      cases hc : compress z s.compressor datagram with
      | error error => exact .inl ⟨_, rfl⟩
      | ok r =>
        obtain ⟨compressor, _ | written⟩ := r
        · have hstored := (hopen.compressed compressor true).storeDatagram config t queueIndex
            (if s.prevCompressFailed then kMessageFrameBytes else 0) datagram
          exact hstored.imp id fun hrefines => ⟨_, rfl, hrefines⟩
        · have hstored := (hopen.compressed compressor s.prevCompressFailed).storeCompressed
            config t queueIndex datagram written
          rw [← hfailed] at hstored
          exact hstored.imp id fun hrefines => ⟨_, rfl, hrefines⟩
    · have hattempts : attempts config queueIndex = false := by
        rw [Bool.eq_false_iff]
        intro htrue
        simp only [attempts, Bool.and_eq_true, decide_eq_true_eq] at htrue
        exact hattempt htrue
      simp only [if_neg hattempt, hattempts, Bool.false_eq_true, if_false]
      exact (hopen.storeDatagram config t queueIndex 0 datagram).imp id fun hrefines => ⟨_, rfl, hrefines⟩

/-- Nothing is taken off a queue, and Flush goes on where it was unless it fails. -/
structure Kept (s s' : FlushRun) : Prop where
  dequeued_eq : s'.dequeued = s.dequeued
  final_eq : s'.finalUnreliable = s.finalUnreliable
  phase_eq : s'.phase = s.phase ∨ s'.Failed

theorem kept_fail (s : FlushRun) (error : FlushError) : s.Kept (s.fail error) :=
  ⟨rfl, rfl, .inr ⟨error, rfl⟩⟩

theorem Kept.fail (h : s.Kept s') (error : FlushError) : s.Kept (s'.fail error) :=
  ⟨h.dequeued_eq, h.final_eq, .inr ⟨error, rfl⟩⟩

theorem kept_sendQueuedReliable {t : FlushTurn} (hs : s.sendQueuedReliable config t = .ok s') :
    s.Kept s' := by
  unfold FlushRun.sendQueuedReliable at hs
  dsimp only at hs
  split at hs
  · cases hs
    exact ⟨rfl, rfl, .inl rfl⟩
  · split at hs
    · cases hs
    · cases hs
      exact ⟨rfl, rfl, .inl rfl⟩

theorem Kept.restart (h : s.Kept s') (part : Part) : s.Kept (s'.restart.append part) :=
  ⟨h.dequeued_eq, h.final_eq, h.phase_eq⟩

theorem kept_storeDatagram (s : FlushRun) (config : FlushConfig) (t : FlushTurn)
    (queueIndex : QueueIndex) (syncOverhead : Nat) (datagram : Bytes) :
    s.Kept (s.storeDatagram config t queueIndex syncOverhead datagram) := by
  unfold FlushRun.storeDatagram
  split
  · cases hs : s.sendQueuedReliable config t with
    | error error => exact s.kept_fail error
    | ok s' =>
      have hkept := kept_sendQueuedReliable hs
      dsimp only
      split
      · exact hkept.restart _
      · exact hkept.fail _
  · split <;> exact ⟨rfl, rfl, .inl rfl⟩

theorem kept_storeCompressed (s : FlushRun) (config : FlushConfig) (t : FlushTurn)
    (queueIndex : QueueIndex) (datagram written : Bytes) :
    s.Kept (s.storeCompressed config t queueIndex datagram written) := by
  unfold FlushRun.storeCompressed
  dsimp only
  split
  · exact ⟨rfl, rfl, .inl rfl⟩
  · split
    · cases hs : FlushRun.sendQueuedReliable config { s with prevCompressFailed := false } t with
      | error error => exact ⟨rfl, rfl, .inr ⟨_, rfl⟩⟩
      | ok s' =>
        have hkept := kept_sendQueuedReliable hs
        exact ⟨hkept.dequeued_eq, hkept.final_eq, hkept.phase_eq⟩
    · exact ⟨rfl, rfl, .inr ⟨_, rfl⟩⟩

theorem kept_combine (s : FlushRun) (config : FlushConfig) (t : FlushTurn) (queueIndex : QueueIndex)
    (datagram : Bytes) :
    (s.combine z config t queueIndex datagram).Failed ∨
      s.openCombined.Kept (s.combine z config t queueIndex datagram) := by
  unfold FlushRun.combine
  split
  · exact .inl ⟨_, rfl⟩
  · dsimp only
    right
    split
    · split
      · exact kept_fail _ _
      · have hkept := kept_storeCompressed
          { s.openCombined with compressor := ‹RingBuffer› } config t queueIndex datagram ‹Bytes›
        exact ⟨hkept.dequeued_eq, hkept.final_eq, hkept.phase_eq⟩
      · have hkept := kept_storeDatagram
          { s.openCombined with compressor := ‹RingBuffer›, prevCompressFailed := true } config t
          queueIndex (if s.openCombined.prevCompressFailed then kMessageFrameBytes else 0) datagram
        exact ⟨hkept.dequeued_eq, hkept.final_eq, hkept.phase_eq⟩
    · exact kept_storeDatagram ..

theorem openCombined_dequeued (s : FlushRun) : s.openCombined.dequeued = s.dequeued := by
  unfold FlushRun.openCombined
  split
  · rfl
  · split <;> rfl

theorem openCombined_finalUnreliable (h : s.finalUnreliable ≠ none → s.combined = none) :
    s.openCombined.finalUnreliable = none := by
  unfold FlushRun.openCombined
  split
  · next combined hcombined =>
    by_contra hfinal
    rw [h hfinal] at hcombined
    cases hcombined
  · split
    · next hfinal => exact hfinal
    · rfl

/-! The turns of a flush. -/

/-- The datagrams of one queue, in the order they were taken. -/
def takenFrom (queueIndex : QueueIndex) (items : List (QueueIndex × Bytes)) : Bytes :=
  ((items.filter fun item => item.1 = queueIndex).map Prod.snd).flatten

/-- `Flushing` gets to `f` with the datagrams `items` taken off the queues. -/
structure Flushes (z : Zstd) (config : FlushConfig) (s : FlushRun) (items : List (QueueIndex × Bytes))
    (f : Flushing) : Prop where
  from_start : ∃ compressor finalUnreliable,
    flushDatagrams z ⟨compressor, finalUnreliable, none, 0, false, []⟩
      (items.map fun item => (attempts config item.1, item.2)) = .ok f
  dequeued_eq : ∀ i, i ≠ .unreliable → s.dequeued i = takenFrom i items

/-- In the loop over the unreliable queue nothing is combined yet. -/
structure Unopened (s : FlushRun) : Prop where
  combined_none : s.combined = none
  offset_zero : s.reliableOffset = 0
  flag : s.prevCompressFailed = false
  emitted_full : ∀ e ∈ s.emitted, e.original = none
  dequeued_nil : ∀ i, i ≠ .unreliable → s.dequeued i = []

/-- A flush against `Flushing`: in its loops it refines it, and when it returns without an error it has
sent the packets of `done`, and possibly an unreliable datagram more. -/
structure Simulates (z : Zstd) (config : FlushConfig) (s : FlushRun) : Prop where
  unopened : s.phase = .enter .unreliable ∨ s.phase = .loop .unreliable → s.Unopened
  going : s.Going → ∃ items f, s.Flushes z config items f ∧ s.Refines f ∧
    (s.finalUnreliable ≠ none → s.combined = none)
  returned : s.phase = .returned none → ∃ items f full sent last, s.Flushes z config items f ∧
    f.done.compressor = s.compressor ∧ s.emitted = full ++ sent ++ last ∧
    (∀ e ∈ full ++ last, e.original = none) ∧ List.Forall₂ Emitted.Sends sent f.done.packets

theorem takenFrom_append (i : QueueIndex) (items : List (QueueIndex × Bytes)) (queueIndex : QueueIndex)
    (datagram : Bytes) : takenFrom i (items ++ [(queueIndex, datagram)]) =
      takenFrom i items ++ if queueIndex = i then datagram else [] := by
  by_cases hi : queueIndex = i <;> simp [takenFrom, hi]

theorem flushDatagrams_append {items : List (Bool × Bytes)} {start f f' : Flushing} {item : Bool × Bytes}
    (h : flushDatagrams z start items = .ok f) (hitem : f.flushDatagram z item.1 item.2 = .ok f') :
    flushDatagrams z start (items ++ [item]) = .ok f' := by
  unfold flushDatagrams at h ⊢
  rw [List.foldlM_append, h]
  simp only [List.foldlM_cons, List.foldlM_nil, bind, Except.bind, hitem, pure, Except.pure]

theorem Unopened.refines (h : s.Unopened) :
    s.Refines ⟨s.compressor, s.finalUnreliable, none, 0, false, []⟩ := by
  refine ⟨?_, s.emitted, [], (List.append_nil _).symm, h.emitted_full, .nil⟩
  rw [h.combined_none, h.offset_zero, h.flag]

theorem Unopened.simulates (h : s.Unopened) (hgoing : s.Going) : s.Simulates z config := by
  refine ⟨fun _ => h, fun _ => ⟨[], _, ⟨⟨_, _, rfl⟩, h.dequeued_nil⟩, h.refines,
    fun _ => h.combined_none⟩, fun hreturned => ?_⟩
  rw [Going, hreturned] at hgoing
  exact hgoing.elim

theorem Simulates.of_failed (hfailed : s.Failed) : s.Simulates z config := by
  obtain ⟨error, hphase⟩ := hfailed
  refine ⟨fun hbefore => ?_, fun hgoing => ?_, fun hreturned => ?_⟩
  · rw [hphase] at hbefore
    rcases hbefore with hbefore | hbefore <;> cases hbefore
  · rw [Going, hphase] at hgoing
    exact hgoing.elim
  · rw [hphase] at hreturned
    cases hreturned

theorem Simulates.of_going {items : List (QueueIndex × Bytes)} (hgoing : s.Going)
    (hflushes : s.Flushes z config items f) (hrefines : s.Refines f)
    (hfinal : s.finalUnreliable ≠ none → s.combined = none) : s.Simulates z config := by
  refine ⟨fun hbefore => ?_, fun _ => ⟨items, f, hflushes, hrefines, hfinal⟩, fun hreturned => ?_⟩
  · rcases hbefore with hbefore | hbefore
    · rw [Going, hbefore] at hgoing
      exact absurd rfl hgoing
    · rw [Going, hbefore] at hgoing
      exact absurd rfl hgoing
  · rw [Going, hreturned] at hgoing
    exact hgoing.elim

theorem Simulates.stays (h : s.Simulates z config) (hgoing : s.Going) (queues : QueueIndex → OutgoingQueue)
    {phase : FlushPhase} (hphase : Going { s with queues := queues, phase := phase }) :
    Simulates z config { s with queues := queues, phase := phase } := by
  obtain ⟨items, f, hflushes, hrefines, hfinal⟩ := h.going hgoing
  exact .of_going hphase ⟨hflushes.from_start, hflushes.dequeued_eq⟩
    ⟨hrefines.locals_eq, hrefines.emitted_eq⟩ hfinal

theorem Unopened.turnUnreliable (h : s.Unopened) (hphase : s.phase = .loop .unreliable)
    (config : FlushConfig) (t : FlushTurn) : (s.turnUnreliable config t).Simulates z config := by
  unfold FlushRun.turnUnreliable FlushRun.takeNext
  have hdequeued : ∀ datagram i, i ≠ .unreliable → Function.update s.dequeued .unreliable
      (s.dequeued .unreliable ++ datagram) i = [] := by
    intro datagram i hi
    rw [Function.update_of_ne hi]
    exact h.dequeued_nil i hi
  rcases (s.queues .unreliable).flushPeekAllocating t.freshBuffer with ⟨queue, _ | datagram⟩
  · exact Unopened.simulates ⟨h.combined_none, h.offset_zero, h.flag, h.emitted_full, h.dequeued_nil⟩
      (by simp [Going, nextPhase])
  · dsimp only
    cases queue.popIsEmpty.2
    · have hunopened : Unopened (sendQueuedDatagram config { s with
          queues := Function.update s.queues .unreliable queue.popIsEmpty.1
          dequeued := Function.update s.dequeued .unreliable (s.dequeued .unreliable ++ datagram) }
          t.random datagram none [⟨.unreliable, datagram, datagram⟩]) := by
        refine ⟨h.combined_none, h.offset_zero, h.flag, fun e he => ?_, hdequeued datagram⟩
        rcases List.mem_append.mp he with hold | hnew
        · exact h.emitted_full e hold
        · rw [List.mem_singleton.mp hnew]
      refine ⟨fun _ => hunopened, fun hgoing => ?_, fun hreturned => ?_⟩
      · simp [Going, sendQueuedDatagram, hphase] at hgoing
      · simp [sendQueuedDatagram, hphase] at hreturned
    · exact Unopened.simulates ⟨h.combined_none, h.offset_zero, h.flag, h.emitted_full,
        hdequeued datagram⟩ (by simp [Going, nextPhase])

theorem Simulates.turnReliable (h : s.Simulates z config) {queueIndex : QueueIndex}
    (hphase : s.phase = .loop queueIndex) (hqueue : queueIndex ≠ .unreliable) (t : FlushTurn) :
    (s.turnReliable z config t queueIndex).Simulates z config := by
  have hgoing : s.Going := by
    rw [Going, hphase]
    exact hqueue
  unfold FlushRun.turnReliable FlushRun.takeNext
  split
  · exact h.stays hgoing s.queues trivial
  · split
    · exact h.stays hgoing s.queues trivial
    · rcases (s.queues queueIndex).flushPeekAllocating t.freshBuffer with ⟨queue, _ | datagram⟩
      · refine h.stays hgoing _ ?_
        cases queueIndex with
        | unreliable => exact absurd rfl hqueue
        | unmetered => simp [Going, nextPhase]
        | reliable => simp [Going, nextPhase]
        | lowPri => trivial
      · obtain ⟨items, f, ⟨⟨compressor, finalUnreliable, hstart⟩, hdequeued⟩, hrefines, hfinal⟩ :=
          h.going hgoing
        dsimp only
        generalize htaken : ({ s with
          queues := Function.update s.queues queueIndex queue.popIsEmpty.1
          dequeued := Function.update s.dequeued queueIndex (s.dequeued queueIndex ++ datagram) } :
            FlushRun) = taken
        have hrefines' : taken.Refines f := by
          rw [← htaken]
          exact ⟨hrefines.locals_eq, hrefines.emitted_eq⟩
        have hfinal' : taken.finalUnreliable ≠ none → taken.combined = none := by
          rw [← htaken]
          exact hfinal
        rcases kept_combine (z := z) taken config t queueIndex datagram with hfailed | hkept
        · exact .of_failed hfailed
        rcases hrefines'.combine (z := z) config t queueIndex datagram with hfailed | ⟨f', hf', hrefined⟩
        · exact .of_failed hfailed
        rcases hkept.phase_eq with hsame | hfailed
        · have hflushes : Flushes z config (taken.combine z config t queueIndex datagram)
              (items ++ [(queueIndex, datagram)]) f' := by
            refine ⟨⟨compressor, finalUnreliable, ?_⟩, fun i hi => ?_⟩
            · rw [List.map_append]
              exact flushDatagrams_append hstart hf'
            · rw [hkept.dequeued_eq, openCombined_dequeued, takenFrom_append, ← hdequeued i hi, ← htaken]
              by_cases heq : queueIndex = i
              · rw [if_pos heq, ← heq]
                exact Function.update_self ..
              · rw [if_neg heq, List.append_nil]
                exact Function.update_of_ne (fun h => heq h.symm) ..
          refine .of_going ?_ hflushes hrefined fun hsome => ?_
          · refine hgoing.of_phase (hsame.trans (taken.openCombined_phase.trans ?_))
            rw [← htaken]
          · exact absurd (hkept.final_eq.trans (openCombined_finalUnreliable hfinal')) hsome
        · exact .of_failed hfailed

theorem Simulates.finish (h : s.Simulates z config) (hgoing : s.Going) (t : FlushTurn) :
    (s.finish config t).Simulates z config := by
  obtain ⟨items, f, hflushes, hrefines, hfinal⟩ := h.going hgoing
  obtain ⟨full, sent, hemitted, hfull, hsent⟩ := hrefines.emitted_eq
  have hcombined : f.combined = s.combined := by rw [hrefines.locals_eq]
  have hcompressor : f.compressor = s.compressor := by rw [hrefines.locals_eq]
  have hreturn : ∀ s' : FlushRun, s'.phase = .returned none → s'.dequeued = s.dequeued →
      f.done.compressor = s'.compressor → (∃ full sent last, s'.emitted = full ++ sent ++ last ∧
        (∀ e ∈ full ++ last, e.original = none) ∧
        List.Forall₂ Emitted.Sends sent f.done.packets) → s'.Simulates z config := by
    rintro s' hphase hdequeued hdone ⟨full, sent, last, hall⟩
    refine ⟨fun hbefore => ?_, fun hgoing => ?_, fun _ => ⟨items, f, full, sent, last,
      ⟨hflushes.from_start, fun i hi => ?_⟩, hdone, hall⟩⟩
    · rw [hphase] at hbefore
      rcases hbefore with hbefore | hbefore <;> cases hbefore
    · rw [Going, hphase] at hgoing
      exact hgoing.elim
    · rw [hdequeued]
      exact hflushes.dequeued_eq i hi
  have hunsent : ∀ e : List Emitted, f.done = f → (∀ x ∈ e, x.original = none) →
      ∃ full sent last, s.emitted ++ e = full ++ sent ++ last ∧
        (∀ x ∈ full ++ last, x.original = none) ∧
        List.Forall₂ Emitted.Sends sent f.done.packets := by
    intro e hdone he
    refine ⟨full, sent, e, by rw [hemitted], fun x hx => ?_, by rw [hdone]; exact hsent⟩
    exact (List.mem_append.mp hx).elim (hfull x) (he x)
  unfold FlushRun.finish
  cases hunreliable : s.finalUnreliable with
  | some datagram =>
    have hnone : s.combined = none := hfinal (by rw [hunreliable]; exact Option.some_ne_none _)
    have hdone : f.done = f := by simp only [Flushing.done, hcombined, hnone]
    simp only [sendQueuedDatagram, hnone]
    refine hreturn _ rfl rfl (by rw [hdone]; exact hcompressor) (hunsent _ hdone fun x hx => ?_)
    rw [List.mem_singleton.mp hx]
  | none =>
    rcases hbytes : s.combined with _ | _ | ⟨b, bs⟩
    · have hdone : f.done = f := by simp only [Flushing.done, hcombined, hbytes]
      simp only [hbytes]
      refine hreturn _ rfl rfl (by rw [hdone]; exact hcompressor) ?_
      simpa using hunsent [] hdone (by simp)
    · have hdone : f.done = f := by simp only [Flushing.done, hcombined, hbytes]
      simp only [hbytes]
      refine hreturn _ rfl rfl (by rw [hdone]; exact hcompressor) ?_
      simpa using hunsent [] hdone (by simp)
    · have hdone : f.done = f.shrinkWrapAndSendReliable := by
        simp only [Flushing.done, hcombined, hbytes]
      simp only [hbytes]
      cases hs : s.sendQueuedReliable config t with
      | error error => exact .of_failed ⟨error, rfl⟩
      | ok s' =>
        have hsendRefines := hrefines.sendQueuedReliable hs
        obtain ⟨full', sent', hemitted', hfull', hsent'⟩ := hsendRefines.emitted_eq
        have hkept := kept_sendQueuedReliable hs
        refine hreturn _ rfl hkept.dequeued_eq ?_ ⟨full', sent', [], ?_, ?_, ?_⟩
        · rw [hdone, hsendRefines.locals_eq]
        · rw [List.append_nil]
          exact hemitted'
        · rw [List.append_nil]
          exact hfull'
        · rw [hdone]
          exact hsent'

theorem Simulates.turn (h : s.Simulates z config) (t : FlushTurn) :
    (s.turn z config t).Simulates z config := by
  unfold FlushRun.turn
  cases hphase : s.phase with
  | enter queueIndex =>
    dsimp only
    by_cases hqueue : queueIndex = .unreliable
    · subst hqueue
      have hunopened := h.unopened (.inl hphase)
      split
      · exact Unopened.simulates ⟨hunopened.combined_none, hunopened.offset_zero, hunopened.flag,
          hunopened.emitted_full, hunopened.dequeued_nil⟩ (by simp [Going, nextPhase])
      · refine ⟨fun _ => ⟨hunopened.combined_none, hunopened.offset_zero, hunopened.flag,
          hunopened.emitted_full, hunopened.dequeued_nil⟩, fun hgoing => absurd rfl hgoing,
          fun hreturned => ?_⟩
        cases hreturned
    · have hgoing : s.Going := by
        rw [Going, hphase]
        exact hqueue
      split
      · refine h.stays hgoing s.queues ?_
        cases queueIndex <;> simp [Going, nextPhase]
      · exact h.stays hgoing s.queues hqueue
  | loop queueIndex =>
    cases queueIndex with
    | unreliable => exact (h.unopened (.inr hphase)).turnUnreliable hphase config t
    | unmetered => exact h.turnReliable hphase (by simp) t
    | reliable => exact h.turnReliable hphase (by simp) t
    | lowPri => exact h.turnReliable hphase (by simp) t
  | doneSending =>
    refine h.finish ?_ t
    rw [Going, hphase]
    trivial
  | returned error => exact h

theorem Simulates.irrelevant (h : s.Simulates z config) (queues : QueueIndex → OutgoingQueue)
    (remainingSlots : Nat) :
    Simulates z config { s with queues := queues, remainingSlots := remainingSlots } := by
  refine ⟨fun hbefore => ?_, fun hgoing => ?_, fun hreturned => ?_⟩
  · have hunopened := h.unopened hbefore
    exact ⟨hunopened.combined_none, hunopened.offset_zero, hunopened.flag, hunopened.emitted_full,
      hunopened.dequeued_nil⟩
  · obtain ⟨items, f, hflushes, hrefines, hfinal⟩ := h.going hgoing
    exact ⟨items, f, ⟨hflushes.from_start, hflushes.dequeued_eq⟩,
      ⟨hrefines.locals_eq, hrefines.emitted_eq⟩, hfinal⟩
  · obtain ⟨items, f, full, sent, last, hflushes, hall⟩ := h.returned hreturned
    exact ⟨items, f, full, sent, last, ⟨hflushes.from_start, hflushes.dequeued_eq⟩, hall⟩

theorem simulates_flush (s : FlushRun) (hasPeerAddress : Bool) :
    (s.flush hasPeerAddress).Simulates z config := by
  refine ⟨fun _ => ⟨rfl, rfl, rfl, fun e he => absurd he List.not_mem_nil, fun _ _ => rfl⟩,
    fun hgoing => ?_, fun _ => ⟨[], _, [], [], [], ⟨⟨s.compressor, none, rfl⟩, fun _ _ => rfl⟩, rfl, rfl,
      fun e he => absurd he List.not_mem_nil, .nil⟩⟩
  cases hasPeerAddress
  · exact hgoing.elim
  · exact absurd rfl hgoing

theorem Simulates.next (h : s.Simulates z config) (e : Event) :
    (s.next z config e).Simulates z config := by
  cases e with
  | append i messageType data => exact h.irrelevant _ s.remainingSlots
  | appendSplitReliable i messageType data => exact h.irrelevant _ s.remainingSlots
  | pushAndGetFreshBuffer i allocated => exact h.irrelevant _ s.remainingSlots
  | acknowledged remainingSlots =>
    simp only [FlushRun.next]
    split
    · exact h.irrelevant s.queues remainingSlots
    · exact h
  | flush hasPeerAddress =>
    simp only [FlushRun.next]
    split
    · exact s.simulates_flush hasPeerAddress
    · exact h
  | turn t => exact h.turn t

theorem simulates_run (z : Zstd) (config : FlushConfig) (events : List Event) :
    (run z config events).Simulates z config := by
  induction events using List.reverseRecOn with
  | nil => exact initial.simulates_flush false
  | append_singleton events e ih =>
    rw [run, List.foldl_append]
    exact ih.next e

/-- In every run, a flush that has returned without an error did to the compressor, and sent as packets,
what `flushDatagrams` and `done` make of the datagrams it took off the queues. -/
theorem flush_refines (z : Zstd) (config : FlushConfig) (events : List Event)
    (hreturned : (run z config events).phase = .returned none) :
    ∃ items f full sent last, (run z config events).Flushes z config items f ∧
      f.done.compressor = (run z config events).compressor ∧
      (run z config events).emitted = full ++ sent ++ last ∧
      (∀ e ∈ full ++ last, e.original = none) ∧ List.Forall₂ Emitted.Sends sent f.done.packets :=
  (simulates_run z config events).returned hreturned

end FlushRun
end Tonk.Session
