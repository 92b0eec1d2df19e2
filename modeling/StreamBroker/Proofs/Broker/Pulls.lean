import StreamBroker.Proofs.Broker.History
import StreamBroker.Proofs.Stream.Restart

/-!
# Pulls that wait miss nothing

A pull that waits looks again when its consumer is told to, and when its timer has gone off.  When
all that is to be done now has been done, a pull that still waits would get nothing if it looked.

There is one condition.  A delivery that is pending takes a place of the consumer, and the place is
free again when the message goes.  Of the operations that let messages go some tell no consumer, and
time tells nobody that a message is too old.  So the messages that are pending with the consumer
must have been there as long as the pull has waited since its last look; without this a pull sleeps
until its timer goes off although there is something for it.

## Main definitions

* `Pull.SameWait`: a pull has not looked in between
* `Broker.wouldGet`: what a pull would get if it looked
* `Broker.KeepsPending`: the messages that are pending with the consumer of a pull are there
* `Broker.Undisturbed`: they were there as long as the pull has waited

## Main results

* `Broker.History.nothing_missed`: a pull that still waits would get nothing
* `Broker.exists_missed`: it would get something after a message was removed that was pending
-/

namespace StreamBroker

/-- A pull has not looked in between: at most, somebody has begun or ceased to wait for it. -/
def Pull.SameWait (p q : Pull) : Prop := ∃ parked, q = { p with parked }

instance (p q : Pull) : Decidable (p.SameWait q) :=
  decidable_of_iff (q = { p with parked := q.parked })
    ⟨fun h => ⟨_, h⟩, fun ⟨_, h⟩ => by rw [h]⟩

namespace Broker

variable {b b' : Broker} {past : List Broker} {p q : Pull} {s : Stream} {c : Consumer}

/-- What a pull would get if it looked, after what is too old has gone.  A consumer that was deleted
has nothing to give. -/
def wouldGet (b : Broker) (p : Pull) : List Delivery :=
  match b.liveConsumer p.stream p.consumer with
  | .ok (s, c) => (c.cursor.collect (Retention.expire s.settings b.clock.wall s.index).2
    ⟨p.request.batch, p.request.maxBytes⟩ b.now).2.deliveries
  | .error _ => []

/-- The messages that are pending with the consumer of a pull are there, and none of them is too
old. -/
def KeepsPending (b : Broker) (p : Pull) : Prop :=
  ∀ s c, b.liveConsumer p.stream p.consumer = .ok (s, c) → s.KeepsPending b.clock.wall c

instance (b : Broker) (p : Pull) : Decidable (b.KeepsPending p) :=
  match h : b.liveConsumer p.stream p.consumer with
  | .ok (s, c) => decidable_of_iff (s.KeepsPending b.clock.wall c) <| by
    simp only [KeepsPending, h, Except.ok.injEq, Prod.mk.injEq]
    exact ⟨fun hkeeps _ _ ⟨hs, hc⟩ => hs ▸ hc ▸ hkeeps, fun hall => hall s c ⟨rfl, rfl⟩⟩
  | .error _ => isTrue fun s c hlive => by
    rw [h] at hlive
    cases hlive

/-! ## Pulls -/

theorem pulls_onStream {α : Type} (id : Nat)
    (f : Stream → Backend → Except Error α × Stream × Backend) (b : Broker) :
    (onStream id f b).2.pulls = b.pulls := by
  rw [onStream]
  split <;> rfl

/-- After a step a pull still waits, or it has looked and left its consumer at rest. -/
theorem Step.pulls_cases (hb : b.Staffed) (h : b.Step b') (hp : p ∈ b'.pulls) :
    (∃ q ∈ b.pulls, q.SameWait p) ∨ b'.Rests p := by
  have hkept (hp : p ∈ b.pulls) : (∃ q ∈ b.pulls, q.SameWait p) ∨ b'.Rests p :=
    .inl ⟨p, hp, p.parked, rfl⟩
  cases h with
  | operated hop hnext hreply =>
    rw [pulls_onStream] at hp
    exact hkept hp
  | attended stream consumer a =>
    rw [pulls_modifyConsumer] at hp
    exact hkept hp
  | opened settings =>
    cases opens settings b with
    | failed hopen heq | ringless hopen heq | opened hopen heq =>
      rw [heq] at hp
      exact hkept hp
  | deleted name =>
    cases deletes name b with
    | missed hnone heq | deleted hs hdestroy heq =>
      rw [heq] at hp
      exact hkept hp
  | looked hbatch hreply =>
    exact ((carries_lookOnce hb hbatch hreply).2 p hp).imp_left fun hp => ⟨p, hp, p.parked, rfl⟩
  | withdrawn id => exact hkept (List.mem_filter.1 hp).1
  | parked id parked =>
    obtain ⟨q, hq, rfl⟩ := List.mem_map.1 hp
    refine .inl ⟨q, hq, ?_⟩
    split
    · exact ⟨parked, rfl⟩
    · exact ⟨q.parked, rfl⟩
  | waited hnow hclock => exact hkept hp
  | aside hstreams hformer hpulls hclock hnext => exact hkept (hpulls ▸ hp)
  | restarted => cases hp

/-! ## Waiting -/

/-- While a pull has been waiting, the messages that are pending with its consumer were there. -/
def Undisturbed (states : List Broker) (p : Pull) : Prop :=
  ∀ b ∈ states, ∀ q ∈ b.pulls, q.SameWait p → b.KeepsPending p

instance (states : List Broker) (p : Pull) : Decidable (Undisturbed states p) :=
  inferInstanceAs (Decidable (∀ b ∈ states, ∀ q ∈ b.pulls, q.SameWait p → b.KeepsPending p))

/-- A pull that waits has seen no signal that was not given, and if there was no other one since,
its consumer rests. -/
structure Waits (b : Broker) (past : List Broker) (p : Pull) : Prop where
  /-- The number of its stream was given. -/
  stream_lt : p.stream < b.nextId
  /-- The number of its consumer was given. -/
  consumer_lt : p.consumer < b.nextId
  /-- The signal that it has seen was given. -/
  seen_le : ∀ {s c}, b.Has p.stream p.consumer s c → p.seen ≤ c.signal
  /-- Its consumer rests until its timer goes off. -/
  rests : Undisturbed past p → b.now < p.wake → ∀ {s c}, b.Has p.stream p.consumer s c →
    p.seen = c.signal → c.cursor.Rests s.index p.wake

/-- A pull that has just looked has left its consumer at rest. -/
theorem waits_of_rests (hb : b.Staffed) (h : b.Rests p) : b.Waits past p := by
  obtain ⟨s, c, hhas, hsignal, hrests⟩ := h
  refine ⟨?_, ?_, fun hhas' => ?_, fun _ _ _ _ hhas' _ => ?_⟩
  · exact hhas.stream_eq ▸ hb.id_lt _ (mem_streamIds hhas.mem_streams)
  · exact hhas.consumer_eq ▸ hb.consumer_lt s hhas.mem_streams c hhas.mem_consumers
  · obtain ⟨rfl, rfl⟩ := hb.has_unique hhas hhas'
    exact Nat.le_of_eq hsignal
  · obtain ⟨rfl, rfl⟩ := hb.has_unique hhas hhas'
    exact hrests

/-- A pull that has not looked was told to, or has its consumer at rest as before. -/
theorem Waits.carries (hb : b.Staffed)
    (h : b.Carries (fun s c s' c' => s.LeavesResting b.clock c s' c') b') (hq : q ∈ b.pulls)
    (hwaits : b.Waits past q) (hsame : q.SameWait p) : b'.Waits (b :: past) p := by
  obtain ⟨parked, rfl⟩ := hsame
  refine ⟨Nat.lt_of_lt_of_le hwaits.stream_lt h.nextId_le,
    Nat.lt_of_lt_of_le hwaits.consumer_lt h.nextId_le, fun {s' c'} hhas => ?_,
    fun hall hnow s' c' hhas hseen => ?_⟩
  · obtain ⟨s, c, hbefore, hleaves⟩ := h.descends hwaits.stream_lt hwaits.consumer_lt hhas
    have hle := hwaits.seen_le hbefore
    rcases hleaves with hlt | ⟨heq, -⟩
    · exact Nat.le_trans hle (Nat.le_of_lt hlt)
    · exact heq ▸ hle
  · obtain ⟨s, c, hbefore, hleaves⟩ := h.descends hwaits.stream_lt hwaits.consumer_lt hhas
    have hle := hwaits.seen_le hbefore
    rcases hleaves with hlt | ⟨heq, hrests⟩
    · -- It has not seen the signal that was given.
      exact absurd (hseen ▸ hle) (Nat.not_le_of_lt hlt)
    · have hwake : b.now < q.wake := Nat.lt_of_le_of_lt h.now_le hnow
      have hlive := hb.liveConsumer_of_has hbefore
      refine hrests q.wake hwake (hall b List.mem_cons_self q hq ⟨parked, rfl⟩ s c hlive) ?_
      refine hwaits.rests (fun t ht r hr hsame => ?_) hwake hbefore (hseen.trans heq.symm)
      obtain ⟨parked', rfl⟩ := hsame
      exact hall t (List.mem_cons_of_mem b ht) r hr ⟨parked, rfl⟩

/-- What holds of a pull that waits holds at any time. -/
theorem History.waits (h : History (b :: past)) (hp : p ∈ b.pulls) : b.Waits past p := by
  generalize hstates : b :: past = states at h
  induction h generalizing b past p with
  | started settings seed backend hclock =>
    cases hstates
    cases hp
  | step h hstep ih =>
    cases hstates
    have hcarries := hstep.carries h.staffed
    rcases hstep.pulls_cases h.staffed hp with ⟨q, hq, hsame⟩ | hrests
    · exact (ih hq rfl).carries h.staffed hcarries hq hsame
    · exact waits_of_rests hcarries.staffed hrests

/-! ## A consumer that may have one message pending -/

/-- A consumer is made that may have one message pending. -/
def hireOne : StreamOp :=
  .upsertConsumer .create 1 "" {} { name := some "c", maxAckPending := some 1 }

/-- A stream with two messages and such a consumer. -/
def staffedByOne : Broker :=
  let publish (b : Broker) := (onStream 0 (Stream.plainPublish.run b.clock) b).2
  let b := start {} 0 Stream.epochClock Stream.blankBackend
  let b := publish (publish ((openStream Stream.plainSettings).run b).2)
  (onStream 0 (hireOne.run b.clock) { b with nextId := 2 }).2

/-- A pull of the consumer that waits for five seconds. -/
def patientPull (id : Nat) : Pull :=
  { id, stream := 0, consumer := 1, request := {}, deadline := 5000000000, wake := 5000000000 }

/-- The consumer was pulled from twice: it has one of the messages, and the second pull waits. -/
def crowded : Broker := lookOnce (patientPull 3) (lookOnce (patientPull 2) staffedByOne)

theorem history_crowded : ∃ past, History (crowded :: past) ∧
    Undisturbed (crowded :: past) (patientPull 3) := by
  have hpublish (b : Broker)
      (hreply : (onStream 0 (Stream.plainPublish.run b.clock) b).1 ≠ .error .numbersExhausted) :
      b.Step (onStream 0 (Stream.plainPublish.run b.clock) b).2 :=
    @Step.operated b 0 b.nextId Stream.plainPublish (fun _ _ => trivial) (Nat.le_refl _) hreply
  have hhire (b : Broker) (hnew : ∀ s ∈ b.streams, s.consumerById? 1 = none) (hnext : b.nextId ≤ 1)
      (hreply : (onStream 0 (hireOne.run b.clock) { b with nextId := 2 }).1 ≠
        .error .numbersExhausted) :
      b.Step (onStream 0 (hireOne.run b.clock) { b with nextId := 2 }).2 :=
    @Step.operated b 0 2 hireOne (fun s hs => hnew s (liveStream_eq_ok hs).1)
      ⟨hnext, Nat.lt_succ_self 1⟩ hreply
  have hstarted := History.started {} 0 Stream.blankBackend
    (show Stream.epochClock.IsDated from rfl)
  have hopened := hstarted.step (.opened Stream.plainSettings)
  have hstored := hopened.step (hpublish _ (by decide +kernel))
  have hpublished := hstored.step (hpublish _ (by decide +kernel))
  have hhired := hpublished.step (hhire _ (by decide +kernel) (by decide +kernel)
    (by decide +kernel))
  have hserved := hhired.step (@Step.looked _ (patientPull 2) (by decide) (by decide +kernel))
  have hwaits := hserved.step (@Step.looked _ (patientPull 3) (by decide) (by decide +kernel))
  exact ⟨_, hwaits, by decide +kernel⟩

/-! ## Nothing is missed -/

/-- A pull is not left waiting that has been told to look. -/
theorem isReady_of_step? (h : b.step? = none) (hp : p ∈ b.pulls) (hparked : p.parked = false) :
    b.isReady p = false := by
  have hnone : b.readyPull? = none := by
    rw [step?] at h
    split at h
    · cases h
    · cases h
    · cases h
    · next hnone => exact hnone
  simpa [hparked] using List.find?_eq_none.1 hnone p hp

/-- **A pull that still waits would get nothing**, when all is done that is to be done now and its
timer is not due, if the messages that are pending with its consumer were there as long as it has
waited. -/
theorem History.nothing_missed (h : History (b :: past)) (hsettled : b.step? = none)
    (hp : p ∈ b.pulls) (hparked : p.parked = false) (hwake : b.now < p.wake)
    (hundisturbed : Undisturbed (b :: past) p) : b.wouldGet p = [] := by
  rw [wouldGet]
  split
  · next s c hlive =>
    have hhas := h.staffed.has_of_liveConsumer hlive
    have hseen : p.seen = c.signal := by
      have hready := isReady_of_step? hsettled hp hparked
      rw [isReady, h.staffed.consumerById?_eq hhas] at hready
      simp only [Bool.or_eq_false_iff, decide_eq_false_iff_not, not_not] at hready
      exact hready.2.symm
    have hpast : Undisturbed past p := fun t ht => hundisturbed t (List.mem_cons_of_mem b ht)
    have hrests := (h.waits hp).rests hpast hwake hhas hseen
    have hexpire := Retention.loses_expire s.settings b.clock.wall s.index
    have hleft := hrests.of_subset fun n m hm => hexpire.get?_of_get? hm
    have hfiled := (h.staffed.roster s hhas.mem_streams).filed.loses hexpire
    have hkeeps := hundisturbed b List.mem_cons_self p hp ⟨p.parked, rfl⟩ s c hlive
    rw [(hleft.collect_eq hfiled hwake hkeeps).1]
  · rfl

/-- The second message waits until the first is acknowledged. -/
theorem nothing_missed_crowded : ∃ past, History (crowded :: past) ∧ crowded.step? = none ∧
    patientPull 3 ∈ crowded.pulls ∧ Undisturbed (crowded :: past) (patientPull 3) ∧
    crowded.streams.map (fun s => s.index.toList.map (·.sequence)) = [[1, 2]] ∧
    crowded.wouldGet (patientPull 3) = [] := by
  obtain ⟨past, history, hundisturbed⟩ := history_crowded
  have hsettled : crowded.step? = none := by decide +kernel
  have hp : patientPull 3 ∈ crowded.pulls := by decide +kernel
  exact ⟨past, history, hsettled, hp, hundisturbed, by decide +kernel,
    history.nothing_missed hsettled hp rfl (by decide +kernel) hundisturbed⟩

/-- After the first message was removed the pull sleeps, and would get the second. -/
theorem exists_missed : ∃ past b, History (b :: past) ∧ b.step? = none ∧
    patientPull 3 ∈ b.pulls ∧ b.now < (patientPull 3).wake ∧
    (b.wouldGet (patientPull 3)).map (·.message.sequence) = [2] := by
  obtain ⟨past, history, -⟩ := history_crowded
  have hremoved := history.step (@Step.operated crowded 0 crowded.nextId (.deleteMessage 1)
    (fun _ _ => trivial) (Nat.le_refl _) (by decide +kernel))
  exact ⟨_, _, hremoved, by decide +kernel, by decide +kernel, by decide +kernel,
    by decide +kernel⟩

end Broker

end StreamBroker
