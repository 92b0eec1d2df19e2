import StreamBroker.Broker.Run
import StreamBroker.Proofs.Broker.Registry
import StreamBroker.Proofs.Stream.Signals

/-!
# What happens to a broker

A broker goes from one state to the next: an operation on one of its streams is answered, a pull
looks, somebody comes or goes, time passes.  Whatever happens, streams and consumers are told apart
by numbers that are never used again, and so a consumer that is found under its numbers later was
there before.  It was then told to look again, or left at rest.

As for streams, what runs out of numbers does not come to an end, and is not a step.

## Main definitions

* `Broker.Step`: what happens to a broker
* `Broker.History`: the states that a broker has been in
* `Broker.Has`: a broker has a stream with a consumer
* `Broker.Staffed`: the streams and consumers of a broker are told apart
* `Broker.Carries`: streams and consumers are carried from one state to another
* `Broker.Operates`: how an operation on a stream is done
* `Broker.Glances`: what a look of a pull comes to

## Main results

* `Broker.Staffed.glances`: a look of a pull comes to one of four ends
* `Broker.Step.carries`: a step tells a consumer to look again, or leaves it at rest
* `Broker.History.staffed`: streams and consumers are told apart at any time
-/

namespace StreamBroker

/-- The number that an operation has for a consumer is one of those from one number to another. -/
def StreamOp.Numbers (first next : Nat) : StreamOp → Prop
  | upsertConsumer _ id .. => first ≤ id ∧ id < next
  | _ => first ≤ next

theorem StreamOp.Numbers.le {first next : Nat} {op : StreamOp} (h : op.Numbers first next) :
    first ≤ next := by
  cases op with
  | upsertConsumer => exact Nat.le_trans h.1 (Nat.le_of_lt h.2)
  | _ => exact h

namespace Broker

/-- A look does not run out of numbers. -/
def PullStep.IsAnswered : PullStep → Prop
  | .over result => result ≠ .error .numbersExhausted
  | .waits _ => True

instance : DecidablePred PullStep.IsAnswered
  | .over _ => inferInstanceAs (Decidable (_ ≠ _))
  | .waits _ => isTrue trivial

theorem PullStep.IsAnswered.ne_error {α : Type} {e : Error}
    (h : (PullStep.over (.error e)).IsAnswered) :
    (.error e : Except Error α) ≠ .error .numbersExhausted := by
  rintro ⟨⟩
  exact h rfl

variable {b b' t : Broker} {s s' : Stream} {c c' : Consumer} {stream consumer : Nat}

/-! ## Steps -/

/-- What happens to a broker. -/
inductive Step (b : Broker) : Broker → Prop where
  /-- An operation on a stream is answered, or refused because the stream was deleted. -/
  | operated {id next : Nat} {op : StreamOp}
      (hop : ∀ s, b.liveStream id = .ok s → op.IsProper s) (hnext : op.Numbers b.nextId next)
      (hreply : (onStream id (op.run b.clock) { b with nextId := next }).1 ≠
        .error .numbersExhausted) :
      Step b (onStream id (op.run b.clock) { b with nextId := next }).2
  /-- A consumer is attended to, deleted or not. -/
  | attended (stream consumer : Nat) (a : Attendance) :
      Step b (b.modifyConsumer stream consumer (a.change b.now))
  /-- A stream is created. -/
  | opened (settings : StreamSettings) : Step b ((openStream settings).run b).2
  /-- A stream is deleted. -/
  | deleted (name : String) : Step b ((deleteStream name).run b).2
  /-- A pull looks, and may go on waiting. -/
  | looked {p : Pull} (hbatch : p.request.batch ≠ 0)
      (hreply : (glance p b).1.IsAnswered) : Step b (lookOnce p b)
  /-- A pull does not wait any more. -/
  | withdrawn (id : Nat) : Step b (b.withoutPull id)
  /-- A pull waits with or without somebody who waits for it. -/
  | parked (id : Nat) (parked : Bool) : Step b (park id parked b)
  /-- Time passes. -/
  | waited {i : Instant} (hnow : b.now ≤ i) (hclock : (b.clock.atInstant i).IsDated) :
      Step b (b.atInstant i)
  /-- Names are made up, outcomes are taken, subscribers and iterators come and go. -/
  | aside {b' : Broker} (hstreams : b'.streams = b.streams)
      (hformer : b'.formerStreams = b.formerStreams) (hpulls : b'.pulls = b.pulls)
      (hclock : b'.clock = b.clock) (hnext : b.nextId ≤ b'.nextId) : Step b b'
  /-- A new broker begins on the same store. -/
  | restarted : Step b b.restart

/-- The states that a broker has been in, the present one first. -/
inductive History : List Broker → Prop where
  | started (settings : BrokerSettings) (seed : Nat) {clock : Clock} (backend : Backend)
      (hclock : clock.IsDated) : History [start settings seed clock backend]
  | step {b b' : Broker} {past : List Broker} (h : History (b :: past)) (hstep : b.Step b') :
      History (b' :: b :: past)

/-! ## Streams and consumers that are told apart -/

/-- A broker has a stream with a consumer, under these numbers, and neither was deleted. -/
structure Has (b : Broker) (stream consumer : Nat) (s : Stream) (c : Consumer) : Prop where
  /-- The stream is one of the broker. -/
  mem_streams : s ∈ b.streams
  /-- It has the one number. -/
  stream_eq : s.id = stream
  /-- The consumer is one of the stream. -/
  mem_consumers : c ∈ s.consumers
  /-- It has the other number. -/
  consumer_eq : c.id = consumer

/-- The numbers of all streams, deleted or not. -/
def streamIds (b : Broker) : List Nat := (b.streams ++ b.formerStreams).map (·.id)

/-- The streams and consumers of a broker are told apart by numbers that were given. -/
structure Staffed (b : Broker) : Prop where
  /-- No two streams have one number. -/
  ids : b.streamIds.Nodup
  /-- The numbers of streams were given. -/
  id_lt : ∀ i ∈ b.streamIds, i < b.nextId
  /-- The consumers of a stream are told apart. -/
  roster : ∀ s ∈ b.streams, s.Roster
  /-- The numbers of consumers were given. -/
  consumer_lt : ∀ s ∈ b.streams, ∀ c ∈ s.consumers, c.id < b.nextId
  /-- A stream that was deleted has no consumers. -/
  consumers_eq : ∀ s ∈ b.formerStreams, s.consumers = []
  /-- The calendar has a date for the time. -/
  dated : b.clock.IsDated

theorem mem_streamIds (hs : s ∈ b.streams) : s.id ∈ b.streamIds :=
  List.mem_map_of_mem (List.mem_append_left _ hs)

namespace Staffed

/-- Streams of one number are one. -/
theorem eq_of_id (hb : b.Staffed) (hs : s ∈ b.streams ++ b.formerStreams)
    (hs' : s' ∈ b.streams ++ b.formerStreams) (h : s.id = s'.id) : s = s' :=
  List.inj_on_of_nodup_map hb.ids hs hs' h

/-- No stream that was deleted has the number of one that was not. -/
theorem former_ne (hb : b.Staffed) (hs : s ∈ b.streams) (hs' : s' ∈ b.formerStreams) :
    s'.id ≠ s.id := by
  intro heq
  have hids := hb.ids
  rw [streamIds, List.map_append, List.nodup_append] at hids
  exact hids.2.2 s.id (List.mem_map_of_mem hs) s'.id (List.mem_map_of_mem hs') heq.symm

/-- A stream is found by its number. -/
theorem streamById?_eq (hb : b.Staffed) (hs : s ∈ b.streams) : b.streamById? s.id = some s := by
  have hmem : s ∈ b.streams ++ b.formerStreams := List.mem_append_left _ hs
  have hfound : (b.streamById? s.id).isSome :=
    List.find?_isSome.2 ⟨s, hmem, beq_self_eq_true s.id⟩
  obtain ⟨u, hu⟩ := Option.isSome_iff_exists.1 hfound
  have hid : u.id = s.id := by simpa using List.find?_some hu
  rw [hu, hb.eq_of_id (List.mem_of_find?_eq_some hu) hmem hid]

theorem liveStream_eq (hb : b.Staffed) (hs : s ∈ b.streams) : b.liveStream s.id = .ok s := by
  have hfound : (b.streams.find? fun u => u.id == s.id).isSome :=
    List.find?_isSome.2 ⟨s, hs, beq_self_eq_true s.id⟩
  obtain ⟨u, hu⟩ := Option.isSome_iff_exists.1 hfound
  have hid : u.id = s.id := by simpa using List.find?_some hu
  rw [liveStream, hu, hb.eq_of_id (List.mem_append_left _ (List.mem_of_find?_eq_some hu))
    (List.mem_append_left _ hs) hid]

/-- What is found under two numbers is what the broker has. -/
theorem has_of_liveConsumer (hb : b.Staffed) (h : b.liveConsumer stream consumer = .ok (s, c)) :
    b.Has stream consumer s c := by
  rw [liveConsumer] at h
  split at h
  · cases h
  · next u hu =>
    split at h
    · next d hd =>
      cases h
      have hmem := List.mem_of_find?_eq_some hd
      refine ⟨?_, by simpa using List.find?_some hu, hmem, by simpa using List.find?_some hd⟩
      refine (List.mem_append.1 (List.mem_of_find?_eq_some hu)).resolve_right fun hformer => ?_
      rw [hb.consumers_eq _ hformer] at hmem
      cases hmem
    · cases h

theorem liveConsumer_of_has (hb : b.Staffed) (h : b.Has stream consumer s c) :
    b.liveConsumer stream consumer = .ok (s, c) := by
  obtain ⟨hs, rfl, hc, rfl⟩ := h
  rw [liveConsumer, hb.streamById?_eq hs]
  dsimp only
  rw [(hb.roster s hs).find?_id hc]

/-- A consumer that was not deleted is found by its numbers. -/
theorem consumerById?_eq (hb : b.Staffed) (h : b.Has stream consumer s c) :
    b.consumerById? stream consumer = some c := by
  obtain ⟨hs, rfl, hc, rfl⟩ := h
  rw [consumerById?, hb.streamById?_eq hs]
  show s.consumerById? c.id = some c
  rw [Stream.consumerById?, List.find?_append, (hb.roster s hs).find?_id hc]
  rfl

theorem has_unique (hb : b.Staffed) (h : b.Has stream consumer s c)
    (h' : b.Has stream consumer s' c') : s = s' ∧ c = c' := by
  obtain rfl := hb.eq_of_id (List.mem_append_left _ h.mem_streams)
    (List.mem_append_left _ h'.mem_streams) (h.stream_eq.trans h'.stream_eq.symm)
  exact ⟨rfl, (hb.roster s h.mem_streams).eq_of_id h.mem_consumers h'.mem_consumers
    (h.consumer_eq.trans h'.consumer_eq.symm)⟩

end Staffed

/-! ## What is carried -/

/-- Streams and consumers are carried from one state to another: what is found later under numbers
that were given was there, and has become what it is. -/
structure Carries (b : Broker) (R : Stream → Consumer → Stream → Consumer → Prop)
    (b' : Broker) : Prop where
  /-- They are told apart. -/
  staffed : b'.Staffed
  /-- No number is given again. -/
  nextId_le : b.nextId ≤ b'.nextId
  /-- Time does not go back. -/
  now_le : b.now ≤ b'.now
  /-- A consumer that is there was there. -/
  descends : ∀ {stream consumer s' c'}, stream < b.nextId → consumer < b.nextId →
    b'.Has stream consumer s' c' → ∃ s c, b.Has stream consumer s c ∧ R s c s' c'

section Carries

variable {R : Stream → Consumer → Stream → Consumer → Prop}

theorem Carries.mono {R' : Stream → Consumer → Stream → Consumer → Prop} (h : b.Carries R b')
    (hR : ∀ {s c s' c'}, R s c s' c' → R' s c s' c') : b.Carries R' b' where
  staffed := h.staffed
  nextId_le := h.nextId_le
  now_le := h.now_le
  descends hstream hconsumer hhas :=
    let ⟨s, c, hbefore, hr⟩ := h.descends hstream hconsumer hhas
    ⟨s, c, hbefore, hR hr⟩

/-- First a consumer is told or left at rest, and then nothing happens to it that would matter. -/
theorem Carries.trans (h : b.Carries (fun s c s' c' => s.LeavesResting b.clock c s' c') t)
    (h' : t.Carries (fun s c s' c' => s.KeepsRest c s' c') b') :
    b.Carries (fun s c s' c' => s.LeavesResting b.clock c s' c') b' where
  staffed := h'.staffed
  nextId_le := Nat.le_trans h.nextId_le h'.nextId_le
  now_le := Nat.le_trans h.now_le h'.now_le
  descends hstream hconsumer hhas := by
    obtain ⟨u, d, hmid, hkeeps⟩ := h'.descends (Nat.lt_of_lt_of_le hstream h.nextId_le)
      (Nat.lt_of_lt_of_le hconsumer h.nextId_le) hhas
    obtain ⟨s, c, hbefore, hleaves⟩ := h.descends hstream hconsumer hmid
    exact ⟨s, c, hbefore, hleaves.trans hkeeps⟩

/-- Nothing happens to consumers where streams come without any, or go. -/
theorem carries_of_streams (hb : b.Staffed) (hR : ∀ s c, R s c s c) (hids : b'.streamIds.Nodup)
    (hlt : ∀ i ∈ b'.streamIds, i < b'.nextId)
    (hstreams : ∀ s ∈ b'.streams, s ∈ b.streams ∨ s.Roster ∧ s.consumers = [])
    (hformer : ∀ s ∈ b'.formerStreams, s.consumers = []) (hclock : b'.clock.IsDated)
    (hnow : b.now ≤ b'.now) (hnext : b.nextId ≤ b'.nextId) : b.Carries R b' where
  staffed := by
    refine ⟨hids, hlt, fun s hs => ?_, fun s hs c hc => ?_, hformer, hclock⟩
    · exact (hstreams s hs).elim (hb.roster s) And.left
    · rcases hstreams s hs with hs | ⟨-, hnone⟩
      · exact Nat.lt_of_lt_of_le (hb.consumer_lt s hs c hc) hnext
      · rw [hnone] at hc
        cases hc
  nextId_le := hnext
  now_le := hnow
  descends {_ _ s c} _ _ hhas := by
    refine ⟨s, c, ⟨(hstreams s hhas.1).resolve_right fun hnone => ?_, hhas.2, hhas.3, hhas.4⟩,
      hR s c⟩
    have hc := hhas.mem_consumers
    rw [hnone.2] at hc
    cases hc

/-- What has the same streams carries them. -/
theorem carries_of_streams_eq (hb : b.Staffed) (hR : ∀ s c, R s c s c)
    (hstreams : b'.streams = b.streams) (hformer : b'.formerStreams = b.formerStreams)
    (hclock : b'.clock.IsDated) (hnow : b.now ≤ b'.now) (hnext : b.nextId ≤ b'.nextId) :
    b.Carries R b' := by
  have hids : b'.streamIds = b.streamIds := by rw [streamIds, hstreams, hformer, streamIds]
  refine carries_of_streams hb hR (hids ▸ hb.ids) (fun i hi => ?_) (fun s hs => ?_) ?_ hclock hnow
    hnext
  · exact Nat.lt_of_lt_of_le (hb.id_lt i (hids ▸ hi)) hnext
  · exact .inl (hstreams ▸ hs)
  · exact hformer ▸ hb.consumers_eq

theorem mem_map_put {ss : List Stream} {u : Stream}
    (h : u ∈ ss.map fun t : Stream => if t.id == s'.id then s' else t) :
    u = s' ∧ s'.id ∈ ss.map (·.id) ∨ u ∈ ss ∧ u.id ≠ s'.id := by
  obtain ⟨t, ht, rfl⟩ := List.mem_map.1 h
  by_cases heq : t.id = s'.id
  · exact .inl ⟨if_pos (beq_iff_eq.2 heq), List.mem_map.2 ⟨t, ht, heq⟩⟩
  · have hkept : (if t.id == s'.id then s' else t) = t := if_neg (by simpa using heq)
    exact .inr (hkept.symm ▸ ⟨ht, heq⟩)

theorem streamIds_putStream (b : Broker) (s' : Stream) :
    (b.putStream s').streamIds = b.streamIds := by
  simp only [streamIds, putStream, ← List.map_append, List.map_map]
  refine List.map_congr_left fun t _ => ?_
  by_cases heq : t.id = s'.id <;> simp [heq]

/-- What becomes of one stream is carried, if its consumers come from what it had or are new. -/
theorem carries_putStream (hb : b.Staffed) (hR : ∀ s c, R s c s c) {backend : Backend} {next : Nat}
    (hnext : b.nextId ≤ next) (hs : s ∈ b.streams) (hid : s'.id = s.id) (hroster : s'.Roster)
    (hconsumers : ∀ c' ∈ s'.consumers, (∃ c ∈ s.consumers, c.id = c'.id ∧ R s c s' c') ∨
      b.nextId ≤ c'.id ∧ c'.id < next) :
    b.Carries R ({ b with backend, nextId := next }.putStream s') where
  staffed := by
    have hids : ({ b with backend, nextId := next }.putStream s').streamIds = b.streamIds :=
      streamIds_putStream _ _
    refine ⟨hids ▸ hb.ids, fun i hi => Nat.lt_of_lt_of_le (hb.id_lt i (hids ▸ hi)) hnext,
      fun u hu => ?_, fun u hu c hc => ?_, fun u hu => ?_, hb.dated⟩
    · rcases mem_map_put hu with ⟨rfl, -⟩ | ⟨hmem, -⟩
      · exact hroster
      · exact hb.roster u hmem
    · rcases mem_map_put hu with ⟨rfl, -⟩ | ⟨hmem, -⟩
      · rcases hconsumers c hc with ⟨d, hd, heq, -⟩ | ⟨-, hlt⟩
        · exact Nat.lt_of_lt_of_le (heq ▸ hb.consumer_lt s hs d hd) hnext
        · exact hlt
      · exact Nat.lt_of_lt_of_le (hb.consumer_lt u hmem c hc) hnext
    · rcases mem_map_put hu with ⟨-, hmem⟩ | ⟨hmem, -⟩
      · obtain ⟨t, ht, heq⟩ := List.mem_map.1 hmem
        exact absurd (heq.trans hid) (hb.former_ne hs ht)
      · exact hb.consumers_eq u hmem
  nextId_le := hnext
  now_le := Nat.le_refl _
  descends {stream consumer u c'} _ hconsumer hhas := by
    rcases mem_map_put hhas.mem_streams with ⟨rfl, -⟩ | ⟨hmem, -⟩
    · rcases hconsumers c' hhas.mem_consumers with ⟨c, hc, heq, hr⟩ | ⟨hle, -⟩
      · exact ⟨s, c, ⟨hs, hid.symm.trans hhas.stream_eq, hc, heq.trans hhas.consumer_eq⟩, hr⟩
      · exact absurd (hhas.consumer_eq ▸ hle) (Nat.not_le_of_lt hconsumer)
    · exact ⟨u, c', ⟨hmem, hhas.stream_eq, hhas.mem_consumers, hhas.consumer_eq⟩, hR _ _⟩

/-- What becomes of a stream that was deleted is nothing to the others. -/
theorem carries_putFormer (hb : b.Staffed) (hR : ∀ s c, R s c s c) (hs : s ∈ b.formerStreams)
    (hid : s'.id = s.id) (hnone : s'.consumers = []) : b.Carries R (b.putStream s') := by
  have hstreams {u : Stream} (hu : u ∈ (b.putStream s').streams) : u ∈ b.streams := by
    refine (mem_map_put hu).elim (fun h => ?_) And.left
    obtain ⟨t, ht, heq⟩ := List.mem_map.1 h.2
    exact absurd (hid.symm.trans heq.symm) (hb.former_ne ht hs)
  have hids := streamIds_putStream b s'
  refine carries_of_streams hb hR (hids ▸ hb.ids) (hids ▸ hb.id_lt) (fun u hu => .inl (hstreams hu))
    (fun u hu => ?_) hb.dated (Nat.le_refl _) (Nat.le_refl _)
  rcases mem_map_put hu with ⟨rfl, -⟩ | ⟨hmem, -⟩
  · exact hnone
  · exact hb.consumers_eq u hmem

end Carries

/-! ## One step -/

/-- An operation on a stream that comes to an end. -/
theorem carries_run (hb : b.Staffed) {next : Nat} {op : StreamOp} {backend : Backend}
    {reply : Except Error StreamReply} (hs : s ∈ b.streams) (hop : op.IsProper s)
    (hnext : op.Numbers b.nextId next) (h : op.run b.clock s b.backend = (reply, s', backend))
    (hreply : reply ≠ .error .numbersExhausted) :
    b.Carries (fun s c s' c' => s.LeavesResting b.clock c s' c')
      ({ b with backend, nextId := next }.putStream s') := by
  obtain ⟨hid, hconsumers⟩ := StreamOp.attends_run (hb.roster s hs) h hreply
  refine carries_putStream hb (fun s c => (Stream.KeepsRest.refl s c).leavesResting) hnext.le hs hid
    ((hb.roster s hs).run hb.dated hop h hreply) fun c' hc => (hconsumers c' hc).imp_right ?_
  rintro ⟨mode, madeUp, defaults, settings, rfl⟩
  exact hnext

/-- How an operation on a stream is done. -/
inductive Operates (id next : Nat) (op : StreamOp) (b : Broker) : Prop where
  /-- It is refused, for the stream was deleted. -/
  | missed {e : Error} (hlive : b.liveStream id = .error e)
      (heq : onStream id (op.run b.clock) { b with nextId := next } =
        (.error e, { b with nextId := next }))
  /-- It is answered by the stream. -/
  | ran {s s' : Stream} {backend : Backend} {reply : Except Error StreamReply}
      (hlive : b.liveStream id = .ok s) (hrun : op.run b.clock s b.backend = (reply, s', backend))
      (heq : onStream id (op.run b.clock) { b with nextId := next } =
        (reply, { b with backend, nextId := next }.putStream s'))

theorem operates (id next : Nat) (op : StreamOp) (b : Broker) : Operates id next op b := by
  have heq := onStream.eq_1 id (op.run b.clock) { b with nextId := next }
  have hsame : { b with nextId := next }.liveStream id = b.liveStream id := rfl
  rw [hsame] at heq
  cases hlive : b.liveStream id with
  | error e =>
    rw [hlive] at heq
    exact .missed hlive heq
  | ok s =>
    rw [hlive] at heq
    exact .ran hlive rfl heq

theorem carries_onStream (hb : b.Staffed) {id next : Nat} {op : StreamOp}
    (hop : ∀ s, b.liveStream id = .ok s → op.IsProper s) (hnext : op.Numbers b.nextId next)
    (hreply : (onStream id (op.run b.clock) { b with nextId := next }).1 ≠
      .error .numbersExhausted) :
    b.Carries (fun s c s' c' => s.LeavesResting b.clock c s' c')
      (onStream id (op.run b.clock) { b with nextId := next }).2 := by
  cases operates id next op b with
  | missed hlive heq =>
    rw [heq]
    exact carries_of_streams_eq hb (fun s c => (Stream.KeepsRest.refl s c).leavesResting) rfl rfl
      hb.dated (Nat.le_refl _) hnext.le
  | ran hlive hrun heq =>
    rw [heq] at hreply ⊢
    exact carries_run hb (liveStream_eq_ok hlive).1 (hop _ hlive) hnext hrun hreply

theorem carries_attended (hb : b.Staffed) (stream consumer : Nat) (a : Attendance) :
    b.Carries (fun s c s' c' => s.KeepsRest c s' c')
      (b.modifyConsumer stream consumer (a.change b.now)) := by
  rw [modifyConsumer]
  split
  · next s hfind =>
    rcases List.mem_append.1 (List.mem_of_find?_eq_some hfind) with hs | hs
    · have hcontinues : s.Continues (fun _ _ => True)
          (s.modifyConsumer consumer (a.change b.now)) := by
        refine .of_modifyConsumer rfl (fun c => ?_) (fun c => ?_) (fun _ => trivial)
          fun _ _ _ => trivial
        · cases a <;> rfl
        · cases a <;> rfl
      exact carries_putStream hb Stream.KeepsRest.refl (Nat.le_refl _) hs rfl
        ((hb.roster s hs).continues hcontinues (hb.roster s hs).filed) fun c' hc =>
          .inl (Stream.keepsRest_attend hc)
    · -- A stream that was deleted has nobody to attend to.
      refine carries_putFormer hb Stream.KeepsRest.refl hs rfl ?_
      rw [Stream.modifyConsumer, hb.consumers_eq s hs]
      rfl
  · exact carries_of_streams_eq hb Stream.KeepsRest.refl rfl rfl hb.dated (Nat.le_refl _)
      (Nat.le_refl _)

theorem carries_openStream (hb : b.Staffed) (settings : StreamSettings) :
    b.Carries (fun s c s' c' => s.KeepsRest c s' c') ((openStream settings).run b).2 := by
  have hkept {backend : Backend} : b.Carries (fun s c s' c' => s.KeepsRest c s' c')
      { b with nextId := b.nextId + 1, backend } :=
    carries_of_streams_eq hb Stream.KeepsRest.refl rfl rfl hb.dated (Nat.le_refl _) (Nat.le_succ _)
  cases opens settings b with
  | failed hopen heq | ringless hopen heq =>
    rw [heq]
    exact hkept
  | @opened s backend hopen heq =>
    rw [heq]
    have hid : s.id = b.nextId := by
      obtain ⟨x, b₁, -, rfl, -⟩ := Stream.open?_eq_ok hopen
      rfl
    -- The number that is new goes in between those of the streams that are there and those that
    -- were.
    have hids : Broker.streamIds { b with
        nextId := b.nextId + 1, backend, streams := b.streams ++ [s] } =
        b.streams.map (·.id) ++ b.nextId :: b.formerStreams.map (·.id) := by
      simp [streamIds, hid]
    have hperm := @List.perm_middle _ b.nextId (b.streams.map (·.id))
      (b.formerStreams.map (·.id))
    rw [← List.map_append, ← hids] at hperm
    refine carries_of_streams hb Stream.KeepsRest.refl ?_ (fun i hi => ?_) (fun u hu => ?_)
      hb.consumers_eq hb.dated (Nat.le_refl _) (Nat.le_succ _)
    · exact hperm.nodup_iff.2
        (List.nodup_cons.2 ⟨fun h => Nat.lt_irrefl _ (hb.id_lt _ h), hb.ids⟩)
    · rcases List.mem_cons.1 (hperm.mem_iff.1 hi) with rfl | hi
      · exact Nat.lt_succ_self _
      · exact Nat.lt_succ_of_lt (hb.id_lt i hi)
    · refine (List.mem_append.1 hu).imp_right fun hu => ?_
      obtain rfl := List.mem_singleton.1 hu
      exact ⟨Stream.roster_of_open? hopen, Stream.consumers_of_open? hopen⟩

theorem carries_deleteStream (hb : b.Staffed) (name : String) :
    b.Carries (fun s c s' c' => s.KeepsRest c s' c') ((deleteStream name).run b).2 := by
  cases deletes name b with
  | missed hnone heq =>
    rw [heq]
    exact carries_of_streams_eq hb Stream.KeepsRest.refl rfl rfl hb.dated (Nat.le_refl _)
      (Nat.le_refl _)
  | @deleted s gone reply backend hs hdestroy heq =>
    rw [heq]
    obtain ⟨hid, hconsumers, -⟩ := Stream.eq_of_destroy hdestroy
    -- One number moves to the streams that are deleted, and all others stay where they are.
    have hsublist : (((b.streams.filter fun t => t.id != s.id) ++ b.formerStreams).map
        (·.id)).Sublist b.streamIds :=
      (List.filter_sublist.append (List.Sublist.refl _)).map _
    have hnew : s.id ∉ ((b.streams.filter fun t => t.id != s.id) ++ b.formerStreams).map
        (·.id) := by
      intro hmem
      obtain ⟨t, ht, heq⟩ := List.mem_map.1 hmem
      rcases List.mem_append.1 ht with ht | ht
      · simp [heq] at ht
      · exact hb.former_ne hs ht heq
    have hids : Broker.streamIds { b with
        backend
        streams := b.streams.filter fun t => t.id != s.id
        formerStreams := gone :: b.formerStreams } =
        (b.streams.filter fun t => t.id != s.id).map (·.id) ++
          s.id :: b.formerStreams.map (·.id) := by
      rw [streamIds, List.map_append, List.map_cons, hid]
    have hperm := @List.perm_middle _ s.id
      ((b.streams.filter fun t => t.id != s.id).map (·.id)) (b.formerStreams.map (·.id))
    rw [← List.map_append, ← hids] at hperm
    refine carries_of_streams hb Stream.KeepsRest.refl ?_ (fun i hi => ?_)
      (fun u hu => .inl (List.mem_filter.1 hu).1) (fun u hu => ?_) hb.dated (Nat.le_refl _)
      (Nat.le_refl _)
    · exact hperm.nodup_iff.2 (List.nodup_cons.2 ⟨hnew, hb.ids.sublist hsublist⟩)
    · rcases List.mem_cons.1 (hperm.mem_iff.1 hi) with rfl | hi
      · exact hb.id_lt _ (mem_streamIds hs)
      · exact hb.id_lt i (hsublist.subset hi)
    · rcases List.mem_cons.1 hu with rfl | hu
      · exact hconsumers
      · exact hb.consumers_eq u hu

/-! ## One look -/

/-- A broker has a consumer that rests, and a pull that has seen its last signal. -/
def Rests (b : Broker) (p : Pull) : Prop :=
  ∃ s c, b.Has p.stream p.consumer s c ∧ p.seen = c.signal ∧ c.cursor.Rests s.index p.wake

/-- A pull collects from its consumer, which is there. -/
structure Collects (b : Broker) (p : Pull) (s : Stream) (c : Consumer)
    (reply : Except Error Collected) (s' : Stream) (backend : Backend) : Prop where
  /-- The consumer is there. -/
  has : b.Has p.stream p.consumer s c
  /-- It is asked for as much as the pull asks for. -/
  collect_eq : s.collect c ⟨p.request.batch, p.request.maxBytes⟩ b.clock b.backend =
    (reply, s', backend)

/-- What a look of a pull comes to. -/
inductive Glances (p : Pull) (b : Broker) : Prop where
  /-- The pull is over, for its consumer is not there. -/
  | missed {e : Error} (hlive : b.liveConsumer p.stream p.consumer = .error e)
      (heq : glance p b = (.over (.error e), b))
  /-- The pull is over, for nothing could be collected. -/
  | failed {s s' : Stream} {c : Consumer} {backend : Backend} {e : Error}
      (h : b.Collects p s c (.error e) s' backend)
      (heq : glance p b = (.over (.error e), { b with backend }.putStream s'))
  /-- The pull is over, for it has got something or is not to wait any longer. -/
  | ended {s s' : Stream} {c : Consumer} {backend : Backend} {collected : Collected}
      (h : b.Collects p s c (.ok collected) s' backend)
      (heq : glance p b =
        (.over (.ok (deliveredBy s c collected)), { b with backend }.putStream s'))
  /-- The pull has got nothing and waits on, until a delivery is due to be repeated or its time is
  over. -/
  | waits {s s' : Stream} {c : Consumer} {backend : Backend} {collected : Collected}
      (h : b.Collects p s c (.ok collected) s' backend) (hnone : collected.deliveries = [])
      (hlt : b.now < p.deadline)
      (heq : glance p b = (.waits { p with
          wake := collected.nextDeadline.elim p.deadline (min · p.deadline), seen := c.signal },
        { b with backend }.putStream s'))

theorem Staffed.glances (hb : b.Staffed) (p : Pull) : Glances p b := by
  cases hlive : b.liveConsumer p.stream p.consumer with
  | error e => exact .missed hlive (by rw [glance, hlive])
  | ok found =>
    obtain ⟨s, c⟩ := found
    have hhas := hb.has_of_liveConsumer hlive
    have hglance := glance.eq_1 p b
    simp only [hlive, onStream, hb.liveStream_eq hhas.mem_streams] at hglance
    cases hr : s.collect c ⟨p.request.batch, p.request.maxBytes⟩ b.clock b.backend with
    | mk reply left =>
      obtain ⟨s', backend⟩ := left
      rw [hr] at hglance
      cases reply with
      | error e => exact .failed ⟨hhas, hr⟩ hglance
      | ok collected =>
        dsimp only at hglance
        split at hglance
        · exact .ended ⟨hhas, hr⟩ hglance
        · next hover =>
          -- It goes on waiting: nothing came, and its time has not run out.
          simp only [isOver, deliveredBy, Bool.or_eq_true, not_or, decide_eq_true_eq] at hover
          obtain ⟨⟨hnone, -⟩, hlt⟩ := hover
          refine .waits ⟨hhas, hr⟩ (by simpa using hnone) (Nat.lt_of_not_le hlt) ?_
          rw [hglance]
          cases collected.nextDeadline <;> rfl

namespace Collects

variable {p : Pull} {reply : Except Error Collected} {backend : Backend}

/-- What a pull collects is an operation in the common form. -/
theorem run_eq (h : b.Collects p s c reply s' backend) (hb : b.Staffed) :
    (StreamOp.collect c.id ⟨p.request.batch, p.request.maxBytes⟩).run b.clock s b.backend =
      (reply.map .collected, s', backend) := by
  rw [StreamOp.run, StreamOp.asConsumer,
    (hb.roster s h.has.mem_streams).find?_id h.has.mem_consumers]
  simp only [h.collect_eq]
  rfl

/-- The stream stays the one it is. -/
theorem id_eq (h : b.Collects p s c reply s' backend) (hb : b.Staffed)
    (hreply : reply ≠ .error .numbersExhausted) : s'.id = s.id :=
  (Stream.attends_collect (hb.roster s h.has.mem_streams) h.has.mem_consumers h.collect_eq
    hreply).id_eq

theorem carries (h : b.Collects p s c reply s' backend) (hb : b.Staffed)
    (hreply : reply ≠ .error .numbersExhausted) :
    b.Carries (fun s c s' c' => s.LeavesResting b.clock c s' c')
      ({ b with backend }.putStream s') := by
  have hproper : (StreamOp.collect c.id ⟨p.request.batch, p.request.maxBytes⟩).IsProper s := trivial
  refine carries_run hb h.has.mem_streams hproper (Nat.le_refl b.nextId) (h.run_eq hb)
    fun heq => hreply ?_
  cases reply with
  | ok collected => cases heq
  | error e =>
    cases heq
    rfl

end Collects

/-- A pull looks at its consumer, and if it is to wait it leaves the consumer at rest. -/
theorem carries_glance (hb : b.Staffed) {p : Pull} (hbatch : p.request.batch ≠ 0)
    (hreply : (glance p b).1.IsAnswered) :
    b.Carries (fun s c s' c' => s.LeavesResting b.clock c s' c') (glance p b).2 ∧
      (glance p b).2.pulls = b.pulls ∧ ∀ q, (glance p b).1 = .waits q → (glance p b).2.Rests q := by
  cases hb.glances p with
  | missed hlive heq =>
    rw [heq]
    exact ⟨carries_of_streams_eq hb (fun s c => (Stream.KeepsRest.refl s c).leavesResting) rfl rfl
      hb.dated (Nat.le_refl _) (Nat.le_refl _), rfl, nofun⟩
  | failed h heq =>
    rw [heq] at hreply ⊢
    exact ⟨h.carries hb hreply.ne_error, rfl, nofun⟩
  | ended h heq =>
    rw [heq]
    exact ⟨h.carries hb nofun, rfl, nofun⟩
  | @waits s s' c backend collected h hnone hlt heq =>
    rw [heq]
    refine ⟨h.carries hb nofun, rfl, fun q hq => ?_⟩
    cases hq
    have hs := h.has.mem_streams
    -- It wakes not later than the next delivery is due.
    have hwake : ∀ i ∈ collected.nextDeadline,
        collected.nextDeadline.elim p.deadline (min · p.deadline) ≤ i := by
      intro i hi
      rw [Option.mem_def.1 hi]
      exact Nat.min_le_left _ _
    obtain ⟨c', hc, hid, hsignal, hrests⟩ :=
      Stream.rests_collect (hb.roster s hs) h.has.mem_consumers hbatch h.collect_eq hnone hwake
    have hsame := h.id_eq hb nofun
    have hput : s' ∈ ({ b with backend }.putStream s').streams :=
      List.mem_map.2 ⟨s, hs, if_pos (beq_iff_eq.2 hsame.symm)⟩
    exact ⟨s', c', ⟨hput, hsame.trans h.has.stream_eq, hc, hid.trans h.has.consumer_eq⟩,
      hsignal.symm, hrests⟩

theorem clock_modifyConsumer (b : Broker) (stream consumer : Nat) (f : Consumer → Consumer) :
    (b.modifyConsumer stream consumer f).clock = b.clock := by
  rw [modifyConsumer]
  split <;> rfl

theorem pulls_modifyConsumer (b : Broker) (stream consumer : Nat) (f : Consumer → Consumer) :
    (b.modifyConsumer stream consumer f).pulls = b.pulls := by
  rw [modifyConsumer]
  split <;> rfl

/-- A look of a pull tells consumers or leaves them at rest; above all that of a pull that goes on
waiting. -/
theorem carries_lookOnce (hb : b.Staffed) {p : Pull} (hbatch : p.request.batch ≠ 0)
    (hreply : (glance p b).1.IsAnswered) :
    b.Carries (fun s c s' c' => s.LeavesResting b.clock c s' c') (lookOnce p b) ∧
      ∀ q ∈ (lookOnce p b).pulls, q ∈ b.pulls ∨ (lookOnce p b).Rests q := by
  obtain ⟨hcarries, hpulls, hwaits⟩ := carries_glance hb hbatch hreply
  rw [lookOnce]
  cases hg : glance p b with
  | mk r t =>
    rw [hg] at hcarries hpulls hwaits
    have ht := hcarries.staffed
    cases r with
    | «over» result =>
      have hleave := carries_attended ht p.stream p.consumer .leave
      refine ⟨(hcarries.trans hleave).trans ?_, fun q hq => .inl ?_⟩
      · exact carries_of_streams_eq hleave.staffed Stream.KeepsRest.refl rfl rfl
          hleave.staffed.dated (Nat.le_refl _) (Nat.le_refl _)
      · exact hpulls ▸ pulls_modifyConsumer t _ _ _ ▸ hq
    | waits q =>
      refine ⟨hcarries.trans ?_, fun q' hq => ?_⟩
      · exact carries_of_streams_eq ht Stream.KeepsRest.refl rfl rfl ht.dated (Nat.le_refl _)
          (Nat.le_refl _)
      · rcases List.mem_append.1 hq with hq | hq
        · exact .inl (hpulls ▸ hq)
        · obtain rfl := List.mem_singleton.1 hq
          -- It found the consumer at rest, and has seen all signals up to this look.
          obtain ⟨s, c, hhas, hsignal, hrests⟩ := hwaits q rfl
          exact .inr ⟨s, c, ⟨hhas.1, hhas.2, hhas.3, hhas.4⟩, hsignal, hrests⟩

/-! ## Histories -/

/-- **What happens to a broker tells a consumer to look again, or leaves it at rest.** -/
theorem Step.carries (hb : b.Staffed) (h : b.Step b') :
    b.Carries (fun s c s' c' => s.LeavesResting b.clock c s' c') b' := by
  have hkept (h : b.Carries (fun s c s' c' => s.KeepsRest c s' c') b') :
      b.Carries (fun s c s' c' => s.LeavesResting b.clock c s' c') b' := h.mono (·.leavesResting)
  have heq (hstreams : b'.streams = b.streams) (hformer : b'.formerStreams = b.formerStreams)
      (hclock : b'.clock.IsDated) (hnow : b.now ≤ b'.now) (hnext : b.nextId ≤ b'.nextId) :=
    hkept (carries_of_streams_eq hb Stream.KeepsRest.refl hstreams hformer hclock hnow hnext)
  cases h with
  | operated hop hnext hreply => exact carries_onStream hb hop hnext hreply
  | attended stream consumer a => exact hkept (carries_attended hb stream consumer a)
  | opened settings => exact hkept (carries_openStream hb settings)
  | deleted name => exact hkept (carries_deleteStream hb name)
  | looked hbatch hreply => exact (carries_lookOnce hb hbatch hreply).1
  | withdrawn id => exact heq rfl rfl hb.dated (Nat.le_refl _) (Nat.le_refl _)
  | parked id parked => exact heq rfl rfl hb.dated (Nat.le_refl _) (Nat.le_refl _)
  | waited hnow hclock => exact heq rfl rfl hclock hnow (Nat.le_refl _)
  | aside hstreams hformer hpulls hclock hnext =>
    exact heq hstreams hformer (hclock ▸ hb.dated) (Nat.le_of_eq (congrArg _ hclock).symm) hnext
  | restarted =>
    refine hkept (carries_of_streams hb Stream.KeepsRest.refl List.nodup_nil ?_ ?_ ?_ hb.dated
      (Nat.le_refl _) (Nat.le_refl _))
    · intro i hi
      cases hi
    · intro s hs
      cases hs
    · intro s hs
      cases hs

/-- **Streams and consumers are told apart at any time.** -/
theorem History.staffed {past : List Broker} (h : History (b :: past)) : b.Staffed := by
  generalize hstates : b :: past = states at h
  induction h generalizing b past with
  | started settings seed backend hclock =>
    cases hstates
    refine ⟨List.nodup_nil, ?_, ?_, ?_, ?_, hclock⟩ <;> intro i hi <;> cases hi
  | step h hstep ih =>
    cases hstates
    exact (hstep.carries (ih rfl)).staffed

end Broker

end StreamBroker
