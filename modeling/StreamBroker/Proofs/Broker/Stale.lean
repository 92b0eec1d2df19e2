import StreamBroker.Proofs.Broker.Deeds
import StreamBroker.Proofs.Broker.Origins
import StreamBroker.Proofs.Stream.Restart

/-!
# Stale handles

Who holds on to a stream, a consumer or a subscription may go on asking when it was deleted long
ago, and when another one has its name.  Streams and consumers are told apart by numbers that are
never used again, so such a handle stays stale, and whatever is asked through it leaves all that
exists as it is.

There is one exception.  When a subscription ends whose consumer is not durable, the consumer is
deleted, and this by its name: if it was deleted before and the stream has another consumer of its
name, that one is deleted in its place.

## Main definitions

* `Handle`: what somebody can keep
* `Handle.IsStale`: what it stands for was deleted
* `Call`: what can be asked for through a handle
* `Call.namesake?`: the consumer that a call deletes in the place of another
* `Broker.Spares`: what exists is left as it is
* `Call.Inert`: a call spares what exists, but for a namesake

## Main results

* `Broker.Chronicle.not_isLive`: a stale handle stays stale
* `Broker.Chronicle.inert`: a call through a stale handle leaves what exists as it is, unless it
  deletes a namesake
-/

namespace StreamBroker

/-! ## Handles -/

/-- What somebody can keep: a stream or a consumer, by their numbers. -/
inductive Handle where
  | stream (id : Nat)
  | consumer (stream consumer : Nat)
  deriving DecidableEq, Repr

namespace Handle

/-- What a handle stands for is there. -/
def IsLive (b : Broker) : Handle → Prop
  | .stream i => ∃ s ∈ b.streams, s.id = i
  | .consumer i j => ∃ s ∈ b.streams, s.id = i ∧ ∃ c ∈ s.consumers, c.id = j

instance (b : Broker) : (h : Handle) → Decidable (h.IsLive b)
  | .stream i => inferInstanceAs (Decidable (∃ s ∈ b.streams, s.id = i))
  | .consumer i j =>
    inferInstanceAs (Decidable (∃ s ∈ b.streams, s.id = i ∧ ∃ c ∈ s.consumers, c.id = j))

/-- What a handle stands for was there in one of some states, newest first, and was not there any
more in a later one. -/
def IsStale (h : Handle) : List Broker → Prop
  | [] => False
  | b :: past => (¬h.IsLive b ∧ ∃ t ∈ past, h.IsLive t) ∨ h.IsStale past

instance decidableIsStale (h : Handle) : (states : List Broker) → Decidable (h.IsStale states)
  | [] => isFalse id
  | b :: past =>
    have := decidableIsStale h past
    inferInstanceAs (Decidable ((¬h.IsLive b ∧ ∃ t ∈ past, h.IsLive t) ∨ h.IsStale past))

theorem exists_isLive {h : Handle} {states : List Broker} (hstale : h.IsStale states) :
    ∃ t ∈ states, h.IsLive t := by
  induction states with
  | nil => cases hstale
  | cons b past ih =>
    rcases hstale with ⟨-, t, ht, hlive⟩ | hstale
    · exact ⟨t, List.mem_cons_of_mem b ht, hlive⟩
    · obtain ⟨t, ht, hlive⟩ := ih hstale
      exact ⟨t, List.mem_cons_of_mem b ht, hlive⟩

/-- The numbers of a handle were given. -/
def IsGiven (b : Broker) : Handle → Prop
  | .stream i => i < b.nextId
  | .consumer i j => i < b.nextId ∧ j < b.nextId

end Handle

/-! ## Calls -/

/-- What can be asked for through a handle, and what goes on that was begun through it. -/
inductive Call where
  /-- Messages of a stream are to go. -/
  | purge (stream : Nat) (r : PurgeRequest)
  /-- One message is to go. -/
  | deleteMessage (stream n : Nat)
  /-- A consumer is to be created or changed. -/
  | upsertConsumer (stream : Nat) (mode : UpsertMode) (settings : ConsumerSettings)
  /-- A consumer is to be deleted. -/
  | deleteConsumer (stream : Nat) (name : String)
  /-- Messages are to be fetched. -/
  | fetch (stream consumer : Nat) (r : PullRequest)
  /-- Something is said about a delivery. -/
  | acknowledge (stream consumer n : Nat) (kind : AckKind)
  /-- A subscription is to begin. -/
  | subscribe (stream consumer : Nat)
  /-- A pull that waits looks again. -/
  | look (pull : Nat)
  /-- A pull that waits is given up. -/
  | abort (pull : Nat)
  /-- A subscription goes on. -/
  | progress (subscription : Nat)
  /-- A subscription ends, and with it a consumer that is not durable. -/
  | unsubscribe (subscription : Nat)
  /-- A subscription ends. -/
  | drop (subscription : Nat)

namespace Call

/-- The handle that a call is made through. -/
def handle? (b : Broker) : Call → Option Handle
  | purge stream _ | deleteMessage stream _ | upsertConsumer stream _ _
  | deleteConsumer stream _ => some (.stream stream)
  | fetch stream consumer _ | acknowledge stream consumer _ _
  | subscribe stream consumer => some (.consumer stream consumer)
  | look pull | abort pull => (b.pull? pull).map fun p => .consumer p.stream p.consumer
  | progress id | unsubscribe id | drop id =>
    (b.subscription? id).map fun u => .consumer u.stream u.consumer

/-- What becomes of a broker by a call. -/
def run (b : Broker) : Call → Broker
  | purge stream r => ((Broker.purge stream r).run b).2
  | deleteMessage stream n => ((Broker.deleteMessage stream n).run b).2
  | upsertConsumer stream mode settings => ((Broker.upsertConsumer stream mode settings).run b).2
  | deleteConsumer stream name => ((Broker.deleteConsumer stream name).run b).2
  | fetch stream consumer r => ((Broker.fetch stream consumer r).run b).2
  | acknowledge stream consumer n kind => ((Broker.acknowledge stream consumer n kind).run b).2
  | subscribe stream consumer => ((Broker.subscribe stream consumer).run b).2
  | look pull => (b.pull? pull).elim b fun p => Broker.lookAgain p b
  | abort pull => Broker.abortPull pull b
  | progress id => (b.subscription? id).elim b fun u => Broker.progress u b
  | unsubscribe id => ((Broker.unsubscribe id).run b).2
  | drop id => Broker.dropSubscription id b

/-- The consumer that a call deletes in the place of the one that its handle stands for, and the
number of the stream: one of the name of a consumer that is not durable, when a subscription of that
ends. -/
def namesake? (b : Broker) : Call → Option (Nat × Consumer)
  | unsubscribe id => do
    let u ← b.subscription? id
    let c ← b.consumerById? u.stream u.consumer
    if c.cursor.settings.isDurable then none
    else match b.findConsumer u.stream c.name with
      | .ok d => some (u.stream, d)
      | .error _ => none
  | _ => none

end Call

namespace Broker

/-! ## What exists -/

/-- The streams that exist with all that is in them, but for the consumers that were deleted. -/
def present (b : Broker) : List Stream := b.streams.map fun s => { s with formerConsumers := [] }

/-- What exists is left as it is: the streams with their settings, messages and consumers, what is
stored, and the settings of the broker. -/
structure Spares (b b' : Broker) : Prop where
  /-- The streams are what they were. -/
  present_eq : b'.present = b.present
  /-- The same is stored. -/
  backend_eq : b'.backend = b.backend
  /-- The broker has the same settings. -/
  settings_eq : b'.settings = b.settings

namespace Spares

variable {b b' t : Broker}

theorem refl (b : Broker) : b.Spares b := ⟨rfl, rfl, rfl⟩

theorem trans (h : b.Spares t) (h' : t.Spares b') : b.Spares b' :=
  ⟨h'.present_eq.trans h.present_eq, h'.backend_eq.trans h.backend_eq,
    h'.settings_eq.trans h.settings_eq⟩

/-- What has the same streams spares what exists. -/
theorem of_streams_eq (hstreams : b'.streams = b.streams) (hbackend : b'.backend = b.backend)
    (hsettings : b'.settings = b.settings) : b.Spares b' :=
  ⟨by rw [present, hstreams, present], hbackend, hsettings⟩

end Spares

end Broker

/-- A call leaves what exists as it is, or it deletes a namesake and leaves what is left. -/
structure Call.Inert (b : Broker) (call : Call) : Prop where
  /-- Without a namesake everything is left as it is. -/
  spares : call.namesake? b = none → b.Spares (call.run b)
  /-- A namesake is deleted, and everything else is left as it is then. -/
  deletes : ∀ stream d, call.namesake? b = some (stream, d) →
    ((Broker.deleteConsumer stream d.name).run b).2.Spares (call.run b)

theorem Call.Inert.of_spares {b : Broker} {call : Call} (hnone : call.namesake? b = none)
    (h : b.Spares (call.run b)) : call.Inert b where
  spares _ := h
  deletes stream d hd := by
    rw [hnone] at hd
    cases hd

namespace Broker

variable {b b' t : Broker} {past : List Broker} {handle : Handle} {p : Pull} {u : Subscription}
  {s : Stream} {c : Consumer} {id stream consumer : Nat} {name : String}

/-- Whether something is there can be told from what exists. -/
theorem isLive_iff_present : handle.IsLive b ↔ match handle with
    | .stream i => ∃ s ∈ b.present, s.id = i
    | .consumer i j => ∃ s ∈ b.present, s.id = i ∧ ∃ c ∈ s.consumers, c.id = j := by
  cases handle <;> simp [Handle.IsLive, present]

theorem Spares.isLive_iff (h : b.Spares b') : handle.IsLive b' ↔ handle.IsLive b := by
  rw [isLive_iff_present, isLive_iff_present, h.present_eq]

/-! ## A stale handle stays stale -/

theorem isLive_of_has (h : b.Has stream consumer s c) :
    (Handle.consumer stream consumer).IsLive b :=
  ⟨s, h.mem_streams, h.stream_eq, c, h.mem_consumers, h.consumer_eq⟩

theorem isGiven_of_isLive (hb : b.Staffed) (h : handle.IsLive b) : handle.IsGiven b := by
  cases handle with
  | stream id =>
    obtain ⟨s, hs, rfl⟩ := h
    exact hb.id_lt _ (mem_streamIds hs)
  | consumer stream consumer =>
    obtain ⟨s, hs, rfl, c, hc, rfl⟩ := h
    exact ⟨hb.id_lt _ (mem_streamIds hs), hb.consumer_lt s hs c hc⟩

theorem isGiven_mono (hle : b.nextId ≤ b'.nextId) (h : handle.IsGiven b) : handle.IsGiven b' := by
  cases handle with
  | stream id => exact Nat.lt_of_lt_of_le h hle
  | consumer stream consumer => exact h.imp (Nat.lt_of_lt_of_le · hle) (Nat.lt_of_lt_of_le · hle)

/-- What is there under numbers that were given was there before. -/
theorem Step.isLive_of (hb : b.Staffed) (h : b.Step b') (hgiven : handle.IsGiven b)
    (hlive : handle.IsLive b') : handle.IsLive b := by
  cases handle with
  | stream id =>
    obtain ⟨s', hs', rfl⟩ := hlive
    cases h.leadsTo hb s' (List.mem_append_left _ hs') with
    | kept hs hlive hsame => exact ⟨_, hlive hs', hsame.id_eq.symm⟩
    | operated hs hop hrun hreply hsame =>
      have hid := (StreamOp.attends_run (hb.roster _ hs) hrun hreply).1
      exact ⟨_, hs, (hsame.id_eq.trans hid).symm⟩
    | opened hnew =>
      -- The number of a new stream was not given before.
      exact absurd hgiven (Nat.not_lt.2 hnew)
    | destroyed hs hgone => exact absurd hs' hgone
  | consumer stream consumer =>
    obtain ⟨s', hs', hstream, c', hc', hconsumer⟩ := hlive
    obtain ⟨s, c, hhas, -⟩ :=
      (h.carries hb).descends hgiven.1 hgiven.2 ⟨hs', hstream, hc', hconsumer⟩
    exact isLive_of_has hhas

theorem isLive_of_steps (hb : b.Staffed) (h : Relation.ReflTransGen Step b b')
    (hgiven : handle.IsGiven b) :
    handle.IsGiven b' ∧ (handle.IsLive b' → handle.IsLive b) := by
  induction h with
  | refl => exact ⟨hgiven, id⟩
  | tail h hstep ih =>
    have hstaffed := staffed_of_steps hb h
    exact ⟨isGiven_mono (hstep.carries hstaffed).nextId_le ih.1,
      fun hlive => ih.2 (hstep.isLive_of hstaffed ih.1 hlive)⟩

/-- The numbers of what was there at some time were given. -/
theorem Chronicle.isGiven (h : Chronicle (b :: past)) (ht : t ∈ b :: past)
    (hlive : handle.IsLive t) : handle.IsGiven b := by
  generalize hstates : b :: past = states at h
  induction h generalizing b past with
  | started settings seed backend hclock =>
    cases hstates
    obtain rfl := List.mem_singleton.1 ht
    exact isGiven_of_isLive (History.started settings seed backend hclock).staffed hlive
  | done h hdeed hanswered ih =>
    cases hstates
    rcases List.mem_cons.1 ht with rfl | ht
    · exact isGiven_of_isLive (h.done hdeed hanswered).staffed hlive
    · exact (isLive_of_steps h.staffed (hdeed.steps h.tidy hanswered) (ih ht rfl)).1

/-- **A stale handle stays stale**: what was deleted is never there again. -/
theorem Chronicle.not_isLive (h : Chronicle (b :: past)) (hstale : handle.IsStale (b :: past)) :
    ¬handle.IsLive b := by
  generalize hstates : b :: past = states at h
  induction h generalizing b past with
  | started settings seed backend hclock =>
    cases hstates
    rcases hstale with ⟨-, t, ht, -⟩ | hstale
    · cases ht
    · cases hstale
  | done h hdeed hanswered ih =>
    cases hstates
    rcases hstale with ⟨hgone, -⟩ | hstale
    · exact hgone
    · -- It was stale before, and its numbers were given, so no new stream or consumer has them.
      obtain ⟨t, ht, hlive⟩ := Handle.exists_isLive hstale
      have hsteps := hdeed.steps h.tidy hanswered
      exact fun hlive' =>
        ih hstale rfl ((isLive_of_steps h.staffed hsteps (h.isGiven ht hlive)).2 hlive')

/-! ## Calls through a stale handle -/

/-- A stream that is not there is refused. -/
theorem liveStream_of_gone (hgone : ¬(Handle.stream id).IsLive b) :
    ∃ e, b.liveStream id = .error e := by
  cases hlive : b.liveStream id with
  | ok s => exact absurd ⟨s, liveStream_eq_ok hlive⟩ hgone
  | error e => exact ⟨e, rfl⟩

/-- Nothing happens to a stream that is not there. -/
theorem onStream_of_gone {α : Type} (hgone : ¬(Handle.stream id).IsLive b)
    (f : Stream → Backend → Except Error α × Stream × Backend) : (onStream id f b).2 = b := by
  obtain ⟨e, he⟩ := liveStream_of_gone hgone
  rw [onStream, he]

theorem spares_upsertConsumer (hgone : ¬(Handle.stream stream).IsLive b) (mode : UpsertMode)
    (settings : ConsumerSettings) :
    b.Spares ((upsertConsumer stream mode settings).run b).2 := by
  have hrefused (t : Broker) (ht : b.Spares t)
      (f : Stream → Backend → Except Error Nat × Stream × Backend) :
      b.Spares (onStream stream f t).2 := by
    rw [onStream_of_gone (mt ht.isLive_iff.1 hgone)]
    exact ht
  have hnumber : (Action.answer freshId).run b = (.ok b.nextId, b.freshId.2) := rfl
  have hname (t : Broker) :
      (Action.answer freshName).run t = (.ok (t.nameOf t.namesMade), t.freshName.2) := rfl
  rw [upsertConsumer, Action.bind_ok hnumber]
  dsimp only
  split
  · next name _ =>
    rw [Action.bind_ok (Action.run_pure name _), Action.bind_ok (Action.run_read _)]
    exact hrefused b.freshId.2 (.of_streams_eq rfl rfl rfl) _
  · rw [Action.bind_ok (hname _), Action.bind_ok (Action.run_read _)]
    exact hrefused b.freshId.2.freshName.2 (.of_streams_eq rfl rfl rfl) _

/-- A consumer that is not there is refused. -/
theorem liveConsumer_of_gone (hb : b.Staffed)
    (hgone : ¬(Handle.consumer stream consumer).IsLive b) :
    ∃ e, b.liveConsumer stream consumer = .error e := by
  cases hlive : b.liveConsumer stream consumer with
  | ok found => exact absurd (isLive_of_has (hb.has_of_liveConsumer hlive)) hgone
  | error e => exact ⟨e, rfl⟩

theorem acknowledge_of_gone (hb : b.Staffed) (hgone : ¬(Handle.consumer stream consumer).IsLive b)
    (n : Nat) (kind : AckKind) : ((acknowledge stream consumer n kind).run b).2 = b := by
  obtain ⟨e, he⟩ := liveConsumer_of_gone hb hgone
  rw [acknowledge, Action.bind_ok (Action.run_read b), he]
  exact congrArg Prod.snd (Action.bind_error (e := e) rfl)

theorem subscribe_of_gone (hb : b.Staffed) (hgone : ¬(Handle.consumer stream consumer).IsLive b) :
    ((subscribe stream consumer).run b).2 = b := by
  obtain ⟨e, he⟩ := liveConsumer_of_gone hb hgone
  rcases subscribe_cases stream consumer b with heq | ⟨s, c, batch, hlive, -⟩
  · exact heq
  · rw [he] at hlive
    cases hlive

/-- What is changed of a consumer that is not there is nothing that exists. -/
theorem spares_modifyConsumer (hids : b.streamIds.Nodup)
    (hgone : ¬(Handle.consumer stream consumer).IsLive b) (f : Consumer → Consumer) :
    b.Spares (b.modifyConsumer stream consumer f) := by
  rw [modifyConsumer]
  split
  · next s hfind =>
    refine ⟨?_, rfl, rfl⟩
    have hid : s.id = stream := by simpa using List.find?_some hfind
    show (b.streams.map fun t => if t.id == s.id then s.modifyConsumer consumer f else t).map _ = _
    rw [List.map_map, present]
    refine List.map_congr_left fun t ht => ?_
    by_cases heq : t.id = s.id
    · -- The stream is there, so the consumer is not among those that it has.
      obtain rfl : t = s := List.inj_on_of_nodup_map hids (List.mem_append_left _ ht)
        (List.mem_of_find?_eq_some hfind) heq
      have hkept :
          (t.consumers.map fun c => if c.id == consumer then f c else c) = t.consumers := by
        refine (List.map_congr_left fun c hc => if_neg ?_).trans (List.map_id' _)
        rw [beq_iff_eq]
        exact fun hconsumer => hgone ⟨t, ht, hid, c, hc, hconsumer⟩
      simp only [Function.comp, beq_self_eq_true, if_true, Stream.modifyConsumer, hkept]
    · simp [heq]
  · exact .refl b

/-- A pull looks for nothing that exists, and is over. -/
theorem lookOnce_of_gone (hb : b.Staffed)
    (hgone : ¬(Handle.consumer p.stream p.consumer).IsLive b) :
    ∃ e t, lookOnce p b = { t with outcomes := t.outcomes ++ [⟨p.id, .error e⟩] } ∧
      b.Spares t ∧ t.pulls = b.pulls := by
  obtain ⟨e, he⟩ := liveConsumer_of_gone hb hgone
  refine ⟨e, leavePlace p.stream p.consumer b, ?_, spares_modifyConsumer hb.ids hgone _,
    pulls_modifyConsumer b _ _ _⟩
  rw [lookOnce, glance, he]
  rfl

/-- A pull that begins is over at once. -/
theorem startPull_of_gone (hb : b.Staffed) (hgone : ¬(Handle.consumer stream consumer).IsLive b)
    (r : PullRequest) : ∃ e t, startPull stream consumer r b =
      (b.nextId, { t with outcomes := t.outcomes ++ [⟨b.nextId, .error e⟩] }) ∧
      b.Spares t ∧ t.pulls = b.pulls := by
  have hfresh : b.Spares b.freshId.2 := .of_streams_eq rfl rfl rfl
  -- Where the consumer is gone, an attempt is noted nowhere.
  have hattended (a : Attendance) : b.Spares
      (b.freshId.2.modifyConsumer stream consumer (a.change b.now)) := by
    have hgone' : ¬(Handle.consumer stream consumer).IsLive b.freshId.2 :=
      mt hfresh.isLive_iff.1 hgone
    have hids : b.freshId.2.streamIds.Nodup := hb.ids
    exact hfresh.trans (spares_modifyConsumer hids hgone' _)
  cases startsPull stream consumer r b with
  | refused hcheck heq => exact ⟨_, _, heq, hfresh, rfl⟩
  | full hfound hcheck hmay ht heq =>
    subst ht
    exact ⟨_, _, heq, hattended .touch, pulls_modifyConsumer _ _ _ _⟩
  | @looks c deadline hfound hcheck hmay heq =>
    have hspares : b.Spares (b.enlist stream consumer) := hattended .arrive
    have hgone' : ¬(Handle.consumer stream consumer).IsLive (b.enlist stream consumer) :=
      mt hspares.isLive_iff.1 hgone
    obtain ⟨e, t, hlook, hleft, hpulls⟩ := lookOnce_of_gone
      (p := { id := b.nextId, stream, consumer, request := r, deadline, wake := deadline })
      (hb.enlist stream consumer) hgone'
    refine ⟨e, t, ?_, hspares.trans hleft, hpulls.trans (pulls_enlist ..)⟩
    rw [heq, hlook]

/-- Nobody waits for a pull that is over. -/
theorem runUntil_of_isDone (hnone : b.pull? id = none) (hdone : b.isDone id = true)
    (limit : Instant) : runUntil (some id) (·.isDone id) limit b = b := by
  rw [runUntil, runSteps]
  have hlook : (some id).elim b (lookIfDue · b) = b := by
    rw [Option.elim_some, lookIfDue, hnone]
  rw [hlook, if_pos hdone]

theorem spares_fetch (hb : b.Staffed) (htidy : b.Tidy)
    (hgone : ¬(Handle.consumer stream consumer).IsLive b) (r : PullRequest) :
    b.Spares ((fetch stream consumer r).run b).2 := by
  obtain ⟨e, t, heq, hspares, hpulls⟩ := startPull_of_gone hb hgone r
  rw [Action.run, fetch, heq]
  -- The number of the pull is new, so no other pull that waits looks in its place.
  have hnone : Broker.pull? { t with outcomes := t.outcomes ++ [⟨b.nextId, .error e⟩] }
      b.nextId = none := by
    refine List.find?_eq_none.2 fun p hp => ?_
    rw [beq_iff_eq]
    exact Nat.ne_of_lt (htidy.id_lt p (hpulls ▸ hp))
  have hdone : Broker.isDone { t with outcomes := t.outcomes ++ [⟨b.nextId, .error e⟩] }
      b.nextId = true := by
    simp [isDone, outcome?]
  dsimp only
  rw [awaitPull, runUntil_of_isDone hnone hdone]
  have hover := hspares.trans (Spares.of_streams_eq rfl rfl rfl : t.Spares (forgetOutcome
    { t with outcomes := t.outcomes ++ [⟨b.nextId, .error e⟩] } b.nextId))
  split <;> next h =>
    rw [← (Prod.mk.inj h).2]
    exact hover

theorem spares_lookAgain (hb : b.Staffed)
    (hgone : ¬(Handle.consumer p.stream p.consumer).IsLive b) : b.Spares (lookAgain p b) := by
  have hstaffed : (b.withoutPull p.id).Staffed := staffed_of_steps hb (.single (.withdrawn p.id))
  have hspares : b.Spares (b.withoutPull p.id) := .of_streams_eq rfl rfl rfl
  obtain ⟨e, t, heq, hleft, -⟩ := lookOnce_of_gone hstaffed (mt hspares.isLive_iff.1 hgone)
  rw [lookAgain, heq]
  exact (hspares.trans hleft).trans (.of_streams_eq rfl rfl rfl)

theorem streamIds_modifyConsumer (b : Broker) (stream consumer : Nat) (f : Consumer → Consumer) :
    (b.modifyConsumer stream consumer f).streamIds = b.streamIds := by
  rw [modifyConsumer]
  split
  · exact streamIds_putStream b _
  · rfl

theorem spares_abortPull (hids : b.streamIds.Nodup)
    (hgone : ∀ p, b.pull? id = some p → ¬(Handle.consumer p.stream p.consumer).IsLive b) :
    b.Spares (abortPull id b) ∧ (abortPull id b).streamIds = b.streamIds := by
  rw [abortPull]
  split
  · next p hp =>
    have hwithdrawn : b.Spares (b.withoutPull id) := .of_streams_eq rfl rfl rfl
    have hids' : (b.withoutPull id).streamIds.Nodup := hids
    have hgone' := mt hwithdrawn.isLive_iff.1 (hgone p hp)
    exact ⟨hwithdrawn.trans (spares_modifyConsumer hids' hgone' _),
      streamIds_modifyConsumer _ _ _ _⟩
  · exact ⟨.refl b, rfl⟩

theorem spares_progress (hb : b.Staffed) (hgone : ¬(Handle.consumer u.stream u.consumer).IsLive b) :
    b.Spares (progress u b) := by
  obtain ⟨outcomes, v, -, heq | ⟨r, heq⟩⟩ := progress_cases u b
  · rw [heq]
    exact .of_streams_eq rfl rfl rfl
  · have hreceived : b.Spares { b with outcomes } := .of_streams_eq rfl rfl rfl
    have hstaffed : Broker.Staffed { b with outcomes } :=
      staffed_of_steps hb (.single (.aside rfl rfl rfl rfl (Nat.le_refl _)))
    obtain ⟨e, t, hstart, hspares, -⟩ :=
      startPull_of_gone hstaffed (mt hreceived.isLive_iff.1 hgone) r
    rw [heq, hstart]
    exact (hreceived.trans hspares).trans (.of_streams_eq rfl rfl rfl)

/-- A subscription that ends gives up its own pull and releases its own consumer. -/
theorem spares_dropSubscription (hids : b.streamIds.Nodup) (hu : b.subscription? id = some u)
    (hgone : ¬(Handle.consumer u.stream u.consumer).IsLive b)
    (hown : ∀ p ∈ b.pulls, u.pull = some p.id → p.stream = u.stream ∧ p.consumer = u.consumer) :
    b.Spares (dropSubscription id b) := by
  -- First its pull is given up, which is a pull of its consumer.
  obtain ⟨t, hspares, hids', heq⟩ : ∃ t, b.Spares t ∧ t.streamIds = b.streamIds ∧
      dropSubscription id b = { unbind u.stream u.consumer t with
        subscriptions := (unbind u.stream u.consumer t).subscriptions.filter (·.id != id) } := by
    rw [dropSubscription, hu]
    dsimp only
    cases hpull : u.pull with
    | none => exact ⟨b, .refl b, rfl, rfl⟩
    | some pull =>
      have haborted : b.Spares (abortPull pull b) ∧ (abortPull pull b).streamIds = b.streamIds := by
        refine spares_abortPull hids fun p hp => ?_
        have hid : p.id = pull := by simpa using List.find?_some hp
        obtain ⟨hstream, hconsumer⟩ := hown p (List.mem_of_find?_eq_some hp) (hid ▸ hpull)
        rwa [hstream, hconsumer]
      exact ⟨(abortPull pull b).forgetOutcome pull,
        haborted.1.trans (.of_streams_eq rfl rfl rfl), haborted.2, rfl⟩
  rw [heq]
  have hunbound := spares_modifyConsumer (hids' ▸ hids) (mt hspares.isLive_iff.1 hgone)
    (Attendance.unbind.change t.now)
  exact (hspares.trans hunbound).trans (.of_streams_eq rfl rfl rfl)

end Broker

/-! ## Deleting by name -/

namespace Stream

/-- Whether or not the numbers run out, what no consumer needs is taken from the index alone. -/
theorem releaseUnclaimed_eq (s : Stream) (b : Backend) :
    ∃ x, (s.releaseUnclaimed b).2.1 = { s with index := x } := by
  have hreduce (f : Index → List Nat × Index) : ∃ x, (s.reduce f).2 = { s with index := x } := by
    simp only [reduce]
    split
    · exact ⟨_, rfl⟩
    · exact ⟨_, rfl⟩
  obtain ⟨x, hx⟩ := hreduce (Retention.releaseUnclaimed s.isNeeded)
  rw [releaseUnclaimed]
  split
  · rw [reduceAll]
    split <;> next h =>
      rw [h] at hx
      exact ⟨x, hx⟩
  · exact ⟨s.index, rfl⟩

/-- No consumer comes by the deletion of one. -/
theorem deleteConsumer_subset (s : Stream) (name : String) (b : Backend) :
    (s.deleteConsumer name b).2.1.id = s.id ∧
      (s.deleteConsumer name b).2.1.consumers ⊆ s.consumers := by
  rw [deleteConsumer]
  split
  · exact ⟨rfl, List.Subset.refl _⟩
  · next c _ =>
    dsimp only
    obtain ⟨x, hx⟩ := releaseUnclaimed_eq { s with
      consumers := s.consumers.filter fun d => d.name != name
      formerConsumers := c.notify :: s.formerConsumers } b
    rw [hx]
    exact ⟨rfl, List.filter_subset_self _⟩

end Stream

namespace Broker

variable {b b' t : Broker} {past : List Broker} {handle : Handle} {u : Subscription}
  {c : Consumer} {id stream : Nat} {name : String}

/-- Nothing comes by the deletion of a consumer. -/
theorem deleteConsumer_leaves (handle : Handle) (stream : Nat) (name : String) (b : Broker) :
    ((deleteConsumer stream name).run b).2.streamIds = b.streamIds ∧
      (handle.IsLive ((deleteConsumer stream name).run b).2 → handle.IsLive b) := by
  rw [Action.run, deleteConsumer, onStream]
  split
  · exact ⟨rfl, id⟩
  · next s hlive =>
    obtain ⟨hs, -⟩ := liveStream_eq_ok hlive
    obtain ⟨hid, hsubset⟩ := s.deleteConsumer_subset name b.backend
    dsimp only
    refine ⟨streamIds_putStream _ _, fun hlive => ?_⟩
    cases handle with
    | stream i =>
      obtain ⟨v, hv, rfl⟩ := hlive
      rcases mem_map_put hv with ⟨rfl, -⟩ | ⟨hmem, -⟩
      · exact ⟨s, hs, hid.symm⟩
      · exact ⟨v, hmem, rfl⟩
    -- A consumer that is left in the stream was in it before.
    | consumer i j =>
      obtain ⟨v, hv, rfl, c, hc, rfl⟩ := hlive
      rcases mem_map_put hv with ⟨rfl, -⟩ | ⟨hmem, -⟩
      · exact ⟨s, hs, hid.symm, c, hsubset hc, rfl⟩
      · exact ⟨v, hmem, rfl, c, hc, rfl⟩

/-- A consumer that is found by its name is one of a stream that is there. -/
theorem findConsumer_cases {found : Except Error Consumer}
    (h : b.findConsumer stream name = found) :
    (∃ e, b.liveStream stream = .error e ∧ found = .error e) ∨
      ∃ s, b.liveStream stream = .ok s ∧
        ((s.consumer? name = none ∧ found = .error (.consumerNotFound name)) ∨
          ∃ c, s.consumer? name = some c ∧ found = .ok c) := by
  rw [findConsumer] at h
  cases hlive : b.liveStream stream with
  | error e =>
    rw [hlive] at h
    exact .inl ⟨e, rfl, h.symm⟩
  | ok s =>
    rw [hlive] at h
    refine .inr ⟨s, rfl, ?_⟩
    cases hc : s.consumer? name with
    | none => exact .inl ⟨rfl, h.symm.trans (by simp [bind, Except.bind, hc])⟩
    | some c => exact .inr ⟨c, rfl, h.symm.trans (by simp [bind, Except.bind, hc])⟩

/-- Without a consumer of the name none is deleted. -/
theorem spares_deleteConsumer {e : Error} (hids : b.streamIds.Nodup)
    (h : b.findConsumer stream name = .error e) :
    b.Spares ((deleteConsumer stream name).run b).2 := by
  rw [Action.run, deleteConsumer, onStream]
  rcases findConsumer_cases h with
    ⟨e, hlive, -⟩ | ⟨s, hlive, ⟨hnone, -⟩ | ⟨c, -, hok⟩⟩
  · rw [hlive]
    exact .refl b
  · have hrefused : s.deleteConsumer name b.backend =
        (.error (.consumerNotFound name), s, b.backend) := by
      rw [Stream.deleteConsumer, hnone]
    rw [hlive]
    dsimp only
    rw [hrefused]
    refine .of_streams_eq ?_ rfl rfl
    -- The stream is put back as it was, and no other has its number.
    refine (List.map_congr_left fun t ht => ?_).trans (List.map_id' _)
    split
    · next heq =>
      exact List.inj_on_of_nodup_map hids (List.mem_append_left _ (liveStream_eq_ok hlive).1)
        (List.mem_append_left _ ht) (beq_iff_eq.1 heq).symm
    · rfl
  · cases hok

/-- A subscription that ends after a deletion spares what the deletion has left. -/
theorem deleteConsumer_spares_drop (hb : b.Staffed) (htidy : b.Tidy)
    (hu : b.subscription? id = some u)
    (hgone : ¬(Handle.consumer u.stream u.consumer).IsLive b) (name : String) :
    ((deleteConsumer u.stream name).run b).2.Spares
      (dropSubscription id ((deleteConsumer u.stream name).run b).2) := by
  obtain ⟨hids, hlive⟩ := deleteConsumer_leaves (.consumer u.stream u.consumer) u.stream name b
  obtain ⟨streams, formerStreams, backend, htouched⟩ :=
    onStream_eq u.stream (fun s backend => s.deleteConsumer name backend) b
  -- What waits is what waited before.
  have htouched : ((deleteConsumer u.stream name).run b).2 =
    { b with streams, formerStreams, backend } := htouched
  refine spares_dropSubscription (hids ▸ hb.ids) ?_ (mt hlive hgone) ?_
  · rw [htouched]
    exact hu
  · rw [htouched]
    exact htidy.own u (List.mem_of_find?_eq_some hu)

/-- A subscription ends, and a consumer is deleted before if that of the subscription is known and
not durable. -/
theorem unsubscribe_cases (hu : b.subscription? id = some u) :
    (((unsubscribe id).run b).2 = dropSubscription id b ∧
      (Call.unsubscribe id).namesake? b = none) ∨
    ∃ name, ((unsubscribe id).run b).2 =
        dropSubscription id ((deleteConsumer u.stream name).run b).2 ∧
      (Call.unsubscribe id).namesake? b =
        match b.findConsumer u.stream name with
        | .ok d => some (u.stream, d)
        | .error _ => none := by
  simp only [Action.run, unsubscribe, Call.namesake?, hu, Option.bind_eq_bind, Option.bind_some]
  cases hc : b.consumerById? u.stream u.consumer with
  | none => exact .inl ⟨rfl, rfl⟩
  | some c =>
    cases hdurable : c.cursor.settings.isDurable with
    | true => exact .inl ⟨by simp [hdurable], by simp [hdurable]⟩
    | false => exact .inr ⟨c.name, by simp [hdurable], by simp [hdurable]⟩

theorem inert_unsubscribe (hb : b.Staffed) (htidy : b.Tidy) (hu : b.subscription? id = some u)
    (hgone : ¬(Handle.consumer u.stream u.consumer).IsLive b) :
    (Call.unsubscribe id).Inert b := by
  rcases unsubscribe_cases hu with ⟨hrun, hnone⟩ | ⟨name, hrun, hnamesake⟩
  · refine .of_spares hnone ?_
    rw [Call.run, hrun]
    exact spares_dropSubscription hb.ids hu hgone (htidy.own u (List.mem_of_find?_eq_some hu))
  · -- By now the name may be that of another consumer, which goes in place of its own.
    have hleft := deleteConsumer_spares_drop hb htidy hu hgone name
    rw [← hrun] at hleft
    cases hfind : b.findConsumer u.stream name with
    | error e =>
      rw [hfind] at hnamesake
      exact .of_spares hnamesake ((spares_deleteConsumer hb.ids hfind).trans hleft)
    | ok d =>
      rw [hfind] at hnamesake
      refine ⟨fun hnone => ?_, fun stream w hw => ?_⟩
      · rw [hnamesake] at hnone
        cases hnone
      · rw [hnamesake] at hw
        cases hw
        have hname : d.name = name := by
          rcases findConsumer_cases hfind with ⟨e, -, hok⟩ | ⟨s, -, ⟨-, hok⟩ | ⟨w, hw, hok⟩⟩
          · cases hok
          · cases hok
          · cases hok
            simpa using List.find?_some hw
        rw [hname]
        exact hleft

/-! ## All calls -/

/-- **A call through a stale handle leaves what exists as it is**, whatever has happened and even if
there is another stream or consumer of the name.  Only when a subscription ends of a consumer that
is not durable, a consumer of its name is deleted as if it had been asked for. -/
theorem Chronicle.inert (h : Chronicle (b :: past)) {call : Call}
    (hcall : call.handle? b = some handle) (hstale : handle.IsStale (b :: past)) :
    call.Inert b := by
  have hb := h.staffed
  -- What a stale handle names is gone for good: its number is not given again.
  have hgone := h.not_isLive hstale
  have hkept {t : Broker} (heq : t = b) : b.Spares t := heq ▸ .refl b
  cases call with
  | purge stream r =>
    cases hcall
    exact .of_spares rfl (hkept (onStream_of_gone hgone fun s backend => s.purge r backend))
  | deleteMessage stream n =>
    cases hcall
    exact .of_spares rfl (hkept (onStream_of_gone hgone fun s backend => s.deleteMessage n backend))
  | upsertConsumer stream mode settings =>
    cases hcall
    exact .of_spares rfl (spares_upsertConsumer hgone mode settings)
  | deleteConsumer stream name =>
    cases hcall
    exact .of_spares rfl
      (hkept (onStream_of_gone hgone fun s backend => s.deleteConsumer name backend))
  | fetch stream consumer r =>
    cases hcall
    exact .of_spares rfl (spares_fetch hb h.tidy hgone r)
  | acknowledge stream consumer n kind =>
    cases hcall
    exact .of_spares rfl (hkept (acknowledge_of_gone hb hgone n kind))
  | subscribe stream consumer =>
    cases hcall
    exact .of_spares rfl (hkept (subscribe_of_gone hb hgone))
  | look pull =>
    obtain ⟨p, hp, rfl⟩ := Option.map_eq_some_iff.1 hcall
    refine .of_spares rfl ?_
    rw [Call.run, hp]
    exact spares_lookAgain hb hgone
  | abort pull =>
    obtain ⟨p, hp, rfl⟩ := Option.map_eq_some_iff.1 hcall
    refine .of_spares rfl (spares_abortPull hb.ids fun q hq => ?_).1
    rw [hp] at hq
    cases hq
    exact hgone
  | progress id =>
    obtain ⟨u, hu, rfl⟩ := Option.map_eq_some_iff.1 hcall
    refine .of_spares rfl ?_
    rw [Call.run, hu]
    exact spares_progress hb hgone
  | unsubscribe id =>
    obtain ⟨u, hu, rfl⟩ := Option.map_eq_some_iff.1 hcall
    exact inert_unsubscribe hb h.tidy hu hgone
  | drop id =>
    obtain ⟨u, hu, rfl⟩ := Option.map_eq_some_iff.1 hcall
    exact .of_spares rfl (spares_dropSubscription hb.ids hu hgone
      (h.tidy.own u (List.mem_of_find?_eq_some hu)))

/-- A consumer of a number is created. -/
def hire (id : Nat) (settings : ConsumerSettings) : StreamOp :=
  .upsertConsumer .create id "" {} settings

/-- A consumer that is not durable was subscribed to and deleted, and a durable one of its name was
created. -/
def replaced : Broker :=
  let operate (op : StreamOp) (next : Nat) (b : Broker) :=
    (onStream 0 (op.run b.clock) { b with nextId := next }).2
  let b := start {} 0 Stream.epochClock Stream.blankBackend
  let b := operate (hire 1 { name := some "c" }) 2 ((openStream Stream.plainSettings).run b).2
  let b := operate (.deleteConsumer "c") 3 ((subscribe 0 1).run b).2
  operate (hire 3 { durableName := some "c" }) 4 b

theorem chronicle_replaced : ∃ past, Chronicle (replaced :: past) ∧
    (Handle.consumer 0 1).IsStale (replaced :: past) := by
  have hhire (b : Broker) (id : Nat) (settings : ConsumerSettings)
      (hnew : ∀ s ∈ b.streams, s.consumerById? id = none) (hnext : b.nextId ≤ id)
      (hreply : (onStream 0 ((hire id settings).run b.clock) { b with nextId := id + 1 }).1 ≠
        .error .numbersExhausted) :
      b.Deed (onStream 0 ((hire id settings).run b.clock) { b with nextId := id + 1 }).2 :=
    .operated (fun s hs => hnew s (liveStream_eq_ok hs).1) ⟨hnext, Nat.lt_succ_self id⟩ hreply
  have hstarted := Chronicle.started {} 0 Stream.blankBackend
    (show Stream.epochClock.IsDated from rfl)
  have hopened := hstarted.done (.opened _ Stream.plainSettings) (by decide +kernel)
  have hhired := hopened.done (hhire _ 1 { name := some "c" } (by decide +kernel)
    (by decide +kernel) (by decide +kernel)) (by decide +kernel)
  have hsubscribed := hhired.done (.subscribed 0 1) (by decide +kernel)
  have hdeleted := hsubscribed.done (@Deed.operated _ 0 3 (.deleteConsumer "c") (fun _ _ => trivial)
    (show Broker.nextId _ ≤ 3 by decide +kernel) (by decide +kernel)) (by decide +kernel)
  have hreplaced := hdeleted.done (hhire _ 3 { durableName := some "c" } (by decide +kernel)
    (by decide +kernel) (by decide +kernel)) (by decide +kernel)
  exact ⟨_, hreplaced, by decide +kernel⟩

/-- When the subscription ends, the durable consumer is deleted. -/
theorem inert_but_namesake : ∃ past d, Chronicle (replaced :: past) ∧
    (Call.unsubscribe 2).handle? replaced = some (.consumer 0 1) ∧
    (Handle.consumer 0 1).IsStale (replaced :: past) ∧
    (Call.unsubscribe 2).namesake? replaced = some (0, d) ∧
    (d.id = 3 ∧ d.cursor.settings.isDurable = true) ∧
    ((deleteConsumer 0 d.name).run replaced).2.Spares ((Call.unsubscribe 2).run replaced) ∧
    replaced.streams.map (fun s => s.consumers.map (·.id)) = [[3]] ∧
    ((Call.unsubscribe 2).run replaced).streams.map (fun s => s.consumers.map (·.id)) = [[]] := by
  obtain ⟨past, chronicle, hstale⟩ := chronicle_replaced
  have hhandle : (Call.unsubscribe 2).handle? replaced = some (.consumer 0 1) := by decide +kernel
  have hfound : ((Call.unsubscribe 2).namesake? replaced).map
      (fun e => (e.1, e.2.id, e.2.cursor.settings.isDurable)) = some (0, 3, true) := by
    decide +kernel
  obtain ⟨⟨stream, d⟩, hnamesake, hd⟩ := Option.map_eq_some_iff.1 hfound
  obtain ⟨rfl, hid, hdurable⟩ : stream = 0 ∧ d.id = 3 ∧ d.cursor.settings.isDurable = true := by
    simpa using hd
  exact ⟨past, d, chronicle, hhandle, hstale, hnamesake, ⟨hid, hdurable⟩,
    (chronicle.inert hhandle hstale).deletes 0 d hnamesake, by decide +kernel, by decide +kernel⟩

end Broker

end StreamBroker
