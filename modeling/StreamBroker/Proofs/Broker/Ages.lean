import StreamBroker.Proofs.Broker.Watching
import StreamBroker.Proofs.Journal.Dated

/-!
# Nothing is served that is too old

What is too old leaves a stream late: only when somebody looks, and then only as far as the first
message that is young enough.  A broker still serves nothing that is too old, and nothing leaves for
its age that is not.  Every way to look at a stream lets go what is too old before, and in a stream
whose messages come in the order of time that is all of it.

The order of time holds in every stream at any time, however its settings are changed, whatever
calls to the store fail, and also when streams are opened again by a broker that starts anew.  It
takes a store that the broker has to itself and that began in the order of time, and two streams
never write one journal, since no two of them have one name.

## Main definitions

* `Broker.OwnStep`: what happens to a broker that has its store to itself
* `Broker.IsTimely`: all messages are in the order of time
* `Broker.ServesYoung`, `Broker.SparesYoung`: nothing too old is served, and nothing else goes

## Main results

* `Broker.OwnStep.isTimely`: a step leaves all messages in the order of time
* `Broker.serves_and_spares_young`: nothing is served at any time that is too old
-/

namespace StreamBroker

/-! ## Stores without anything -/

/-- Nothing is kept in a store. -/
def LogStore.isEmpty : LogStore → Bool
  | memory s => s.logs.isEmpty
  | directory s => s.root.isEmpty

/-- All journals on a store are in the order of time. -/
def LogStore.IsDated (s : LogStore) (now : Timestamp) : Prop :=
  ∀ ns, s.Gives ns (Journal.IsDated now wordLimit)

theorem LogStore.isDated_of_isEmpty {s : LogStore} (h : s.isEmpty = true) (now : Timestamp) :
    s.IsDated now := by
  intro ns
  cases s with
  | memory s =>
    rw [isEmpty, List.isEmpty_iff] at h
    refine .inr ⟨SeqMap.empty, ?_, .empty now wordLimit⟩
    show s.log ns = SeqMap.empty
    rw [MemoryStore.log, h]
    rfl
  | directory s =>
    rw [isEmpty, List.isEmpty_iff] at h
    cases hdirectory : s.directory? ns with
    | error e => exact .inl ⟨e, hdirectory⟩
    | ok t =>
      -- A directory that is not there lists no entries.
      have hnone := DirectoryStore.directory?_eq hdirectory s
      rw [hdirectory, h] at hnone
      obtain rfl : t = none := Except.ok.inj hnone
      exact .inr ⟨SeqMap.empty, ⟨none, hdirectory, DirectoryStore.Lists.nil⟩, .empty now wordLimit⟩

namespace Broker

variable {b b' : Broker} {s s' u : Stream} {backend : Backend} {m : StoredMessage}
  {ms : List StoredMessage}

/-! ## Steps -/

/-- What happens to a broker that has its store to itself: all but itself leave the store as it is,
and it opens no stream of a name that is in use. -/
inductive OwnStep (b : Broker) : Broker → Prop where
  /-- An operation on a stream is answered, or refused because the stream was deleted. -/
  | operated {id next : Nat} {op : StreamOp}
      (hop : ∀ s, b.liveStream id = .ok s → op.IsProper s) (hnext : op.Numbers b.nextId next)
      (hreply : (onStream id (op.run b.clock) { b with nextId := next }).1 ≠
        .error .numbersExhausted) :
      OwnStep b (onStream id (op.run b.clock) { b with nextId := next }).2
  /-- A pull looks, and may go on waiting. -/
  | looked {p : Pull} (hbatch : p.request.batch ≠ 0)
      (hreply : (glance p b).1.IsAnswered) : OwnStep b (lookOnce p b)
  /-- A stream of a new name is created. -/
  | opened {settings : StreamSettings} (hname : b.stream? settings.name = none) :
      OwnStep b ((openStream settings).run b).2
  /-- A stream is deleted. -/
  | deleted (name : String) : OwnStep b ((deleteStream name).run b).2
  /-- A consumer is attended to, deleted or not. -/
  | attended (stream consumer : Nat) (a : Attendance) :
      OwnStep b (b.modifyConsumer stream consumer (a.change b.now))
  /-- Time passes. -/
  | waited {i : Instant} (hnow : b.now ≤ i) (hclock : (b.clock.atInstant i).IsDated) :
      OwnStep b (b.atInstant i)
  /-- Names are made up, pulls, subscribers and iterators come and go, and calls are to fail. -/
  | aside {b' : Broker} (hstreams : b'.streams = b.streams)
      (hformer : b'.formerStreams = b.formerStreams) (hclock : b'.clock = b.clock)
      (hnext : b.nextId ≤ b'.nextId) (hstore : b'.backend.store = b.backend.store) : OwnStep b b'
  /-- A new broker begins on the same store. -/
  | restarted : OwnStep b b.restart

/-- All messages of a broker are in the order of time, and those in its store. -/
structure IsTimely (b : Broker) : Prop where
  /-- Streams and consumers are told apart. -/
  staffed : b.Staffed
  /-- The messages of every stream are in the order of time. -/
  streams : ∀ s ∈ b.streams, s.IsDated b.clock.wall.toMicro b.backend.store
  /-- So are those of all journals. -/
  store : b.backend.store.IsDated b.clock.wall.toMicro
  /-- No two streams have one journal. -/
  apart : ∀ s ∈ b.streams, ∀ t ∈ b.streams, ∀ ns, s.journal? = some ns → t.journal? = some ns →
    s.id = t.id

/-- No stream has the journal of a name that is new. -/
theorem journal?_ne_of_new {settings : StreamSettings} (hname : b.stream? settings.name = none)
    (hs : s ∈ b.streams) {ns : String} (hns : s.journal? = some ns) :
    settings.journal? ≠ some ns := by
  intro heq
  have hne := List.find?_eq_none.1 hname s hs
  obtain ⟨-, rfl⟩ := StreamSettings.journal?_eq_some_iff.1 hns
  obtain ⟨-, hnames⟩ := StreamSettings.journal?_eq_some_iff.1 heq
  exact hne (beq_iff_eq.2 ((String.append_right_inj _).1 hnames).symm)

/-- Who changes a consumer leaves alone what is in its stream. -/
theorem Staffed.of_mem_modifyConsumer (hb : b.Staffed) {stream consumer : Nat}
    {f : Consumer → Consumer} (hs : s' ∈ (b.modifyConsumer stream consumer f).streams) :
    ∃ s ∈ b.streams, s'.id = s.id ∧ s'.index = s.index ∧ s'.journal? = s.journal? := by
  rw [modifyConsumer] at hs
  split at hs
  · next s hfind =>
    rcases mem_map_put hs with ⟨rfl, hid⟩ | ⟨hmem, -⟩
    · obtain ⟨t, ht, heq⟩ := List.mem_map.1 hid
      have hmem : s ∈ b.streams ++ b.formerStreams := List.mem_of_find?_eq_some hfind
      obtain rfl := hb.eq_of_id (List.mem_append_left _ ht) hmem heq
      exact ⟨t, ht, rfl, rfl, rfl⟩
    · exact ⟨s', hmem, rfl, rfl, rfl⟩
  · exact ⟨s', hs, rfl, rfl, rfl⟩

theorem backend_modifyConsumer (b : Broker) (stream consumer : Nat) (f : Consumer → Consumer) :
    (b.modifyConsumer stream consumer f).backend = b.backend := by
  rw [modifyConsumer]
  split <;> rfl

namespace IsTimely

/-- Streams go, and what is in the others stays, while time goes on. -/
theorem of_streams (hb : b.IsTimely) (hstaffed : b'.Staffed)
    (hstreams : ∀ s' ∈ b'.streams, ∃ s ∈ b.streams, s'.id = s.id ∧ s'.index = s.index ∧
      s'.journal? = s.journal?)
    (hstore : b'.backend.store = b.backend.store)
    (hclock : b.clock.wall.sinceEpoch ≤ b'.clock.wall.sinceEpoch) : b'.IsTimely := by
  have hle := Timestamp.sinceEpoch_toMicro_mono hclock
  refine ⟨hstaffed, fun s' hs' => ?_, fun ns => ?_, fun s' hs' t' ht' ns hs ht => ?_⟩
  · obtain ⟨s, hs, -, hindex, hjournal⟩ := hstreams s' hs'
    obtain ⟨hsound, hlt, hdated, hgives⟩ := (hb.streams s hs).of_le hle
    rw [hstore]
    exact ⟨hindex ▸ hsound, hindex ▸ hlt, hindex ▸ hdated, hindex ▸ hjournal ▸ hgives⟩
  · rw [hstore]
    exact (hb.store ns).mono fun _ hlog => hlog.mono (Nat.le_refl _) hle
  · obtain ⟨s, hsmem, hsid, -, hsjournal⟩ := hstreams s' hs'
    obtain ⟨t, htmem, htid, -, htjournal⟩ := hstreams t' ht'
    rw [hsid, htid]
    exact hb.apart s hsmem t htmem ns (hsjournal ▸ hs) (htjournal ▸ ht)

/-- What stays when only consumers have changed. -/
theorem modifyConsumer (hb : b.IsTimely) (stream consumer : Nat) (a : Attendance) :
    (b.modifyConsumer stream consumer (a.change b.now)).IsTimely := by
  refine hb.of_streams (carries_attended hb.staffed stream consumer a).staffed
    (fun s' => hb.staffed.of_mem_modifyConsumer) ?_ (Int.le_of_eq ?_)
  · rw [backend_modifyConsumer]
  · rw [clock_modifyConsumer]

/-- What happens to one stream happens to it and its journal alone. -/
theorem put (hb : b.IsTimely) {next : Nat} (hs : s ∈ b.streams) (hid : u.id = s.id)
    (h : s.Moves b.backend ms u backend) (hms : ∀ m ∈ ms, m.timestamp = b.clock.wall.toMicro)
    (hstaffed : ({ b with backend, nextId := next }.putStream u).Staffed) :
    ({ b with backend, nextId := next }.putStream u).IsTimely := by
  have hu := (hb.streams s hs).moves h hms
  refine ⟨hstaffed, fun s' hs' => ?_, fun ns => ?_, fun s' hs' t' ht' ns hsns htns => ?_⟩
  · rcases mem_map_put hs' with ⟨rfl, -⟩ | ⟨hmem, hne⟩
    · exact hu
    · -- Another stream has a journal of its own, which no call here was about.
      obtain ⟨hsound, hlt, hdated, hgives⟩ := hb.streams s' hmem
      refine ⟨hsound, hlt, hdated, fun ns hns => h.run.gives_of_ne (fun hsns => hne ?_)
        (hgives ns hns)⟩
      rw [hid]
      exact hb.apart s' hmem s hs ns hns hsns
  · by_cases hns : s.journal? = some ns
    · exact (hu.journal ns (h.journal.trans hns)).mono fun _ hlog =>
        hlog.mono (Nat.le_of_lt hu.lastSeq_lt) (Int.le_refl _)
    · exact h.run.gives_of_ne hns (hb.store ns)
  · -- The stream that changed kept its journal, so two of one journal were two before.
    have hjournal {t : Stream} (ht : t ∈ ({ b with backend, nextId := next }.putStream u).streams)
        (hns : t.journal? = some ns) : ∃ v ∈ b.streams, v.id = t.id ∧ v.journal? = some ns := by
      rcases mem_map_put ht with ⟨rfl, -⟩ | ⟨hmem, -⟩
      · exact ⟨s, hs, hid.symm, h.journal ▸ hns⟩
      · exact ⟨t, hmem, rfl, hns⟩
    obtain ⟨v, hv, hvid, hvns⟩ := hjournal hs' hsns
    obtain ⟨w, hw, hwid, hwns⟩ := hjournal ht' htns
    rw [← hvid, ← hwid]
    exact hb.apart v hv w hw ns hvns hwns

theorem run (hb : b.IsTimely) {next : Nat} {op : StreamOp} {reply : Except Error StreamReply}
    (hs : s ∈ b.streams) (hop : op.IsProper s) (hnext : op.Numbers b.nextId next)
    (h : op.run b.clock s b.backend = (reply, u, backend))
    (hreply : reply ≠ .error .numbersExhausted) :
    ({ b with backend, nextId := next }.putStream u).IsTimely := by
  obtain ⟨ms, hmoves, hms⟩ := StreamOp.moves_run_present hb.staffed.dated hop h hreply
  have hid := (StreamOp.attends_run (hb.staffed.roster s hs) h hreply).1
  exact hb.put hs hid hmoves hms (carries_run hb.staffed hs hop hnext h hreply).staffed

theorem onStream (hb : b.IsTimely) {id next : Nat} {op : StreamOp}
    (hop : ∀ s, b.liveStream id = .ok s → op.IsProper s) (hnext : op.Numbers b.nextId next)
    (hreply : (Broker.onStream id (op.run b.clock) { b with nextId := next }).1 ≠
      .error .numbersExhausted) :
    (Broker.onStream id (op.run b.clock) { b with nextId := next }).2.IsTimely := by
  have hstaffed := (carries_onStream hb.staffed hop hnext hreply).staffed
  cases operates id next op b with
  | missed hlive heq =>
    rw [heq] at hstaffed ⊢
    exact hb.of_streams hstaffed (fun s hs => ⟨s, hs, rfl, rfl, rfl⟩) rfl (Int.le_refl _)
  | ran hlive hrun heq =>
    rw [heq] at hreply ⊢
    exact hb.run (liveStream_eq_ok hlive).1 (hop _ hlive) hnext hrun hreply

theorem lookOnce (hb : b.IsTimely) {p : Pull} (hbatch : p.request.batch ≠ 0)
    (hreply : (glance p b).1.IsAnswered) : (Broker.lookOnce p b).IsTimely := by
  have hglance : (glance p b).2.IsTimely := by
    rcases glance_run hb.staffed hreply with
      heq | ⟨s, hs, consumer, limits, reply, u, backend, hrun, hne, heq⟩
    · exact heq.symm ▸ hb
    · have hproper : (StreamOp.collect consumer limits).IsProper s := trivial
      rw [heq]
      show ({ b with backend, nextId := b.nextId }.putStream u).IsTimely
      exact hb.run hs hproper (Nat.le_refl b.nextId) hrun hne
  have hstaffed := (carries_lookOnce hb.staffed hbatch hreply).1.staffed
  rw [Broker.lookOnce] at hstaffed ⊢
  cases hg : glance p b with
  | mk r t =>
    rw [hg] at hglance hstaffed
    cases r with
    | «over» result =>
      have hleave : (leavePlace p.stream p.consumer t).IsTimely :=
        hglance.modifyConsumer p.stream p.consumer .leave
      exact hleave.of_streams hstaffed (fun s hs => ⟨s, hs, rfl, rfl, rfl⟩) rfl (Int.le_refl _)
    | waits q =>
      exact hglance.of_streams hstaffed (fun s hs => ⟨s, hs, rfl, rfl, rfl⟩) rfl (Int.le_refl _)

/-- A stream of a new name is opened in the order of time, if it comes to be opened. -/
theorem openStream (hb : b.IsTimely) {settings : StreamSettings}
    (hname : b.stream? settings.name = none) :
    ((Broker.openStream settings).run b).2.IsTimely := by
  have hstaffed := (carries_openStream hb.staffed settings).staffed
  -- No stream that is there has the journal of a new name.
  have hother {t : Stream} (ht : t ∈ b.streams) {ns : String} (hns : t.journal? = some ns) :
      settings.journal? ≠ some ns := journal?_ne_of_new hname ht hns
  have hstore {reply : Except Error Stream} {backend : Backend}
      (hopen : Stream.open? b.nextId settings b.clock b.backend = (reply, backend)) :
      backend.store.IsDated b.clock.wall.toMicro :=
    fun ns => Stream.gives_of_open? (hb.store ns) hopen
  have hkept {reply : Except Error Stream} {backend : Backend}
      (hopen : Stream.open? b.nextId settings b.clock b.backend = (reply, backend)) {t : Stream}
      (ht : t ∈ b.streams) : t.IsDated b.clock.wall.toMicro backend.store := by
    obtain ⟨hsound, hlt, hdated, hgives⟩ := hb.streams t ht
    exact ⟨hsound, hlt, hdated, fun ns hns =>
      Stream.gives_of_open?_of_ne (hgives ns hns) hopen (hother ht hns)⟩
  cases opens settings b with
  | failed hopen heq | ringless hopen heq =>
    rw [heq] at hstaffed ⊢
    exact ⟨hstaffed, fun t ht => hkept hopen ht, hstore hopen, hb.apart⟩
  | @opened s backend hopen heq =>
    rw [heq] at hstaffed ⊢
    have hs := Stream.isDated_of_open? (fun ns _ => hb.store ns) hopen
    have hjournal : s.journal? = settings.journal? := by
      obtain ⟨x, b₁, -, hsettings, -⟩ := Stream.moves_of_open? hopen
      rw [Stream.journal?, hsettings]
    refine ⟨hstaffed, fun t ht => ?_, hstore hopen, fun t ht v hv ns htns hvns => ?_⟩
    · rcases List.mem_append.1 ht with ht | ht
      · exact hkept hopen ht
      · exact List.mem_singleton.1 ht ▸ hs
    · rcases List.mem_append.1 ht with hold | hnew <;>
        rcases List.mem_append.1 hv with hold' | hnew'
      · exact hb.apart t hold v hold' ns htns hvns
      · rw [List.mem_singleton.1 hnew'] at hvns
        exact absurd (hjournal ▸ hvns) (hother hold htns)
      · rw [List.mem_singleton.1 hnew] at htns
        exact absurd (hjournal ▸ htns) (hother hold' hvns)
      · rw [List.mem_singleton.1 hnew, List.mem_singleton.1 hnew']

/-- With a stream its journal goes, if the store lets it, and no other. -/
theorem deleteStream (hb : b.IsTimely) (name : String) :
    ((Broker.deleteStream name).run b).2.IsTimely := by
  have hstaffed := (carries_deleteStream hb.staffed name).staffed
  cases deletes name b with
  | missed hnone heq =>
    rw [heq]
    exact hb
  | @deleted s gone reply backend hs hdestroy heq =>
    rw [heq] at hstaffed ⊢
    have hgives {P : SeqMap Bytes → Prop} {ns : String} (h : b.backend.store.Gives ns P)
        (hP : s.journal? = some ns → P SeqMap.empty) : backend.store.Gives ns P := by
      have hleft := congrArg (·.2.2) hdestroy
      rw [Stream.destroy] at hleft
      dsimp only at hleft
      rw [← hleft]
      split
      · next hjournaled =>
        refine Backend.gives_perform (.removeNamespace s.journal) h fun hns =>
          ⟨trivial, fun _ _ => hP ?_⟩
        rw [Stream.journal?_of_isJournaled hjournaled]
        exact congrArg some hns
      · exact h
    refine ⟨hstaffed, fun t ht => ?_, fun ns => ?_, fun t ht v hv => ?_⟩
    · obtain ⟨hmem, hne⟩ := List.mem_filter.1 ht
      obtain ⟨hsound, hlt, hdated, htgives⟩ := hb.streams t hmem
      refine ⟨hsound, hlt, hdated, fun ns hns => hgives (htgives ns hns) fun hsns => ?_⟩
      have hid := hb.apart t hmem s hs ns hns hsns
      simp [hid] at hne
    · exact hgives (hb.store ns) fun _ => .empty _ _
    · exact hb.apart t (List.mem_filter.1 ht).1 v (List.mem_filter.1 hv).1

end IsTimely

/-- **A step leaves all messages in the order of time.** -/
theorem OwnStep.isTimely (hb : b.IsTimely) (h : b.OwnStep b') : b'.IsTimely := by
  cases h with
  | operated hop hnext hreply => exact hb.onStream hop hnext hreply
  | looked hbatch hreply => exact hb.lookOnce hbatch hreply
  | opened hname => exact hb.openStream hname
  | deleted name => exact hb.deleteStream name
  | attended stream consumer a => exact hb.modifyConsumer stream consumer a
  | waited hnow hclock =>
    have hstaffed := ((Step.waited hnow hclock).carries hb.staffed).staffed
    refine hb.of_streams hstaffed (fun s hs => ⟨s, hs, rfl, rfl, rfl⟩) rfl ?_
    -- The clock only goes on, and nothing is newer than it was.
    rw [Clock.sinceEpoch_wall, Clock.sinceEpoch_wall]
    exact Int.add_le_add_left (Int.ofNat_le.2 hnow) _
  | aside hstreams hformer hclock hnext hstore =>
    have hstaffed := (carries_of_streams_eq hb.staffed (fun _ _ => trivial) hstreams hformer
      (hclock ▸ hb.staffed.dated) (Nat.le_of_eq (congrArg Clock.elapsed hclock).symm)
      hnext (R := fun _ _ _ _ => True)).staffed
    exact hb.of_streams hstaffed (fun s hs => ⟨s, hstreams ▸ hs, rfl, rfl, rfl⟩) hstore
      (by rw [hclock])
  | restarted =>
    exact hb.of_streams (Step.restarted.carries hb.staffed).staffed (fun s hs => by cases hs) rfl
      (Int.le_refl _)

theorem isTimely_start (settings : BrokerSettings) (seed : Nat) {clock : Clock} {backend : Backend}
    (hclock : clock.IsDated) (hstore : backend.store.IsDated clock.wall.toMicro) :
    (start settings seed clock backend).IsTimely where
  staffed := (History.started settings seed backend hclock).staffed
  streams s hs := by cases hs
  store := hstore
  apart s hs := by cases hs

theorem isTimely_of_reached {settings : BrokerSettings} {seed : Nat} {clock : Clock}
    (hclock : clock.IsDated) (hstore : backend.store.IsDated clock.wall.toMicro)
    (h : Relation.ReflTransGen OwnStep (start settings seed clock backend) b) : b.IsTimely := by
  induction h with
  | refl => exact isTimely_start settings seed hclock hstore
  | tail run h ih => exact h.isTimely ih

/-! ## What is served -/

/-- A message is not too old by the settings that a stream has. -/
def IsYoungIn (b : Broker) (id : Nat) (m : StoredMessage) : Prop :=
  ∃ s, b.liveStream id = .ok s ∧ s.settings.IsYoung b.clock.wall m

/-- No message is served that is too old, however one asks. -/
structure ServesYoung (b : Broker) : Prop where
  /-- Not when one asks for the message of a number, -/
  message : ∀ {id n m b'}, (message id n).run b = (.ok m, b') → b.IsYoungIn id m
  /-- nor for the newest message of a subject, -/
  last : ∀ {id subject m b'}, (lastMessage id subject).run b = (.ok m, b') → b.IsYoungIn id m
  /-- nor for all messages of a pattern, -/
  matching : ∀ {id pattern ms b'}, (matchingMessages id pattern).run b = (.ok ms, b') →
    ∀ m ∈ ms, b.IsYoungIn id m
  /-- nor for the newest messages of its subjects, -/
  newest : ∀ {id pattern ms b'}, (lastPerSubject id pattern).run b = (.ok ms, b') →
    ∀ m ∈ ms, b.IsYoungIn id m
  /-- nor for what a feed begins with. -/
  begins : ∀ {id pattern beginning f b'}, (watch id pattern beginning).run b = (.ok f, b') →
    ∀ m ∈ f.snapshot, b.IsYoungIn id m
  /-- What a pull gets is not too old either, whether for the first time or again. -/
  pulled : ∀ {p got}, (glance p b).1 = .over (.ok got) →
    ∀ d ∈ got, b.IsYoungIn p.stream d.delivery.message

/-- Just what is too old goes for its age, whatever age settings allow. -/
structure SparesYoung (b : Broker) : Prop where
  /-- So it is with what is in a stream, -/
  stream : ∀ {s}, s ∈ b.streams → ∀ settings now m,
    m ∈ (Retention.expire settings now s.index).2.toList ↔
      m ∈ s.index.toList ∧ settings.IsYoung now m
  /-- and with what a stream finds in its journal. -/
  reread : ∀ {settings x backend}, Stream.reread settings b.backend = (.ok x, backend) →
    ∀ now m, m ∈ (Retention.expire settings now x).2.toList ↔
      m ∈ x.toList ∧ settings.IsYoung now m

theorem IsTimely.sparesYoung (hb : b.IsTimely) : b.SparesYoung where
  stream hs settings now m :=
    have h := hb.streams _ hs
    Retention.mem_expire_iff h.sound.filed h.dated
  reread hread now m := by
    obtain ⟨hx, hdated, -⟩ := Stream.isDated_of_reread (fun ns _ => hb.store ns) hread
    exact Retention.mem_expire_iff hx.filed hdated

/-- Whoever looks at a stream finds messages that are not too old, and what is kept beside them is
right. -/
theorem IsTimely.inspect {α : Type} {id : Nat} {check : Except Error Unit}
    {f : Stream → Except Error α} {a : α} (hb : b.IsTimely)
    (h : Broker.inspect id check f b = (.ok a, b')) :
    ∃ u, f u = .ok a ∧ u.index.Sound ∧ ∀ m ∈ u.index.toList, b.IsYoungIn id m := by
  obtain ⟨s, u, hlive, -, hfound, -, rfl⟩ := inspect_eq_ok hb.staffed h
  have hs := hb.streams s (liveStream_eq_ok hlive).1
  refine ⟨_, hfound, (Retention.loses_expire _ _ _).sound hs.sound, fun m hm => ⟨s, hlive, ?_⟩⟩
  exact ((Retention.mem_expire_iff hs.sound.filed hs.dated).1 hm).2

theorem IsTimely.servesYoung (hb : b.IsTimely) : b.ServesYoung where
  message {id n m b'} h := by
    obtain ⟨u, hfound, hu, hyoung⟩ := hb.inspect h
    cases hget : u.index.get? n with
    | none => simp [hget] at hfound
    | some w =>
      obtain rfl : w = m := by simpa [hget] using hfound
      obtain rfl := hu.filed.sequence_eq hget
      exact hyoung w (hu.filed.mem_toList_iff.2 hget)
  last {id subject m b'} h := by
    obtain ⟨u, hfound, hu, hyoung⟩ := hb.inspect h
    cases hlast : u.index.lastForSubject subject with
    | none => simp [hlast] at hfound
    | some w =>
      obtain rfl : w = m := by simpa [hlast] using hfound
      rw [hu.coherent.lastForSubject_eq] at hlast
      exact hyoung w (List.mem_filter.1 (List.mem_of_getLast? hlast)).1
  matching {id pattern ms b'} h m hm := by
    obtain ⟨u, hfound, -, hyoung⟩ := hb.inspect h
    cases hfound
    exact hyoung m (List.mem_filter.1 hm).1
  newest {id pattern ms b'} h m hm := by
    obtain ⟨u, hfound, hu, hyoung⟩ := hb.inspect h
    cases hfound
    rw [hu.coherent.lastPerSubject_eq] at hm
    exact hyoung m (List.mem_filter.1 (List.mem_filter.1 hm).1).1
  begins {id pattern beginning f b'} h m hm := by
    obtain ⟨u, hfound, hu, hyoung⟩ := hb.inspect h
    cases hfound
    have hm : m ∈ u.snapshot pattern beginning := hm
    rw [Stream.snapshot_eq pattern fun _ => hu] at hm
    exact hyoung m (Index.mem_toList_of_selected hm)
  pulled {p got} h d hd := by
    cases hb.staffed.glances p with
    | missed hlive heq => cases (congrArg Prod.fst heq).symm.trans h
    | failed hcollects heq => cases (congrArg Prod.fst heq).symm.trans h
    | waits hcollects hnone hlt heq => cases (congrArg Prod.fst heq).symm.trans h
    | @ended s s' c backend collected hcollects heq =>
      cases (congrArg Prod.fst heq).symm.trans h
      have hlive := hb.staffed.liveStream_eq hcollects.has.mem_streams
      rw [hcollects.has.stream_eq] at hlive
      obtain ⟨x, haul, cursor, -, rfl, hcollect, -, -, -, hsays⟩ :=
        Stream.collect_eq hcollects.collect_eq nofun
      obtain ⟨hdeliveries, -, -⟩ := hsays collected rfl
      rw [deliveredBy, hdeliveries] at hd
      obtain ⟨delivery, hmem, rfl⟩ := List.mem_map.1 hd
      refine ⟨s, hlive, ?_⟩
      -- What is collected is in the stream after what is too old has gone.
      have hs := hb.streams s hcollects.has.mem_streams
      have hsound := (Retention.loses_expire s.settings b.clock.wall s.index).sound hs.sound
      have hget := Cursor.get?_of_mem_collect hsound.filed c.cursor
        ⟨p.request.batch, p.request.maxBytes⟩ b.clock.elapsed (by rw [hcollect]; exact hmem)
      rw [← hsound.filed.sequence_eq hget] at hget
      exact ((Retention.mem_expire_iff hs.sound.filed hs.dated).1
        (hsound.filed.mem_toList_iff.2 hget)).2

/-- **Nothing is served at any time that is too old, and nothing that is not leaves for its age**,
by a broker that has its store to itself, if the store began in the order of time.  Settings may
change, calls may fail, and brokers may start anew. -/
theorem serves_and_spares_young {settings : BrokerSettings} {seed : Nat} {clock : Clock}
    (hclock : clock.IsDated) (hstore : backend.store.IsDated clock.wall.toMicro)
    (h : Relation.ReflTransGen OwnStep (start settings seed clock backend) b) :
    b.ServesYoung ∧ b.SparesYoung :=
  have hb := isTimely_of_reached hclock hstore h
  ⟨hb.servesYoung, hb.sparesYoung⟩

/-! ## A stream that is opened again -/

/-- Settings by which messages are too old after ten seconds. -/
def briefSettings : StreamSettings :=
  { Stream.plainSettings with maxAge := some (Duration.ofSeconds 10) }

/-- Two messages have come, five seconds apart.  Then a new broker has opened the stream again, and
seven more seconds have passed. -/
def reopened : Broker :=
  let «open» (b : Broker) := ((openStream briefSettings).run b).2
  let publish (b : Broker) := (onStream 0 (Stream.plainPublish.run b.clock) b).2
  let b := publish («open» (start {} 0 Stream.epochClock Stream.blankBackend))
  («open» (publish (b.atInstant 5000000000)).restart).atInstant 12000000000

/-- The first message is too old and still there, and nobody gets it. -/
theorem serves_and_spares_young_reopened :
    Relation.ReflTransGen OwnStep (start {} 0 Stream.epochClock Stream.blankBackend) reopened ∧
      reopened.streams.map (fun s => s.index.toList.map (·.sequence)) = [[1, 2]] ∧
      ((matchingMessages 1 ">").run reopened).1.toOption.map (·.map (·.sequence)) = some [2] ∧
      reopened.ServesYoung ∧ reopened.SparesYoung := by
  have hpublish (b : Broker)
      (hreply : (onStream 0 (Stream.plainPublish.run b.clock) b).1 ≠ .error .numbersExhausted) :
      b.OwnStep (onStream 0 (Stream.plainPublish.run b.clock) b).2 :=
    @OwnStep.operated b 0 b.nextId Stream.plainPublish (fun _ _ => trivial) (Nat.le_refl _) hreply
  have hopened := Relation.ReflTransGen.single (@OwnStep.opened
    (start {} 0 Stream.epochClock Stream.blankBackend) briefSettings rfl)
  have hpublished := hopened.tail (hpublish _ (by decide +kernel))
  have hwaited := hpublished.tail (@OwnStep.waited _ 5000000000 (by decide +kernel)
    (by decide +kernel))
  have hstored := hwaited.tail (hpublish _ (by decide +kernel))
  have hrestarted := hstored.tail .restarted
  have hopened := hrestarted.tail (@OwnStep.opened _ briefSettings (by decide +kernel))
  have hrun := hopened.tail (@OwnStep.waited _ 12000000000 (by decide +kernel)
    (by decide +kernel))
  exact ⟨hrun, by decide +kernel, by decide +kernel,
    serves_and_spares_young (show Stream.epochClock.IsDated from rfl)
      (LogStore.isDated_of_isEmpty rfl _) hrun⟩

end Broker

end StreamBroker
