import StreamBroker.Proofs.Broker.Calls
import StreamBroker.Proofs.Broker.Faithful

/-!
# What is refused leaves no trace

There are many reasons to refuse what is asked of a broker, and they are found at different times:
before a stream is looked for, when it was found, or when its settings, its messages and its
consumers were looked at.  Wherever it is, nothing has been changed before, and where calls to the
store succeed nothing is refused once something has been.

One thing does come before a refusal.  A publisher is told of its stream what it is without the
messages that are too old, so these go first, and they stay away when the message is refused after
all.  They go from the journal as well, where compacting the front rewrites the watermark; but the
entries of all other messages stay, also if the numbers of sixty-four bits are about to end.

This is about what is refused.  Where the numbers are used up nothing is answered any more, and an
operation stops wherever it has come to.

## Main definitions

* `Request`: what is asked of a broker and may be refused
* `Journal.Sheds`: messages have gone from a journal, and nothing else
* `Stream.Evicts`: messages that are too old have gone from a stream
* `Broker.Refuses`: what a broker may be like after it has refused a request

## Main results

* `Stream.evicts_of_evict`: what is too old goes from a stream and its journal, and nothing else
* `Stream.purge_refused`, `Stream.upsertConsumer_refused`, …: what is refused changes no stream
* `Broker.refused_leaves_no_trace`: what is refused leaves a broker as it was
-/

namespace StreamBroker

/-! ## What goes for its age -/

/-- While numbers are left, the first number of an index has sixty-four bits after some messages
have gone. -/
theorem Index.Loses.firstSeq_lt {x y : Index} {gone : List Nat} (h : x.Loses gone y) (hx : x.Sound)
    (hlt : x.lastSeq < wordLimit) (hstuck : x.isStuck gone = false) {n : Nat} (hn : n ∈ gone) :
    y.firstSeq < wordLimit := by
  have hy := h.sound hx
  rw [hy.firstSeq_eq]
  rcases lowest_cases y.messages y.lastSeq with ⟨hempty, heq⟩ | ⟨m, hm⟩
  · -- Nothing is left, so the first message is among those that went.
    rw [heq, h.lastSeq_eq]
    refine Nat.lt_of_not_le fun hle => ?_
    rcases lowest_cases x.messages x.lastSeq with ⟨hnone, -⟩ | ⟨m, hm⟩
    · obtain ⟨m, hm⟩ := contains_iff.1 (h.contains n hn)
      rw [get?, SeqMap.isEmpty_iff.1 hnone n] at hm
      cases hm
    · rw [← hx.firstSeq_eq] at hm
      have hfirst : x.firstSeq ∈ gone := by
        refine Classical.byContradiction fun hmem => ?_
        have hget := h.get?_of_not_mem hmem
        rw [get?, get?, SeqMap.isEmpty_iff.1 hempty, hm] at hget
        cases hget
      rw [isStuck, decide_eq_true hle, List.contains_iff_mem.2 hfirst] at hstuck
      cases hstuck
  · exact Nat.lt_of_le_of_lt (hy.le_lastSeq hm) (h.lastSeq_eq ▸ hlt)

/-- Messages have gone from a journal, and nothing else, but that the watermark may have been
written. -/
structure Journal.Sheds (log : SeqMap Bytes) (gone : List Nat) (last : Nat) (log' : SeqMap Bytes) :
    Prop where
  /-- The entries of the messages have gone, and those of all others stay. -/
  entry : ∀ n, n ≠ watermarkIndex → log'.get? n = if n ∈ gone then none else log.get? n
  /-- The watermark stays, or is the highest number that was ever given. -/
  watermark : log'.get? watermarkIndex = log.get? watermarkIndex ∨
    log'.get? watermarkIndex = some (encodeWatermark last)

/-- A removal takes from a journal what it takes from the index, if the journal has no more. -/
theorem Journal.Within.sheds {log : SeqMap Bytes} {x y : Index} {gone : List Nat}
    (hlog : Within log x) (h : x.Loses gone y) (hx : x.Sound) (hlt : x.lastSeq < wordLimit)
    (hstuck : x.isStuck gone = false) (ns : String) :
    Sheds log gone x.lastSeq (LogCall.effects log (removalCalls ns y gone)) := by
  have hy := h.sound hx
  have hget := get?_effects_removalCalls ns log hy.firstSeq_pos gone
  refine ⟨fun n hne => ?_, ?_⟩
  · rw [hget, if_neg hne]
    by_cases hn : n ∈ gone
    · rw [if_pos (.inl hn), if_pos hn]
    · rw [if_neg hn]
      refine ite_eq_right_iff.2 fun hgone => ?_
      obtain ⟨hcompacts, hlow⟩ := hgone.resolve_left hn
      -- An entry at the front would be that of a message, and that would have stayed.
      obtain ⟨k, hk, -⟩ := List.any_eq_true.1 hcompacts
      have hfirst := h.firstSeq_lt hx hlt hstuck hk
      refine (Option.eq_none_iff_forall_ne_some.2 fun octets hoctets => ?_).symm
      have hlast : n < lastIndex := by
        have heq : lastIndex = wordLimit - 1 := rfl
        omega
      obtain ⟨m, hm⟩ := Index.contains_iff.1 (hlog n octets hoctets hne hlast)
      rw [← h.get?_of_not_mem hn] at hm
      exact absurd (hy.firstSeq_le hm) (Nat.not_le_of_lt hlow)
  · rw [hget, if_pos rfl, h.lastSeq_eq]
    split
    · exact .inr rfl
    · exact .inl rfl

namespace Stream

variable {s s' : Stream} {b b' : Backend} {now : Timestamp} {error : Error}

/-- Messages that are too old have gone from a stream and from its journal, and nothing else has
changed. -/
structure Evicts (s : Stream) (now : Timestamp) (b : Backend) (gone : List Nat) (s' : Stream)
    (b' : Backend) : Prop where
  /-- What went was too old. -/
  old : ∀ n ∈ gone, ∃ m, s.index.get? n = some m ∧ ¬s.settings.IsYoung now m
  /-- It went from the index, and nothing else of the stream has changed. -/
  index : ∃ x, s.index.Loses gone x ∧ s' = { s with index := x }
  /-- It went from the journal. -/
  journal : ∀ ns log, s.journal? = some ns → b.store.Holds ns log →
    ∃ log', b'.store.Holds ns log' ∧ Journal.Sheds log gone s.index.lastSeq log'
  /-- What else is in the store has not changed. -/
  elsewhere : ∀ ns log, s.journal? ≠ some ns → b.store.Holds ns log → b'.store.Holds ns log
  /-- Calls are to fail as before. -/
  faults_eq : b'.faults = b.faults

theorem evict_eq_ok (h : s.evict now b = (.ok (), s', b')) :
    s.index.isStuck (Retention.expire s.settings now s.index).1 = false ∧
      s' = { s with index := (Retention.expire s.settings now s.index).2 } ∧
      b' = s'.forget (Retention.expire s.settings now s.index).1 b := by
  rw [evict, reduceAll, reduce] at h
  dsimp only at h
  cases hstuck : s.index.isStuck (Retention.expire s.settings now s.index).1 with
  | true =>
    rw [if_pos hstuck] at h
    cases h
  | false =>
    rw [if_neg (by rw [hstuck]; exact Bool.false_ne_true)] at h
    cases h
    exact ⟨rfl, rfl, rfl⟩

/-- **What is too old goes from a stream and from its journal, and nothing else.** -/
theorem evicts_of_evict (hs : s.IsFaithful b.store) (hdated : s.IsDated now b.store)
    (hb : b.faults = []) {later : Timestamp} (hle : now.sinceEpoch ≤ later.sinceEpoch)
    (h : s.evict now b = (.ok (), s', b')) :
    ∃ gone, s.Evicts later b gone s' b' := by
  obtain ⟨hstuck, rfl, rfl⟩ := evict_eq_ok h
  have hx := hdated.sound
  have hloses := Retention.loses_expire s.settings now s.index
  have hcalls := ((ends_evict h).moves (by simp)).run.performs
  refine ⟨_, fun n hn => ?_, ⟨_, hloses, rfl⟩, fun ns log hns hlog => ?_, fun ns log hns hlog => ?_,
    (hcalls.faults_eq hb).trans hb.symm⟩
  · obtain ⟨m, hm⟩ := Index.contains_iff.1 (hloses.contains n hn)
    refine ⟨m, hm, fun hyoung => ?_⟩
    -- Had it not been too old, it would have stayed.
    have hstays := (Retention.mem_expire_iff hx.filed hdated.dated).2
      ⟨hx.filed.mem_toList_iff.2 ((hx.sequence_eq hm).symm ▸ hm), hyoung.of_le hle⟩
    rw [(hx.filed.loses hloses).mem_toList_iff, hx.sequence_eq hm, hloses.get?_eq_none hn] at hstays
    cases hstays
  · obtain ⟨log', hholds, hwithin⟩ := hs ns hns
    obtain rfl := hlog.unique hholds
    have hkeeps : b.Keeps ns log := ⟨hb, hlog⟩
    refine ⟨_, ?_, hwithin.sheds hloses hx hdated.lastSeq_lt hstuck ns⟩
    rw [forget, discard_eq]
    have hjournal : journal? { s with
        index := (Retention.expire s.settings now s.index).2 } = some ns := hns
    rw [hjournal]
    exact (hkeeps.performAll (Journal.removalCalls_inRange ns _ _)).2.holds
  · have helsewhere : Backend.Elsewhere ns b _ := hcalls.elsewhere fun call hcall heq =>
      hns (hcall.trans (congrArg some heq.symm))
    exact (helsewhere log ⟨hb, hlog⟩).holds

/-! ## Streams that refuse -/

/-- What cannot be published leaves the stream as it was, or without what is too old. -/
theorem publish_refused (hb : s.Backed b) {maxPayload : Nat} {clock : Clock} {e : Expectations}
    {m : Message} (h : s.publish maxPayload clock e m b = (.error error, s', b'))
    (herror : error ≠ .numbersExhausted) :
    s' = s ∧ b' = b ∨ s.evict clock.wall.toMicro b = (.ok (), s', b') := by
  rcases publish_cases h with ⟨-, rfl, rfl⟩ | ⟨heq, -⟩ | ⟨t, b₁, hevict, hrest⟩
  · exact .inl ⟨rfl, rfl⟩
  · cases heq
    exact absurd rfl herror
  · refine .inr ?_
    rcases hrest with ⟨-, rfl, rfl⟩ | ⟨hlt, -, hstore⟩
    · exact hevict
    · have hb₁ : t.Backed b₁ := by
        obtain ⟨-, rfl, rfl⟩ := evict_eq_ok hevict
        have ht : Backed { s with
            index := (Retention.expire s.settings clock.wall.toMicro s.index).2 } b := hb.congr rfl
        exact (ht.discard _).2
      rcases storeMessage_cases hstore with
        ⟨e, hwrite, heq, rfl⟩ | ⟨b₂, -, ⟨heq, -⟩ | ⟨u, -, heq, -⟩⟩
      · -- A message without a binary form is not written.
        rcases (hb₁.write hlt hwrite).2 with hok | ⟨fault, -, -, rfl⟩
        · cases hok
        · exact hevict
      · cases heq
        exact absurd rfl herror
      · cases heq

theorem deleteMessage_refused (hb : s.Backed b) {n : Nat}
    (h : s.deleteMessage n b = (.error error, s', b')) (herror : error ≠ .numbersExhausted) :
    s' = s ∧ b' = b := by
  rw [deleteMessage] at h
  split at h
  · rcases s.reduce_cases (·.removeAll [n]) with ⟨t, hr⟩ | hr
    · rw [hr] at h
      cases h
      exact absurd rfl herror
    · rw [hr] at h
      have ht : Backed { s with index := (s.index.removeAll [n]).2 } b := hb.congr rfl
      have hreply : (discard { s with index := (s.index.removeAll [n]).2 }
        (s.index.removeAll [n]).1 b).1 = .error error := congrArg Prod.fst h
      rw [(ht.discard _).1] at hreply
      cases hreply
  · cases h
    exact ⟨rfl, rfl⟩

theorem purge_refused (hb : s.Backed b) {r : PurgeRequest}
    (h : s.purge r b = (.error error, s', b')) (herror : error ≠ .numbersExhausted) :
    s' = s ∧ b' = b := by
  rw [purge] at h
  split at h
  · cases h
    exact ⟨rfl, rfl⟩
  · cases hp : s.index.purge r with
    | error e =>
      rw [hp] at h
      cases h
      exact ⟨rfl, rfl⟩
    | ok left =>
      simp only [hp] at h
      rcases s.reduce_cases fun _ => left with ⟨t, hr⟩ | hr
      · rw [hr] at h
        cases h
        exact absurd rfl herror
      · have ht : Backed { s with index := left.2 } b := hb.congr rfl
        have hok := (ht.discard left.1).1
        rw [hr] at h
        cases hd : discard { s with index := left.2 } left.1 b with
        | mk reply b₁ =>
          rw [hd] at hok
          obtain rfl : reply = .ok () := hok
          simp only [hd] at h
          cases h

/-- Settings that were checked are not refused. -/
theorem changeSettings_accepted {settings : StreamSettings} {clock : Clock}
    (h : s.changeSettings settings clock b = (.error error, s', b')) :
    error = .numbersExhausted := by
  rw [changeSettings] at h
  rcases s.reduce_cases (trim settings clock.wall) with ⟨t, hr⟩ | hr
  · rw [hr] at h
    cases h
    rfl
  · rw [hr] at h
    cases h

/-- What nobody needs any more is let go without a refusal. -/
theorem releaseUnclaimed_accepted (h : s.releaseUnclaimed b = (.error error, s', b')) :
    error = .numbersExhausted := by
  rcases releaseUnclaimed_cases h with ⟨heq, -⟩ | ⟨-, heq, -⟩ | ⟨heq, -⟩ <;> cases heq
  rfl

theorem upsertConsumer_refused {mode : UpsertMode} {id : Nat} {madeUp : String}
    {defaults : BrokerSettings} {settings : ConsumerSettings} {clock : Clock}
    (h : s.upsertConsumer mode id madeUp defaults settings clock b = (.error error, s', b'))
    (herror : error ≠ .numbersExhausted) : s' = s ∧ b' = b := by
  simp only [upsertConsumer] at h
  split at h
  · cases h
    exact ⟨rfl, rfl⟩
  · split at h
    · -- The consumer would be new.
      split at h
      · cases h
        exact ⟨rfl, rfl⟩
      · split at h <;> cases h
        exact ⟨rfl, rfl⟩
    · next c hc =>
      split at h
      · cases h
      · split at h
        · cases h
          exact ⟨rfl, rfl⟩
        · split at h
          · cases h
            exact ⟨rfl, rfl⟩
          · -- The checks are passed, and the change itself is not refused.
            obtain ⟨hreply, hleft⟩ := Prod.mk.inj h
            exfalso
            generalize hchanged : s.changeConsumer c _ b = changed at hreply
            obtain ⟨reply, t, b₁⟩ := changed
            rcases changeConsumer_cases hchanged with ⟨rfl, -⟩ | ⟨-, -, -, -, rfl, -⟩
            · cases hreply
              exact herror rfl
            · cases hreply

theorem deleteConsumer_refused {name : String}
    (h : s.deleteConsumer name b = (.error error, s', b')) (herror : error ≠ .numbersExhausted) :
    s' = s ∧ b' = b := by
  rcases deleteConsumer_cases h with hkept | ⟨t, -, -, -, hrelease⟩
  · exact hkept
  · exact absurd (releaseUnclaimed_accepted hrelease) herror

/-- A stream is destroyed when its calls succeed. -/
theorem Backed.destroy (hb : s.Backed b) : (s.destroy b).1 = .ok () := by
  rw [Stream.destroy]
  dsimp only
  split
  · next hjournaled =>
    obtain ⟨log, hkeeps⟩ := hb hjournaled
    have hreply := (hkeeps.perform (.removeNamespace s.journal) trivial).1
    rw [Backend.removeNamespace]
    simp only [hreply]
    rfl
  · rfl

/-- Where a stream cannot be opened, its journal has been read and nothing else. -/
theorem open?_refused {id : Nat} {settings : StreamSettings} {clock : Clock} (hb : b.faults = [])
    (hstore : ∀ ns, settings.journal? = some ns → b.store.Gives ns Journal.Readable)
    (h : open? id settings clock b = (.error error, b')) :
    b'.store = b.store ∧ b'.faults = b.faults := by
  have hreads := performs_reread settings b
  cases hread : reread settings b with
  | mk reply b₁ =>
    rw [hread] at hreads
    cases reply with
    | error e =>
      obtain rfl : b₁ = b' := by
        rcases open?_cases h with ⟨e', heq⟩ | ⟨x, b₂, heq, -⟩ <;> rw [hread] at heq <;> cases heq
        rfl
      exact ⟨hreads.store_eq fun _ hcall => hcall.2, (hreads.faults_eq hb).trans hb.symm⟩
    | ok x =>
      -- What is read back is opened, since the journal lets go of what settings do not allow.
      rw [open?_of_reread hread] at h
      have hbacked : Backed ⟨id, settings, clock.wall, (prune settings clock.wall x).2, [], [], [],
          true⟩ b₁ := fun hjournaled => by
        have hns := journal?_of_isJournaled hjournaled
        obtain ⟨-, log, hkeeps, -⟩ := within_of_reread hb hns (hstore _ hns) hread
        exact ⟨log, hkeeps⟩
      have hreply := congrArg Prod.fst h
      dsimp only at hreply
      rw [(hbacked.discard _).1] at hreply
      cases hreply

end Stream

/-! ## Brokers -/

/-- What is asked of a broker and may be refused. -/
inductive Request where
  /-- A message is to be published. -/
  | publish (m : Message) (e : Expectations)
  /-- The messages that a purge selects are to go from a stream. -/
  | purge (stream : Nat) (r : PurgeRequest)
  /-- One message is to go from a stream. -/
  | deleteMessage (stream n : Nat)
  /-- A stream is to be created. -/
  | createStream (settings : StreamSettings)
  /-- A stream is to be changed. -/
  | updateStream (settings : StreamSettings)
  /-- A stream is to be created or changed. -/
  | upsertStream (settings : StreamSettings)
  /-- A stream is to be deleted. -/
  | deleteStream (name : String)
  /-- A consumer is to be created, changed, or either. -/
  | upsertConsumer (stream : Nat) (mode : UpsertMode) (settings : ConsumerSettings)
  /-- A consumer is to be deleted. -/
  | deleteConsumer (stream : Nat) (name : String)

/-- What a broker does when it is asked, whatever else it answers. -/
def Request.run : Request → Action Broker Unit
  | publish m e => do let _ ← Broker.publish m e
  | purge stream r => do let _ ← Broker.purge stream r
  | deleteMessage stream n => Broker.deleteMessage stream n
  | createStream settings => do let _ ← Broker.createStream settings
  | updateStream settings => do let _ ← Broker.updateStream settings
  | upsertStream settings => do let _ ← Broker.upsertStream settings
  | deleteStream name => Broker.deleteStream name
  | upsertConsumer stream mode settings => do let _ ← Broker.upsertConsumer stream mode settings
  | deleteConsumer stream name => Broker.deleteConsumer stream name

namespace Broker

variable {b b' : Broker} {backend : Backend} {error : Error}

/-- What a broker may be like after it has refused a request. -/
inductive Refuses (b : Broker) (r : Request) : Broker → Prop where
  /-- It is as it was, but that numbers and names were made up and that calls were recorded. -/
  | untouched (nextId namesMade : Nat) (calls : List LogCall) :
      Refuses b r { b with nextId, namesMade, backend := { b.backend with calls } }
  /-- What was to be published is refused, and what was too old has gone from its stream. -/
  | evicted {m : Message} {e : Expectations} {s s' : Stream} {gone : List Nat} {backend : Backend}
      (hr : r = .publish m e) (hroute : b.route m.subject = .ok s)
      (h : s.Evicts b.clock.wall b.backend gone s' backend) :
      Refuses b r ({ b with backend }.putStream s')

theorem mem_of_route {subject : String} {s : Stream} (h : b.route subject = .ok s) :
    s ∈ b.streams := by
  rw [route] at h
  obtain ⟨⟨⟩, -, h⟩ := except_bind_eq_ok.1 h
  split at h
  · next hfind =>
    cases h
    exact List.mem_of_find?_eq_some hfind
  · cases h

namespace Refuses

variable {r : Request}

theorem refl (b : Broker) (r : Request) : b.Refuses r b :=
  .untouched b.nextId b.namesMade b.backend.calls

/-- A stream that refuses and is left as it was leaves its broker as it was. -/
theorem onStream (hb : b.Staffed) {α : Type} {id : Nat}
    {f : Stream → Backend → Except Error α × Stream × Backend} (nextId namesMade : Nat)
    (h : Broker.onStream id f { b with nextId, namesMade } = (.error error, b'))
    (hf : ∀ s ∈ b.streams, ∀ {s' backend}, f s b.backend = (.error error, s', backend) →
      s' = s ∧ backend = b.backend) : b.Refuses r b' := by
  have hlive : Broker.liveStream { b with nextId, namesMade } id = b.liveStream id := rfl
  suffices heq : b' = { b with nextId, namesMade } by
    rw [heq]
    exact .untouched nextId namesMade b.backend.calls
  rw [Broker.onStream, hlive] at h
  cases hs : b.liveStream id with
  | error e =>
    rw [hs] at h
    cases h
    rfl
  | ok s =>
    rw [hs] at h
    have hmem := (liveStream_eq_ok hs).1
    cases hr : f s b.backend with
    | mk reply left =>
      obtain ⟨s', backend⟩ := left
      simp only [hr] at h
      obtain ⟨rfl, rfl⟩ := Prod.mk.inj h
      obtain ⟨rfl, rfl⟩ := hf s hmem hr
      -- The stream that is put back is the one that was found.
      show { b.putStream s' with nextId, namesMade } = { b with nextId, namesMade }
      rw [hb.putStream_self hmem]

theorem publish (hb : b.IsFaithful) {m : Message} {e : Expectations}
    (h : (Broker.publish m e).run b = (.error error, b')) (herror : error ≠ .numbersExhausted) :
    b.Refuses (.publish m e) b' := by
  rw [Broker.publish, Action.bind_ok (Action.run_read b)] at h
  rcases action_check_cases h with ⟨e, -, -, rfl⟩ | ⟨s, hroute, h⟩
  · exact .refl b' _
  have hs := mem_of_route hroute
  have h : Broker.onStream s.id _ b = (.error error, b') :=
    action_map_error (f := PublishAck.mk s.name) h
  rw [Broker.onStream, hb.timely.staffed.liveStream_eq hs] at h
  cases hr : s.publish b.settings.maxPayload b.clock e m b.backend with
  | mk reply left =>
    obtain ⟨s', backend⟩ := left
    simp only [hr] at h
    obtain ⟨rfl, rfl⟩ := Prod.mk.inj h
    rcases Stream.publish_refused (hb.backed hs) hr herror with ⟨rfl, rfl⟩ | hevict
    · show b.Refuses _ (b.putStream s')
      rw [hb.timely.staffed.putStream_self hs]
      exact .refl b _
    · -- All that has happened is that what was too old is gone.
      obtain ⟨gone, hgone⟩ := Stream.evicts_of_evict (hb.streams s hs) (hb.timely.streams s hs)
        hb.faults_eq (Timestamp.sinceEpoch_toMicro_le _) hevict
      exact .evicted rfl hroute hgone

theorem openStream (hb : b.IsFaithful) {settings : StreamSettings}
    (h : (Broker.openStream settings).run b = (.error error, b'))
    (herror : error ≠ .numbersExhausted) : b.Refuses r b' := by
  cases opens settings b with
  | @failed e backend hopen heq =>
    cases h.symm.trans heq
    obtain ⟨hstore, hfaults⟩ :=
      Stream.open?_refused hb.faults_eq (fun ns _ => hb.readable ns) hopen
    obtain ⟨store, faults, calls⟩ := backend
    obtain rfl : store = b.backend.store := hstore
    obtain rfl : faults = b.backend.faults := hfaults
    exact .untouched (b.nextId + 1) b.namesMade calls
  | ringless hopen heq =>
    cases h.symm.trans heq
    exact absurd rfl herror
  | opened hopen heq => cases h.symm.trans heq

theorem createChecked (hb : b.IsFaithful) {settings : StreamSettings}
    (h : (Broker.createChecked settings).run b = (.error error, b'))
    (herror : error ≠ .numbersExhausted) : b.Refuses r b' := by
  rw [Broker.createChecked, Action.bind_ok (Action.run_read b)] at h
  cases hfind : b.stream? settings.name with
  | some s =>
    rw [hfind] at h
    dsimp only at h
    split at h <;> cases h
    exact .refl b r
  | none =>
    rw [hfind] at h
    rcases action_check_cases h with ⟨e, -, -, rfl⟩ | ⟨⟨⟩, -, h⟩
    · exact .refl b' r
    · exact openStream hb h herror

theorem updateChecked (hb : b.IsFaithful) {settings : StreamSettings}
    (h : (Broker.updateChecked settings).run b = (.error error, b'))
    (herror : error ≠ .numbersExhausted) : b.Refuses r b' := by
  rw [Broker.updateChecked, Action.bind_ok (Action.run_read b)] at h
  rcases action_check_cases h with ⟨e, -, -, rfl⟩ | ⟨s, -, h⟩
  · exact .refl b' r
  rcases action_check_cases h with ⟨e, -, -, rfl⟩ | ⟨⟨⟩, -, h⟩
  · exact .refl b' r
  rcases action_check_cases h with ⟨e, -, -, rfl⟩ | ⟨⟨⟩, -, h⟩
  · exact .refl b' r
  -- What is left of the update is not refused.
  refine onStream hb.timely.staffed b.nextId b.namesMade h fun t _ s' backend hr => ?_
  generalize hchanged : t.changeSettings settings b.clock b.backend = changed at hr
  obtain ⟨reply, left⟩ := changed
  cases reply with
  | error e =>
    cases hr
    exact absurd (Stream.changeSettings_accepted hchanged) herror
  | ok u => cases hr

theorem deleteStream (hb : b.IsFaithful) {name : String}
    (h : (Broker.deleteStream name).run b = (.error error, b')) : b.Refuses r b' := by
  cases deletes name b with
  | missed hnone heq =>
    cases h.symm.trans heq
    exact .refl b r
  | deleted hs hdestroy heq =>
    cases h.symm.trans heq
    cases (hb.backed hs).destroy.symm.trans (congrArg Prod.fst hdestroy)

theorem upsertConsumer (hb : b.IsFaithful) {stream : Nat} {mode : UpsertMode}
    {settings : ConsumerSettings}
    (h : (Broker.upsertConsumer stream mode settings).run b = (.error error, b'))
    (herror : error ≠ .numbersExhausted) : b.Refuses r b' := by
  have hfresh : (Action.answer freshId).run b = (.ok b.nextId, { b with nextId := b.nextId + 1 }) :=
    rfl
  rw [Broker.upsertConsumer, Action.bind_ok hfresh] at h
  cases hname : settings.explicitName with
  | some name =>
    rw [hname] at h
    dsimp only at h
    rw [Action.bind_ok (Action.run_pure _ _), Action.bind_ok (Action.run_read _)] at h
    exact onStream hb.timely.staffed (b.nextId + 1) b.namesMade h fun s _ s' backend hr =>
      Stream.upsertConsumer_refused hr herror
  | none =>
    -- The name is made up before the request is looked at, and is lost with it.
    have hmadeUp : (Action.answer freshName).run { b with nextId := b.nextId + 1 } =
        (.ok (b.nameOf b.namesMade),
          { b with nextId := b.nextId + 1, namesMade := b.namesMade + 1 }) := rfl
    rw [hname] at h
    dsimp only at h
    rw [Action.bind_ok hmadeUp, Action.bind_ok (Action.run_read _)] at h
    exact onStream hb.timely.staffed (b.nextId + 1) (b.namesMade + 1) h fun s _ s' backend hr =>
      Stream.upsertConsumer_refused hr herror

end Refuses

/-- What is refused leaves a faithful broker as it was. -/
theorem IsFaithful.refuses (hb : b.IsFaithful) {r : Request} (h : r.run b = (.error error, b'))
    (herror : error ≠ .numbersExhausted) : b.Refuses r b' := by
  cases r with
  | publish m e => exact .publish hb (action_map_error h) herror
  | purge stream r =>
    have h : Broker.onStream stream (fun s backend => s.purge r backend) b = (.error error, b') :=
      action_map_error h
    exact .onStream hb.timely.staffed b.nextId b.namesMade h
      fun s hs s' backend hr => Stream.purge_refused (hb.backed hs) hr herror
  | deleteMessage stream n =>
    have h : Broker.onStream stream (fun s backend => s.deleteMessage n backend) b =
      (.error error, b') := h
    exact .onStream hb.timely.staffed b.nextId b.namesMade h
      fun s hs s' backend hr => Stream.deleteMessage_refused (hb.backed hs) hr herror
  | createStream settings =>
    rcases action_check_cases (action_map_error h) with ⟨e, -, -, rfl⟩ | ⟨⟨⟩, -, h⟩
    · exact .refl b' _
    · exact .createChecked hb h herror
  | updateStream settings =>
    rcases action_check_cases (action_map_error h) with ⟨e, -, -, rfl⟩ | ⟨⟨⟩, -, h⟩
    · exact .refl b' _
    · exact .updateChecked hb h herror
  | upsertStream settings =>
    rcases action_check_cases (action_map_error h) with ⟨e, -, -, rfl⟩ | ⟨⟨⟩, -, h⟩
    · exact .refl b' _
    · rw [Action.bind_ok (Action.run_read b)] at h
      split at h
      · exact .updateChecked hb h herror
      · exact .createChecked hb h herror
  | deleteStream name => exact .deleteStream hb h
  | upsertConsumer stream mode settings => exact .upsertConsumer hb (action_map_error h) herror
  | deleteConsumer stream name =>
    have h : Broker.onStream stream (fun s backend => s.deleteConsumer name backend) b =
      (.error error, b') := h
    exact .onStream hb.timely.staffed b.nextId b.namesMade h
      fun s _ s' backend hr => Stream.deleteConsumer_refused hr herror

/-- **What is refused leaves no trace**, in a broker that has its store to itself and whose calls
succeed: streams with their settings, messages and numbers, consumers with their places and all that
is in the store are as they were, but that a publish that is refused may have let messages of its
stream go that were too old, from the journal as well. -/
theorem refused_leaves_no_trace {settings : BrokerSettings} {seed : Nat} {clock : Clock}
    (hclock : clock.IsDated) (hfaults : backend.faults = [])
    (hstore : backend.store.IsDated clock.wall.toMicro)
    (hreached : Relation.ReflTransGen FaultlessStep (start settings seed clock backend) b)
    {r : Request} (h : r.run b = (.error error, b')) (herror : error ≠ .numbersExhausted) :
    b.Refuses r b' :=
  (isFaithful_of_reached hclock hfaults hstore hreached).refuses h herror

/-- A message has come and is too old by now. -/
def outdated : Broker :=
  let b := ((openStream briefSettings).run (start {} 0 Stream.epochClock Stream.blankBackend)).2
  (onStream 0 (Stream.plainPublish.run b.clock) b).2.atInstant 12000000000

/-- A publisher who expects that no message has come yet. -/
def belated : Request := .publish Stream.plainMessage { lastSequence := some 0 }

/-- The publisher is refused, and the message that was too old has gone all the same. -/
theorem refused_when_outdated :
    Relation.ReflTransGen FaultlessStep (start {} 0 Stream.epochClock Stream.blankBackend)
        outdated ∧
      (belated.run outdated).1 = .error (.wrongLastSequence 0 1) ∧
      outdated.streams.map (fun s => s.index.toList.map (·.sequence)) = [[1]] ∧
      (belated.run outdated).2.streams.map (fun s => s.index.toList.map (·.sequence)) = [[]] ∧
      outdated.Refuses belated (belated.run outdated).2 := by
  have hopened : FaultlessStep (start {} 0 Stream.epochClock Stream.blankBackend) _ :=
    ⟨@OwnStep.opened _ briefSettings rfl, by decide +kernel⟩
  have hpublish (b : Broker)
      (hreply : (onStream 0 (Stream.plainPublish.run b.clock) b).1 ≠ .error .numbersExhausted)
      (hfaults : (onStream 0 (Stream.plainPublish.run b.clock) b).2.backend.faults = []) :
      b.FaultlessStep (onStream 0 (Stream.plainPublish.run b.clock) b).2 :=
    ⟨@OwnStep.operated b 0 b.nextId Stream.plainPublish (fun _ _ => trivial) (Nat.le_refl _) hreply,
      hfaults⟩
  have hpublished := (Relation.ReflTransGen.single hopened).tail
    (hpublish _ (by decide +kernel) (by decide +kernel))
  have hrun := hpublished.tail ⟨@OwnStep.waited _ 12000000000 (by decide +kernel)
    (by decide +kernel), by decide +kernel⟩
  have hrefused : (belated.run outdated).1 = .error (.wrongLastSequence 0 1) := by decide +kernel
  exact ⟨hrun, hrefused, by decide +kernel, by decide +kernel,
    refused_leaves_no_trace (show Stream.epochClock.IsDated from rfl) rfl
      (LogStore.isDated_of_isEmpty rfl _) hrun (Prod.ext hrefused rfl) (by decide)⟩

end Broker

end StreamBroker
