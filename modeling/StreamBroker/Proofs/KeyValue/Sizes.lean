import StreamBroker.Proofs.Broker.Routing
import StreamBroker.Proofs.KeyValue.Refinement
import StreamBroker.Proofs.Stream.Limits

/-!
# Values that are too large

The limit of a bucket on its values is the limit of its stream on whole messages.  A message counts
its subject, its headers and a fixed overhead besides its value, so a value has to leave room for
all of that: a short value is refused when the limit is close, the longer its key the sooner, and so
are deletions, which have no value but a header.

The limit is looked at before anything else that a message may be refused for, so that it makes no
difference what the bucket holds, nor what is expected of it.

## Main definitions

* `IsTooLarge`: an answer that refuses a message for its size
* `KeyOp.overhead`: what the message of an operation counts for besides its value
* `KeyValueBucket.IsThere`: a broker has the stream of a bucket

## Main results

* `Stream.isTooLarge_publish`: which messages a stream refuses for their size
* `KeyValueBucket.isTooLarge_run_iff`: which operations on a bucket are refused for the size of the
  message
-/

namespace StreamBroker

/-- An answer refuses a message for its size. -/
def IsTooLarge {α : Type} (reply : Except Error α) : Prop :=
  ∃ e, reply = .error e ∧ e.kind = .messageTooLarge

@[simp]
theorem isTooLarge_ok {α : Type} (a : α) : ¬IsTooLarge (.ok a : Except Error α) := by
  rintro ⟨e, ⟨⟩, -⟩

@[simp]
theorem isTooLarge_error {α : Type} (e : Error) :
    IsTooLarge (.error e : Except Error α) ↔ e.kind = .messageTooLarge := by
  constructor
  · rintro ⟨e, ⟨⟩, he⟩
    exact he
  · exact fun he => ⟨e, rfl, he⟩

@[simp]
theorem isTooLarge_map {α β : Type} (f : α → β) (reply : Except Error α) :
    IsTooLarge (reply.map f) ↔ IsTooLarge reply := by
  cases reply with
  | error e => simp [Except.map]
  | ok a => simp [Except.map]

@[simp]
theorem isTooLarge_mapError {α ε : Type} {f : ε → Error} (h : ∀ e, (f e).kind ≠ .messageTooLarge)
    (x : Except ε α) : ¬IsTooLarge (x.mapError f) := by
  cases x with
  | error e => simpa [Except.mapError] using h e
  | ok a => simp [Except.mapError]

theorem isTooLarge_checkFilter (pattern : String) : ¬IsTooLarge (checkFilter pattern) :=
  isTooLarge_mapError (fun _ => by simp [Error.kind]) _

theorem isTooLarge_checkLiteralSubject (subject : String) :
    ¬IsTooLarge (checkLiteralSubject subject) :=
  isTooLarge_mapError (fun _ => by simp [Error.kind]) _

/-- Of two steps, one after the other, the first is refused or the second. -/
theorem isTooLarge_bind {α β : Type} (x : Except Error α) (f : α → Except Error β) :
    IsTooLarge (x >>= f) ↔ IsTooLarge x ∨ ∃ a, x = .ok a ∧ IsTooLarge (f a) := by
  cases x with
  | error e => simp [bind, Except.bind]
  | ok a => simp [bind, Except.bind]

theorem isTooLarge_throw {α : Type} (e : Error) :
    IsTooLarge (throw e : Except Error α) ↔ e.kind = .messageTooLarge :=
  isTooLarge_error e

theorem isTooLarge_pure {α : Type} (a : α) : ¬IsTooLarge (pure a : Except Error α) :=
  isTooLarge_ok a

/-! ## What a stream refuses -/

namespace Index

variable {settings : StreamSettings} {maxPayload : Nat} {m : Message} {x : Index}
  {e : Expectations} {now : Timestamp}

/-- What a publisher expects has nothing to do with sizes. -/
theorem isTooLarge_checkExpectations (subject : String) :
    ¬IsTooLarge (x.checkExpectations e subject) := by
  obtain ⟨stream, lastSequence, lastSubjectSequence⟩ := e
  cases lastSequence <;> cases lastSubjectSequence <;>
    simp [checkExpectations, isTooLarge_bind, apply_ite IsTooLarge, isTooLarge_throw,
      isTooLarge_pure, Error.kind]

/-- A full stream refuses messages whatever their size. -/
theorem isTooLarge_checkRoom (size : Nat) : ¬IsTooLarge (x.checkRoom settings size) := by
  cases hm : settings.maxMessages <;> cases hb : settings.maxBytes <;>
    simp [checkRoom, hm, hb, isTooLarge_bind, apply_ite IsTooLarge, isTooLarge_throw,
      isTooLarge_pure, Error.kind]

/-- A message is refused for its size exactly when the whole of it is over the limit. -/
theorem isTooLarge_checkMessage (hsubject : checkSubject m.subject = .ok ())
    (htakes : settings.takes m.subject = true) (hpayload : m.payload.length ≤ maxPayload) :
    IsTooLarge (checkMessage settings maxPayload m) ↔
      ∃ most, settings.maxMessageSize = some most ∧ most < m.size := by
  cases hmost : settings.maxMessageSize <;>
    simp [checkMessage, checkLiteralSubject, hsubject, Except.mapError, htakes,
      Nat.not_lt.2 hpayload, hmost, isTooLarge_bind, apply_ite IsTooLarge, isTooLarge_throw,
      isTooLarge_pure, Error.kind]

/-- The size is looked at first, and nothing that is looked at later is about sizes. -/
theorem isTooLarge_prepare (hsubject : checkSubject m.subject = .ok ())
    (htakes : settings.takes m.subject = true) (hpayload : m.payload.length ≤ maxPayload) :
    IsTooLarge (x.prepare settings maxPayload now e m) ↔
      ∃ most, settings.maxMessageSize = some most ∧ most < m.size := by
  rw [prepare, isTooLarge_bind, isTooLarge_checkMessage hsubject htakes hpayload]
  refine or_iff_left ?_
  rintro ⟨-, -, h⟩
  rcases (isTooLarge_bind _ _).1 h with h | ⟨-, -, h⟩
  · exact isTooLarge_checkExpectations _ h
  rcases (isTooLarge_bind _ _).1 h with h | ⟨-, -, h⟩
  · exact isTooLarge_checkRoom _ h
  obtain ⟨error, h, hkind⟩ := h
  split at h <;> cases h
  cases hkind

end Index

namespace Stream

variable {s s' : Stream} {backend backend' : Backend} {clock : Clock} {maxPayload : Nat}
  {e : Expectations} {m : Message} {reply : Except Error Nat}

theorem isTooLarge_write (s : Stream) (m : StoredMessage) (backend : Backend) :
    ¬IsTooLarge (s.write m backend).1 := by
  rw [write]
  split
  · split
    · simp [Error.kind]
    · exact isTooLarge_mapError (fun _ => by simp [Error.kind]) _
  · simp

/-- A message that is stored is not too large. -/
theorem isTooLarge_storeMessage {m : StoredMessage}
    (h : s.storeMessage m backend = (reply, s', backend')) : ¬IsTooLarge reply := by
  rcases storeMessage_cases h with ⟨e, hwrite, rfl, -⟩ | ⟨-, -, ⟨rfl, -⟩ | ⟨-, -, rfl, -⟩⟩
  · have hnot := isTooLarge_write s m backend
    rw [hwrite] at hnot
    rwa [isTooLarge_error] at hnot ⊢
  · simp [Error.kind]
  · exact isTooLarge_ok _

theorem isTooLarge_discard (s : Stream) (gone : List Nat) (backend : Backend) :
    ¬IsTooLarge (s.discard gone backend).1 := by
  rw [discard]
  split
  · exact isTooLarge_mapError (fun _ => by simp [Error.kind]) _
  · simp

/-- A purge is not refused for the size of anything. -/
theorem isTooLarge_purge {r : PurgeRequest} (h : s.purge r backend = (reply, s', backend')) :
    ¬IsTooLarge reply := by
  rw [purge] at h
  split at h
  · next e he =>
    cases h
    split at he
    · exact isTooLarge_error e |>.not.2 fun hkind => isTooLarge_checkFilter _ ⟨e, he, hkind⟩
    · cases he
  split at h
  · next e he =>
    cases h
    rw [Index.purge] at he
    split at he <;> cases he
    simp [Error.kind]
  split at h
  · next e t he =>
    cases h
    rcases s.reduce_cases _ with ⟨u, hu⟩ | hu
    · cases he.symm.trans hu
      simp [Error.kind]
    · cases he.symm.trans hu
  · next gone t _ =>
    split at h
    · next e b₁ he =>
      have hnot := isTooLarge_discard t gone backend
      cases h
      rw [he] at hnot
      simpa using hnot
    · cases h
      exact isTooLarge_ok _

theorem id_announce (s : Stream) (m : StoredMessage) : (s.announce m).id = s.id := by
  rw [announce]
  split <;> rfl

/-- A publish leaves a stream its number. -/
theorem id_publish (h : s.publish maxPayload clock e m backend = (reply, s', backend'))
    (hreply : reply ≠ .error .numbersExhausted) : s'.id = s.id := by
  rcases publish_cases h with ⟨-, rfl, -⟩ | ⟨rfl, -⟩ | ⟨t, backend₁, hevict, hrest⟩
  · rfl
  · exact absurd rfl hreply
  rcases evict_cases hevict with ⟨herror, -⟩ | ⟨-, rfl, -⟩
  · cases herror
  rcases hrest with ⟨-, rfl, -⟩ | ⟨-, -, hstore⟩
  · rfl
  rcases storeMessage_cases hstore with ⟨-, -, -, rfl⟩ | ⟨-, -, ⟨rfl, -⟩ | ⟨u, rfl, -, rfl, -⟩⟩
  · rfl
  · exact absurd rfl hreply
  · exact id_announce _ _

/-- **A stream refuses a message for its size** exactly when the message as a whole is over the
limit, whatever the stream holds and whatever is expected of it. -/
theorem isTooLarge_publish (h : s.publish maxPayload clock e m backend = (reply, s', backend'))
    (hreply : reply ≠ .error .numbersExhausted) (he : ∀ name ∈ e.stream, name = s.name)
    (hsubject : checkSubject m.subject = .ok ()) (htakes : s.settings.takes m.subject = true)
    (hpayload : m.payload.length ≤ maxPayload) :
    IsTooLarge reply ↔ ∃ most, s.settings.maxMessageSize = some most ∧ most < m.size := by
  have hstore : publish.store s maxPayload clock e m backend = (reply, s', backend') := by
    rw [publish] at h
    split at h
    · next name hname =>
      rwa [if_pos (he name hname)] at h
    · exact h
  rw [publish.store] at hstore
  split at hstore
  · next hevict =>
    rcases evict_cases hevict with ⟨herror, -⟩ | ⟨hok, -⟩
    · cases herror
      cases hstore
      exact absurd rfl hreply
    · cases hok
  · next t backend₁ hevict =>
    have hsettings : t.settings = s.settings := settings_evict hevict (by simp)
    rw [hsettings] at hstore
    have hprepare : IsTooLarge
        (t.index.prepare s.settings maxPayload clock.wall.toMicro e m) ↔ _ :=
      Index.isTooLarge_prepare hsubject htakes hpayload
    -- Neither the eviction before it nor the storing behind it calls a message too large.
    rw [← hprepare]
    split at hstore
    · next error herror =>
      cases hstore
      rw [herror, isTooLarge_error, isTooLarge_error]
    · next stored hstored =>
      rw [hstored]
      exact iff_of_false (isTooLarge_storeMessage hstore) (isTooLarge_ok _)

end Stream

/-! ## Operations on a bucket -/

namespace Broker

variable {b b' b'' : Broker}

/-- A broker has the registry and the settings that it had. -/
structure KeepsRegistry (b b' : Broker) : Prop where
  registry_eq : b'.registry = b.registry
  nextId_eq : b'.nextId = b.nextId
  settings_eq : b'.settings = b.settings

theorem KeepsRegistry.refl (b : Broker) : b.KeepsRegistry b := ⟨rfl, rfl, rfl⟩

theorem KeepsRegistry.trans (h : b.KeepsRegistry b') (h' : b'.KeepsRegistry b'') :
    b.KeepsRegistry b'' where
  registry_eq := h'.registry_eq.trans h.registry_eq
  nextId_eq := h'.nextId_eq.trans h.nextId_eq
  settings_eq := h'.settings_eq.trans h.settings_eq

/-- An operation on a stream is refused when there is no such stream, or done to the stream. -/
theorem onStream_cases {α : Type} {id : Nat}
    {f : Stream → Backend → Except Error α × Stream × Backend} {reply : Except Error α}
    (hrun : (onStream id f).run b = (reply, b')) :
    (∃ name, b.liveStream id = .error (.streamNotFound name) ∧
        reply = .error (.streamNotFound name) ∧ b' = b) ∨
      ∃ s s' backend, b.liveStream id = .ok s ∧ f s b.backend = (reply, s', backend) ∧
        b' = { b with backend }.putStream s' := by
  simp only [Action.run, onStream] at hrun
  split at hrun
  · next e hlive =>
    cases hrun
    have hname : e = .streamNotFound (b.streamName id) := by
      rw [liveStream] at hlive
      split at hlive <;> cases hlive
      rfl
    exact .inl ⟨_, hname ▸ hlive, hname ▸ rfl, rfl⟩
  · next s hlive =>
    obtain ⟨rfl, rfl⟩ := Prod.mk.inj hrun
    exact .inr ⟨s, _, _, hlive, rfl, rfl⟩

/-- An operation on a stream keeps the registry if it keeps the number and the settings of the
stream. -/
theorem Orderly.keepsRegistry_onStream (hb : b.Orderly) {α : Type} {id : Nat}
    {f : Stream → Backend → Except Error α × Stream × Backend} {reply : Except Error α}
    (hrun : (onStream id f).run b = (reply, b'))
    (hf : ∀ s s' backend, f s b.backend = (reply, s', backend) →
      s'.id = s.id ∧ s'.settings = s.settings) : b.KeepsRegistry b' := by
  rcases onStream_cases hrun with ⟨-, -, -, rfl⟩ | ⟨s, s', backend, hlive, hr, rfl⟩
  · exact .refl b'
  · obtain ⟨hid, hsettings⟩ := hf s s' backend hr
    exact ⟨hb.registry_putStream_eq (liveStream_eq_ok hlive).1 hid hsettings, rfl, rfl⟩

/-- What is too old goes without changing the registry. -/
theorem Orderly.keepsRegistry_evict (hb : b.Orderly) {id : Nat} {reply : Except Error Unit}
    (hrun : (evict id).run b = (reply, b')) (hreply : reply ≠ .error .numbersExhausted) :
    b.KeepsRegistry b' ∧ ¬IsTooLarge reply := by
  have hrun : (onStream id fun s backend => s.evict b.clock.wall backend).run b = (reply, b') :=
    hrun
  rcases onStream_cases hrun with ⟨name, -, rfl, rfl⟩ | ⟨s, s', backend, hlive, hr, rfl⟩
  · exact ⟨.refl b', by simp [Error.kind]⟩
  rcases Stream.evict_cases hr with ⟨rfl, -⟩ | ⟨rfl, rfl, -⟩
  · exact absurd rfl hreply
  · have hs := (liveStream_eq_ok hlive).1
    exact ⟨⟨hb.registry_putStream_eq hs rfl rfl, rfl, rfl⟩, isTooLarge_ok _⟩

/-- Looking at a stream changes no registry, and finds nothing too large if the look does not. -/
theorem Orderly.keepsRegistry_inspect (hb : b.Orderly) {α : Type} {id : Nat}
    {check : Except Error Unit} {f : Stream → Except Error α} {reply : Except Error α}
    (hrun : (inspect id check f).run b = (reply, b')) (hreply : reply ≠ .error .numbersExhausted)
    (hcheck : ¬IsTooLarge check) (hf : ∀ s, ¬IsTooLarge (f s)) :
    b.KeepsRegistry b' ∧ ¬IsTooLarge reply := by
  have hlive (b : Broker) : ¬IsTooLarge (b.liveStream id) := by
    rw [liveStream]
    split <;> simp [Error.kind]
  have hlook (b : Broker) : ¬IsTooLarge (b.liveStream id >>= f) := by
    rw [isTooLarge_bind]
    rintro (h | ⟨s, -, h⟩)
    · exact hlive b h
    · exact hf s h
  simp only [Action.run, inspect] at hrun
  split at hrun
  · next e hmissing =>
    cases hrun
    have hnot := hlive b
    rw [hmissing] at hnot
    exact ⟨.refl b, by simpa using hnot⟩
  · cases hrun
    exact ⟨.refl b, by simpa using hcheck⟩
  · split at hrun
    · next e b₁ hevict =>
      cases hrun
      obtain ⟨hkeeps, hnot⟩ := hb.keepsRegistry_evict hevict (by simpa using hreply)
      exact ⟨hkeeps, by simpa using hnot⟩
    · next b₁ hevict =>
      cases hrun
      exact ⟨(hb.keepsRegistry_evict hevict (by simp)).1, hlook b'⟩

end Broker

namespace KeyOp

/-- The headers of the message of an operation. -/
def headers : KeyOp → Headers
  | put .. | create .. | update .. => []
  | delete _ => [(kvOperationHeader, deleteMarker)]
  | purge _ => [(kvOperationHeader, purgeMarker)]

/-- What the message of an operation counts for besides its value. -/
def overhead (k : KeyValueBucket) (op : KeyOp) : Nat :=
  (k.subject op.key).utf8ByteSize + op.headers.size + messageOverhead

theorem size_message (k : KeyValueBucket) (op : KeyOp) :
    (op.message k).size = op.value.length + op.overhead k := by
  have hsize : (op.message k).size =
      messageSize (k.subject op.key) op.headers op.value := by cases op <;> rfl
  rw [hsize, messageSize, overhead]
  omega

/-- The value of an operation with all that its message has besides is over a limit. -/
def IsOver (k : KeyValueBucket) (settings : KeyValueSettings) (op : KeyOp) : Prop :=
  ∃ most, settings.maxValueSize = some most ∧ most < op.value.length + op.overhead k

end KeyOp

namespace KeyValueBucket

variable {k : KeyValueBucket} {settings : KeyValueSettings} {b b' : Broker} {key : String}
  {op : KeyOp} {reply : Except Error Nat}

/-- A broker has the stream of a bucket. -/
structure IsThere (k : KeyValueBucket) (settings : KeyValueSettings) (b : Broker) : Prop where
  /-- The registry is in order. -/
  orderly : b.Orderly
  /-- The bucket has the name that is set. -/
  name_eq : k.name = settings.bucket
  /-- The stream of the bucket has the settings that come from those of the bucket. -/
  entry : ∃ stream, settings.streamSettings = .ok stream ∧ (k.stream, stream) ∈ b.registry

namespace IsThere

theorem checkBucket_name (h : k.IsThere settings b) : checkBucket k.name = .ok () := by
  obtain ⟨stream, hstream, -⟩ := h.entry
  exact h.name_eq ▸ (streamSettings_eq_ok hstream).1

theorem of_keepsRegistry (h : k.IsThere settings b) (hkeeps : b.KeepsRegistry b') :
    k.IsThere settings b' where
  orderly := h.orderly.sublist (hkeeps.registry_eq ▸ List.Sublist.refl _)
    (Nat.le_of_eq hkeeps.nextId_eq.symm)
  name_eq := h.name_eq
  entry := hkeeps.registry_eq ▸ h.entry

/-- The stream of a bucket is the one that its keys lead to. -/
theorem exists_stream (h : k.IsThere settings b) (hkey : checkKey key = .ok ()) :
    ∃ s ∈ b.streams, settings.streamSettings = .ok s.settings ∧
      b.route (k.subject key) = .ok s := by
  obtain ⟨stream, hstream, hmem⟩ := h.entry
  obtain ⟨s, hs, hentry⟩ := List.mem_map.1 hmem
  obtain ⟨-, rfl⟩ := Prod.mk.inj hentry
  have hfind := (find?_eq_some_iff_of_pairwise (h.orderly.pairwise_takes (k.subject key))).2
    ⟨hs, takes_subject hstream h.name_eq key⟩
  refine ⟨s, hs, hstream, ?_⟩
  rw [Broker.route_eq (checkSubject_subject h.checkBucket_name hkey), hfind]

/-- A message for a key is refused for its size exactly when it is over the limit. -/
theorem write (h : k.IsThere settings b) (op : KeyOp) (hkey : checkKey op.key = .ok ())
    (hvalue : op.value.length ≤ b.settings.maxPayload) {expected : Option Nat}
    (hrun : (k.write (op.message k) expected).run b = (reply, b'))
    (hreply : reply ≠ .error .numbersExhausted) :
    b.KeepsRegistry b' ∧ (IsTooLarge reply ↔ op.IsOver k settings) := by
  rw [KeyValueBucket.write] at hrun
  obtain ⟨ack, hpublish, rfl⟩ := action_map_cases (f := PublishAck.sequence) hrun
  obtain ⟨s, hs, hstream, hroute⟩ := h.exists_stream hkey
  obtain ⟨-, -, hsettings⟩ := streamSettings_eq_ok hstream
  have hsubject := KeyOp.message_subject k op
  rw [Broker.publish, Action.bind_ok (Action.run_read b), hsubject, hroute] at hpublish
  rcases action_check_cases hpublish with ⟨e, he, -⟩ | ⟨t, ht, hpublish⟩
  · cases he
  cases ht
  obtain ⟨n, hstore, rfl⟩ := action_map_cases (f := PublishAck.mk s.name) hpublish
  have hn : n ≠ .error .numbersExhausted := by
    rintro rfl
    exact hreply rfl
  have hname : s.name = KeyValueSettings.streamName k.name := by
    rw [Stream.name, hsettings, h.name_eq]
  refine ⟨h.orderly.keepsRegistry_onStream hstore fun t t' backend hrun =>
    ⟨Stream.id_publish hrun hn, Stream.settings_publish hrun hn⟩, ?_⟩
  rw [isTooLarge_map, isTooLarge_map]
  have hlive := h.orderly.liveStream_eq hs
  rcases Broker.onStream_cases hstore with ⟨name, ht, -⟩ | ⟨t, t', backend, ht, hrun, rfl⟩
  · cases hlive.symm.trans ht
  · cases hlive.symm.trans ht
    have htakes : s.settings.takes (op.message k).subject = true :=
      hsubject ▸ takes_subject hstream h.name_eq op.key
    have hsize := Stream.isTooLarge_publish hrun hn (fun name h => by cases h; exact hname.symm)
      (hsubject ▸ checkSubject_subject h.checkBucket_name hkey) htakes
      (Nat.le_trans (Nat.le_of_eq (congrArg _ (KeyOp.message_payload k op))) hvalue)
    rw [hsize, hsettings, KeyOp.size_message]
    rfl

/-- Looking for the newest revision of a key. -/
theorem look (h : k.IsThere settings b) {reply : Except Error (Option KeyEntry)}
    (hrun : (k.entry key).run b = (reply, b')) (hreply : reply ≠ .error .numbersExhausted) :
    b.KeepsRegistry b' ∧ ¬IsTooLarge reply := by
  rw [KeyValueBucket.entry] at hrun
  rcases action_check_cases hrun with ⟨e, he, rfl, rfl⟩ | ⟨⟨⟩, -, hrun⟩
  · rw [checkKey] at he
    split at he <;> cases he
    exact ⟨.refl b', by simp [Error.kind]⟩
  obtain ⟨r, b₁, hlast, hr, hrun⟩ := exists_run_of_attempt_bind hrun hreply
  obtain ⟨hkeeps, hnot⟩ := h.orderly.keepsRegistry_inspect hlast hr
    (isTooLarge_checkLiteralSubject _) fun s => by
      split <;> simp [Error.kind]
  split at hrun
  · cases hrun
    exact ⟨hkeeps, isTooLarge_ok _⟩
  · split at hrun
    · cases hrun
      exact ⟨hkeeps, isTooLarge_ok _⟩
    · cases hrun
      exact ⟨hkeeps, by simpa using hnot⟩

/-- Cutting down a key is not refused for the size of anything. -/
theorem cut {id : Nat} {r : PurgeRequest} (hrun : (Broker.purge id r).run b = (reply, b')) :
    ¬IsTooLarge reply := by
  rcases Broker.onStream_cases hrun with ⟨name, -, rfl, -⟩ | ⟨s, s', backend, -, hpurge, -⟩
  · simp [Error.kind]
  · exact Stream.isTooLarge_purge hpurge

/-- A key that has revisions is created without regard to sizes, if there was no regard to them
before. -/
theorem replaceDeleted (h : k.IsThere settings b) {value : Bytes} (hkey : checkKey key = .ok ())
    (hvalue : value.length ≤ b.settings.maxPayload)
    (hfits : ¬(KeyOp.create key value).IsOver k settings)
    (hrun : (k.replaceDeleted key value).run b = (reply, b'))
    (hreply : reply ≠ .error .numbersExhausted) : ¬IsTooLarge reply := by
  rw [KeyValueBucket.replaceDeleted] at hrun
  rcases action_bind_cases hrun with ⟨e, hlook, rfl⟩ | ⟨newest, b₁, hlook, hrun⟩
  · simpa using (h.look hlook (by simpa using hreply)).2
  have hkeeps := (h.look hlook (by simp)).1
  split at hrun
  · next newest =>
    split at hrun
    · cases hrun
      simp [Error.kind]
    · rw [KeyValueBucket.update, run_check_bind hkey] at hrun
      have hwrite := (h.of_keepsRegistry hkeeps).write
        (.update key value newest.revision) hkey (hkeeps.settings_eq ▸ hvalue) hrun hreply
      -- An update is as large as the creation that it stands for.
      exact fun hlarge => hfits (hwrite.2.1 hlarge)
  · cases hrun
    simp [Error.kind]

/-- A key is created if its message fits, whether it has revisions or not. -/
theorem create (h : k.IsThere settings b) {value : Bytes} (hkey : checkKey key = .ok ())
    (hvalue : value.length ≤ b.settings.maxPayload)
    (hrun : (k.create key value).run b = (reply, b')) (hreply : reply ≠ .error .numbersExhausted) :
    IsTooLarge reply ↔ (KeyOp.create key value).IsOver k settings := by
  rw [KeyValueBucket.create, run_check_bind hkey] at hrun
  obtain ⟨r, b₁, hfirst, hr, hrun⟩ := exists_run_of_attempt_bind hrun hreply
  obtain ⟨hkeeps, hsize⟩ := h.write (.create key value) hkey hvalue hfirst hr
  split at hrun
  · cases hrun
    exact hsize
  · split at hrun
    · next hkind =>
      have hfits : ¬(KeyOp.create key value).IsOver k settings := by
        rw [← hsize, isTooLarge_error, hkind]
        simp
      exact iff_of_false ((h.of_keepsRegistry hkeeps).replaceDeleted hkey
        (hkeeps.settings_eq ▸ hvalue) hfits hrun hreply) hfits
    · cases hrun
      rw [isTooLarge_error] at hsize ⊢
      exact hsize

/-- A key is purged if the marker fits: cutting down is not about sizes. -/
theorem purge (h : k.IsThere settings b) (hkey : checkKey key = .ok ())
    (hvalue : (KeyOp.purge key).value.length ≤ b.settings.maxPayload)
    (hrun : (k.purge key).run b = (reply, b')) (hreply : reply ≠ .error .numbersExhausted) :
    IsTooLarge reply ↔ (KeyOp.purge key).IsOver k settings := by
  rw [KeyValueBucket.purge, run_check_bind hkey] at hrun
  rcases action_bind_cases hrun with ⟨e, hmark, rfl⟩ | ⟨n, b₁, hmark, hrun⟩
  · exact (h.write (.purge key) hkey hvalue hmark hreply).2
  · obtain ⟨r, hcut, rfl⟩ := action_map_cases (f := fun _ => n) hrun
    have hmarked := (h.write (.purge key) hkey hvalue hmark (by simp)).2
    rw [isTooLarge_map]
    exact iff_of_false (IsThere.cut hcut) fun hover => isTooLarge_ok n (hmarked.2 hover)

end IsThere

/-- **An operation is refused for the size of its message** exactly when its value with all that
the message has besides, which is the subject of the key, the header of a deletion and a fixed
overhead, is over the limit on values, whatever the bucket holds and whatever is expected of it. -/
theorem isTooLarge_run_iff (op : KeyOp) (hb : b.Reached) {stream : StreamSettings}
    (hname : k.name = settings.bucket) (hstream : settings.streamSettings = .ok stream)
    (hmem : (k.stream, stream) ∈ b.registry) (hkey : checkKey op.key = .ok ())
    (hvalue : op.value.length ≤ b.settings.maxPayload)
    (hreply : ((op.run k).run b).1 ≠ .error .numbersExhausted) :
    IsTooLarge ((op.run k).run b).1 ↔
      ∃ most, settings.maxValueSize = some most ∧ most < op.value.length + op.overhead k := by
  generalize hrun : (op.run k).run b = left at hreply ⊢
  obtain ⟨reply, b'⟩ := left
  have h : k.IsThere settings b := ⟨hb.orderly, hname, stream, hstream, hmem⟩
  have hwrite {expected : Option Nat}
      (hrun : (k.write (op.message k) expected).run b = (reply, b')) :
      IsTooLarge reply ↔ op.IsOver k settings := (h.write op hkey hvalue hrun hreply).2
  cases op with
  | put key value =>
    have hchecked : checkKey key = .ok () := hkey
    rw [KeyOp.run, put, run_check_bind hchecked] at hrun
    exact hwrite hrun
  | update key value revision =>
    have hchecked : checkKey key = .ok () := hkey
    rw [KeyOp.run, update, run_check_bind hchecked] at hrun
    exact hwrite hrun
  | delete key =>
    have hchecked : checkKey key = .ok () := hkey
    rw [KeyOp.run, delete, run_check_bind hchecked] at hrun
    exact hwrite hrun
  | purge key =>
    exact h.purge hkey hvalue hrun hreply
  | create key value =>
    exact h.create hkey hvalue hrun hreply

/-- Under a limit of 23 octets a value of one octet is refused, and so is a deletion, while an empty
value is not: the key alone counts for 23. -/
theorem isTooLarge_run_short :
    let settings : KeyValueSettings :=
      { bucket := "b", maxValueSize := some 23, storage := .memory }
    let stream : StreamSettings :=
      { name := "KV_b", subjects := ["$KV.b.>"], storage := .memory, discard := .new
        maxMessageSize := some 23, maxMessagesPerSubject := some 1 }
    let k : KeyValueBucket := ⟨"b", 0⟩
    ∃ b : Broker, b.Reached ∧ settings.streamSettings = .ok stream ∧
      (k.stream, stream) ∈ b.registry ∧
      IsTooLarge (((KeyOp.put "a" [120]).run k).run b).1 ∧
      IsTooLarge (((KeyOp.delete "a").run k).run b).1 ∧
      ¬IsTooLarge (((KeyOp.put "a" []).run k).run b).1 := by
  intro settings stream k
  have hb : Broker.Reached ((RegistryOp.createKeyValueBucket settings).run
      (.start {} 0 Stream.epochClock Stream.blankBackend)) := .changed (.started ..) _
  have hstream : settings.streamSettings = .ok stream := by decide +kernel
  have hmem : (k.stream, stream) ∈ ((RegistryOp.createKeyValueBucket settings).run
      (.start {} 0 Stream.epochClock Stream.blankBackend)).registry := by decide +kernel
  refine ⟨_, hb, hstream, hmem, ?_, ?_, fun hlarge => ?_⟩
  · exact (isTooLarge_run_iff (.put "a" [120]) hb rfl hstream hmem (by decide +kernel)
      (by decide +kernel) (by decide +kernel)).2 ⟨23, rfl, by decide +kernel⟩
  · exact (isTooLarge_run_iff (.delete "a") hb rfl hstream hmem (by decide +kernel)
      (by decide +kernel) (by decide +kernel)).2 ⟨23, rfl, by decide +kernel⟩
  · obtain ⟨most, hmost, hlt⟩ := (isTooLarge_run_iff (.put "a" []) hb rfl hstream hmem
      (by decide +kernel) (by decide +kernel) (by decide +kernel)).1 hlarge
    cases hmost
    exact absurd hlt (by decide +kernel)

end KeyValueBucket

end StreamBroker
