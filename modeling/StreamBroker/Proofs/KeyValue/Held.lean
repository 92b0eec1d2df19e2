import StreamBroker.Proofs.Broker.Hosted
import StreamBroker.Proofs.Entry.Capacity
import StreamBroker.Proofs.KeyValue.Map

/-!
# The map that a bucket stands for

Every key of a bucket is a subject of its stream, and the revisions of the key are the messages of
the subject.  So the stream stands for a map of versioned keys, and an operation on the bucket does
to the stream what it does to the map: the expectation that a message is published with is looked up
among the messages of its own subject, and the limit on the messages of a subject makes only that
subject be cut down.

## Main definitions

* `KeyValueBucket.mapOf`: the map that an index stands for
* `KeyValueSettings.IsUnlimited`: settings without limits on age and size
* `KeyValueBucket.Held`: a broker holds a bucket

## Main results

* `KeyValueBucket.mapOf_commit_trimSubject`: a message that comes is a revision that is written
* `KeyValueBucket.held_of_createBucket`: a bucket that is created is held, and its map is empty
* `KeyValueBucket.Held.write_cases`: a revision is written unless another one is expected
-/

namespace StreamBroker

/-- Settings without limits on the age of revisions, on their sizes and on the size of all. -/
structure KeyValueSettings.IsUnlimited (settings : KeyValueSettings) : Prop where
  /-- No revision is ever too old. -/
  maxAge_eq : settings.maxAge = none
  /-- The bucket may hold any number of octets. -/
  maxBytes_eq : settings.maxBytes = none
  /-- A value may have any size. -/
  maxValueSize_eq : settings.maxValueSize = none

namespace KeyValueBucket

variable {k : KeyValueBucket} {key : String} {m : StoredMessage} {x : Index}

/-! ## Subjects of keys -/

theorem subject_eq (k : KeyValueBucket) (text : String) :
    k.subject text = "$KV" ++ "." ++ k.name ++ "." ++ text := by
  simp only [subject, KeyValueSettings.keyPrefix, String.append_assoc]
  rfl

/-- The part of a subject in front of the key is a subject. -/
theorem checkSubject_front (hname : checkBucket k.name = .ok ()) :
    checkSubject ("$KV" ++ "." ++ k.name) = .ok () := by
  obtain ⟨htokens, hliteral⟩ := tokens_of_checkBucket hname
  rw [checkSubject_eq_ok_iff, tokens_append_dot, htokens]
  intro t ht
  rcases List.mem_append.1 ht with ht | ht
  · rw [List.mem_singleton.1 ht]
    rfl
  · rw [List.mem_singleton.1 ht]
    exact hliteral

theorem checkSubject_subject (hname : checkBucket k.name = .ok ())
    (hkey : checkKey key = .ok ()) : checkSubject (k.subject key) = .ok () := by
  rw [subject_eq, checkSubject_eq_ok_iff, tokens_append_dot]
  intro t ht
  rcases List.mem_append.1 ht with ht | ht
  · exact checkSubject_eq_ok_iff.1 (checkSubject_front hname) t ht
  · exact checkLiteral_of_isKeyToken (checkKey_eq_ok_iff.1 hkey t ht)

theorem subject_inj {other : String} (h : k.subject key = k.subject other) : key = other :=
  String.append_right_inj _ |>.1 h

/-! ## Revisions -/

/-- The revision of a key that a message of its subject is. -/
def revisionOf (k : KeyValueBucket) (key : String) (m : StoredMessage) : KeyEntry where
  bucket := k.name
  key := key
  value := m.payload
  revision := m.sequence
  created := m.timestamp
  operation := operationOf m

/-- What is behind a text is known by the two together. -/
theorem textBehind?_eq_some_iff {front text rest : String} :
    textBehind? front text = some rest ↔ text = front ++ rest := by
  rw [textBehind?]
  split
  · next h =>
    obtain ⟨back, hback⟩ := List.isPrefixOf_iff_prefix.1 h
    rw [← hback, List.drop_left, Option.some.injEq, ← String.toList_inj, ← String.toList_inj,
      ← hback, String.toList_append, String.toList_ofList, List.append_cancel_left_eq]
  · next h =>
    simp only [reduceCtorEq, false_iff]
    rintro rfl
    exact h (List.isPrefixOf_iff_prefix.2 ⟨rest.toList, String.toList_append.symm⟩)

/-- A message is a revision of the key that its subject is of. -/
theorem entryOf?_eq_some_iff {e : KeyEntry} :
    k.entryOf? m = some e ↔ m.subject = k.subject e.key ∧ k.revisionOf e.key m = e := by
  rw [entryOf?]
  refine Option.bind_eq_some_iff.trans ?_
  simp only [textBehind?_eq_some_iff, Option.some.injEq]
  constructor
  · rintro ⟨key, hsubject, rfl⟩
    exact ⟨hsubject, rfl⟩
  · rintro ⟨hsubject, he⟩
    exact ⟨e.key, hsubject, he⟩

theorem entryOf?_eq (hm : m.subject = k.subject key) : k.entryOf? m = some (k.revisionOf key m) :=
  entryOf?_eq_some_iff.2 ⟨hm, rfl⟩

/-- The map that an index stands for. -/
def mapOf (k : KeyValueBucket) (x : Index) : KeyMap where
  last := x.lastSeq
  revisions key := (x.ofSubject (k.subject key)).map (k.revisionOf key)

theorem newest?_mapOf (k : KeyValueBucket) (x : Index) (key : String) :
    (k.mapOf x).newest? key = ((x.ofSubject (k.subject key)).getLast?).map (k.revisionOf key) :=
  List.getLast?_map ..

theorem newestRevision_mapOf (hx : x.Tallied) (k : KeyValueBucket) (key : String) :
    (k.mapOf x).newestRevision key =
      ((x.lastForSubject (k.subject key)).map (·.sequence)).getD 0 := by
  rw [KeyMap.newestRevision, newest?_mapOf, hx.lastForSubject_eq, Option.map_map]
  rfl

/-- The messages of a map's keys that are left when a subject is cut down. -/
theorem mapOf_trimSubject (hx : x.Tallied) (key : String) (most : Nat) (other : String) :
    ((k.mapOf (Retention.trimSubject most x (k.subject key)).2).revisions other) =
      if other = key then ((k.mapOf x).revisions key).rtake most
      else (k.mapOf x).revisions other := by
  simp only [mapOf, Retention.ofSubject_trimSubject hx]
  by_cases h : other = key
  · subst h
    rw [if_pos rfl, if_pos rfl, List.rtake, List.rtake, List.map_drop, List.length_map]
  · rw [if_neg fun heq => h (subject_inj heq), if_neg h]

theorem mapOf_commit (hx : x.Filed) (hm : x.lastSeq < m.sequence)
    (hsubject : m.subject = k.subject key) (other : String) :
    (k.mapOf (x.commit m)).revisions other =
      if other = key then (k.mapOf x).revisions key ++ [k.revisionOf key m]
      else (k.mapOf x).revisions other := by
  simp only [mapOf]
  split
  · next h => rw [h, ← hsubject, Index.ofSubject_commit_self hx hm, List.map_append,
      List.map_singleton]
  · next h =>
    have hne : k.subject other ≠ m.subject := fun heq => h (subject_inj (heq.trans hsubject))
    rw [Index.ofSubject_commit_of_ne hx hm hne]

/-- The revision of a message is written to the map, and its key cut down. -/
theorem mapOf_commit_trimSubject (hx : x.Coherent) (hm : m.sequence = x.lastSeq + 1)
    (hsubject : m.subject = k.subject key) (most : Nat) :
    k.mapOf (Retention.trimSubject most (x.commit m) m.subject).2 =
      (k.mapOf x).extend most (k.revisionOf key m) := by
  have hlt : x.lastSeq < m.sequence := hm ▸ Nat.lt_succ_self _
  -- Cutting a subject down gives no numbers.
  have hlast : (Retention.trimSubject most (x.commit m) m.subject).2.lastSeq = m.sequence := by
    rw [(Retention.removes_trimSubject _ _ _).loses.lastSeq_eq]
    exact Nat.max_eq_right (Nat.le_of_lt hlt)
  have hrevisions : (k.mapOf (Retention.trimSubject most (x.commit m) m.subject).2).revisions =
      ((k.mapOf x).extend most (k.revisionOf key m)).revisions := by
    funext other
    rw [hsubject, mapOf_trimSubject (hx.commit hlt).toTallied, mapOf_commit hx.toFiled hlt hsubject,
      mapOf_commit hx.toFiled hlt hsubject, if_pos rfl, KeyMap.extend]
    -- Only the key of the message is extended and cut.
    by_cases h : other = key
    · subst h
      rw [if_pos rfl]
      exact (if_pos rfl).symm
    · rw [if_neg h, if_neg h]
      exact (if_neg h).symm
  exact KeyMap.ext hlast hrevisions

/-! ## Buckets that are held -/

/-- The settings of the stream of a bucket. -/
theorem streamSettings_eq_ok {settings : KeyValueSettings} {stream : StreamSettings}
    (h : settings.streamSettings = .ok stream) :
    checkBucket settings.bucket = .ok () ∧ 1 ≤ settings.history ∧
      stream =
        { name := KeyValueSettings.streamName settings.bucket
          description := settings.description
          subjects := [KeyValueSettings.keyPrefix settings.bucket ++ ">"]
          storage := settings.storage
          discard := .new
          maxAge := settings.maxAge
          maxBytes := settings.maxBytes
          maxMessageSize := settings.maxValueSize
          maxMessagesPerSubject := some settings.history } := by
  rw [KeyValueSettings.streamSettings] at h
  obtain ⟨⟨⟩, hbucket, h⟩ := except_bind_eq_ok.1 h
  split at h
  · cases h
  · next hhistory =>
    cases h
    exact ⟨hbucket, by omega, rfl⟩

/-- The stream of a bucket takes the subjects of the bucket. -/
theorem takes_subject {settings : KeyValueSettings} {stream : StreamSettings}
    (h : settings.streamSettings = .ok stream) (hname : k.name = settings.bucket) (key : String) :
    stream.takes (k.subject key) = true := by
  obtain ⟨hbucket, -, heq⟩ := streamSettings_eq_ok h
  rw [← hname] at hbucket
  rw [StreamSettings.takes, heq, ← hname]
  refine List.any_eq_true.2 ⟨k.subject ">", List.mem_singleton_self _, ?_⟩
  rw [subject_eq k ">", subjectMatches_behind_iff (checkSubject_front hbucket)]
  exact ⟨key, subject_eq k key⟩

/-- A broker holds a bucket without limits on age and size, to which nothing was written but
revisions of keys. -/
structure Held (k : KeyValueBucket) (settings : KeyValueSettings) (b : Broker) (s : Stream) :
    Prop where
  /-- The broker has the stream. -/
  hosts : b.Hosts s
  /-- The stream is that of the bucket. -/
  id_eq : s.id = k.stream
  /-- The bucket has the name that is set. -/
  name_eq : k.name = settings.bucket
  /-- Nothing but the history is limited. -/
  unlimited : settings.IsUnlimited
  /-- The stream has the settings of the bucket. -/
  settings_eq : settings.streamSettings = .ok s.settings
  /-- Every message is a revision of a key. -/
  keyed : ∀ m ∈ s.index.toList, ∃ key, checkKey key = .ok () ∧ m.subject = k.subject key

/-- **A bucket that is created on a blank journal is held, and its map is empty.** -/
theorem held_of_createBucket {settings : KeyValueSettings} (hunlimited : settings.IsUnlimited)
    {b b' : Broker} (hb : b.Orderly)
    (hnew : b.stream? (KeyValueSettings.streamName settings.bucket) = none)
    (hblank : settings.storage = .file → b.backend.Keeps
      (Journal.namespaceOf (KeyValueSettings.streamName settings.bucket)) SeqMap.empty)
    (h : (createBucket settings).run b = (.ok k, b')) :
    ∃ s, k.Held settings b' s ∧ k.mapOf s.index = KeyMap.empty := by
  rw [createBucket] at h
  rcases action_check_cases h with ⟨e, -, he, -⟩ | ⟨stream, hstream, h⟩
  · cases he
  rcases action_bind_cases h with ⟨e, -, he⟩ | ⟨id, b₁, hcreate, hpure⟩
  · cases he
  cases hpure
  obtain ⟨-, -, heq⟩ := streamSettings_eq_ok hstream
  have hname : b.stream? stream.name = none := heq ▸ hnew
  have hsteady : stream.IsSteady := heq ▸ ⟨hunlimited.maxAge_eq, rfl, rfl⟩
  -- Only a stream in files has a journal, and by assumption it is blank.
  have hjournal : ∀ ns ∈ stream.journal?, b.backend.Keeps ns SeqMap.empty := by
    intro ns hns
    obtain ⟨hfile, rfl⟩ := StreamSettings.journal?_eq_some_iff.1 hns
    rw [heq] at hfile ⊢
    exact hblank hfile
  obtain ⟨s, hhosts, hid, hsettings, hempty, hlast⟩ :=
    Broker.hosts_of_createStream hb hname hsteady hjournal hcreate
  refine ⟨s, ⟨hhosts, hid, rfl, hunlimited, hsettings ▸ hstream, fun m hm => ?_⟩, ?_⟩
  · rw [hempty] at hm
    cases hm
  · refine KeyMap.ext hlast (funext fun key => ?_)
    simp only [mapOf, Index.ofSubject, hempty]
    rfl

namespace Held

variable {settings : KeyValueSettings} {b b' : Broker} {s s' : Stream}

theorem checkBucket_name (h : k.Held settings b s) : checkBucket k.name = .ok () :=
  h.name_eq ▸ (streamSettings_eq_ok h.settings_eq).1

theorem one_le_history (h : k.Held settings b s) : 1 ≤ settings.history :=
  (streamSettings_eq_ok h.settings_eq).2.1

theorem stream_name (h : k.Held settings b s) : s.name = KeyValueSettings.streamName k.name := by
  rw [Stream.name, (streamSettings_eq_ok h.settings_eq).2.2, h.name_eq]

theorem maxMessagesPerSubject_eq (h : k.Held settings b s) :
    s.settings.maxMessagesPerSubject = some settings.history := by
  rw [(streamSettings_eq_ok h.settings_eq).2.2]

/-- The stream takes the subjects of the bucket. -/
theorem takes (h : k.Held settings b s) (key : String) :
    s.settings.takes (k.subject key) = true :=
  takes_subject h.settings_eq h.name_eq key

/-- A bucket is still held when its stream has become another. -/
theorem evolve (h : k.Held settings b s) (he : b.Evolves s b' s')
    (hkeyed : ∀ m ∈ s'.index.toList, m ∈ s.index.toList ∨
      ∃ key, checkKey key = .ok () ∧ m.subject = k.subject key) : k.Held settings b' s' where
  hosts := he.hosts
  id_eq := he.id_eq.trans h.id_eq
  name_eq := h.name_eq
  unlimited := h.unlimited
  settings_eq := he.settings_eq ▸ h.settings_eq
  keyed m hm := (hkeyed m hm).elim (h.keyed m) id

/-! ## Writing -/

theorem checkMessage_eq (h : k.Held settings b s) (hkey : checkKey key = .ok ()) {m : Message}
    (hm : m.subject = k.subject key) {maxPayload : Nat} (hsize : m.payload.length ≤ maxPayload) :
    Index.checkMessage s.settings maxPayload m = .ok () := by
  have hsubject := checkSubject_subject h.checkBucket_name hkey
  have hvalue : s.settings.maxMessageSize = none := by
    rw [(streamSettings_eq_ok h.settings_eq).2.2, h.unlimited.maxValueSize_eq]
  rw [Index.checkMessage, checkLiteralSubject, hm, hsubject, h.takes key, hvalue]
  simp only [Bool.not_true, Bool.false_eq_true, if_false, Nat.not_lt.2 hsize]
  rfl

theorem checkRoom_eq (h : k.Held settings b s) (size : Nat) :
    s.index.checkRoom s.settings size = .ok () := by
  rw [(streamSettings_eq_ok h.settings_eq).2.2, h.unlimited.maxBytes_eq]
  rfl

/-- A message for a key is refused only for the revision that is expected. -/
theorem prepare_eq (h : k.Held settings b s) (hkey : checkKey key = .ok ()) {m : Message}
    (hm : m.subject = k.subject key) {maxPayload : Nat} (hsize : m.payload.length ≤ maxPayload)
    (now : Timestamp) (stream : Option String) (expected : Option Nat) :
    s.index.prepare s.settings maxPayload now { stream, lastSubjectSequence := expected } m =
      match expected.filter fun r => decide (r ≠ (k.mapOf s.index).newestRevision key) with
      | some r =>
        .error (.wrongLastSubjectSequence r m.subject ((k.mapOf s.index).newestRevision key))
      | none =>
        if wordLimit ≤ s.index.lastSeq + 1 then .error .numbersExhausted
        else .ok (m.stored (s.index.lastSeq + 1) now) := by
  rw [Index.prepare, h.checkMessage_eq hkey hm hsize, h.checkRoom_eq, Index.checkExpectations,
    newestRevision_mapOf h.hosts.sound.coherent.toTallied, ← hm]
  cases expected with
  | none => rfl
  | some r =>
    rw [Option.filter_some]
    by_cases hr : r = ((s.index.lastForSubject m.subject).map (·.sequence)).getD 0
    · simp only [ne_eq, hr, not_true, decide_false, if_false, Bool.false_eq_true]
      rfl
    · simp only [ne_eq, hr, not_false_iff, if_true, decide_true]
      rfl

/-- **A revision is written** unless another one is expected to be the newest. -/
theorem write_cases (h : k.Held settings b s) (hkey : checkKey key = .ok ()) {m : Message}
    (hm : m.subject = k.subject key) (hsize : m.payload.length ≤ b.settings.maxPayload)
    (hfits : ∀ n, Entry.Fits (m.stored n b.clock.wall.toMicro)) {expected : Option Nat}
    {reply : Except Error Nat} (hrun : (k.write m expected).run b = (reply, b'))
    (hreply : reply ≠ .error .numbersExhausted) :
    ∃ s', k.Held settings b' s' ∧ b.Evolves s b' s' ∧
      ((∃ r, r ∈ expected ∧ r ≠ (k.mapOf s.index).newestRevision key ∧
          reply = .error
            (.wrongLastSubjectSequence r m.subject ((k.mapOf s.index).newestRevision key)) ∧
          k.mapOf s'.index = k.mapOf s.index) ∨
        ((∀ r ∈ expected, r = (k.mapOf s.index).newestRevision key) ∧
          reply = .ok (s.index.lastSeq + 1) ∧
          k.mapOf s'.index = (k.mapOf s.index).extend settings.history
            (k.revisionOf key (m.stored (s.index.lastSeq + 1) b.clock.wall.toMicro)))) := by
  have hsubject : checkSubject m.subject = .ok () :=
    hm ▸ checkSubject_subject h.checkBucket_name hkey
  have htakes : s.settings.takes m.subject = true := hm ▸ h.takes key
  have hname (name : String) (hn : name ∈ some (KeyValueSettings.streamName k.name)) :
      name = s.name := by
    rw [h.stream_name, Option.mem_some_iff.1 hn]
  -- The number of the message is all that is told.
  obtain ⟨r, hpublish, rfl⟩ : ∃ r, (Broker.publish m
      { stream := some (KeyValueSettings.streamName k.name)
        lastSubjectSequence := expected }).run b = (r, b') ∧
      reply = r.map PublishAck.sequence := by
    rcases action_bind_cases hrun with ⟨e, hpublish, rfl⟩ | ⟨ack, t, hpublish, hpure⟩
    · exact ⟨_, hpublish, rfl⟩
    · cases hpure
      exact ⟨_, hpublish, rfl⟩
  have hr : r ≠ .error .numbersExhausted := by
    rintro rfl
    exact hreply rfl
  have hprepare := h.prepare_eq hkey hm hsize b.clock.wall.toMicro
    (some (KeyValueSettings.streamName k.name)) expected
  obtain ⟨s', hevolves, hcases⟩ := h.hosts.publish_cases hsubject htakes hname hpublish hr
  simp only [Stream.Refuses, hprepare] at hcases
  cases hexpected : expected.filter fun r => decide (r ≠ (k.mapOf s.index).newestRevision key) with
  | some r =>
    simp only [hexpected] at hcases
    obtain ⟨hmem, hne⟩ := Option.filter_eq_some_iff.1 hexpected
    rcases hcases with ⟨e, rfl, hindex, he | ⟨stored, -, he, -⟩⟩ | ⟨stored, he, -⟩
    · cases he
      exact ⟨s', h.evolve hevolves fun m hm => .inl (hindex ▸ hm), hevolves,
        .inl ⟨r, hmem, of_decide_eq_true hne, rfl, congrArg k.mapOf hindex⟩⟩
    · cases he
    · cases he
  | none =>
    have hall : ∀ r ∈ expected, r = (k.mapOf s.index).newestRevision key := fun r hmem =>
      Classical.byContradiction fun hne =>
        Option.filter_eq_none_iff.1 hexpected r hmem (decide_eq_true hne)
    simp only [hexpected] at hcases
    split at hcases
    · rcases hcases with ⟨e, rfl, -, he | ⟨stored, -, he, -⟩⟩ | ⟨stored, he, -⟩
      · cases he
        exact absurd rfl hr
      · cases he
      · cases he
    · rcases hcases with ⟨e, -, -, he | ⟨stored, fault, he, hfault, -⟩⟩ | ⟨stored, he, rfl, hindex⟩
      · cases he
      · cases he
        obtain ⟨octets, hoctets⟩ := Entry.exists_encode_iff.2 (hfits (s.index.lastSeq + 1))
        rw [hoctets] at hfault
        cases hfault
      · cases he
        have hx := h.hosts.sound.coherent
        have hreceived : s'.index = (Retention.trimSubject settings.history
            (s.index.commit (m.stored (s.index.lastSeq + 1) b.clock.wall.toMicro))
            m.subject).2 := by
          rw [hindex, Stream.received, h.maxMessagesPerSubject_eq]
          rfl
        refine ⟨s', h.evolve hevolves fun w hw => ?_, hevolves, .inr ⟨hall, rfl, ?_⟩⟩
        · rw [hindex] at hw
          refine (Stream.mem_of_mem_received hx.toFiled (Nat.lt_succ_self _) hw).imp_right ?_
          rintro rfl
          exact ⟨key, hkey, hm⟩
        · rw [hreceived]
          exact mapOf_commit_trimSubject hx rfl hm settings.history

end Held

end KeyValueBucket

end StreamBroker
