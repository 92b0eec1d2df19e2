import StreamBroker.Proofs.Broker.Hosted
import StreamBroker.Proofs.Index.Dated
import StreamBroker.Proofs.ObjectBucket.Shown

/-!
# What messages do to what a bucket shows

A bucket is a stream that lets nothing go on its own but for what is too old.  Operations look
before they write: what is too old goes when they look, and as no time passes in an operation,
nothing gets too old until it ends.  So every call behind the first look changes what is shown of
one name or one nuid, or is refused and changes nothing.

What is known of single messages beside what is shown, such as their times, is carried along as a
predicate.

## Main definitions

* `ObjectBucket.Lodged`: a broker has a bucket
* `ObjectBucket.Rested`: nothing in it is too old
* `ObjectBucket.Looked`: one has looked at a bucket
* `ObjectBucket.AdmitsChunks`, `ObjectBucket.AdmitsDescriptions`: what is known of messages is true
  of those that come

## Main results

* `ObjectBucket.lodged_of_createBucket`: a bucket that is created shows nothing
* `ObjectBucket.Lodged.newestDescription_cases`, `ObjectBucket.Lodged.info_cases`: looks, before
  which what is too old goes
* `ObjectBucket.run_get_of_whole`, `ObjectBucket.run_get_of_gone`: data is put together, or refused
* `ObjectBucket.Rested.describe_cases`: a description is refused, or comes
* `ObjectBucket.Rested.write_cases`: chunks come, all or some of them
* `ObjectBucket.Rested.forget_cases`, `ObjectBucket.Rested.drop_cases`: descriptions and chunks go
-/

namespace StreamBroker

namespace ObjectBucket

variable {o : ObjectBucket} {settings : ObjectBucketSettings} {P Q : StoredMessage → Prop}
  {clock : Clock} {b b' c : Broker} {s s' : Stream} {object nuid : String} {d : ObjectDescription}

/-! ## Buckets of brokers -/

/-- A broker has a bucket, to which nothing was written but chunks and descriptions of which
something is known.  If there is a limit on age, messages come in the order of time. -/
structure Lodged (o : ObjectBucket) (settings : ObjectBucketSettings) (P : StoredMessage → Prop)
    (b : Broker) (s : Stream) : Prop where
  /-- The broker has the stream. -/
  lodges : b.Lodges s
  /-- The stream is that of the bucket. -/
  id_eq : s.id = o.stream
  /-- The bucket has the name that is set. -/
  name_eq : o.name = settings.bucket
  /-- The stream has the settings of the bucket. -/
  settings_eq : settings.streamSettings = .ok s.settings
  /-- Every message is a chunk or a description. -/
  own : ∀ m ∈ s.index.toList, o.IsOwn m
  /-- This is known of every message. -/
  noted : ∀ m ∈ s.index.toList, P m
  /-- Messages come in the order of time, and are not too old when they come. -/
  dated : ∀ maxAge ∈ settings.maxAge,
    0 < maxAge.nanos ∧ s.index.IsDated b.clock.wall.toMicro

/-- A broker has a bucket at a time when nothing in it is too old. -/
structure Rested (o : ObjectBucket) (settings : ObjectBucketSettings) (P : StoredMessage → Prop)
    (clock : Clock) (b : Broker) (s : Stream) : Prop extends o.Lodged settings P b s where
  /-- This is the time. -/
  clock_eq : b.clock = clock
  /-- No message is too old. -/
  young : ∀ m ∈ s.index.toList, s.settings.IsYoung clock.wall.toMicro m

/-- One has looked at what a broker has of a bucket. -/
structure Looked (o : ObjectBucket) (settings : ObjectBucketSettings) (P : StoredMessage → Prop)
    (b : Broker) (s : Stream) (b' : Broker) (s' : Stream) : Prop where
  /-- Nothing is too old. -/
  rested : o.Rested settings P b.clock b' s'
  /-- The stream has become another. -/
  becomes : b.Becomes s b' s'
  /-- What was too old has gone. -/
  index_eq : s'.index = (Retention.expire s.settings b.clock.wall s.index).2
  /-- What is left is not too old. -/
  young : ∀ m ∈ s'.index.toList, s'.settings.IsYoung b.clock.wall m

/-- This is known of the chunks of a nuid that come. -/
def AdmitsChunks (o : ObjectBucket) (P : StoredMessage → Prop) (clock : Clock) (nuid : String) :
    Prop :=
  ∀ m, m.subject = o.chunkSubject nuid → m.timestamp = clock.wall.toMicro → P m

/-- This is known of the descriptions that come. -/
def AdmitsDescriptions (o : ObjectBucket) (P : StoredMessage → Prop) (clock : Clock) : Prop :=
  ∀ m d, o.IsDescription m d → d.modified = clock.wall → m.timestamp = clock.wall.toMicro → P m

/-- **A bucket that is created on a blank journal shows nothing.** -/
theorem lodged_of_createBucket (hb : b.Orderly)
    (hnew : b.stream? (ObjectBucketSettings.streamName settings.bucket) = none)
    (hblank : settings.storage = .file → b.backend.Keeps
      (Journal.namespaceOf (ObjectBucketSettings.streamName settings.bucket)) SeqMap.empty)
    (h : (createBucket settings).run b = (.ok o, b')) :
    ∃ s, o.Lodged settings P b' s ∧ s.index.toList = [] := by
  rw [createBucket] at h
  rcases action_check_cases h with ⟨e, -, he, -⟩ | ⟨stream, hstream, h⟩
  · cases he
  rcases action_bind_cases h with ⟨e, -, he⟩ | ⟨id, b₁, hcreate, hpure⟩
  · cases he
  cases hpure
  obtain ⟨-, heq⟩ := streamSettings_eq_ok hstream
  have hname : b.stream? stream.name = none := heq ▸ hnew
  have hplain : stream.IsPlain := heq ▸ ⟨rfl, rfl⟩
  have hjournal : ∀ ns ∈ stream.journal?, b.backend.Keeps ns SeqMap.empty := by
    intro ns hns
    obtain ⟨hfile, rfl⟩ := StreamSettings.journal?_eq_some_iff.1 hns
    rw [heq] at hfile ⊢
    exact hblank hfile
  obtain ⟨s, hlodges, hid, hsettings, hempty, -⟩ :=
    Broker.lodges_of_createStream hb hname hplain hjournal hcreate
  refine ⟨s, ⟨hlodges, hid, rfl, hsettings ▸ hstream, ?_, ?_, fun maxAge hmaxAge => ⟨?_, ?_⟩⟩,
    hempty⟩
  · simp [hempty]
  · simp [hempty]
  · rcases action_check_cases hcreate with ⟨e, -, he, -⟩ | ⟨⟨⟩, hcheck, -⟩
    · cases he
    · exact StreamSettings.maxAge_pos hcheck (heq ▸ hmaxAge)
  · rw [Index.IsDated, hempty]
    exact Index.empty_isDated _

/-! ## Data -/

section Data

variable {b₁ : Broker} {x : StoredObject} {chunks : List StoredMessage}

/-- The data of an object is put together from its chunks. -/
theorem run_get_of_whole (hx : x.IsRight object)
    (hinfo : (o.info object).run b = (.ok x.description, b₁))
    (hmatching : (Broker.matchingMessages o.stream (o.chunkSubject x.description.nuid)).run b₁ =
      (.ok chunks, b'))
    (hchunks : chunks.map StoredMessage.payload = chunksOf x.chunkSize x.octets) :
    (o.get object).run b = (.ok x.octets, b') := by
  have hlength : chunks.length = (chunksOf x.chunkSize x.octets).length := by
    rw [← hchunks, List.length_map]
  rw [get, Action.bind_ok hinfo, Action.bind_ok hmatching]
  simp only [hchunks, flatten_chunksOf hx.chunkSize_pos, hlength, hx.size_eq, hx.chunks_eq,
    hx.digest_eq, if_neg (Nat.not_le.2 hx.length_lt)]
  rfl

/-- The data of an object is refused if its chunks are not there. -/
theorem run_get_of_gone (hx : x.IsRight object)
    (hinfo : (o.info object).run b = (.ok x.description, b₁))
    (hmatching : (Broker.matchingMessages o.stream (o.chunkSubject x.description.nuid)).run b₁ =
      (.ok [], b')) (hoctets : x.octets ≠ []) :
    (o.get object).run b = (.error (.digestMismatch object ⟨0, 0, objectDigest []⟩
      ⟨x.description.size, x.description.chunks, x.description.digest⟩), b') := by
  have hsize : ¬maxObjectSize ≤ x.description.size := by
    rw [hx.size_eq]
    exact Nat.not_le.2 hx.length_lt
  have hne : (⟨0, 0, objectDigest []⟩ : ObjectReading) ≠
      ⟨x.description.size, x.description.chunks, x.description.digest⟩ := by
    intro heq
    have hzero : 0 = x.description.size := congrArg ObjectReading.bytes heq
    rw [hx.size_eq] at hzero
    exact hoctets (List.eq_nil_of_length_eq_zero hzero.symm)
  rw [get, Action.bind_ok hinfo, Action.bind_ok hmatching]
  simp only [List.map_nil, List.flatten_nil, List.length_nil, if_neg hsize, if_neg hne]
  rfl

end Data

namespace Lodged

theorem checkBucket_name (h : o.Lodged settings P b s) : checkBucket o.name = .ok () :=
  h.name_eq ▸ (streamSettings_eq_ok h.settings_eq).1

theorem stocked (h : o.Lodged settings P b s) : o.Stocked s.index :=
  ⟨h.lodges.sound, h.checkBucket_name, h.own⟩

theorem stream_name (h : o.Lodged settings P b s) :
    s.name = ObjectBucketSettings.streamName o.name := by
  rw [Stream.name, (streamSettings_eq_ok h.settings_eq).2, h.name_eq]

theorem maxAge_eq (h : o.Lodged settings P b s) : s.settings.maxAge = settings.maxAge := by
  rw [(streamSettings_eq_ok h.settings_eq).2]

/-- The stream takes the subjects of chunks. -/
theorem takes_chunkSubject (h : o.Lodged settings P b s) (nuid : String) :
    s.settings.takes (o.chunkSubject nuid) = true := by
  rw [StreamSettings.takes, (streamSettings_eq_ok h.settings_eq).2, ← h.name_eq]
  refine List.any_eq_true.2 ⟨o.chunkSubject ">", List.mem_cons_self, ?_⟩
  rw [chunkSubject_eq o ">",
    subjectMatches_behind_iff (checkSubject_front h.checkBucket_name rfl)]
  exact ⟨nuid, chunkSubject_eq o nuid⟩

/-- The stream takes the subjects of descriptions. -/
theorem takes_descriptionSubject (h : o.Lodged settings P b s) (object : String) :
    s.settings.takes (o.descriptionSubject object) = true := by
  rw [StreamSettings.takes, (streamSettings_eq_ok h.settings_eq).2, ← h.name_eq]
  refine List.any_eq_true.2 ⟨o.allDescriptions, List.mem_cons_of_mem _ List.mem_cons_self, ?_⟩
  rw [allDescriptions, behindDescriptions_eq,
    subjectMatches_behind_iff (checkSubject_front h.checkBucket_name rfl)]
  exact ⟨_, behindDescriptions_eq o _⟩

/-- Less may be known of messages. -/
theorem mono (h : o.Lodged settings P b s)
    (hQ : ∀ m ∈ s.index.toList, P m → Q m) : o.Lodged settings Q b s :=
  { h with noted := fun m hm => hQ m hm (h.noted m hm) }

/-- What is left are the messages that are not too old. -/
theorem toList_expire (h : o.Lodged settings P b s) (now : Timestamp) :
    (Retention.expire s.settings now s.index).2.toList =
      s.index.toList.filter fun m => decide (s.settings.IsYoung now m) := by
  cases hage : settings.maxAge with
  | none =>
    have hyoung (m : StoredMessage) : s.settings.IsYoung now m := fun maxAge hmaxAge => by
      rw [h.maxAge_eq, hage] at hmaxAge
      cases hmaxAge
    rw [Retention.expire_of_young fun m _ => hyoung m]
    exact (List.filter_eq_self.2 fun m _ => decide_eq_true (hyoung m)).symm
  | some maxAge =>
    exact Retention.toList_expire h.lodges.sound.coherent.toFiled (h.dated maxAge hage).2 _ _

theorem mem_expire_iff (h : o.Lodged settings P b s) (now : Timestamp) {m : StoredMessage} :
    m ∈ (Retention.expire s.settings now s.index).2.toList ↔
      m ∈ s.index.toList ∧ s.settings.IsYoung now m := by
  rw [h.toList_expire, List.mem_filter, decide_eq_true_eq]

/-- **Before one looks, what is too old goes.** -/
theorem looked (h : o.Lodged settings P b s) (he : b.Becomes s b' s')
    (hindex : s'.index = (Retention.expire s.settings b.clock.wall s.index).2) :
    o.Looked settings P b s b' s' := by
  have hmem (m : StoredMessage) (hm : m ∈ s'.index.toList) :
      m ∈ s.index.toList ∧ s.settings.IsYoung b.clock.wall m :=
    (h.mem_expire_iff _).1 (hindex ▸ hm)
  refine ⟨⟨⟨he.lodges, he.id_eq.trans h.id_eq, h.name_eq, he.settings_eq ▸ h.settings_eq,
    fun m hm => h.own m (hmem m hm).1, fun m hm => h.noted m (hmem m hm).1,
    fun maxAge hmaxAge => ?_⟩, he.clock_eq, fun m hm => ?_⟩, he, hindex, fun m hm => ?_⟩
  · obtain ⟨hpos, hdated⟩ := h.dated maxAge hmaxAge
    rw [he.clock_eq, hindex]
    exact ⟨hpos, hdated.loses h.lodges.sound.coherent.toFiled (Retention.loses_expire _ _ _)⟩
  · rw [he.settings_eq]
    exact (hmem m hm).2.of_le (Timestamp.sinceEpoch_toMicro_le _)
  · rw [he.settings_eq]
    exact (hmem m hm).2

/-- The settings of the bucket are those of its stream, in whatever broker. -/
theorem stream_settings_eq (h : o.Lodged settings P b s) (h' : o.Lodged settings Q b' s') :
    s'.settings = s.settings :=
  Except.ok.inj (h'.settings_eq.symm.trans h.settings_eq)

/-- **A bucket that is left to age** has the same messages, but for what is too old. -/
theorem meanwhile (h : o.Lodged settings P b s) (hage : Broker.LeavesToAge o.stream b c) :
    ∃ t, o.Lodged settings P c t ∧ t.settings = s.settings ∧
      (t.index.toList = s.index.toList ∨
        ∃ now : Timestamp, now.sinceEpoch ≤ c.clock.wall.sinceEpoch ∧
          t.index.toList = s.index.toList.filter fun m => decide (s.settings.IsYoung now m)) := by
  obtain ⟨hwall, hstream⟩ := hage
  obtain ⟨t, hlodges, hid, hsettings, hindex⟩ := hstream s h.lodges h.id_eq
  have hsub (m : StoredMessage) (hm : m ∈ t.index.toList) : m ∈ s.index.toList := by
    rcases hindex with heq | ⟨now, -, heq⟩
    · exact heq ▸ hm
    · rw [heq] at hm
      exact (List.mem_filter.1 hm).1
  refine ⟨t, ⟨hlodges, hid.trans h.id_eq, h.name_eq, hsettings ▸ h.settings_eq,
    fun m hm => h.own m (hsub m hm), fun m hm => h.noted m (hsub m hm), fun maxAge hmaxAge => ?_⟩,
    hsettings, hindex⟩
  obtain ⟨hpos, hdated⟩ := h.dated maxAge hmaxAge
  exact ⟨hpos, hdated.of_subset hsub (Timestamp.sinceEpoch_toMicro_mono hwall)⟩

/-- A bucket in which nothing but what is too old has gone at once was left to age. -/
theorem leavesToAge (h : o.Lodged settings P b s) (h' : o.Lodged settings Q b' s')
    (hclock : b'.clock = b.clock)
    (hindex : s'.index.toList = s.index.toList ∨ s'.index.toList =
      s.index.toList.filter fun m => decide (s.settings.IsYoung b.clock.wall m)) :
    Broker.LeavesToAge o.stream b b' := by
  refine ⟨Int.le_of_eq (hclock ▸ rfl), fun t ht hid => ?_⟩
  have hs := h.lodges.liveStream_eq
  rw [h.id_eq, ← hid, ht.liveStream_eq] at hs
  obtain rfl := Except.ok.inj hs
  exact ⟨s', h'.lodges, h'.id_eq.trans h.id_eq.symm, h.stream_settings_eq h',
    hindex.imp_right fun hindex => ⟨_, Int.le_of_eq (hclock ▸ rfl), hindex⟩⟩

/-- The newest description of a name is looked up. -/
theorem newestDescription_cases (h : o.Lodged settings P b s) (hobject : object ≠ "")
    {reply : Except Error (Option ObjectDescription)}
    (hrun : (o.newestDescription object).run b = (reply, b'))
    (hreply : reply ≠ .error .numbersExhausted) :
    ∃ s', o.Looked settings P b s b' s' ∧ reply = .ok ((o.viewOf s'.index).newest object) := by
  have hsubject := checkSubject_descriptionSubject h.checkBucket_name hobject
  have hattempt := hrun
  rw [newestDescription] at hattempt
  rcases action_check_cases hattempt with ⟨e, he, -⟩ | ⟨⟨⟩, -, hattempt⟩
  · rw [checkObjectName, if_neg (by simpa using hobject)] at he
    cases he
  obtain ⟨r, t, hlast, hr, -⟩ := exists_run_of_attempt_bind hattempt hreply
  have hlast' := hlast
  rw [← h.id_eq] at hlast'
  obtain ⟨s', hbecomes, hindex, rfl⟩ := h.lodges.lastMessage_cases hsubject hlast' hr
  have hlooked := h.looked hbecomes hindex
  rw [hlooked.rested.stocked.run_newestDescription hobject hlast] at hrun
  obtain ⟨rfl, rfl⟩ := Prod.mk.inj hrun
  exact ⟨s', hlooked, rfl⟩

/-- **An object that exists is looked up**, or the look is refused. -/
theorem info_cases (h : o.Lodged settings P b s) {reply : Except Error ObjectDescription}
    (hrun : (o.info object).run b = (reply, b')) (hreply : reply ≠ .error .numbersExhausted) :
    (b' = b ∧ ∃ e, reply = .error e) ∨ ∃ s', o.Looked settings P b s b' s' ∧
      ((∃ e, reply = .error e) ∨
        ∃ d ∈ (o.viewOf s'.index).newest object, d.deleted = false ∧ reply = .ok d) := by
  by_cases hobject : object = ""
  · subst hobject
    cases hrun
    exact .inl ⟨rfl, _, rfl⟩
  rw [info] at hrun
  rcases action_bind_cases hrun with ⟨e, hnewest, rfl⟩ | ⟨r, b₁, hnewest, hrun⟩
  · obtain ⟨s', -, he⟩ := h.newestDescription_cases hobject hnewest fun he => by
      cases he
      exact hreply rfl
    cases he
  obtain ⟨s', hlooked, hr⟩ := h.newestDescription_cases hobject hnewest fun he => by cases he
  obtain rfl := Except.ok.inj hr
  refine .inr ⟨s', ?_⟩
  cases hd : (o.viewOf s'.index).newest object with
  | none =>
    rw [hd] at hrun
    cases hrun
    exact ⟨hlooked, .inl ⟨_, rfl⟩⟩
  | some d =>
    simp only [hd] at hrun
    split at hrun
    · cases hrun
      exact ⟨hlooked, .inl ⟨_, rfl⟩⟩
    · next hlive =>
      cases hrun
      exact ⟨hlooked, .inr ⟨d, rfl, by simpa using hlive, rfl⟩⟩

end Lodged

namespace Looked

/-- Nothing is too old when one looks again. -/
theorem expire_eq (h : o.Looked settings P b s b' s') :
    Retention.expire s'.settings b'.clock.wall s'.index = ([], s'.index) :=
  Retention.expire_of_young (h.becomes.clock_eq ▸ h.young)

/-- Who looks twice sees the same. -/
theorem trans {b'' : Broker} {s'' : Stream} (h : o.Looked settings P b s b' s')
    (h' : o.Looked settings P b' s' b'' s'') :
    o.Looked settings P b s b'' s'' ∧ s''.index = s'.index := by
  have hindex : s''.index = s'.index := by rw [h'.index_eq, h.expire_eq]
  have hclock := h.becomes.clock_eq
  exact ⟨⟨hclock ▸ h'.rested, h.becomes.trans h'.becomes, hindex.trans h.index_eq,
    hclock ▸ h'.young⟩, hindex⟩

end Looked

namespace Rested

/-- Where nothing is too old, nothing goes. -/
theorem expire_eq (h : o.Rested settings P clock b s) :
    Retention.expire s.settings b.clock.wall.toMicro s.index = ([], s.index) :=
  Retention.expire_of_young (h.clock_eq ▸ h.young)

/-- Nothing is too old when a bucket has become another, to which messages may have come. -/
theorem evolve (h : o.Rested settings P clock b s) (he : b.Becomes s b' s')
    (hmem : ∀ m ∈ s'.index.toList, m ∈ s.index.toList ∨
      o.IsOwn m ∧ P m ∧ m.timestamp = clock.wall.toMicro)
    (hdated : s.index.IsDated clock.wall.toMicro → s'.index.IsDated clock.wall.toMicro) :
    o.Rested settings P clock b' s' where
  lodges := he.lodges
  id_eq := he.id_eq.trans h.id_eq
  name_eq := h.name_eq
  settings_eq := he.settings_eq ▸ h.settings_eq
  own m hm := (hmem m hm).elim (h.own m) And.left
  noted m hm := (hmem m hm).elim (h.noted m) fun hm => hm.2.1
  dated maxAge hmaxAge := by
    obtain ⟨hpos, hbefore⟩ := h.dated maxAge hmaxAge
    rw [h.clock_eq] at hbefore
    rw [he.clock_eq, h.clock_eq]
    exact ⟨hpos, hdated hbefore⟩
  clock_eq := he.clock_eq.trans h.clock_eq
  young m hm := by
    rw [he.settings_eq]
    rcases hmem m hm with hm | ⟨-, -, htime⟩
    · exact h.young m hm
    · intro maxAge hmaxAge
      rw [h.maxAge_eq] at hmaxAge
      -- What came now has no age.
      have hpos := (h.dated maxAge hmaxAge).1
      rw [htime]
      omega

/-! ## Messages come -/

/-- **A message is refused, or it is stored.** -/
theorem publish_cases (h : o.Rested settings P clock b s) {m : Message}
    (hsubject : checkSubject m.subject = .ok ()) (htakes : s.settings.takes m.subject = true)
    (hown : ∀ n now, o.IsOwn (m.stored n now)) (hP : ∀ n, P (m.stored n clock.wall.toMicro))
    {reply : Except Error Unit} (hrun : (o.publish m).run b = (reply, b'))
    (hreply : reply ≠ .error .numbersExhausted) :
    ∃ s', o.Rested settings P clock b' s' ∧
      ((∃ e, reply = .error e ∧ s'.index = s.index) ∨
        reply = .ok () ∧
          s'.index = s.index.commit (m.stored (s.index.lastSeq + 1) clock.wall.toMicro)) := by
  have hname (name : String) (hn : name ∈ some (ObjectBucketSettings.streamName o.name)) :
      name = s.name := by
    rw [h.stream_name, Option.mem_some_iff.1 hn]
  have hfiled := h.lodges.sound.coherent.toFiled
  -- Nothing is told of the message that is stored.
  obtain ⟨r, hpublish, rfl⟩ := action_map_cases hrun
  have hr : r ≠ .error .numbersExhausted := by
    rintro rfl
    exact hreply rfl
  obtain ⟨s', hbecomes, ⟨e, rfl, hindex, -⟩ | ⟨stored, hprepare, rfl, hindex⟩⟩ :=
    h.lodges.publish_cases h.expire_eq hsubject htakes hname hpublish hr
  · exact ⟨s', h.evolve hbecomes (fun m hm => .inl (hindex ▸ hm)) fun hdated => hindex ▸ hdated,
      .inl ⟨e, rfl, hindex⟩⟩
  · obtain ⟨-, -, rfl⟩ := Index.prepare_eq_ok hprepare
    rw [h.clock_eq] at hindex
    have hcommit : s'.index =
        s.index.commit (m.stored (s.index.lastSeq + 1) clock.wall.toMicro) := by
      rw [hindex, Stream.received, (streamSettings_eq_ok h.settings_eq).2]
    refine ⟨s', h.evolve hbecomes (fun w hw => ?_) fun hdated => ?_, .inr ⟨rfl, hcommit⟩⟩
    · rw [hcommit, Index.toList_commit hfiled (Nat.lt_succ_self _), List.mem_append,
        List.mem_singleton] at hw
      refine hw.imp_right ?_
      rintro rfl
      exact ⟨hown _ _, hP _, rfl⟩
    · rw [hcommit]
      exact hdated.commit hfiled (Nat.lt_succ_self _) rfl

/-- **A description is refused, or it comes.** -/
theorem describe_cases (h : o.Rested settings P clock b s) (hP : o.AdmitsDescriptions P clock)
    (hkept : d.IsKept) (hname : d.name ≠ "") (hmodified : d.modified = clock.wall)
    (hnuid : checkSubject (o.chunkSubject d.nuid) = .ok ()) {reply : Except Error Unit}
    (hrun : (o.publishDescription d).run b = (reply, b'))
    (hreply : reply ≠ .error .numbersExhausted) :
    ∃ s', o.Rested settings P clock b' s' ∧
      ((∃ e, reply = .error e ∧ o.viewOf s'.index = o.viewOf s.index) ∨
        reply = .ok () ∧ o.viewOf s'.index = (o.viewOf s.index).describe d) := by
  have hread := ObjectDescription.ofStored?_encode hkept
  have hsubject := checkSubject_descriptionSubject h.checkBucket_name hname
  rw [publishDescription] at hrun
  generalize hm : (⟨o.descriptionSubject d.name, d.encode,
    [(contentTypeHeader, "application/json")]⟩ : Message) = m at hrun
  have hsubject' : m.subject = o.descriptionSubject d.name := hm ▸ rfl
  -- Under whatever number it is stored, it is read back as this description.
  have hstored (n : Nat) (now : Timestamp) : o.IsDescription (m.stored n now) d :=
    ⟨hm ▸ hread, hname, hsubject', hnuid⟩
  obtain ⟨s', hrested, ⟨e, rfl, hindex⟩ | ⟨rfl, hindex⟩⟩ :=
    h.publish_cases (hsubject' ▸ hsubject) (hsubject' ▸ h.takes_descriptionSubject d.name)
      (fun n now => .inr ⟨d, hstored n now⟩) (fun n => hP _ d (hstored n _) hmodified rfl) hrun
      hreply
  · exact ⟨s', hrested, .inl ⟨e, rfl, congrArg o.viewOf hindex⟩⟩
  · refine ⟨s', hrested, .inr ⟨rfl, ?_⟩⟩
    rw [hindex]
    exact viewOf_commit_description h.lodges.sound.coherent.toFiled (Nat.lt_succ_self _) hsubject'
      (hstored _ _).descriptionOf_eq

/-- A chunk is refused, or it comes. -/
theorem chunk_cases (h : o.Rested settings P clock b s) (hP : o.AdmitsChunks P clock nuid)
    (hnuid : checkSubject (o.chunkSubject nuid) = .ok ()) {chunk : Bytes}
    {reply : Except Error Unit}
    (hrun : (o.publish ⟨o.chunkSubject nuid, chunk, []⟩).run b = (reply, b'))
    (hreply : reply ≠ .error .numbersExhausted) :
    ∃ s', o.Rested settings P clock b' s' ∧
      ((∃ e, reply = .error e ∧ o.viewOf s'.index = o.viewOf s.index) ∨
        reply = .ok () ∧ o.viewOf s'.index = (o.viewOf s.index).write nuid [chunk]) := by
  obtain ⟨s', hrested, ⟨e, rfl, hindex⟩ | ⟨rfl, hindex⟩⟩ :=
    h.publish_cases (m := ⟨o.chunkSubject nuid, chunk, []⟩) hnuid (h.takes_chunkSubject nuid)
      (fun _ _ => .inl ⟨nuid, rfl⟩) (fun _ => hP _ rfl rfl) hrun hreply
  · exact ⟨s', hrested, .inl ⟨e, rfl, congrArg o.viewOf hindex⟩⟩
  · refine ⟨s', hrested, .inr ⟨rfl, ?_⟩⟩
    rw [hindex]
    exact viewOf_commit_chunk h.lodges.sound.coherent.toFiled (Nat.lt_succ_self _) rfl

/-- **Chunks come**, all of them or those in front of one that is refused. -/
theorem write_cases (h : o.Rested settings P clock b s) (hP : o.AdmitsChunks P clock nuid)
    (hnuid : checkSubject (o.chunkSubject nuid) = .ok ()) (chunks : List Bytes)
    {reply : Except Error Unit} (hrun : (o.publishChunks nuid chunks).run b = (reply, b'))
    (hreply : reply ≠ .error .numbersExhausted) :
    ∃ s', o.Rested settings P clock b' s' ∧
      ∃ written, o.viewOf s'.index = (o.viewOf s.index).write nuid written ∧
        (reply = .ok () → written = chunks) := by
  induction chunks generalizing b s with
  | nil =>
    cases hrun
    exact ⟨s, h, [], (ObjectView.write_nil _ _).symm, fun _ => rfl⟩
  | cons chunk chunks ih =>
    rw [publishChunks] at hrun
    rcases action_bind_cases hrun with ⟨e, hpublish, rfl⟩ | ⟨⟨⟩, b₁, hpublish, hrun⟩
    · obtain ⟨s', hrested, ⟨e', -, hview⟩ | ⟨he, -⟩⟩ := h.chunk_cases hP hnuid hpublish hreply
      · refine ⟨s', hrested, [], ?_, fun he => by cases he⟩
        rw [hview, ObjectView.write_nil]
      · cases he
    · obtain ⟨s₁, hrested, ⟨e, he, -⟩ | ⟨-, hview⟩⟩ :=
        h.chunk_cases hP hnuid hpublish fun he => by cases he
      · cases he
      · obtain ⟨s', hrested', written, hview', hall⟩ := ih hrested hrun
        refine ⟨s', hrested', chunk :: written, ?_, fun hok => ?_⟩
        · rw [hview', hview, ObjectView.write_write]
          rfl
        · rw [hall hok]

/-! ## Messages go -/

/-- A request to purge a subject of the bucket cuts it down. -/
theorem purge_cases (h : o.Rested settings P clock b s) {subject : String}
    (hsubject : checkSubject subject = .ok ()) {keep : Option Nat} {reply : Except Error Unit}
    (hrun : (o.purgeSubject subject keep).run b = (reply, b'))
    (hreply : reply ≠ .error .numbersExhausted) :
    ∃ s', o.Rested settings P clock b' s' ∧ reply = .ok () ∧
      s'.index = (Retention.trimSubject (keep.getD 0) s.index subject).2 := by
  rw [purgeSubject, ← h.id_eq] at hrun
  have hfiled := h.lodges.sound.coherent.toFiled
  have hloses := (Retention.removes_trimSubject (keep.getD 0) s.index subject).loses
  rcases action_bind_cases hrun with ⟨e, hpurge, rfl⟩ | ⟨n, b₁, hpurge, hpure⟩
  · obtain ⟨s', -, ⟨n, hn⟩, -⟩ := h.lodges.purge_cases hsubject hpurge fun he => by
      cases he
      exact hreply rfl
    cases hn
  · cases hpure
    obtain ⟨s', hbecomes, -, hindex⟩ := h.lodges.purge_cases hsubject hpurge fun he => by cases he
    refine ⟨s', h.evolve hbecomes (fun m hm => .inl ?_) fun hdated => ?_, rfl, hindex⟩
    · rw [hindex] at hm
      exact (hloses.toList_sublist hfiled).subset hm
    · rw [hindex]
      exact hdated.loses hfiled hloses

/-- **The descriptions of a name go**, all or all but the newest. -/
theorem forget_cases (h : o.Rested settings P clock b s) (hobject : object ≠ "") (all : Bool)
    {reply : Except Error Unit}
    (hrun : (o.purgeSubject (o.descriptionSubject object) (if all then none else some 1)).run b =
      (reply, b')) (hreply : reply ≠ .error .numbersExhausted) :
    ∃ s', o.Rested settings P clock b' s' ∧ reply = .ok () ∧
      o.viewOf s'.index =
        if all then (o.viewOf s.index).forget object else o.viewOf s.index := by
  obtain ⟨s', hrested, hok, hindex⟩ :=
    h.purge_cases (checkSubject_descriptionSubject h.checkBucket_name hobject) hrun hreply
  refine ⟨s', hrested, hok, ?_⟩
  have hx := h.lodges.sound.coherent.toTallied
  rw [hindex]
  cases all with
  | true => exact viewOf_trim_descriptions hx object
  | false => exact viewOf_trim_older hx object

/-- **The chunks of a nuid go.** -/
theorem drop_cases (h : o.Rested settings P clock b s)
    (hnuid : checkSubject (o.chunkSubject nuid) = .ok ()) {reply : Except Error Unit}
    (hrun : (o.purgeSubject (o.chunkSubject nuid) none).run b = (reply, b'))
    (hreply : reply ≠ .error .numbersExhausted) :
    ∃ s', o.Rested settings P clock b' s' ∧ reply = .ok () ∧
      o.viewOf s'.index = (o.viewOf s.index).drop nuid := by
  obtain ⟨s', hrested, hok, hindex⟩ := h.purge_cases hnuid hrun hreply
  refine ⟨s', hrested, hok, ?_⟩
  rw [hindex]
  exact viewOf_trim_chunks h.lodges.sound.coherent.toTallied nuid

end Rested

end ObjectBucket

end StreamBroker
