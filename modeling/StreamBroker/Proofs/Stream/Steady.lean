import StreamBroker.Proofs.Index.Trimmed
import StreamBroker.Proofs.Journal.Mirror

/-!
# Streams that let nothing go on their own

A stream which keeps its messages whether consumers need them or not, and refuses new ones when it
is full, loses a message only to its age, to a newer one of the same subject or to a request.
Without a limit on age it lets nothing go on its own.  On a backend whose calls succeed, what
becomes of it is told by its index alone: a message is refused for a reason that was there before,
or it is the newest of its subject.

## Main definitions

* `StreamSettings.IsPlain`, `StreamSettings.IsSteady`: the settings of such streams
* `Stream.Backed`: the calls of a stream succeed
* `Stream.Stays`: a stream is still the same, and its calls still succeed
* `Stream.received`: the index with a message, which makes its subject be cut down
* `Stream.Refuses`: why a message is refused

## Main results

* `Stream.open?_blank`: a stream that is opened on a blank journal begins empty
* `Stream.publish_rested`: a message is refused or received, where nothing is too old
* `Stream.purge_steady`: a subject is cut down
-/

namespace StreamBroker

/-- A stream with these settings lets nothing go on its own, but for what is too old. -/
structure StreamSettings.IsPlain (settings : StreamSettings) : Prop where
  /-- Messages are kept whether they are needed or not. -/
  retention_eq : settings.retention = .limits
  /-- What is too much is refused. -/
  discard_eq : settings.discard = .new

/-- A stream with these settings lets nothing go on its own. -/
structure StreamSettings.IsSteady (settings : StreamSettings) : Prop where
  /-- No message is ever too old. -/
  maxAge_eq : settings.maxAge = none
  /-- Messages are kept whether they are needed or not. -/
  retention_eq : settings.retention = .limits
  /-- What is too much is refused. -/
  discard_eq : settings.discard = .new

theorem StreamSettings.IsSteady.isPlain {settings : StreamSettings} (h : settings.IsSteady) :
    settings.IsPlain :=
  ⟨h.retention_eq, h.discard_eq⟩

namespace Stream

variable {s s' : Stream} {b b' : Backend}

/-! ## Calls that succeed -/

/-- The calls of a stream succeed, if it makes any. -/
def Backed (s : Stream) (b : Backend) : Prop :=
  s.isJournaled = true → ∃ log, b.Keeps s.journal log

theorem Backed.congr (h : s.Backed b) (hsettings : s'.settings = s.settings) : s'.Backed b := by
  rw [Backed, isJournaled, journal, name, hsettings]
  exact h

/-- A message is written unless it has no binary form. -/
theorem Backed.write (hb : s.Backed b) {m : StoredMessage} (hm : m.sequence < wordLimit)
    {reply : Except Error Unit} (h : s.write m b = (reply, b')) :
    s.Backed b' ∧
      (reply = .ok () ∨
        ∃ e, Entry.encode m = .error e ∧ reply = .error (.format e) ∧ b' = b) := by
  rw [Stream.write] at h
  split at h
  · next hs =>
    obtain ⟨log, hlog⟩ := hb hs
    cases hencode : Entry.encode m with
    | error e =>
      have hcall : Journal.appendCall s.journal m = .error e := by
        rw [Journal.appendCall, hencode]
        rfl
      simp only [hcall] at h
      cases h
      exact ⟨hb, .inr ⟨e, rfl, rfl, rfl⟩⟩
    | ok octets =>
      have hcall : Journal.appendCall s.journal m =
          .ok (.append s.journal [(m.sequence, octets)]) :=
        except_bind_eq_ok.2 ⟨octets, hencode, rfl⟩
      -- A store without faults performs the call.
      obtain ⟨hreply, hkeeps⟩ :=
        hlog.perform (.append s.journal [(m.sequence, octets)]) (LogCall.isInRange_append hm)
      simp only [hcall, hreply] at h
      cases h
      exact ⟨fun _ => ⟨_, hkeeps⟩, .inl rfl⟩
  · cases h
    exact ⟨hb, .inl rfl⟩

/-- What goes from the index goes from the journal. -/
theorem Backed.discard (hb : s.Backed b) (gone : List Nat) :
    (s.discard gone b).1 = .ok () ∧ s.Backed (s.discard gone b).2 := by
  rw [Stream.discard]
  split
  · next hs =>
    obtain ⟨log, hlog⟩ := hb hs
    obtain ⟨hreply, hkeeps⟩ :=
      hlog.performAll (Journal.removalCalls_inRange s.journal s.index gone)
    refine ⟨?_, fun _ => ⟨_, hkeeps⟩⟩
    simp only [hreply]
    rfl
  · exact ⟨rfl, hb⟩

/-- A stream is still the same, and its calls still succeed. -/
structure Stays (s s' : Stream) (b' : Backend) : Prop where
  /-- It is told apart by the same number. -/
  id_eq : s'.id = s.id
  /-- It has the same settings. -/
  settings_eq : s'.settings = s.settings
  /-- What it keeps beside its messages is right. -/
  sound : s'.index.Sound
  /-- Its calls succeed. -/
  backed : s'.Backed b'

theorem Stays.refl (hx : s.index.Sound) (hb : s.Backed b) : s.Stays s b := ⟨rfl, rfl, hx, hb⟩

/-! ## Streams that begin -/

/-- Nothing is read back from a blank journal, nor where there is no journal. -/
theorem reread_blank {settings : StreamSettings}
    (hblank : ∀ ns ∈ settings.journal?, b.Keeps ns SeqMap.empty) {x : Index}
    (h : reread settings b = (.ok x, b')) :
    x = Index.empty ∧ ∀ ns ∈ settings.journal?, b'.Keeps ns SeqMap.empty := by
  cases hns : settings.journal? with
  | none =>
    have hmemory : settings.storage = .memory := by
      cases hstorage : settings.storage with
      | memory => rfl
      | file => simp [StreamSettings.journal?, hstorage] at hns
    simp only [reread, recovered, hmemory] at h
    split at h
    · cases h
    · cases h
      exact ⟨rfl, fun ns h => by cases h⟩
  | some ns =>
    have hempty := Journal.Mirrors.empty.readable Index.empty_sound
    obtain ⟨r, b₁, hr, hb₁, hread⟩ := reread_spec hns (hblank ns hns) hempty
    obtain ⟨messages, watermark⟩ := r
    obtain rfl : messages = [] := List.eq_nil_iff_forall_not_mem.2 fun m hm => by
      obtain ⟨-, -, octets, hget, -⟩ := (hr.mem_iff m).1 hm
      cases hget
    obtain ⟨-, hzero⟩ | ⟨-, hget⟩ := hr.watermark
    · obtain rfl : watermark = 0 := hzero
      rw [h] at hread
      obtain ⟨hx, rfl⟩ := Prod.mk.inj hread
      split at hx
      · cases hx
      · cases hx
        refine ⟨rfl, fun ns' h => ?_⟩
        cases h
        exact hb₁
    · cases hget

/-- **A stream that is opened on a blank journal begins empty.** -/
theorem open?_blank {settings : StreamSettings} {id : Nat} {clock : Clock}
    (hblank : ∀ ns ∈ settings.journal?, b.Keeps ns SeqMap.empty)
    (h : open? id settings clock b = (.ok s, b')) :
    s.id = id ∧ s.settings = settings ∧ s.index.Sound ∧ s.Backed b' ∧ s.index.toList = [] ∧
      s.index.lastSeq = 0 := by
  obtain ⟨x, b₁, hread, rfl, rfl⟩ := open?_eq_ok h
  obtain ⟨rfl, hb₁⟩ := reread_blank hblank hread
  have hloses := loses_prune settings clock.wall Index.empty
  refine ⟨rfl, rfl, hloses.sound Index.empty_sound, ?_, ?_, hloses.lastSeq_eq⟩
  · refine (Backed.discard (s := ⟨id, settings, _, _, _, _, _, _⟩) ?_ _).2
    intro hjournaled
    exact ⟨_, hb₁ _ (journal?_of_isJournaled hjournaled)⟩
  · exact List.sublist_nil.1 (hloses.toList_sublist Index.empty_sound.coherent.toFiled)

/-! ## Messages come -/

/-- What is too old goes, unless the numbers are used up. -/
theorem evict_backed (hx : s.index.Sound) (hb : s.Backed b) {now : Timestamp}
    {reply : Except Error Unit} (h : s.evict now b = (reply, s', b'))
    (hreply : reply ≠ .error .numbersExhausted) :
    reply = .ok () ∧ s' = { s with index := (Retention.expire s.settings now s.index).2 } ∧
      s.Stays s' b' := by
  rcases evict_cases h with ⟨rfl, -⟩ | ⟨rfl, rfl, rfl⟩
  · exact absurd rfl hreply
  · refine ⟨rfl, rfl, rfl, rfl, (Retention.loses_expire _ _ _).sound hx, ?_⟩
    exact Backed.discard (s := { s with index := (Retention.expire s.settings now s.index).2 })
      (hb.congr rfl) _ |>.2

/-- Where nothing is too old, nothing goes. -/
theorem evict_rested {now : Timestamp}
    (h : Retention.expire s.settings now s.index = ([], s.index)) (b : Backend) :
    s.evict now b = (.ok (), s, b) := by
  simp only [evict, reduceAll, reduce_of_eq_nil h, forget_nil]

theorem expire_steady (hs : s.settings.IsSteady) (now : Timestamp) :
    Retention.expire s.settings now s.index = ([], s.index) := by
  rw [Retention.expire, hs.maxAge_eq]

/-- Nothing is ever too old. -/
theorem evict_steady (hs : s.settings.IsSteady) (now : Timestamp) (b : Backend) :
    s.evict now b = (.ok (), s, b) :=
  evict_rested (expire_steady hs now) b

/-- The index with a message, which makes its subject be cut down. -/
def received (s : Stream) (m : StoredMessage) : Index :=
  match s.settings.maxMessagesPerSubject with
  | some most => (Retention.trimSubject most (s.index.commit m) m.subject).2
  | none => s.index.commit m

theorem makeRoom_plain (hs : s.settings.IsPlain) (m : StoredMessage) :
    (s.makeRoom m (s.index.commit m)).2 = s.received m := by
  have hretention : ¬s.settings.retention = .interest := by
    rw [hs.retention_eq]
    exact RetentionPolicy.noConfusion
  simp only [makeRoom, if_neg hretention]
  exact Retention.enforceLimits_new hs.discard_eq m.subject _

theorem received_sound (hx : s.index.Sound) {m : StoredMessage}
    (hm : s.index.lastSeq < m.sequence) : (s.received m).Sound := by
  rw [received]
  split
  · exact (Retention.removes_trimSubject _ _ _).loses.sound (hx.commit hm)
  · exact hx.commit hm

/-- What is in the index with a message was there before, or is the message. -/
theorem mem_of_mem_received (hx : s.index.Filed) {m w : StoredMessage}
    (hm : s.index.lastSeq < m.sequence) (hw : w ∈ (s.received m).toList) :
    w ∈ s.index.toList ∨ w = m := by
  have hsub : (s.received m).toList.Sublist (s.index.commit m).toList := by
    rw [received]
    split
    · exact (Retention.removes_trimSubject _ _ _).loses.toList_sublist (hx.commit m)
    · exact List.Sublist.refl _
  have hmem := hsub.subset hw
  rw [Index.toList_commit hx hm, List.mem_append, List.mem_singleton] at hmem
  exact hmem

/-- A message is refused, because the index is not ready for it or because it has no binary form. -/
def Refuses (s : Stream) (maxPayload : Nat) (now : Timestamp) (e : Expectations) (m : Message)
    (error : Error) : Prop :=
  s.index.prepare s.settings maxPayload now e m = .error error ∨
    ∃ stored fault, s.index.prepare s.settings maxPayload now e m = .ok stored ∧
      Entry.encode stored = .error fault ∧ error = .format fault

/-- A message that the index is ready for is received, unless it has no binary form. -/
theorem storeMessage_plain (hs : s.settings.IsPlain) (hx : s.index.Sound) (hb : s.Backed b)
    {m : StoredMessage} (hsequence : m.sequence = s.index.lastSeq + 1)
    (hlt : s.index.lastSeq + 1 < wordLimit) {reply : Except Error Nat}
    (h : s.storeMessage m b = (reply, s', b')) (hreply : reply ≠ .error .numbersExhausted) :
    s.Stays s' b' ∧
      ((∃ fault, Entry.encode m = .error fault ∧ reply = .error (.format fault) ∧
          s'.index = s.index) ∨
        reply = .ok m.sequence ∧ s'.index = s.received m) := by
  rcases storeMessage_cases h with
    ⟨error, hwrite, rfl, rfl⟩ | ⟨b₁, hwrite, ⟨rfl, -⟩ | ⟨t, ht, rfl, rfl, rfl⟩⟩
  · obtain ⟨hb', hreply' | ⟨fault, hencode, hreply', -⟩⟩ := hb.write (hsequence ▸ hlt) hwrite
    · cases hreply'
    · cases hreply'
      exact ⟨.refl hx hb', .inl ⟨fault, hencode, rfl, rfl⟩⟩
  · exact absurd rfl hreply
  · obtain ⟨hb₁, -⟩ := hb.write (hsequence ▸ hlt) hwrite
    have hindex : t.index = s.received m := by
      rw [ht, index_announce]
      exact makeRoom_plain hs m
    have hsettings : t.settings = s.settings := by rw [ht, settings_announce]
    have hid : t.id = s.id := by
      rw [ht, announce]
      split <;> rfl
    have hsound : t.index.Sound := hindex ▸ received_sound hx (hsequence ▸ Nat.lt_succ_self _)
    refine ⟨⟨hid, hsettings, hsound, ?_⟩, .inr ⟨rfl, hindex⟩⟩
    exact ((hb₁.congr hsettings).discard _).2.congr rfl

/-- **A message is refused or received**, where nothing is too old. -/
theorem publish_rested (hs : s.settings.IsPlain) (hx : s.index.Sound) (hb : s.Backed b)
    {maxPayload : Nat} {clock : Clock} {e : Expectations} {m : Message} {reply : Except Error Nat}
    (hrest : Retention.expire s.settings clock.wall.toMicro s.index = ([], s.index))
    (he : ∀ name ∈ e.stream, name = s.name)
    (h : s.publish maxPayload clock e m b = (reply, s', b'))
    (hreply : reply ≠ .error .numbersExhausted) :
    s.Stays s' b' ∧
      ((∃ error, reply = .error error ∧ s'.index = s.index ∧
          s.Refuses maxPayload clock.wall.toMicro e m error) ∨
        ∃ stored, s.index.prepare s.settings maxPayload clock.wall.toMicro e m = .ok stored ∧
          reply = .ok stored.sequence ∧ s'.index = s.received stored) := by
  have hstore : publish.store s maxPayload clock e m b = (reply, s', b') := by
    rw [publish] at h
    cases hname : e.stream with
    | none =>
      rw [hname] at h
      exact h
    | some name =>
      rw [hname] at h
      dsimp only at h
      rwa [if_pos (he name hname)] at h
  -- Nothing expires, so the message is prepared against the index as it is.
  simp only [publish.store, evict_rested hrest] at hstore
  cases hprepare : s.index.prepare s.settings maxPayload clock.wall.toMicro e m with
  | error error =>
    simp only [hprepare] at hstore
    cases hstore
    exact ⟨.refl hx hb, .inl ⟨error, rfl, rfl, .inl hprepare⟩⟩
  | ok stored =>
    simp only [hprepare] at hstore
    obtain ⟨-, hlt, hstored⟩ := Index.prepare_eq_ok hprepare
    obtain ⟨hstays, ⟨fault, hencode, rfl, hindex⟩ | ⟨rfl, hindex⟩⟩ :=
      storeMessage_plain hs hx hb (hstored ▸ rfl) hlt hstore hreply
    · exact ⟨hstays, .inl ⟨_, rfl, hindex, .inr ⟨stored, fault, hprepare, hencode, rfl⟩⟩⟩
    · exact ⟨hstays, .inr ⟨stored, rfl, rfl, hindex⟩⟩

/-! ## Messages go -/

/-- **A subject is cut down** on request. -/
theorem purge_steady (hx : s.index.Sound) (hb : s.Backed b) {subject : String}
    (hsubject : checkSubject subject = .ok ()) {keep : Option Nat} {reply : Except Error Nat}
    (h : s.purge { filter := some subject, keep } b = (reply, s', b'))
    (hreply : reply ≠ .error .numbersExhausted) :
    s.Stays s' b' ∧ (∃ n, reply = .ok n) ∧
      s'.index = (Retention.trimSubject (keep.getD 0) s.index subject).2 := by
  have hfilter : checkFilter subject = .ok () := by
    rw [checkFilter, checkPattern_of_checkSubject hsubject]
    rfl
  simp only [purge, hfilter, Index.purge_subject hx.coherent.toTallied hsubject] at h
  -- A purge of one subject is a trim of it.
  generalize hleft : Retention.trimSubject (keep.getD 0) s.index subject = left at *
  have hsound : left.2.Sound := hleft ▸ (Retention.removes_trimSubject _ _ _).loses.sound hx
  rcases s.reduce_cases fun _ => left with ⟨t, hr⟩ | hr
  · rw [hr] at h
    cases h
    exact absurd rfl hreply
  · rw [hr] at h
    have ht : Backed { s with index := left.2 } b := hb.congr rfl
    obtain ⟨hok, hb'⟩ := ht.discard left.1
    cases hd : discard { s with index := left.2 } left.1 b with
    | mk r b₁ =>
      rw [hd] at hok hb'
      obtain rfl : r = .ok () := hok
      simp only [hd] at h
      cases h
      exact ⟨⟨rfl, rfl, hsound, hb'.congr rfl⟩, ⟨_, rfl⟩, rfl⟩

end Stream

end StreamBroker
