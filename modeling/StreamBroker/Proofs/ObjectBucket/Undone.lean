import StreamBroker.Proofs.ObjectBucket.Aging
import StreamBroker.Proofs.ObjectBucket.Looks

/-!
# Puts that are refused

A put writes chunks before it writes the description that makes an object of them, and it may be
refused behind any of them: the source fails, a chunk is refused, or the description is.  The chunks
that were written go again.  They have the nuid of the put to themselves, so nothing else goes with
them, not even an older version of the object; and behind the description nothing is refused any
more.  What is left are the messages that there were, but for what is too old, and so whoever looks
is told what he would have been told.

## Main definitions

* `ObjectBucket.besides`: the messages that are not chunks of a nuid

## Main results

* `ObjectBucket.orDropChunks_refused`: what wrote nothing but chunks is undone
* `ObjectBucket.Lodged.put_refused`: a put that is refused leaves the messages that there were
* `ObjectBucket.Aging.put_undone`: a put that is refused leaves the bucket as it was
-/

namespace StreamBroker

namespace ObjectBucket

variable {o : ObjectBucket} {settings : ObjectBucketSettings} {P : StoredMessage → Prop}
  {clock : Clock} {b b' : Broker} {s s' : Stream} {nuid : String} {d : ObjectDescription}
  {x : Index} {m : StoredMessage} {e : Error}

/-! ## Beside the chunks -/

/-- The messages that are not chunks of a nuid. -/
def besides (o : ObjectBucket) (nuid : String) (x : Index) : List StoredMessage :=
  x.toList.filter fun m => decide (m.subject ≠ o.chunkSubject nuid)

/-- All messages are beside the chunks of a nuid that is not used. -/
theorem besides_of_unused (h : ∀ m ∈ x.toList, m.subject ≠ o.chunkSubject nuid) :
    o.besides nuid x = x.toList :=
  List.filter_eq_self.2 fun m hm => decide_eq_true (h m hm)

/-- A chunk that comes is not beside the chunks. -/
theorem besides_commit (hx : x.Filed) (hm : x.lastSeq < m.sequence)
    (hsubject : m.subject = o.chunkSubject nuid) :
    o.besides nuid (x.commit m) = o.besides nuid x := by
  have hgone : [m].filter (fun m => decide (m.subject ≠ o.chunkSubject nuid)) = [] := by
    simp [hsubject]
  rw [besides, Index.toList_commit hx hm, List.filter_append, hgone, List.append_nil, besides]

namespace Rested

/-- Chunks come, all of them or some, and nothing beside them changes. -/
theorem besides_publishChunks (h : o.Rested settings P clock b s)
    (hP : o.AdmitsChunks P clock nuid) (hnuid : checkSubject (o.chunkSubject nuid) = .ok ())
    (chunks : List Bytes) {reply : Except Error Unit}
    (hrun : (o.publishChunks nuid chunks).run b = (reply, b'))
    (hreply : reply ≠ .error .numbersExhausted) :
    ∃ s', o.Rested settings P clock b' s' ∧
      o.besides nuid s'.index = o.besides nuid s.index := by
  induction chunks generalizing b s with
  | nil =>
    cases hrun
    exact ⟨s, h, rfl⟩
  | cons chunk chunks ih =>
    have hpublished {r : Except Error Unit} {b₁ : Broker}
        (hpublish : (o.publish ⟨o.chunkSubject nuid, chunk, []⟩).run b = (r, b₁))
        (hr : r ≠ .error .numbersExhausted) :
        ∃ s₁, o.Rested settings P clock b₁ s₁ ∧
          o.besides nuid s₁.index = o.besides nuid s.index := by
      -- The chunk is one of those that are left out, whether it is stored or not.
      obtain ⟨s₁, hrested, ⟨e, -, hindex⟩ | ⟨-, hindex⟩⟩ :=
        h.publish_cases (m := ⟨o.chunkSubject nuid, chunk, []⟩) hnuid (h.takes_chunkSubject nuid)
          (fun _ _ => .inl ⟨nuid, rfl⟩) (fun _ => hP _ rfl rfl) hpublish hr
      · exact ⟨s₁, hrested, hindex ▸ rfl⟩
      · refine ⟨s₁, hrested, ?_⟩
        rw [hindex, besides_commit h.lodges.sound.coherent.toFiled (Nat.lt_succ_self _) rfl]
    rw [publishChunks] at hrun
    rcases action_bind_cases hrun with ⟨e, hpublish, rfl⟩ | ⟨⟨⟩, b₁, hpublish, hrun⟩
    · exact hpublished hpublish fun he => by
        cases he
        exact hreply rfl
    · obtain ⟨s₁, hrested, hbesides⟩ := hpublished hpublish fun he => by cases he
      obtain ⟨s', hrested', hbesides'⟩ := ih hrested hrun
      exact ⟨s', hrested', hbesides'.trans hbesides⟩

/-- The data of a source is written, all of it or some, and nothing beside it changes. -/
theorem besides_writeData (h : o.Rested settings P clock b s) (hP : o.AdmitsChunks P clock nuid)
    (hnuid : checkSubject (o.chunkSubject nuid) = .ok ()) {source : ObjectSource} {size : Nat}
    {reply : Except Error Unit} (hrun : (o.writeData nuid source size).run b = (reply, b'))
    (hreply : reply ≠ .error .numbersExhausted) :
    ∃ s', o.Rested settings P clock b' s' ∧
      o.besides nuid s'.index = o.besides nuid s.index := by
  rw [writeData] at hrun
  split at hrun
  · cases hrun
    exact absurd rfl hreply
  rcases action_bind_cases hrun with ⟨e, hchunks, rfl⟩ | ⟨⟨⟩, b₁, hchunks, hrun⟩
  · exact h.besides_publishChunks hP hnuid _ hchunks fun he => by
      cases he
      exact hreply rfl
  -- Whether the source fails is seen behind its chunks.
  have hleft : b' = b₁ := by
    split at hrun
    · cases hrun
      rfl
    · cases hrun
      rfl
  subst hleft
  exact h.besides_publishChunks hP hnuid _ hchunks fun he => by cases he

/-- A description is refused and nothing changes, or it is stored. -/
theorem publishDescription_cases (h : o.Rested settings P clock b s) (hname : d.name ≠ "")
    {reply : Except Error Unit} (hrun : (o.publishDescription d).run b = (reply, b'))
    (hreply : reply ≠ .error .numbersExhausted) :
    ∃ s', b.Becomes s b' s' ∧ (reply = .ok () ∨
      o.Rested settings P clock b' s' ∧ s'.index = s.index) := by
  have hstream (name : String) (hn : name ∈ some (ObjectBucketSettings.streamName o.name)) :
      name = s.name := by
    rw [h.stream_name, Option.mem_some_iff.1 hn]
  rw [publishDescription] at hrun
  generalize hm : (⟨o.descriptionSubject d.name, d.encode,
    [(contentTypeHeader, "application/json")]⟩ : Message) = m at hrun
  have hsubject : m.subject = o.descriptionSubject d.name := hm ▸ rfl
  obtain ⟨r, hpublish, rfl⟩ := action_map_cases hrun
  -- The number of the message is dropped from the answer, its refusals are not.
  have hr : r ≠ .error .numbersExhausted := by
    rintro rfl
    exact hreply rfl
  obtain ⟨s', hbecomes, ⟨e, -, hindex, -⟩ | ⟨stored, -, rfl, -⟩⟩ :=
    h.lodges.publish_cases h.expire_eq
      (hsubject ▸ checkSubject_descriptionSubject h.checkBucket_name hname)
      (hsubject ▸ h.takes_descriptionSubject d.name) hstream hpublish hr
  · refine ⟨s', hbecomes, .inr ⟨h.evolve hbecomes (fun m hm => .inl ?_) fun hdated => ?_, hindex⟩⟩
    · rwa [hindex] at hm
    · rwa [hindex]
  · exact ⟨s', hbecomes, .inl rfl⟩

end Rested

/-- What is not refused is not undone. -/
theorem orDropChunks_eq_ok {x : Action Broker Unit}
    (hrun : (o.orDropChunks nuid x).run b = (.ok (), b')) : x.run b = (.ok (), b') := by
  rcases orDropChunks_cases hrun (fun heq => by cases heq) with ⟨hx, -⟩ | ⟨_, _, -, -, -, heq⟩
  · exact hx
  · cases heq

/-- **What wrote nothing but chunks is undone when it is refused.** -/
theorem orDropChunks_refused (hnuid : checkSubject (o.chunkSubject nuid) = .ok ())
    {x : Action Broker Unit} (hx : ∀ {e b₁}, x.run b = (.error e, b₁) → e ≠ .numbersExhausted →
      ∃ s₁, o.Rested settings P clock b₁ s₁ ∧
        o.besides nuid s₁.index = o.besides nuid s.index)
    (hrun : (o.orDropChunks nuid x).run b = (.error e, b')) (he : e ≠ .numbersExhausted) :
    ∃ s', o.Rested settings P clock b' s' ∧ s'.index.toList = o.besides nuid s.index := by
  rcases orDropChunks_cases hrun (mt Except.error.inj he) with
    ⟨-, heq⟩ | ⟨e', b₁, hfailed, he', hdrop, -⟩
  · cases heq
  obtain ⟨s₁, hrested, hbesides⟩ := hx hfailed fun heq => he' (heq ▸ rfl)
  obtain ⟨-, r, hpurge, hr⟩ := dropChunks_eq_ok hdrop fun heq => by cases heq
  obtain ⟨s', hrested', -, hindex⟩ := hrested.purge_cases hnuid hpurge hr
  refine ⟨s', hrested', ?_⟩
  rw [hindex, ← hbesides]
  exact Retention.toList_trimSubject hrested.lodges.sound.coherent.toTallied _

/-! ## Behind the description -/

/-- A request to purge a subject of the bucket is not refused. -/
theorem purgeSubject_eq_ok (h : b.Lodges s) (hid : s.id = o.stream) {subject : String}
    (hsubject : checkSubject subject = .ok ()) {keep : Option Nat} {reply : Except Error Unit}
    (hrun : (o.purgeSubject subject keep).run b = (reply, b'))
    (hreply : reply ≠ .error .numbersExhausted) :
    reply = .ok () ∧ ∃ s', b.Becomes s b' s' := by
  rw [purgeSubject, ← hid] at hrun
  obtain ⟨r, hpurge, rfl⟩ := action_map_cases hrun
  obtain ⟨s', hbecomes, ⟨n, rfl⟩, -⟩ := h.purge_cases hsubject hpurge fun he => by
    cases he
    exact hreply rfl
  exact ⟨rfl, s', hbecomes⟩

/-- **Nothing is refused behind the description of an object that was stored.** -/
theorem cleanUp_eq_ok (h : b.Lodges s) (hid : s.id = o.stream)
    {subject : String} (hsubject : checkSubject subject = .ok ())
    {previous : Option ObjectDescription} {reply : Except Error ObjectDescription}
    (hrun : (match previous with
      | some old => do
        o.dropChunks old.nuid
        o.purgeSubject subject (some 1)
        pure d
      | none => do
        o.purgeSubject subject (some 1)
        pure d : Action Broker ObjectDescription).run b = (reply, b'))
    (hprevious : ∀ old ∈ previous, checkSubject (o.chunkSubject old.nuid) = .ok ())
    (hreply : reply ≠ .error .numbersExhausted) : reply = .ok d := by
  have htidied {b : Broker} {s : Stream} (h : b.Lodges s) (hid : s.id = o.stream)
      (hrun : (do
        o.purgeSubject subject (some 1)
        pure d : Action Broker ObjectDescription).run b = (reply, b')) : reply = .ok d := by
    rcases action_bind_cases hrun with ⟨e, hpurge, rfl⟩ | ⟨⟨⟩, b₁, -, hpure⟩
    · cases (purgeSubject_eq_ok h hid hsubject hpurge fun he => hreply (by cases he; rfl)).1
    · cases hpure
      rfl
  cases previous with
  | none => exact htidied h hid hrun
  | some old =>
    rcases action_bind_cases hrun with ⟨e, hdrop, rfl⟩ | ⟨⟨⟩, b₁, hdrop, hrun⟩
    · cases (dropChunks_eq_ok hdrop fun he => hreply (by cases he; rfl)).1
    · obtain ⟨-, r, hpurge, hr⟩ := dropChunks_eq_ok hdrop fun he => by cases he
      obtain ⟨-, s₁, hbecomes⟩ := purgeSubject_eq_ok h hid (hprevious old rfl) hpurge hr
      exact htidied hbecomes.lodges (hbecomes.id_eq.trans hid) hrun

/-- **An object whose data was stored is refused when its description is**, and its data goes. -/
theorem Rested.describe_refused (h : o.Rested settings P clock b s) (hname : d.name ≠ "")
    (hnuid : checkSubject (o.chunkSubject d.nuid) = .ok ()) {previous : Option ObjectDescription}
    (hrun : (do
      o.orDropChunks d.nuid (o.publishDescription d)
      match previous with
        | some old => do
          o.dropChunks old.nuid
          o.purgeSubject (o.descriptionSubject d.name) (some 1)
          pure d
        | none => do
          o.purgeSubject (o.descriptionSubject d.name) (some 1)
          pure d : Action Broker ObjectDescription).run b = (.error e, b'))
    (hprevious : ∀ old ∈ previous, checkSubject (o.chunkSubject old.nuid) = .ok ())
    (he : e ≠ .numbersExhausted) :
    ∃ s', o.Rested settings P clock b' s' ∧ s'.index.toList = o.besides d.nuid s.index := by
  rcases action_bind_cases hrun with ⟨_, hdescribe, ⟨⟩⟩ | ⟨⟨⟩, b₁, hdescribe, hrun⟩
  · refine orDropChunks_refused hnuid (fun hpublish he => ?_) hdescribe he
    obtain ⟨s₁, -, heq | ⟨hrested, hindex⟩⟩ :=
      h.publishDescription_cases hname hpublish (mt Except.error.inj he)
    · cases heq
    · exact ⟨s₁, hrested, hindex ▸ rfl⟩
  · -- The description was stored, and behind it nothing is refused.
    obtain ⟨s₁, hbecomes, -⟩ := h.publishDescription_cases hname
      (orDropChunks_eq_ok hdescribe) fun heq => by cases heq
    cases cleanUp_eq_ok hbecomes.lodges (hbecomes.id_eq.trans h.id_eq)
      (checkSubject_descriptionSubject h.checkBucket_name hname) hrun hprevious
      (mt Except.error.inj he)

/-! ## Puts -/

/-- **A put that is refused behind its look leaves what is beside its chunks.** -/
theorem Rested.putUnder_refused (h : o.Rested settings P clock b s)
    (hP : o.AdmitsChunks P clock nuid) (hnuid : checkSubject (o.chunkSubject nuid) = .ok ())
    {label : ObjectLabel} (hname : label.name ≠ "") {source : ObjectSource} {size : Nat}
    {now : Timestamp} {previous : Option ObjectDescription}
    (hprevious : ∀ old ∈ previous, checkSubject (o.chunkSubject old.nuid) = .ok ())
    (hrun : (o.putUnder label source nuid size now previous).run b = (.error e, b'))
    (he : e ≠ .numbersExhausted) :
    ∃ s', o.Rested settings P clock b' s' ∧ s'.index.toList = o.besides nuid s.index := by
  rw [putUnder] at hrun
  rcases action_bind_cases hrun with ⟨_, hdata, ⟨⟩⟩ | ⟨⟨⟩, b₁, hdata, hrun⟩
  · exact orDropChunks_refused hnuid (fun hwrite he =>
      h.besides_writeData hP hnuid hwrite (mt Except.error.inj he)) hdata he
  obtain ⟨s₁, hrested, hbesides⟩ :=
    h.besides_writeData hP hnuid (orDropChunks_eq_ok hdata) fun heq => by cases heq
  -- The data was stored, so it is the description that was refused.
  generalize hd : (⟨label.name, label.description, o.name, nuid, source.octets.length,
    (source.chunks size).length, now, objectDigest source.octets, false⟩ : ObjectDescription) = d
    at hrun
  obtain rfl : d.nuid = nuid := hd ▸ rfl
  have hdname : d.name ≠ "" := hd ▸ hname
  rw [← hbesides]
  exact hrested.describe_refused hdname hnuid hrun hprevious he

/-- **A put that is refused leaves the messages that there were**, but for what is too old. -/
theorem Lodged.put_refused (h : o.Lodged settings P b s)
    (hP : o.AdmitsChunks P b.clock (b.nameOf b.namesMade))
    (hfresh : o.IsFresh b (b.nameOf b.namesMade)) {label : ObjectLabel} {source : ObjectSource}
    (hrun : (o.put label source).run b = (.error e, b')) (he : e ≠ .numbersExhausted) :
    ∃ s', o.Lodged settings P b' s' ∧ b'.clock = b.clock ∧
      (s'.index.toList = s.index.toList ∨ s'.index.toList =
        s.index.toList.filter fun m => decide (s.settings.IsYoung b.clock.wall m)) := by
  rcases h.put_begins hrun (mt Except.error.inj he) with
    ⟨rfl, -⟩ | ⟨b₁, s₁, hname, hlooked, hrun⟩
  · exact ⟨s, h, rfl, .inl rfl⟩
  obtain ⟨s', hrested, hindex⟩ := hlooked.rested.freshName.putUnder_refused hP
    (checkSubject_chunkSubject h.checkBucket_name (isKeyToken_nameOf b _)) hname
    (fun old hold => (hlooked.rested.stocked.newest_spec hold).2.2) hrun he
  refine ⟨s', hrested.toLodged, hrested.clock_eq, .inr ?_⟩
  -- The nuid is new, so beside its chunks there is all that the look has left.
  rw [hindex, ← h.toList_expire, ← hlooked.index_eq]
  refine besides_of_unused fun m hm => (hfresh s h.lodges.mem h.id_eq m ?_).1
  rw [hlooked.index_eq] at hm
  exact ((h.mem_expire_iff _).1 hm).1

/-- **A put that is refused leaves the bucket as it was.**  The messages are those that there were,
but for what is too old, the objects are those that were put before, and at any later time looks are
answered as if nothing had been put. -/
theorem Aging.put_undone {M : ObjectMap} {W : ObjectDates} (run : Aging settings o b M W)
    (hfresh : o.IsFresh b (b.nameOf b.namesMade)) {label : ObjectLabel} {source : ObjectSource}
    (hrun : (o.put label source).run b = (.error e, b')) (he : e ≠ .numbersExhausted) :
    b'.clock = b.clock ∧
      (∃ s s', b.liveStream o.stream = .ok s ∧ b'.liveStream o.stream = .ok s' ∧
        (s'.index.toList = s.index.toList ∨ s'.index.toList =
          s.index.toList.filter fun m => decide (s.settings.IsYoung b.clock.wall m))) ∧
      Aging settings o b' M W ∧
      ∀ {c c'}, Broker.LeavesToAge o.stream b c → Broker.LeavesToAge o.stream b' c' →
        c'.clock = c.clock → o.ShowAlike c c' := by
  obtain ⟨s, hlodged, -⟩ := run.hasLeft
  have hbare : o.Lodged settings (fun _ => True) b s := hlodged.mono fun _ _ _ => trivial
  obtain ⟨s', hbare', hclock, hindex⟩ :=
    hbare.put_refused (fun _ _ _ => trivial) hfresh hrun he
  refine ⟨hclock, ⟨s, s', ?_, ?_, hindex⟩,
    run.meanwhile (hbare.leavesToAge hbare' hclock hindex), fun hage hage' hsame => ?_⟩
  · rw [← hbare.id_eq, hbare.lodges.liveStream_eq]
  · rw [← hbare'.id_eq, hbare'.lodges.liveStream_eq]
  have hresembles : o.Resembles settings b b' := by
    refine ⟨s, s', hbare, hbare', hclock, ?_⟩
    rcases hindex with heq | heq
    · rw [heq]
    · rw [heq, StreamSettings.filter_isYoung_filter _ (Int.le_refl _)]
  exact (hresembles.meanwhile hage hage' hsame).showAlike

/-! ## A put that breaks off -/

/-- A broker with a bucket, whose objects are cut into single octets. -/
def cuttingBroker : Broker :=
  ((createBucket briefSettings).run
    (.start { objectChunkSize := 1 } 0 Stream.epochClock Stream.blankBackend)).2

/-- A source that fails behind two octets. -/
def brokenSource : ObjectSource := ⟨[121, 122], some "lost"⟩

/-- An object is put, and then another version of it, of which two chunks are written. -/
theorem replies_broken : ∃ t u,
    (storing.run briefBucket).run cuttingBroker = (.ok (some storedDescription), t) ∧
    briefBucket.IsFresh t (t.nameOf t.namesMade) ∧
    (briefBucket.put ⟨"a", none⟩ brokenSource).run t = (.error (.io "lost"), u) ∧
    (t.liveStream 0).map (·.index.lastSeq) = .ok 2 ∧
    (u.liveStream 0).map (·.index.lastSeq) = .ok 4 := by
  simp only [storing, ObjectOp.run, put, digest_stored]
  suffices h : _ ∧ _ ∧ _ ∧ _ ∧ _ from ⟨_, _, Prod.ext h.1 rfl, h.2.1, Prod.ext h.2.2.1 rfl,
    h.2.2.2.1, h.2.2.2.2⟩
  decide +kernel

/-- The object is found as before, though numbers were given away. -/
theorem put_undone_broken : ∃ t u M W,
    Aging briefSettings briefBucket t M W ∧ (M "a").map StoredObject.octets = some [120] ∧
      (briefBucket.put ⟨"a", none⟩ brokenSource).run t = (.error (.io "lost"), u) ∧
      (t.liveStream 0).map (·.index.lastSeq) = .ok 2 ∧
      (u.liveStream 0).map (·.index.lastSeq) = .ok 4 ∧
      Aging briefSettings briefBucket u M W ∧ briefBucket.ShowAlike t u := by
  obtain ⟨t, u, hput, hfresh, hbroken, hbefore, hafter⟩ := replies_broken
  have hcreated : Aging briefSettings briefBucket cuttingBroker .empty (fun _ => ⟨0, 0⟩) :=
    .created (b := .start { objectChunkSize := 1 } 0 Stream.epochClock Stream.blankBackend)
      (.of_empty rfl) rfl (fun h => by cases h) (Prod.ext (by decide +kernel) rfl)
  have hstored := hcreated.operated storing
    ⟨by decide +kernel, by rintro _ _ ⟨⟩; decide +kernel, by rintro _ _ ⟨⟩; decide +kernel⟩ hput
    (by decide)
  obtain ⟨hclock, -, haging, hshow⟩ := hstored.put_undone hfresh hbroken (by decide)
  have hstill (b : Broker) : Broker.LeavesToAge briefBucket.stream b b :=
    Broker.leavesToAge_clock _ (Int.le_refl b.clock.wall.sinceEpoch)
  exact ⟨t, u, _, _, hstored, rfl, hbroken, hbefore, hafter, haging,
    hshow (hstill t) (hstill u) hclock⟩

end ObjectBucket

end StreamBroker
