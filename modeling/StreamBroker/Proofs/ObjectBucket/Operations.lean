import StreamBroker.Proofs.ObjectBucket.Lodged
import StreamBroker.Proofs.Stream.Life

/-!
# What operations do to what a bucket shows

An operation on a bucket looks, and then publishes and purges in several steps, each of which may be
refused.  What was written before a refusal is undone, so that an operation does all of what it is
to do or nothing.

## Main definitions

* `ObjectOp.run`: an operation on a bucket
* `ObjectOp.Fits`: an operation whose data and nuid are as they should be

## Main results

* `ObjectBucket.Lodged.run_cases`: an operation does to what is shown what it is to do
-/

namespace StreamBroker

/-! ## Operations -/

/-- An operation on a bucket, which tells the description that it made. -/
def ObjectOp.run (o : ObjectBucket) : ObjectOp → Action Broker (Option ObjectDescription)
  | put label source => do
    let d ← o.put label source
    pure (some d)
  | updateLabel object label => do
    let d ← o.updateLabel object label
    pure (some d)
  | delete object => do
    o.delete object
    pure none

namespace ObjectBucket

/-- A nuid is not used in the stream of a bucket: no chunk is found by it, and no description tells
it. -/
def IsFresh (o : ObjectBucket) (b : Broker) (nuid : String) : Prop :=
  ∀ s ∈ b.streams, s.id = o.stream → ∀ m ∈ s.index.toList,
    m.subject ≠ o.chunkSubject nuid ∧
      ∀ d ∈ descriptionOf? m, m.subject = o.descriptionSubject d.name → d.nuid ≠ nuid

instance (o : ObjectBucket) (b : Broker) (nuid : String) : Decidable (o.IsFresh b nuid) :=
  inferInstanceAs (Decidable (∀ s ∈ b.streams, s.id = o.stream → ∀ m ∈ s.index.toList,
    m.subject ≠ o.chunkSubject nuid ∧
      ∀ d ∈ descriptionOf? m, m.subject = o.descriptionSubject d.name → d.nuid ≠ nuid))

end ObjectBucket

/-- An operation that the clock has a date for.  Data that is put has a length of at most
sixty-three bits, and the name that is made up for its chunks is not used yet. -/
structure ObjectOp.Fits (op : ObjectOp) (o : ObjectBucket) (b : Broker) : Prop where
  /-- The calendar has the date. -/
  dated : b.clock.IsDated
  /-- The data is not too large to be put together. -/
  length_lt : ∀ label source, op = .put label source →
    source.octets.length < ObjectBucket.maxObjectSize
  /-- The next name is not used in the bucket. -/
  fresh : ∀ label source, op = .put label source → o.IsFresh b (b.nameOf b.namesMade)

/-- A description that is made when the clock has a date is read back. -/
theorem ObjectDescription.isKept_of_date {d : ObjectDescription} {c : Clock} (hc : c.IsDated)
    (hmodified : d.modified = c.wall) (hsize : d.size < wordLimit)
    (hchunks : d.chunks < wordLimit) : d.IsKept where
  size_lt := hsize
  chunks_lt := hchunks
  inCalendar := hmodified ▸ hc
  nanos_lt := by
    rw [hmodified, Clock.wall, Timestamp.ofNanos]
    dsimp only
    omega

/-- So is one of what can be put. -/
theorem ObjectDescription.isKept_of_clock {d : ObjectDescription} {c : Clock} (hc : c.IsDated)
    (hmodified : d.modified = c.wall) (hsize : d.size < ObjectBucket.maxObjectSize)
    (hchunks : d.chunks ≤ d.size) : d.IsKept :=
  have hlt : d.size < wordLimit := Nat.lt_of_lt_of_le hsize (Nat.div_le_self _ _)
  isKept_of_date hc hmodified hlt (Nat.lt_of_le_of_lt hchunks hlt)

namespace ObjectBucket

variable {o : ObjectBucket} {settings : ObjectBucketSettings} {P : StoredMessage → Prop}
  {clock : Clock} {b b' : Broker} {s s' : Stream} {object nuid : String} {d : ObjectDescription}
  {v : ObjectView}

theorem ne_of_checkObjectName (h : checkObjectName object = .ok ()) : object ≠ "" := by
  rintro rfl
  cases h

/-- A name that is not used in an index is not used in what it shows. -/
theorem Stocked.unused {x : Index} (h : o.Stocked x) (hfresh : ∀ m ∈ x.toList,
    m.subject ≠ o.chunkSubject nuid ∧
      ∀ d ∈ descriptionOf? m, m.subject = o.descriptionSubject d.name → d.nuid ≠ nuid) :
    (o.viewOf x).Unused nuid := by
  refine ⟨?_, fun object d hd => ?_⟩
  · refine List.map_eq_nil_iff.2 (List.eq_nil_iff_forall_not_mem.2 fun m hm => ?_)
    obtain ⟨hmem, hsubject⟩ := List.mem_filter.1 hm
    exact (hfresh m hmem).1 (of_decide_eq_true hsubject)
  · obtain ⟨m, hlast, hm, -⟩ := h.newest_eq_some hd
    have hmem := (List.mem_filter.1 (List.mem_of_getLast? hlast)).1
    exact (hfresh m hmem).2 d hm.descriptionOf_eq hm.subject_eq

/-- What is described newest was read, so its numbers have sixty-four bits. -/
theorem lt_of_newest {x : Index} (hd : d ∈ (o.viewOf x).newest object) :
    d.size < wordLimit ∧ d.chunks < wordLimit := by
  obtain ⟨m, -, hm⟩ := Option.bind_eq_some_iff.1 hd
  exact ObjectDescription.lt_of_ofStored? hm

/-! ## Steps that are undone -/

/-- That chunks cannot be dropped is told only when the numbers are used up. -/
theorem dropChunks_eq_ok {reply : Except Error Unit}
    (hrun : (o.dropChunks nuid).run b = (reply, b')) (hreply : reply ≠ .error .numbersExhausted) :
    reply = .ok () ∧ ∃ r, (o.purgeSubject (o.chunkSubject nuid) none).run b = (r, b') ∧
      r ≠ .error .numbersExhausted := by
  rw [dropChunks] at hrun
  obtain ⟨r, t, hpurge, hr, hpure⟩ := exists_run_of_attempt_bind hrun hreply
  cases hpure
  exact ⟨rfl, r, hpurge, hr⟩

/-- When an action is refused, the chunks of a nuid are dropped. -/
theorem orDropChunks_cases {x : Action Broker Unit} {reply : Except Error Unit}
    (hrun : (o.orDropChunks nuid x).run b = (reply, b'))
    (hreply : reply ≠ .error .numbersExhausted) :
    (x.run b = (.ok (), b') ∧ reply = .ok ()) ∨
      ∃ e b₁, x.run b = (.error e, b₁) ∧ Except.error (α := Unit) e ≠ .error .numbersExhausted ∧
        (o.dropChunks nuid).run b₁ = (.ok (), b') ∧ reply = .error e := by
  rw [orDropChunks] at hrun
  obtain ⟨r, b₁, hx, hr, hrun⟩ := exists_run_of_attempt_bind hrun hreply
  cases r with
  | ok u =>
    cases hrun
    exact .inl ⟨hx, rfl⟩
  | error e =>
    rcases action_bind_cases hrun with ⟨e', hdrop, rfl⟩ | ⟨⟨⟩, b₂, hdrop, hrefuse⟩
    · cases (dropChunks_eq_ok hdrop hreply).1
    · cases hrefuse
      exact .inr ⟨e, b₁, hx, hr, hdrop, rfl⟩

namespace Rested

/-- The chunks of a nuid are dropped. -/
theorem dropChunks_cases (h : o.Rested settings P clock b s)
    (hnuid : checkSubject (o.chunkSubject nuid) = .ok ()) {reply : Except Error Unit}
    (hrun : (o.dropChunks nuid).run b = (reply, b')) (hreply : reply ≠ .error .numbersExhausted) :
    ∃ s', o.Rested settings P clock b' s' ∧ reply = .ok () ∧
      o.viewOf s'.index = (o.viewOf s.index).drop nuid := by
  obtain ⟨rfl, r, hpurge, hr⟩ := dropChunks_eq_ok hrun hreply
  obtain ⟨s', hrested, -, hview⟩ := h.drop_cases hnuid hpurge hr
  exact ⟨s', hrested, rfl, hview⟩

/-! ## Data -/

/-- The data of a source is written, all of it or some chunks. -/
theorem writeData_cases (h : o.Rested settings P clock b s) (hP : o.AdmitsChunks P clock nuid)
    (hnuid : checkSubject (o.chunkSubject nuid) = .ok ()) {source : ObjectSource} {size : Nat}
    {reply : Except Error Unit} (hrun : (o.writeData nuid source size).run b = (reply, b'))
    (hreply : reply ≠ .error .numbersExhausted) :
    ∃ s', o.Rested settings P clock b' s' ∧
      ∃ written, o.viewOf s'.index = (o.viewOf s.index).write nuid written ∧
        (reply = .ok () → written = chunksOf size source.octets ∧
          source.chunks size = chunksOf size source.octets) := by
  rw [writeData] at hrun
  split at hrun
  · cases hrun
    exact absurd rfl hreply
  · rcases action_bind_cases hrun with ⟨e, hchunks, rfl⟩ | ⟨⟨⟩, b₁, hchunks, hrun⟩
    · obtain ⟨s', hrested, written, hview, -⟩ := h.write_cases hP hnuid _ hchunks hreply
      exact ⟨s', hrested, written, hview, fun he => by cases he⟩
    · obtain ⟨s', hrested, written, hview, hall⟩ :=
        h.write_cases hP hnuid _ hchunks fun he => by cases he
      split at hrun
      · cases hrun
        exact ⟨s', hrested, written, hview, fun he => by cases he⟩
      · next hfailure =>
        cases hrun
        have hsource : source.chunks size = chunksOf size source.octets := by
          rw [ObjectSource.chunks, hfailure]
        exact ⟨s', hrested, written, hview, fun _ => ⟨(hall rfl).trans hsource, hsource⟩⟩

/-- The data of an object is stored under a nuid that is not used yet, or nothing is. -/
theorem storeData_cases (h : o.Rested settings P clock b s) (hP : o.AdmitsChunks P clock nuid)
    (hnuid : checkSubject (o.chunkSubject nuid) = .ok ())
    (hunused : (o.viewOf s.index).chunks nuid = []) {source : ObjectSource} {size : Nat}
    {reply : Except Error Unit}
    (hrun : (o.orDropChunks nuid (o.writeData nuid source size)).run b = (reply, b'))
    (hreply : reply ≠ .error .numbersExhausted) :
    ∃ s', o.Rested settings P clock b' s' ∧
      ((∃ e, reply = .error e ∧ o.viewOf s'.index = o.viewOf s.index) ∨
        reply = .ok () ∧ source.chunks size = chunksOf size source.octets ∧
          o.viewOf s'.index = (o.viewOf s.index).write nuid (chunksOf size source.octets)) := by
  rcases orDropChunks_cases hrun hreply with ⟨hwrite, rfl⟩ | ⟨e, b₁, hwrite, he, hdrop, rfl⟩
  · obtain ⟨s', hrested, written, hview, hall⟩ := h.writeData_cases hP hnuid hwrite hreply
    obtain ⟨rfl, hsource⟩ := hall rfl
    exact ⟨s', hrested, .inr ⟨rfl, hsource, hview⟩⟩
  · obtain ⟨s₁, hrested, written, hview, -⟩ := h.writeData_cases hP hnuid hwrite he
    obtain ⟨s', hrested', -, hview'⟩ := hrested.dropChunks_cases hnuid hdrop fun he => by cases he
    refine ⟨s', hrested', .inl ⟨e, rfl, ?_⟩⟩
    rw [hview', hview, ObjectView.drop_write hunused]

/-! ## Descriptions -/

/-- The description of an object whose data was stored comes, or the data is dropped. -/
theorem storeDescription_cases (h : o.Rested settings P clock b s)
    (hP : o.AdmitsDescriptions P clock) (hkept : d.IsKept) (hname : d.name ≠ "")
    (hmodified : d.modified = clock.wall) (hnuid : checkSubject (o.chunkSubject d.nuid) = .ok ())
    {reply : Except Error Unit}
    (hrun : (o.orDropChunks d.nuid (o.publishDescription d)).run b = (reply, b'))
    (hreply : reply ≠ .error .numbersExhausted) :
    ∃ s', o.Rested settings P clock b' s' ∧
      ((∃ e, reply = .error e ∧ o.viewOf s'.index = (o.viewOf s.index).drop d.nuid) ∨
        reply = .ok () ∧ o.viewOf s'.index = (o.viewOf s.index).describe d) := by
  rcases orDropChunks_cases hrun hreply with ⟨hpublish, rfl⟩ | ⟨e, b₁, hpublish, he, hdrop, rfl⟩
  · obtain ⟨s', hrested, ⟨e, he, -⟩ | ⟨-, hview⟩⟩ :=
      h.describe_cases hP hkept hname hmodified hnuid hpublish hreply
    · cases he
    · exact ⟨s', hrested, .inr ⟨rfl, hview⟩⟩
  · obtain ⟨s₁, hrested, ⟨e', -, hview⟩ | ⟨he', -⟩⟩ :=
      h.describe_cases hP hkept hname hmodified hnuid hpublish he
    · -- It was refused, so nothing is described, and the chunks are dropped.
      obtain ⟨s', hrested', -, hview'⟩ :=
        hrested.dropChunks_cases hnuid hdrop fun he => by cases he
      exact ⟨s', hrested', .inl ⟨e, rfl, hview'.trans (hview ▸ rfl)⟩⟩
    · cases he'

/-- Descriptions of a name go, all or all but the newest, and the operation ends. -/
theorem tidy_cases (h : o.Rested settings P clock b s) (hobject : object ≠ "") (all : Bool)
    {reply : Except Error ObjectDescription}
    (hrun : (do
      o.purgeSubject (o.descriptionSubject object) (if all then none else some 1)
      pure d : Action Broker ObjectDescription).run b = (reply, b'))
    (hreply : reply ≠ .error .numbersExhausted) :
    ∃ s', o.Rested settings P clock b' s' ∧ reply = .ok d ∧
      o.viewOf s'.index =
        if all then (o.viewOf s.index).forget object else o.viewOf s.index := by
  rcases action_bind_cases hrun with ⟨e, hpurge, rfl⟩ | ⟨⟨⟩, b₁, hpurge, hpure⟩
  · obtain ⟨s', -, he, -⟩ := h.forget_cases hobject all hpurge fun he => by
      cases he
      exact hreply rfl
    cases he
  · cases hpure
    obtain ⟨s', hrested, -, hview⟩ := h.forget_cases hobject all hpurge fun he => by cases he
    exact ⟨s', hrested, rfl, hview⟩

/-- An older version of an object goes. -/
theorem dropPrevious_cases (h : o.Rested settings P clock b s) (hname : d.name ≠ "")
    {previous : Option ObjectDescription} {reply : Except Error ObjectDescription}
    (hrun : (match previous with
      | some old => do
        o.dropChunks old.nuid
        o.purgeSubject (o.descriptionSubject d.name) (some 1)
        pure d
      | none => do
        o.purgeSubject (o.descriptionSubject d.name) (some 1)
        pure d : Action Broker ObjectDescription).run b = (reply, b'))
    (hnuid : ∀ old ∈ previous, checkSubject (o.chunkSubject old.nuid) = .ok ())
    (hreply : reply ≠ .error .numbersExhausted) :
    ∃ s', o.Rested settings P clock b' s' ∧ reply = .ok d ∧
      o.viewOf s'.index = (o.viewOf s.index).dropOld previous := by
  cases previous with
  | none => exact h.tidy_cases hname false hrun hreply
  | some old =>
    rcases action_bind_cases hrun with ⟨e, hdrop, rfl⟩ | ⟨⟨⟩, b₁, hdrop, hrun⟩
    · obtain ⟨he, -⟩ := dropChunks_eq_ok hdrop fun he => by
        cases he
        exact hreply rfl
      cases he
    · obtain ⟨s₁, hrested, -, hview⟩ :=
        h.dropChunks_cases (hnuid old rfl) hdrop fun he => by cases he
      obtain ⟨s', hrested', hok, hview'⟩ := hrested.tidy_cases hname false hrun hreply
      exact ⟨s', hrested', hok, hview'.trans hview⟩

/-- An object whose data was stored is described and takes the place of an older version, or its
data goes again. -/
theorem describeStored_cases (h : o.Rested settings P clock b s) (hP : o.AdmitsDescriptions P clock)
    {chunks : List Bytes} (hview : o.viewOf s.index = v.write d.nuid chunks)
    (hunused : v.Unused d.nuid) (hkept : d.IsKept) (hname : d.name ≠ "")
    (hmodified : d.modified = clock.wall) (hnuid : checkSubject (o.chunkSubject d.nuid) = .ok ())
    (holder : ∀ old ∈ v.newest d.name, checkSubject (o.chunkSubject old.nuid) = .ok ())
    {reply : Except Error ObjectDescription}
    (hrun : (do
      o.orDropChunks d.nuid (o.publishDescription d)
      match v.newest d.name with
        | some old => do
          o.dropChunks old.nuid
          o.purgeSubject (o.descriptionSubject d.name) (some 1)
          pure d
        | none => do
          o.purgeSubject (o.descriptionSubject d.name) (some 1)
          pure d : Action Broker ObjectDescription).run b = (reply, b'))
    (hreply : reply ≠ .error .numbersExhausted) :
    ∃ s', o.Rested settings P clock b' s' ∧
      ((∃ e, reply = .error e ∧ o.viewOf s'.index = v) ∨
        reply = .ok d ∧ o.viewOf s'.index =
          ((v.write d.nuid chunks).describe d).dropOld (v.newest d.name)) := by
  rcases action_bind_cases hrun with ⟨e, hdescribe, rfl⟩ | ⟨⟨⟩, b₁, hdescribe, hrun⟩
  · obtain ⟨s', hrested, ⟨e', -, hview'⟩ | ⟨he, -⟩⟩ :=
      h.storeDescription_cases hP hkept hname hmodified hnuid hdescribe fun he => by
        cases he
        exact hreply rfl
    · -- Without a description the chunks are dropped again.
      refine ⟨s', hrested, .inl ⟨e, rfl, ?_⟩⟩
      rw [hview', hview, ObjectView.drop_write hunused.chunks_eq]
    · cases he
  · obtain ⟨s₁, hrested, ⟨e, he, -⟩ | ⟨-, hview₁⟩⟩ :=
      h.storeDescription_cases hP hkept hname hmodified hnuid hdescribe fun he => by cases he
    · cases he
    obtain ⟨s', hrested', hok, hview'⟩ := hrested.dropPrevious_cases hname hrun holder hreply
    refine ⟨s', hrested', .inr ⟨hok, ?_⟩⟩
    rw [hview', hview₁, hview]

/-- An object is described anew, and what was described by another name goes, or nothing changes. -/
theorem describeAnew_cases (h : o.Rested settings P clock b s) (hP : o.AdmitsDescriptions P clock)
    (hobject : object ≠ "") (hkept : d.IsKept) (hname : d.name ≠ "")
    (hmodified : d.modified = clock.wall) (hnuid : checkSubject (o.chunkSubject d.nuid) = .ok ())
    {reply : Except Error ObjectDescription}
    (hrun : (do
      o.publishDescription d
      o.purgeSubject (o.descriptionSubject object) (if d.name != object then none else some 1)
      pure d : Action Broker ObjectDescription).run b = (reply, b'))
    (hreply : reply ≠ .error .numbersExhausted) :
    ∃ s', o.Rested settings P clock b' s' ∧
      ((∃ e, reply = .error e ∧ o.viewOf s'.index = o.viewOf s.index) ∨
        reply = .ok d ∧ o.viewOf s'.index = if d.name = object then (o.viewOf s.index).describe d
          else ((o.viewOf s.index).describe d).forget object) := by
  rcases action_bind_cases hrun with ⟨e, hdescribe, rfl⟩ | ⟨⟨⟩, b₁, hdescribe, hrun⟩
  · obtain ⟨s', hrested, ⟨e', -, hview⟩ | ⟨he, -⟩⟩ :=
      h.describe_cases hP hkept hname hmodified hnuid hdescribe fun he => by
        cases he
        exact hreply rfl
    · exact ⟨s', hrested, .inl ⟨e, rfl, hview⟩⟩
    · cases he
  obtain ⟨s₁, hrested, ⟨e, he, -⟩ | ⟨-, hview⟩⟩ :=
    h.describe_cases hP hkept hname hmodified hnuid hdescribe fun he => by cases he
  · cases he
  obtain ⟨s', hrested', hok, hview'⟩ := hrested.tidy_cases hobject _ hrun hreply
  refine ⟨s', hrested', .inr ⟨hok, ?_⟩⟩
  rw [hview', hview]
  by_cases hsame : d.name = object
  · rw [if_pos hsame, if_neg (by simpa using hsame)]
  · rw [if_neg hsame, if_pos (by simpa using hsame)]

/-- An object is described as deleted and its chunks go, or nothing changes. -/
theorem describeDeleted_cases (h : o.Rested settings P clock b s)
    (hP : o.AdmitsDescriptions P clock) (hkept : d.IsKept) (hname : d.name ≠ "")
    (hmodified : d.modified = clock.wall) (hnuid : checkSubject (o.chunkSubject d.nuid) = .ok ())
    {reply : Except Error Unit}
    (hrun : (do
      o.publishDescription d
      o.purgeSubject (o.descriptionSubject d.name) (some 1)
      o.purgeSubject (o.chunkSubject d.nuid) none : Action Broker Unit).run b = (reply, b'))
    (hreply : reply ≠ .error .numbersExhausted) :
    ∃ s', o.Rested settings P clock b' s' ∧
      ((∃ e, reply = .error e ∧ o.viewOf s'.index = o.viewOf s.index) ∨
        reply = .ok () ∧ o.viewOf s'.index = ((o.viewOf s.index).describe d).drop d.nuid) := by
  rcases action_bind_cases hrun with ⟨e, hdescribe, rfl⟩ | ⟨⟨⟩, b₁, hdescribe, hrun⟩
  · obtain ⟨s', hrested, ⟨e', -, hview⟩ | ⟨he, -⟩⟩ :=
      h.describe_cases hP hkept hname hmodified hnuid hdescribe hreply
    · exact ⟨s', hrested, .inl ⟨e, rfl, hview⟩⟩
    · cases he
  obtain ⟨s₁, hrested₁, ⟨e, he, -⟩ | ⟨-, hview₁⟩⟩ :=
    h.describe_cases hP hkept hname hmodified hnuid hdescribe fun he => by cases he
  · cases he
  rcases action_bind_cases hrun with ⟨e, hpurge, rfl⟩ | ⟨⟨⟩, b₂, hpurge, hrun⟩
  · obtain ⟨s', -, he, -⟩ := hrested₁.forget_cases hname false hpurge hreply
    cases he
  · -- Older descriptions of the name go, which does not show; then the chunks go.
    obtain ⟨s₂, hrested₂, -, hview₂⟩ :=
      hrested₁.forget_cases hname false hpurge fun he => by cases he
    obtain ⟨s', hrested', rfl, hview'⟩ := hrested₂.drop_cases hnuid hrun hreply
    refine ⟨s', hrested', .inr ⟨rfl, ?_⟩⟩
    rw [hview', hview₂, hview₁]
    rfl

/-- Names that are made up leave a bucket as it was. -/
theorem freshName (h : o.Rested settings P clock b s) :
    o.Rested settings P clock b.freshName.2 s where
  lodges := ⟨h.lodges.orderly.sublist (List.Sublist.refl _) (Nat.le_refl _), h.lodges.mem,
    h.lodges.plain, h.lodges.sound, h.lodges.backed⟩
  id_eq := h.id_eq
  name_eq := h.name_eq
  settings_eq := h.settings_eq
  own := h.own
  noted := h.noted
  dated := h.dated
  clock_eq := h.clock_eq
  young := h.young

end Rested

/-! ## Operations end -/

/-- What a put does behind its look: the data is stored under a nuid and described, and what had the
name before is cleaned up. -/
def putUnder (o : ObjectBucket) (label : ObjectLabel) (source : ObjectSource) (nuid : String)
    (chunkSize : Nat) (now : Timestamp) (previous : Option ObjectDescription) :
    Action Broker ObjectDescription := do
  o.orDropChunks nuid (o.writeData nuid source chunkSize)
  let d : ObjectDescription :=
    { name := label.name
      description := label.description
      bucket := o.name
      nuid
      size := source.octets.length
      chunks := (source.chunks chunkSize).length
      modified := now
      digest := objectDigest source.octets
      deleted := false }
  o.orDropChunks nuid (o.publishDescription d)
  match previous with
  | some old => o.dropChunks old.nuid
  | none => pure ()
  o.purgeSubject (o.descriptionSubject d.name) (some 1)
  pure d

/-- A put looks, and goes on under a nuid that is made up. -/
theorem put_eq (o : ObjectBucket) (label : ObjectLabel) (source : ObjectSource) :
    o.put label source = (do
      checkObjectName label.name
      let previous ← o.newestDescription label.name
      let nuid ← Action.answer Broker.freshName
      let b ← Action.read
      o.putUnder label source nuid b.settings.chunkSize b.clock.wall previous) := rfl

/-- An operation has ended.  Beside what it did to what is shown, what was too old may have gone
before. -/
def Ended (o : ObjectBucket) (settings : ObjectBucketSettings) (P : StoredMessage → Prop)
    (b : Broker) (s : Stream) (op : ObjectOp) (reply : Except Error (Option ObjectDescription))
    (b' : Broker) : Prop :=
  ∃ s' x, o.Lodged settings P b' s' ∧ b'.clock = b.clock ∧
    (x = s.index ∨ x = (Retention.expire s.settings b.clock.wall s.index).2) ∧
    (o.viewOf x).Changes b.settings.chunkSize (b.nameOf b.namesMade) b.clock.wall op reply
      (o.viewOf s'.index)

/-- An operation that is refused before it looks has ended. -/
theorem Lodged.ended (h : o.Lodged settings P b s) (op : ObjectOp) (e : Error) :
    o.Ended settings P b s op (.error e) b :=
  ⟨s, s.index, h, rfl, .inl rfl, .refused op e⟩

/-- An operation whose steps behind the looks have been taken has ended. -/
theorem Looked.ended {b₁ : Broker} {s₁ : Stream} (h : o.Looked settings P b s b₁ s₁)
    (h' : o.Rested settings P b.clock b' s') {op : ObjectOp}
    {reply : Except Error (Option ObjectDescription)}
    (hchanges : (o.viewOf s₁.index).Changes b.settings.chunkSize (b.nameOf b.namesMade) b.clock.wall
      op reply (o.viewOf s'.index)) : o.Ended settings P b s op reply b' :=
  ⟨s', s₁.index, h'.toLodged, h'.clock_eq, .inr h.index_eq, hchanges⟩

/-- An operation that is refused behind a look has ended. -/
theorem Looked.ended_of_refused (h : o.Looked settings P b s b' s') (op : ObjectOp) (e : Error) :
    o.Ended settings P b s op (.error e) b' :=
  h.ended h.rested (.refused op e)

namespace Lodged

/-- A put is refused before it looks, or it goes on behind its look with a nuid that is made up. -/
theorem put_begins (h : o.Lodged settings P b s) {label : ObjectLabel} {source : ObjectSource}
    {reply : Except Error ObjectDescription} (hrun : (o.put label source).run b = (reply, b'))
    (hreply : reply ≠ .error .numbersExhausted) :
    (b' = b ∧ ∃ e, reply = .error e) ∨ ∃ b₁ s₁, label.name ≠ "" ∧ o.Looked settings P b s b₁ s₁ ∧
      (o.putUnder label source (b.nameOf b.namesMade) b.settings.chunkSize b.clock.wall
        ((o.viewOf s₁.index).newest label.name)).run b₁.freshName.2 = (reply, b') := by
  rw [put_eq] at hrun
  rcases action_check_cases hrun with ⟨e, -, rfl, rfl⟩ | ⟨⟨⟩, hcheck, hrun⟩
  · exact .inl ⟨rfl, e, rfl⟩
  have hname := ne_of_checkObjectName hcheck
  rcases action_bind_cases hrun with ⟨e, hnewest, rfl⟩ | ⟨r, b₁, hnewest, hrun⟩
  · obtain ⟨s₁, -, he⟩ := h.newestDescription_cases hname hnewest fun he => by
      cases he
      exact hreply rfl
    cases he
  obtain ⟨s₁, hlooked, hr⟩ := h.newestDescription_cases hname hnewest fun he => by cases he
  obtain rfl := Except.ok.inj hr
  have hfresh : (Action.answer Broker.freshName).run b₁ =
      (.ok (b₁.nameOf b₁.namesMade), b₁.freshName.2) := rfl
  -- The look has made up no names, so the nuid is the next one of before.
  have hnameOf : b₁.nameOf b₁.namesMade = b.nameOf b.namesMade := by
    rw [Broker.nameOf, Broker.nameOf, hlooked.becomes.seed_eq, hlooked.becomes.namesMade_eq]
  have hsettings : b₁.freshName.2.settings = b.settings := hlooked.becomes.limits_eq
  have hclock : b₁.freshName.2.clock = b.clock := hlooked.becomes.clock_eq
  rw [Action.bind_ok hfresh, Action.bind_ok (Action.run_read _), hnameOf, hsettings, hclock] at hrun
  exact .inr ⟨b₁, s₁, hname, hlooked, hrun⟩

/-- **An object is put, or nothing changes.** -/
theorem put_cases (h : o.Lodged settings P b s) {label : ObjectLabel} {source : ObjectSource}
    (hop : (ObjectOp.put label source).Fits o b)
    (hchunks : o.AdmitsChunks P b.clock (b.nameOf b.namesMade))
    (hdescriptions : o.AdmitsDescriptions P b.clock) {reply : Except Error ObjectDescription}
    (hrun : (o.put label source).run b = (reply, b')) (hreply : reply ≠ .error .numbersExhausted) :
    o.Ended settings P b s (.put label source) (reply.map some) b' := by
  rcases h.put_begins hrun hreply with ⟨rfl, e, rfl⟩ | ⟨b₁, s₁, hname, hlooked, hrun⟩
  · exact h.ended _ e
  have hrested₁ := hlooked.rested.freshName
  have hunused : (o.viewOf s₁.index).Unused (b.nameOf b.namesMade) := by
    refine hlooked.rested.stocked.unused fun m hm => ?_
    rw [hlooked.index_eq] at hm
    exact hop.fresh label source rfl s h.lodges.mem h.id_eq m ((h.mem_expire_iff _).1 hm).1
  have hnuid : checkSubject (o.chunkSubject (b.nameOf b.namesMade)) = .ok () :=
    checkSubject_chunkSubject h.checkBucket_name (isKeyToken_nameOf b _)
  rw [putUnder] at hrun
  generalize hgiven : b.nameOf b.namesMade = nuid at *
  -- The data is stored, or nothing is.
  rcases action_bind_cases hrun with ⟨e, hdata, rfl⟩ | ⟨⟨⟩, b₂, hdata, hrun⟩
  · obtain ⟨s', hrested, ⟨e', he', hview⟩ | ⟨he, -⟩⟩ :=
      hrested₁.storeData_cases hchunks hnuid hunused.chunks_eq hdata fun he => by
        cases he
        exact hreply rfl
    · exact hlooked.ended hrested (hview ▸ .refused _ e)
    · cases he
  obtain ⟨s₂, hrested₂, ⟨e, he, -⟩ | ⟨-, hsource, hview₂⟩⟩ :=
    hrested₁.storeData_cases hchunks hnuid hunused.chunks_eq hdata fun he => by cases he
  · cases he
  -- It is described then, and takes the place of what had its name.
  have hlength := hop.length_lt label source rfl
  rw [hsource] at hrun
  generalize hd : (⟨label.name, label.description, o.name, nuid, source.octets.length,
    (chunksOf b.settings.chunkSize source.octets).length, b.clock.wall,
    objectDigest source.octets, false⟩ : ObjectDescription) = d at hrun
  obtain rfl : d.nuid = nuid := hd ▸ rfl
  have hdname : d.name = label.name := hd ▸ rfl
  have hright : (⟨d, source.octets, b.settings.chunkSize⟩ : StoredObject).IsRight d.name :=
    ⟨rfl, hd ▸ rfl, hd ▸ rfl, hd ▸ rfl, hd ▸ rfl, hlength, b.settings.chunkSize_pos⟩
  have hkept : d.IsKept := ObjectDescription.isKept_of_clock hop.dated (hd ▸ rfl)
    (hd ▸ hlength) (hd ▸ length_chunksOf_le _ _)
  rw [← hdname] at hrun hname
  obtain ⟨s', hrested', ⟨e, rfl, hview⟩ | ⟨rfl, hview⟩⟩ :=
    hrested₂.describeStored_cases hdescriptions hview₂ hunused hkept hname (hd ▸ rfl) hnuid
      (fun old hold => (hlooked.rested.stocked.newest_spec hold).2.2) hrun hreply
  · exact hlooked.ended hrested' (hview ▸ .refused _ e)
  · exact hlooked.ended hrested' (hview ▸ .put hgiven.symm hunused hright (hd ▸ rfl) (hd ▸ rfl))

/-- A name is free if no object has it. -/
theorem checkFree_cases (h : o.Lodged settings P b s) (hobject : object ≠ "")
    {reply : Except Error Unit} (hrun : (o.checkFree object).run b = (reply, b'))
    (hreply : reply ≠ .error .numbersExhausted) :
    ∃ s', o.Looked settings P b s b' s' ∧ ((∃ e, reply = .error e) ∨
      reply = .ok () ∧ ∀ e ∈ (o.viewOf s'.index).newest object, e.deleted = true) := by
  rw [checkFree] at hrun
  rcases action_bind_cases hrun with ⟨e, hnewest, rfl⟩ | ⟨r, b₁, hnewest, hrun⟩
  · obtain ⟨s', -, he⟩ := h.newestDescription_cases hobject hnewest fun he => by
      cases he
      exact hreply rfl
    cases he
  obtain ⟨s', hlooked, hr⟩ := h.newestDescription_cases hobject hnewest fun he => by cases he
  obtain rfl := Except.ok.inj hr
  refine ⟨s', ?_⟩
  cases hd : (o.viewOf s'.index).newest object with
  | none =>
    rw [hd] at hrun
    cases hrun
    exact ⟨hlooked, .inr ⟨rfl, fun e he => by cases he⟩⟩
  | some d =>
    simp only [hd] at hrun
    split at hrun
    · next hdeleted =>
      cases hrun
      refine ⟨hlooked, .inr ⟨rfl, fun e he => ?_⟩⟩
      cases he
      exact hdeleted
    · cases hrun
      exact ⟨hlooked, .inl ⟨_, rfl⟩⟩

/-- An object that was looked up is described anew with a label. -/
theorem relabel_cases {b₁ : Broker} {s₁ : Stream} (h : o.Looked settings P b s b₁ s₁)
    (hP : o.AdmitsDescriptions P b.clock) (hdated : b.clock.IsDated) {label : ObjectLabel}
    (hname : label.name ≠ "") {current : ObjectDescription}
    (hcurrent : current ∈ (o.viewOf s₁.index).newest object) (hlive : current.deleted = false)
    (hfree : label.name ≠ object →
      ∀ e ∈ (o.viewOf s₁.index).newest label.name, e.deleted = true)
    {keep : Option Nat} {reply : Except Error ObjectDescription}
    (hrun : (do
      o.publishDescription d
      o.purgeSubject (o.descriptionSubject object) keep
      pure d : Action Broker ObjectDescription).run b₁ = (reply, b'))
    (hd : d = { current with
      name := label.name, description := label.description, modified := b.clock.wall })
    (hkeep : keep = if label.name != object then none else some 1)
    (hreply : reply ≠ .error .numbersExhausted) :
    o.Ended settings P b s (.updateLabel object label) (reply.map some) b' := by
  have hdname : d.name = label.name := hd ▸ rfl
  obtain ⟨hsize, hchunks⟩ := lt_of_newest hcurrent
  obtain ⟨hobject, -, hnuid⟩ := h.rested.stocked.newest_spec hcurrent
  -- The new description has the sizes of the old one, which was read from a message.
  have hkept : d.IsKept :=
    ObjectDescription.isKept_of_date hdated (hd ▸ rfl) (hd ▸ hsize) (hd ▸ hchunks)
  rw [← hdname] at hname hfree hkeep
  rw [hkeep] at hrun
  obtain ⟨s', hrested, ⟨e, rfl, hview⟩ | ⟨rfl, hview⟩⟩ :=
    h.rested.describeAnew_cases hP hobject hkept hname (hd ▸ rfl) (hd ▸ hnuid) hrun hreply
  · exact h.ended hrested (hview ▸ .refused _ e)
  · exact h.ended hrested (hview ▸ .relabelled hcurrent hlive hd hfree)

/-- **An object gets another name and remark, or nothing changes.** -/
theorem updateLabel_cases (h : o.Lodged settings P b s) {label : ObjectLabel}
    (hop : (ObjectOp.updateLabel object label).Fits o b)
    (hdescriptions : o.AdmitsDescriptions P b.clock) {reply : Except Error ObjectDescription}
    (hrun : (o.updateLabel object label).run b = (reply, b'))
    (hreply : reply ≠ .error .numbersExhausted) :
    o.Ended settings P b s (.updateLabel object label) (reply.map some) b' := by
  rw [updateLabel] at hrun
  rcases action_check_cases hrun with ⟨e, -, rfl, rfl⟩ | ⟨⟨⟩, hcheck, hrun⟩
  · exact h.ended _ e
  have hname := ne_of_checkObjectName hcheck
  rcases action_bind_cases hrun with ⟨e, hinfo, rfl⟩ | ⟨current, b₁, hinfo, hrun⟩
  · have he : Except.error (α := ObjectDescription) e ≠ .error .numbersExhausted := hreply
    rcases h.info_cases hinfo he with ⟨rfl, -⟩ | ⟨s₁, hlooked, -⟩
    · exact h.ended _ e
    · exact hlooked.ended_of_refused _ e
  rcases h.info_cases hinfo (fun he => by cases he) with
    ⟨-, e, he⟩ | ⟨s₁, hlooked, ⟨e, he⟩ | ⟨d, hcurrent, hlive, hd⟩⟩
  · cases he
  · cases he
  cases hd
  dsimp only at hrun
  split at hrun
  · next hrenamed =>
    rcases action_bind_cases hrun with ⟨e, hfree, rfl⟩ | ⟨⟨⟩, b₂, hfree, hrun⟩
    · obtain ⟨s₂, hlooked', -⟩ := hlooked.rested.checkFree_cases hname hfree fun he => by
        cases he
        exact hreply rfl
      exact (hlooked.trans hlooked').1.ended_of_refused _ e
    · obtain ⟨s₂, hlooked', ⟨e, he⟩ | ⟨-, hfree⟩⟩ :=
        hlooked.rested.checkFree_cases hname hfree fun he => by cases he
      · cases he
      obtain ⟨hlooked₂, hindex⟩ := hlooked.trans hlooked'
      rw [Action.bind_ok (Action.run_read _)] at hrun
      exact relabel_cases hlooked₂ hdescriptions hop.dated hname (hindex ▸ hcurrent) hlive
        (fun _ => hfree) hrun (hlooked₂.becomes.clock_eq ▸ rfl) (if_pos hrenamed).symm hreply
  · next hrenamed =>
    rw [Action.bind_ok (Action.run_read _)] at hrun
    exact relabel_cases hlooked hdescriptions hop.dated hname hcurrent hlive
      (fun hne => absurd (by simpa using hne) hrenamed) hrun (hlooked.becomes.clock_eq ▸ rfl)
      (if_neg hrenamed).symm hreply

/-- **An object is deleted, or nothing changes.** -/
theorem delete_cases (h : o.Lodged settings P b s) (hop : (ObjectOp.delete object).Fits o b)
    (hdescriptions : o.AdmitsDescriptions P b.clock) {reply : Except Error Unit}
    (hrun : (o.delete object).run b = (reply, b')) (hreply : reply ≠ .error .numbersExhausted) :
    o.Ended settings P b s (.delete object) (reply.map fun _ => none) b' := by
  rw [delete] at hrun
  rcases action_bind_cases hrun with ⟨e, hinfo, rfl⟩ | ⟨current, b₁, hinfo, hrun⟩
  · rcases h.info_cases hinfo (fun he => hreply (by cases he; rfl)) with
      ⟨rfl, -⟩ | ⟨s₁, hlooked, -⟩
    · exact h.ended _ e
    · exact hlooked.ended_of_refused _ e
  rcases h.info_cases hinfo (fun he => by cases he) with
    ⟨-, e, he⟩ | ⟨s₁, hlooked, ⟨e, he⟩ | ⟨d, hcurrent, hlive, hd⟩⟩
  · cases he
  · cases he
  cases hd
  obtain ⟨hobject, hname, hnuid⟩ := hlooked.rested.stocked.newest_spec hcurrent
  rw [Action.bind_ok (Action.run_read _), hlooked.becomes.clock_eq] at hrun
  generalize hd : ({ current with
    deleted := true, size := 0, chunks := 0, digest := "", modified := b.clock.wall } :
      ObjectDescription) = d at hrun
  have hdname : d.name = object := hd ▸ hname
  have hdnuid : d.nuid = current.nuid := hd ▸ rfl
  have hkept : d.IsKept := ObjectDescription.isKept_of_date hop.dated (hd ▸ rfl)
    (hd ▸ show 0 < wordLimit by decide) (hd ▸ show 0 < wordLimit by decide)
  rw [← hdname, ← hdnuid] at hrun
  obtain ⟨s', hrested, ⟨e, rfl, hview⟩ | ⟨rfl, hview⟩⟩ :=
    hlooked.rested.describeDeleted_cases hdescriptions hkept (hdname ▸ hobject) (hd ▸ rfl)
      (hdnuid ▸ hnuid) hrun hreply
  · exact hlooked.ended hrested (hview ▸ .refused _ e)
  · rw [hdnuid] at hview
    exact hlooked.ended hrested
      (hview ▸ .deleted hcurrent hlive hdname hdnuid (hd ▸ rfl) (hd ▸ rfl))

/-- **An operation does to what is shown what it is to do**, after what is too old has gone. -/
theorem run_cases (h : o.Lodged settings P b s) {op : ObjectOp} (hop : op.Fits o b)
    (hchunks : ∀ label source, op = .put label source →
      o.AdmitsChunks P b.clock (b.nameOf b.namesMade))
    (hdescriptions : o.AdmitsDescriptions P b.clock)
    {reply : Except Error (Option ObjectDescription)} (hrun : (op.run o).run b = (reply, b'))
    (hreply : reply ≠ .error .numbersExhausted) : o.Ended settings P b s op reply b' := by
  have hexhausted {α : Type} {r : Except Error α} {f : α → Option ObjectDescription}
      (hr : r.map f ≠ .error .numbersExhausted) : r ≠ .error .numbersExhausted := by
    rintro rfl
    exact hr rfl
  cases op with
  | put label source =>
    obtain ⟨r, hput, rfl⟩ := action_map_cases hrun
    exact h.put_cases hop (hchunks label source rfl) hdescriptions hput (hexhausted hreply)
  | updateLabel object label =>
    obtain ⟨r, hupdate, rfl⟩ := action_map_cases hrun
    exact h.updateLabel_cases hop hdescriptions hupdate (hexhausted hreply)
  | delete object =>
    obtain ⟨r, hdelete, rfl⟩ := action_map_cases hrun
    exact h.delete_cases hop hdescriptions hdelete (hexhausted hreply)

end Lodged

end ObjectBucket

end StreamBroker
