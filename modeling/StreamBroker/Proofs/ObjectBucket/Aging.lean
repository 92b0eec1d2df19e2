import StreamBroker.Proofs.ObjectBucket.Faded
import StreamBroker.Proofs.ObjectBucket.Operations
import StreamBroker.Proofs.Stream.Restart

/-!
# Objects that age

In a bucket with a limit on age descriptions and chunks get too old one by one.  The chunks of an
object and its description are written at one time, and so they go together; but an object that gets
another name or remark is described anew, and from then on its description is younger than its data.
At a time when the data is too old and the description is not, the object is still found and listed,
and its data is refused as damaged.  This is all that ageing does: an object that is found has the
data that was put as long as this is not too old, whatever was done to its label.

## Main definitions

* `ObjectBucketSettings.Spares`: data that was written at a time is not too old
* `ObjectBucket.Aging`: what becomes of a bucket with any limit on age, of the objects that were put
  into it, and of the dates of their data

## Main results

* `ObjectBucket.Aging.hasLeft`: what a bucket has is what is left of its objects
* `ObjectBucket.Aging.data_of_info`: the data of an object that is found is whole, or it is too old
-/

namespace StreamBroker

/-- Data that was written at a time is not too old at another. -/
def ObjectBucketSettings.Spares (settings : ObjectBucketSettings) (now written : Timestamp) :
    Prop :=
  ∀ maxAge ∈ settings.maxAge, now.sinceEpoch - written.sinceEpoch < maxAge.nanos

instance (settings : ObjectBucketSettings) (now : Timestamp) :
    DecidablePred (settings.Spares now) := fun _ => inferInstanceAs (Decidable (∀ _ ∈ _, _))

namespace ObjectBucketSettings.Spares

variable {settings : ObjectBucketSettings} {now later t u : Timestamp}

/-- What is not too old was not before. -/
theorem of_le (h : settings.Spares later t) (hle : now.sinceEpoch ≤ later.sinceEpoch) :
    settings.Spares now t := by
  intro maxAge hmaxAge
  have := h maxAge hmaxAge
  omega

/-- What is younger is not too old. -/
theorem of_younger (h : settings.Spares now t) (hle : t.sinceEpoch ≤ u.sinceEpoch) :
    settings.Spares now u := by
  intro maxAge hmaxAge
  have := h maxAge hmaxAge
  omega

end ObjectBucketSettings.Spares

namespace ObjectBucket

variable {o : ObjectBucket} {settings : ObjectBucketSettings} {P : StoredMessage → Prop}
  {b b' : Broker} {s s' : Stream} {object nuid : String} {d : ObjectDescription} {M : ObjectMap}
  {W : ObjectDates} {op : ObjectOp}

/-- What becomes of a bucket, of the objects that were put into it, and of the dates of their data:
it is created on a blank journal, operations come to an end on it, and otherwise it is left to
age. -/
inductive Aging (settings : ObjectBucketSettings) (o : ObjectBucket) :
    Broker → ObjectMap → ObjectDates → Prop where
  | created {b b' : Broker} {W : ObjectDates} (hb : b.Orderly)
      (hnew : b.stream? (ObjectBucketSettings.streamName settings.bucket) = none)
      (hblank : settings.storage = .file → b.backend.Keeps
        (Journal.namespaceOf (ObjectBucketSettings.streamName settings.bucket)) SeqMap.empty)
      (h : (createBucket settings).run b = (.ok o, b')) : Aging settings o b' .empty W
  | operated {b b' : Broker} {M : ObjectMap} {W : ObjectDates} (run : Aging settings o b M W)
      (op : ObjectOp) (hop : op.Fits o b) {reply : Except Error (Option ObjectDescription)}
      (h : (op.run o).run b = (reply, b')) (hreply : reply ≠ .error .numbersExhausted) :
      Aging settings o b' (M.apply b.settings.chunkSize op reply)
        (W.after (b.nameOf b.namesMade) b.clock.wall.toMicro op)
  | meanwhile {b b' : Broker} {M : ObjectMap} {W : ObjectDates} (run : Aging settings o b M W)
      (h : Broker.LeavesToAge o.stream b b') : Aging settings o b' M W

/-! ## Messages and their dates -/

/-- A chunk that comes has the date of its nuid. -/
theorem admitsChunks_isTimed {clock : Clock} (hW : W nuid = clock.wall.toMicro) :
    o.AdmitsChunks (o.IsTimed W) clock nuid := by
  refine fun m hsubject htime => ⟨fun other hother => ?_, fun d hd => ?_⟩
  · rw [htime, ← hW, chunkSubject_inj.1 (hother.symm.trans hsubject)]
  · cases o.chunkSubject_ne_descriptionSubject nuid d.name (hsubject.symm.trans hd.subject_eq)

/-- A description that comes has its own date. -/
theorem admitsDescriptions_isTimed (W : ObjectDates) (clock : Clock) :
    o.AdmitsDescriptions (o.IsTimed W) clock := by
  refine fun m d hd hmodified htime => ⟨fun nuid hnuid => ?_, fun e he => ?_⟩
  · cases o.chunkSubject_ne_descriptionSubject nuid d.name (hnuid.symm.trans hd.subject_eq)
  · cases hd.descriptionOf_eq.symm.trans he.descriptionOf_eq
    rw [htime, hmodified]

namespace Lodged

/-- The dates of messages do not change when an operation begins. -/
theorem timed_after (h : o.Lodged settings (o.IsTimed W) b s) (hop : op.Fits o b) :
    o.Lodged settings (o.IsTimed (W.after (b.nameOf b.namesMade) b.clock.wall.toMicro op)) b s := by
  refine h.mono fun m hm htimed => ⟨fun nuid hnuid => ?_, htimed.description⟩
  rw [htimed.chunk nuid hnuid]
  cases op with
  | put label source =>
    have hfresh := (hop.fresh label source rfl s h.lodges.mem h.id_eq m hm).1
    refine (Function.update_of_ne ?_ _ _).symm
    rintro rfl
    exact hfresh hnuid
  | updateLabel | delete => rfl

/-- What messages show of a nuid that is not used. -/
theorem unused (h : o.Lodged settings P b s) (hfresh : o.IsFresh b nuid) {x : Index}
    (hx : o.Stocked x) (hsub : ∀ m ∈ x.toList, m ∈ s.index.toList) : (o.viewOf x).Unused nuid :=
  hx.unused fun m hm => hfresh s h.lodges.mem h.id_eq m (hsub m hm)

/-- **What is left when the messages of a bucket get too old.** -/
theorem leftOf (h : o.Lodged settings (o.IsTimed W) b s)
    (hleft : (o.viewOf s.index).LeftOf M W (settings.Spares b.clock.wall) b.clock.wall)
    {now later : Timestamp} (hnow : now.sinceEpoch ≤ later.sinceEpoch)
    (hlater : b.clock.wall.sinceEpoch ≤ later.sinceEpoch) {x : Index}
    (hx : x.toList = s.index.toList.filter fun m => decide (s.settings.IsYoung now m)) :
    (o.viewOf x).LeftOf M W (settings.Spares later) later := by
  have hyoung (m : StoredMessage) : s.settings.IsYoung now m ↔ settings.Spares now m.timestamp := by
    rw [StreamSettings.IsYoung, h.maxAge_eq, ObjectBucketSettings.Spares]
  simp only [hyoung] at hx
  have hsorted : s.index.toList.Pairwise fun m w =>
      settings.Spares now m.timestamp → settings.Spares now w.timestamp := by
    refine h.lodges.sound.coherent.toFiled.pairwise_toList.imp_of_mem ?_
    intro m w hm hw hlt hspared maxAge hmaxAge
    have hle := (h.dated maxAge hmaxAge).2.mono hm hw hlt
    exact hspared.of_younger hle maxAge hmaxAge
  exact leftOf_of_filter h.stocked h.noted hsorted hx
    (fun t ht => ⟨ht.of_le hlater, ht.of_le hnow⟩) (fun t u ht hle => ht.of_younger hle) hlater
    hleft

end Lodged

/-! ## Runs -/

/-- A broker has what is left of the objects of a bucket. -/
def HasLeft (o : ObjectBucket) (settings : ObjectBucketSettings) (M : ObjectMap) (W : ObjectDates)
    (b : Broker) : Prop :=
  ∃ s, o.Lodged settings (o.IsTimed W) b s ∧
    (o.viewOf s.index).LeftOf M W (settings.Spares b.clock.wall) b.clock.wall

/-- Nothing is left of no objects. -/
theorem hasLeft_of_createBucket (hb : b.Orderly)
    (hnew : b.stream? (ObjectBucketSettings.streamName settings.bucket) = none)
    (hblank : settings.storage = .file → b.backend.Keeps
      (Journal.namespaceOf (ObjectBucketSettings.streamName settings.bucket)) SeqMap.empty)
    (h : (createBucket settings).run b = (.ok o, b')) (W : ObjectDates) :
    o.HasLeft settings .empty W b' := by
  obtain ⟨s, hlodged, hempty⟩ := lodged_of_createBucket hb hnew hblank h
  have hview : o.viewOf s.index = .empty := by
    simp only [viewOf, Index.ofSubject, hempty]
    rfl
  refine ⟨s, hlodged, ?_, ?_⟩
  · exact ⟨.empty, .empty, fun object x hx => hx, .empty, hview ▸ ⟨rfl, fun _ _ => rfl⟩⟩
  · rw [hview]
    rintro object d ⟨⟩

/-- **What an operation does to what is left, it does to the objects.** -/
theorem HasLeft.operated (h : o.HasLeft settings M W b) (hop : op.Fits o b)
    {reply : Except Error (Option ObjectDescription)} (hrun : (op.run o).run b = (reply, b'))
    (hreply : reply ≠ .error .numbersExhausted) :
    o.HasLeft settings (M.apply b.settings.chunkSize op reply)
      (W.after (b.nameOf b.namesMade) b.clock.wall.toMicro op) b' := by
  obtain ⟨s, hlodged, hleft⟩ := h
  have hafter := hlodged.timed_after hop
  obtain ⟨s', x, hlodged', hclock, hx, hchanges⟩ := hafter.run_cases hop (fun label source hput =>
    admitsChunks_isTimed (hput ▸ Function.update_self _ _ _)) (admitsDescriptions_isTimed _ _) hrun
    hreply
  obtain ⟨hstocked, hsub, hshown⟩ : o.Stocked x ∧ (∀ m ∈ x.toList, m ∈ s.index.toList) ∧
      (o.viewOf x).LeftOf M W (settings.Spares b.clock.wall) b.clock.wall := by
    -- The operation was done on the bucket as it was, or as it is after an eviction.
    rcases hx with rfl | rfl
    · exact ⟨hlodged.stocked, fun m hm => hm, hleft⟩
    · have hsub (m : StoredMessage)
          (hm : m ∈ (Retention.expire s.settings b.clock.wall s.index).2.toList) :
          m ∈ s.index.toList := ((hlodged.mem_expire_iff _).1 hm).1
      exact ⟨⟨(Retention.loses_expire _ _ _).sound hlodged.lodges.sound,
        hlodged.checkBucket_name, fun m hm => hlodged.own m (hsub m hm)⟩, hsub,
        hlodged.leftOf hleft (Int.le_refl _) (Int.le_refl _) (hlodged.toList_expire _)⟩
  refine ⟨s', hlodged', ?_⟩
  rw [hclock]
  refine hshown.changes hchanges ?_
  rintro label source rfl
  exact hlodged.unused (hop.fresh label source rfl) hstocked hsub

/-- **What is left when time goes on is left of the same objects.** -/
theorem HasLeft.meanwhile (h : o.HasLeft settings M W b)
    (hage : Broker.LeavesToAge o.stream b b') : o.HasLeft settings M W b' := by
  obtain ⟨s, hlodged, hleft⟩ := h
  obtain ⟨s', hlodged', -, hindex⟩ := hlodged.meanwhile hage
  refine ⟨s', hlodged', ?_⟩
  rcases hindex with heq | ⟨now, hnow, heq⟩
  · have hview : o.viewOf s'.index = o.viewOf s.index := by
      simp only [viewOf, Index.ofSubject, heq]
    rw [hview]
    exact hleft.mono (fun t ht => ht.of_le hage.1) hage.1
  · exact hlodged.leftOf hleft hnow hage.1 heq

/-- **What a bucket has is what is left of its objects**, at any time. -/
theorem Aging.hasLeft (run : Aging settings o b M W) : o.HasLeft settings M W b := by
  induction run with
  | created hb hnew hblank h => exact hasLeft_of_createBucket hb hnew hblank h _
  | operated run op hop h hreply ih => exact ih.operated hop h hreply
  | meanwhile run h ih => exact ih.meanwhile h

/-- Chunks that are too old are not there. -/
theorem Looked.chunks_eq_nil (h : o.Looked settings (o.IsTimed W) b s b' s')
    (hold : ¬settings.Spares b.clock.wall (W nuid)) :
    s'.index.ofSubject (o.chunkSubject nuid) = [] := by
  refine List.eq_nil_iff_forall_not_mem.2 fun m hm => hold ?_
  obtain ⟨hmem, hsubject⟩ := List.mem_filter.1 hm
  have hyoung := h.young m hmem
  rwa [StreamSettings.IsYoung, h.rested.maxAge_eq,
    (h.rested.noted m hmem).chunk nuid (of_decide_eq_true hsubject)] at hyoung

/-- What is described is younger than data that is too old. -/
theorem Looked.lt_modified (h : o.Looked settings (o.IsTimed W) b s b' s')
    (hd : d ∈ (o.viewOf s'.index).newest object) {t : Timestamp}
    (hold : ¬settings.Spares b.clock.wall t) :
    t.sinceEpoch < d.modified.toMicro.sinceEpoch := by
  obtain ⟨m, hlast, hm, -⟩ := h.rested.stocked.newest_eq_some hd
  have hmem := (List.mem_filter.1 (List.mem_of_getLast? hlast)).1
  have hyoung := h.young m hmem
  rw [StreamSettings.IsYoung, h.rested.maxAge_eq, (h.rested.noted m hmem).description d hm]
    at hyoung
  by_contra hle
  exact hold (ObjectBucketSettings.Spares.of_younger hyoung (Int.not_lt.1 hle))

/-- Looking leaves a bucket to age. -/
theorem Looked.leavesToAge (h : o.Lodged settings P b s) {b₁ : Broker} {s₁ : Stream}
    (hlooked : o.Looked settings P b s b₁ s₁) (he : b₁.Becomes s₁ b' s₁) :
    Broker.LeavesToAge o.stream b b' := by
  rw [← h.id_eq]
  refine h.lodges.leavesToAge_of_becomes (hlooked.becomes.trans he) ?_
  rw [hlooked.index_eq, h.toList_expire]

/-- **The data of an object that is found is whole, or it is too old.**  An object that is found is
one that was put, and its description is the one that it was given last.  If the data is not too
old, or there is none, it is put together as it was put; if it is too old, it is refused, and the
object was described anew after its data had been written.  Looking leaves the bucket as it was. -/
theorem Aging.data_of_info (run : Aging settings o b M W) {b₁ : Broker}
    (hinfo : (o.info object).run b = (.ok d, b₁)) :
    Aging settings o b₁ M W ∧ ∃ x ∈ M object, x.description = d ∧
      ∃ b₂, Aging settings o b₂ M W ∧
        (x.octets = [] ∨ settings.Spares b.clock.wall (W d.nuid) →
          (o.get object).run b = (.ok x.octets, b₂)) ∧
        (¬(x.octets = [] ∨ settings.Spares b.clock.wall (W d.nuid)) →
          (W d.nuid).sinceEpoch < d.modified.toMicro.sinceEpoch ∧
          (o.get object).run b = (.error (.digestMismatch object ⟨0, 0, objectDigest []⟩
            ⟨d.size, d.chunks, d.digest⟩), b₂)) := by
  obtain ⟨s, hlodged, hleft⟩ := run.hasLeft
  rcases hlodged.info_cases hinfo (fun he => by cases he) with
    ⟨-, e, he⟩ | ⟨s₁, hlooked, ⟨e, he⟩ | ⟨e, hd, hlive, he⟩⟩
  · cases he
  · cases he
  cases he
  have hshown := hlodged.leftOf hleft (Int.le_refl _) (Int.le_refl _)
    (hlooked.index_eq ▸ hlodged.toList_expire _)
  obtain ⟨M₀, v₀, hwithin, hkeeps, hfades⟩ := hshown.exists_keeps
  obtain ⟨x, hx, rfl⟩ := hkeeps.exists_object (hfades.newest_eq ▸ hd) hlive
  have hright := hkeeps.right object x hx
  obtain ⟨-, -, hnuid⟩ := hlooked.rested.stocked.newest_spec hd
  obtain ⟨b₂, hmatching, hbecomes⟩ :=
    hlooked.rested.lodges.run_matchingMessages hlooked.expire_eq hnuid
  rw [hlooked.rested.id_eq] at hmatching
  refine ⟨run.meanwhile (hlooked.leavesToAge hlodged hlooked.rested.lodges.becomes), x,
    hwithin object x hx, rfl, b₂, run.meanwhile (hlooked.leavesToAge hlodged hbecomes),
    fun hyoung => ?_, fun hold => ?_⟩
  · refine run_get_of_whole hright hinfo hmatching ?_
    by_cases hspared : settings.Spares b.clock.wall (W x.description.nuid)
    · exact (hfades.chunks_eq _ hspared).trans (hkeeps.chunks_eq object x hx)
    · rw [hlooked.chunks_eq_nil hspared, hyoung.resolve_right hspared, chunksOf,
        dif_pos (.inl rfl)]
      rfl
  · rw [not_or] at hold
    rw [hlooked.chunks_eq_nil hold.2] at hmatching
    exact ⟨hlooked.lt_modified hd hold.2, run_get_of_gone hright hinfo hmatching hold.1⟩

/-! ## An object without its data -/

/-- A bucket whose messages are too old after ten seconds. -/
def briefSettings : ObjectBucketSettings :=
  { bucket := "b", maxAge := some (.ofSeconds 10), storage := .memory }

def briefBucket : ObjectBucket := ⟨"b", 0⟩

/-- The bucket is created. -/
def briefBroker : Broker :=
  ((createBucket briefSettings).run (.start {} 0 Stream.epochClock Stream.blankBackend)).2

/-- A broker when some seconds have passed. -/
def atSecond (seconds : Nat) (b : Broker) : Broker :=
  { b with clock := ⟨0, seconds * 1000000000⟩ }

/-- An object is put. -/
def storing : ObjectOp := .put ⟨"a", none⟩ ⟨[120], none⟩

/-- What is told of it. -/
def storedDescription : ObjectDescription where
  name := "a"
  description := none
  bucket := "b"
  nuid := "00000000000000000000000000000000"
  size := 1
  chunks := 1
  modified := ⟨0, 0⟩
  digest := "SHA-256=LXEWQrcmsEQBYnyp-6wy9chTD7GQPMTbAiWHF5IaSIE="
  deleted := false

/-- The object gets a remark. -/
def remarking : ObjectOp := .updateLabel "a" ⟨"a", some "d"⟩

/-- What is told of it after five seconds. -/
def remarkedDescription : ObjectDescription :=
  { storedDescription with description := some "d", modified := ⟨5, 0⟩ }

theorem digest_stored : objectDigest [120] = storedDescription.digest := by decide +kernel

/-- The object is put, gets a remark after five seconds and is found after eleven. -/
theorem replies_remarked : ∃ t u v,
    (storing.run briefBucket).run briefBroker = (.ok (some storedDescription), t) ∧
    t.clock = ⟨0, 0⟩ ∧
    (remarking.run briefBucket).run (atSecond 5 t) = (.ok (some remarkedDescription), u) ∧
    u.clock = ⟨0, 5000000000⟩ ∧
    (briefBucket.info "a").run (atSecond 11 u) = (.ok remarkedDescription, v) := by
  -- The digest is known, and all else is looked up in one go.
  simp only [storing, ObjectOp.run, put, digest_stored]
  suffices h : _ ∧ _ ∧ _ ∧ _ ∧ _ from ⟨_, _, _, Prod.ext h.1 rfl, h.2.1, Prod.ext h.2.2.1 rfl,
    h.2.2.2.1, Prod.ext h.2.2.2.2 rfl⟩
  decide +kernel

/-- An object that got a remark is found at a time when its data is too old. -/
theorem data_of_info_remarked :
    ∃ (o : ObjectBucket) (b : Broker) (M : ObjectMap) (W : ObjectDates) (b₁ b₂ : Broker),
      ∃ x ∈ M "a", x.octets = [120] ∧ Aging briefSettings o b M W ∧
        (o.info "a").run b = (.ok x.description, b₁) ∧
        (o.get "a").run b = (.error (.digestMismatch "a" ⟨0, 0, objectDigest []⟩
          ⟨x.description.size, x.description.chunks, x.description.digest⟩), b₂) := by
  obtain ⟨t, u, v, hput, ht, hremark, hu, hinfo⟩ := replies_remarked
  have hcreated : Aging briefSettings briefBucket briefBroker .empty (fun _ => ⟨0, 0⟩) :=
    .created (b := .start {} 0 Stream.epochClock Stream.blankBackend) (.of_empty rfl) rfl
      (fun h => by cases h) (Prod.ext (by decide +kernel) rfl)
  have hstored := hcreated.operated storing
    ⟨by decide +kernel, by rintro _ _ ⟨⟩; decide +kernel, by rintro _ _ ⟨⟩; decide +kernel⟩ hput
    (by decide)
  have hwall : briefBroker.clock.wall.toMicro = ⟨0, 0⟩ := by decide +kernel
  have hdates (nuid : String) : ObjectDates.after (fun _ => ⟨0, 0⟩) nuid ⟨0, 0⟩ storing =
      fun _ => ⟨0, 0⟩ := Function.update_eq_self nuid fun _ => (⟨0, 0⟩ : Timestamp)
  rw [hwall, hdates] at hstored
  have hlater : Aging briefSettings briefBucket (atSecond 5 t) _ _ :=
    hstored.meanwhile (Broker.leavesToAge_clock _ (ht ▸ by decide +kernel))
  have hremarked := hlater.operated remarking
    ⟨show Clock.IsDated ⟨0, 5000000000⟩ by decide +kernel, by rintro _ _ ⟨⟩, by rintro _ _ ⟨⟩⟩
    hremark (by decide)
  have hlast : Aging briefSettings briefBucket (atSecond 11 u) _ _ :=
    hremarked.meanwhile (Broker.leavesToAge_clock _ (hu ▸ by decide +kernel))
  obtain ⟨-, x, hx, hdescription, b₂, -, -, htorn⟩ := hlast.data_of_info hinfo
  cases hx
  have hold : ¬(([120] : Bytes) = [] ∨
      briefSettings.Spares (Clock.wall ⟨0, 11000000000⟩) ⟨0, 0⟩) := by decide +kernel
  exact ⟨_, _, _, _, v, b₂, ⟨remarkedDescription, [120], _⟩, rfl, rfl, hlast, hinfo, (htorn hold).2⟩

end ObjectBucket

end StreamBroker
