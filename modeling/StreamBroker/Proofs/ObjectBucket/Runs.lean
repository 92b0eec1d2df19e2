import StreamBroker.Proofs.ObjectBucket.Refinement
import StreamBroker.Proofs.Stream.Restart

/-!
# Objects are stored whole

A bucket that is created anew holds no objects, and every operation does to its objects what it is
to do.  Time passes meanwhile, and others do what they do, as long as they leave the stream of the
bucket alone.  At any time an object is what was put, and no chunk is left over from another.

## Main definitions

* `ObjectBucket.Run`: what becomes of a bucket, and of the objects that it holds

## Main results

* `ObjectBucket.Run.whole`: objects are stored whole, and nothing is left over
-/

namespace StreamBroker

namespace ObjectBucket

variable {o : ObjectBucket} {settings : ObjectBucketSettings} {b b' : Broker} {s : Stream}
  {M : ObjectMap}

/-- What becomes of a bucket without a limit on age, and of the objects that it holds: it is created
on a blank journal, operations come to an end on it, and otherwise it is left alone. -/
inductive Run (settings : ObjectBucketSettings) (o : ObjectBucket) : Broker → ObjectMap → Prop where
  | created {b b' : Broker} (hage : settings.maxAge = none) (hb : b.Orderly)
      (hnew : b.stream? (ObjectBucketSettings.streamName settings.bucket) = none)
      (hblank : settings.storage = .file → b.backend.Keeps
        (Journal.namespaceOf (ObjectBucketSettings.streamName settings.bucket)) SeqMap.empty)
      (h : (createBucket settings).run b = (.ok o, b')) : Run settings o b' .empty
  | operated {b b' : Broker} {M : ObjectMap} (run : Run settings o b M) (op : ObjectOp)
      (hop : op.Fits o b) {reply : Except Error (Option ObjectDescription)}
      (h : (op.run o).run b = (reply, b')) (hreply : reply ≠ .error .numbersExhausted) :
      Run settings o b' (M.apply b.settings.chunkSize op reply)
  | meanwhile {b b' : Broker} {M : ObjectMap} (run : Run settings o b M)
      (h : Broker.LeavesAlone o.stream b b') : Run settings o b' M

/-- A bucket that is left alone is held as before. -/
theorem Held.leftAlone (h : o.Held settings b s) (hb : Broker.LeavesAlone o.stream b b') :
    ∃ s', o.Held settings b' s' ∧ s'.index = s.index := by
  obtain ⟨s', hhosts, hid, hsettings, hindex⟩ := hb s h.hosts h.id_eq
  exact ⟨s', ⟨hhosts, hid.trans h.id_eq, h.name_eq, hsettings ▸ h.settings_eq, hindex ▸ h.own⟩,
    hindex⟩

/-- What the stream of a bucket shows stands for its objects. -/
theorem Run.exists_held (run : Run settings o b M) :
    ∃ s, o.Held settings b s ∧ (o.viewOf s.index).Keeps M := by
  induction run with
  | created hage hb hnew hblank h =>
    obtain ⟨s, hheld, hempty⟩ := held_of_createBucket hage hb hnew hblank h
    exact ⟨s, hheld, hempty ▸ .empty⟩
  | operated run op hop h hreply ih =>
    obtain ⟨s, hheld, hkeeps⟩ := ih
    obtain ⟨s', hheld', -, hkeeps'⟩ := hheld.run_eq hkeeps hop h hreply
    exact ⟨s', hheld', hkeeps'⟩
  | meanwhile run h ih =>
    obtain ⟨s, hheld, hkeeps⟩ := ih
    obtain ⟨s', hheld', hindex⟩ := hheld.leftAlone h
    exact ⟨s', hheld', hindex ▸ hkeeps⟩

/-- A chunk belongs to one object. -/
theorem existsUnique_owner {x : Index} (hM : (o.viewOf x).Keeps M) {m : StoredMessage}
    (hm : m ∈ x.toList) {nuid : String} (hnuid : m.subject = o.chunkSubject nuid) :
    ∃! object, ∃ x ∈ M object, x.description.nuid = nuid := by
  have hchunks : (o.viewOf x).chunks nuid ≠ [] :=
    List.ne_nil_of_mem (List.mem_map_of_mem (List.mem_filter.2 ⟨hm, decide_eq_true hnuid⟩))
  obtain ⟨object, y, hy, rfl⟩ := hM.owned nuid hchunks
  refine ⟨object, ⟨y, hy, rfl⟩, ?_⟩
  rintro other ⟨z, hz, heq⟩
  exact hM.apart _ _ _ (hM.newest_eq _ z hz) _ (hM.newest_eq _ y hy) heq

/-- **Objects are stored whole, and nothing is left over.**  What is looked up are the objects that
the bucket holds; an object is put together from what was put, its size and the number of its chunks
are those of the data, and all objects are listed in the order of their names.  Every chunk belongs
to one object.  An operation that is refused changes nothing; one that is not does to the objects
what it is to do, and sets the label that it is given.  Looking changes nothing. -/
theorem Run.whole (run : Run settings o b M) :
    (∀ object, ∃ reply b', (o.info object).run b = (reply, b') ∧ Run settings o b' M ∧
      ∀ d, reply = .ok d ↔ ∃ x ∈ M object, x.description = d) ∧
    (∀ object, ∀ x ∈ M object,
      (∃ b', (o.get object).run b = (.ok x.octets, b') ∧ Run settings o b' M) ∧
      x.description.name = object ∧ x.description.size = x.octets.length ∧ 0 < x.chunkSize ∧
      x.description.chunks = (x.octets.length + x.chunkSize - 1) / x.chunkSize) ∧
    (∃ ds b', o.list.run b = (.ok ds, b') ∧ Run settings o b' M ∧
      (ds.Pairwise fun d e => d.name < e.name) ∧
      ∀ d, d ∈ ds ↔ ∃ x ∈ M d.name, x.description = d) ∧
    (∃ s, b.liveStream o.stream = .ok s ∧ ∀ m ∈ s.index.toList, ∀ nuid,
      m.subject = o.chunkSubject nuid → ∃! object, ∃ x ∈ M object, x.description.nuid = nuid) ∧
    ∀ (op : ObjectOp) (reply : Except Error (Option ObjectDescription)) (b' : Broker),
      op.Fits o b → (op.run o).run b = (reply, b') → reply ≠ .error .numbersExhausted →
      ∃ M', M' = M.apply b.settings.chunkSize op reply ∧ Run settings o b' M' ∧
        (∀ e, reply = .error e → M' = M) ∧
        ∀ d, reply = .ok d → d.map ObjectDescription.label = op.label? := by
  obtain ⟨s, hheld, hkeeps⟩ := run.exists_held
  have hleft {b' : Broker} (he : b.Evolves s b' s) : Run settings o b' M :=
    run.meanwhile (hheld.id_eq ▸ hheld.hosts.leavesAlone_of_evolves he)
  refine ⟨fun object => ?_, fun object x hx => ⟨?_, ?_⟩, ?_,
    ⟨s, hheld.id_eq ▸ hheld.hosts.liveStream_eq, fun m hm nuid => existsUnique_owner hkeeps hm⟩,
    fun op reply b' hop h hreply => ?_⟩
  · obtain ⟨reply, b', hinfo, he, hreply⟩ := hheld.run_info hkeeps object
    exact ⟨reply, b', hinfo, hleft he, hreply⟩
  · obtain ⟨b', hget, he⟩ := hheld.run_get hkeeps hx
    exact ⟨b', hget, hleft he⟩
  · have hright := hkeeps.right object x hx
    refine ⟨hright.name_eq, hright.size_eq, hright.chunkSize_pos, ?_⟩
    rw [hright.chunks_eq, length_chunksOf hright.chunkSize_pos]
  · obtain ⟨ds, b', hlist, he, hsorted, hmem⟩ := hheld.run_list hkeeps
    exact ⟨ds, b', hlist, hleft he, hsorted, hmem⟩
  · obtain ⟨-, -, hlabel, -⟩ := hheld.run_eq hkeeps hop h hreply
    refine ⟨_, rfl, run.operated op hop h hreply, ?_, hlabel⟩
    rintro e rfl
    cases op <;> rfl

/-- Three octets that were put as two chunks are put together at another time. -/
theorem whole_put :
    ∃ (o : ObjectBucket) (b : Broker) (M : ObjectMap), ∃ x ∈ M "a",
      Run { bucket := "b", storage := .memory } o b M ∧
      x.description.size = 3 ∧ x.description.chunks = 2 ∧
      ∃ b', (o.get "a").run b = (.ok [1, 2, 3], b') ∧
        Run { bucket := "b", storage := .memory } o b' M := by
  have hcreated : Run { bucket := "b", storage := .memory } ⟨"b", 0⟩ _ _ :=
    .created (b := .start { objectChunkSize := 2 } 0 Stream.epochClock Stream.blankBackend) rfl
      (.of_empty rfl) rfl (fun h => by cases h) (Prod.ext (by decide +kernel) rfl)
  have hput : Run _ _ _ (ObjectMap.empty.apply _ (.put ⟨"a", none⟩ ⟨[1, 2, 3], none⟩)
      (.ok (some ⟨"a", none, "b", "00000000000000000000000000000000", 3, 2, ⟨0, 0⟩,
        "SHA-256=A5BYxvLAy0ksUzsKTRTvd8wPeKvMztUofYShogEc-4E=", false⟩))) :=
    hcreated.operated _
      ⟨by decide +kernel, by rintro _ _ ⟨⟩; decide +kernel, by rintro _ _ ⟨⟩; decide +kernel⟩
      (Prod.ext (by decide +kernel) rfl) (by decide)
  have hlater := hput.meanwhile (Broker.leavesAlone_clock _ _ ⟨0, 5000⟩)
  obtain ⟨-, hget, -⟩ := hlater.whole
  obtain ⟨hoctets, -⟩ := hget "a" _ rfl
  exact ⟨_, _, _, _, rfl, hlater, rfl, rfl, hoctets⟩

end ObjectBucket

end StreamBroker
