import StreamBroker.Proofs.Broker.Watching
import StreamBroker.Proofs.KeyValue.Moves

/-!
# Watching a bucket

Who watches a bucket gets the newest revision of every key, and then the revisions that are written.
A reader who sets a key to the value of a revision, and forgets the key when the revision is a
deletion, so comes to know what the bucket holds.  For the last revision of a key that was yielded
is the newest one in the bucket: a bucket lets older revisions go, but never the newest.

## Main definitions

* `KeyEntry.replay`: what is known to a reader of revisions
* `KeyMap.current?`: the value of a key in a map with the number of its revision
* `KeyValueBucket.Watching`: a bucket is watched, and written to meanwhile
* `KeyValueBucket.Reflects`: the last messages of subjects are the newest of an index

## Main results

* `KeyValueBucket.IsOpen.run_watch`: a bucket can be watched
* `KeyValueBucket.Watching.converges`: a reader knows what the bucket holds
-/

namespace StreamBroker

/-! ## What a reader knows -/

/-- The value of a revision with its number, if it is not a deletion. -/
def KeyEntry.current? (e : KeyEntry) : Option (Bytes × Nat) :=
  match e.operation with
  | .put => some (e.value, e.revision)
  | .delete | .purge => none

/-- What is known of every key after some revisions to a reader who knew nothing. -/
def KeyEntry.replay (entries : List KeyEntry) : String → Option (Bytes × Nat) :=
  entries.foldl (fun known e => Function.update known e.key e.current?) fun _ => none

/-- The last revision of a key is what counts. -/
theorem KeyEntry.replay_eq (entries : List KeyEntry) (key : String) : replay entries key =
    (entries.filter fun e => decide (e.key = key)).getLast?.bind current? := by
  induction entries using List.reverseRecOn with
  | nil => rfl
  | append_singleton entries e ih =>
    rw [replay, List.foldl_append, List.foldl_cons, List.foldl_nil, Function.update_apply,
      List.filter_append]
    by_cases h : key = e.key
    · rw [if_pos h, List.filter_cons_of_pos (by simpa using h.symm), List.filter_nil,
        List.getLast?_concat]
      rfl
    · rw [if_neg h, List.filter_cons_of_neg (by simpa using fun heq => h heq.symm),
        List.filter_nil, List.append_nil]
      exact ih

/-- The value of a key with the number of its revision, if the newest revision is one. -/
def KeyMap.current? (M : KeyMap) (key : String) : Option (Bytes × Nat) :=
  (M.newest? key).bind KeyEntry.current?

namespace KeyValueBucket

variable {k : KeyValueBucket} {settings : KeyValueSettings} {b b' : Broker} {s s' : Stream}
  {f : Feed} {pattern key : String} {seen : List (Broker × Feed)} {read : List KeyEntry}

/-- The revisions of a key among messages are the messages of its subject. -/
theorem filter_filterMap_entryOf? (ms : List StoredMessage) (key : String) :
    ((ms.filterMap k.entryOf?).filter fun e => decide (e.key = key)) =
      (ms.filter fun m => decide (m.subject = k.subject key)).map (k.revisionOf key) := by
  induction ms with
  | nil => rfl
  | cons m ms ih =>
    by_cases hm : m.subject = k.subject key
    · rw [List.filterMap_cons_some (entryOf?_eq hm), List.filter_cons_of_pos (by simp [revisionOf]),
        List.filter_cons_of_pos (by simpa using hm), List.map_cons, ih]
    · rw [List.filter_cons_of_neg (by simpa using hm), ← ih]
      cases he : k.entryOf? m with
      | none => rw [List.filterMap_cons_none he]
      | some e =>
        have hne : e.key ≠ key := fun heq => hm (heq ▸ (entryOf?_eq_some_iff.1 he).1)
        rw [List.filterMap_cons_some he, List.filter_cons_of_neg (by simpa using hne)]

/-! ## Reading -/

/-- A bucket that is there can be watched. -/
theorem IsOpen.run_watch (h : k.IsOpen settings b s) (hb : b.Staffed)
    (hpattern : checkKeyPattern pattern = .ok ())
    (hfilter : checkFilter (k.subject pattern) = .ok ()) :
    (k.watch pattern).run b = (.ok (Feed.start s (k.subject pattern) .lastPerSubject
      b.settings.watchBuffer), (Broker.evict k.stream b).2) := by
  have hevict : (Broker.evict k.stream b).2 = b := by
    have hlive := hb.liveStream_eq h.mem
    simp only [← h.id_eq, Broker.evict, Broker.onStream, hlive, Stream.evict_steady h.isSteady]
    exact hb.putStream_self h.mem
  rw [watch, run_check_bind hpattern, Broker.watch, Action.bind_ok (Action.run_read b), hevict,
    ← h.id_eq, hb.run_inspect h.mem h.isSteady, hfilter]
  rfl

/-- A bucket is watched: a feed was opened at some time when the journals that streams were opened
from could be read, since then the bucket was written to, and revisions were read. -/
inductive Watching (k : KeyValueBucket) (settings : KeyValueSettings) (pattern : String) :
    List (Broker × Feed) → List KeyEntry → Prop where
  | opened {b b' : Broker} {past : List Broker} {f : Feed} {s : Stream}
      (history : Broker.History (b :: past)) (hlegible : ∀ t ∈ b :: past, t.backend.IsLegible)
      (hwatch : (k.watch pattern).run b = (.ok f, b')) (h : k.IsOpen settings b' s) :
      Watching k settings pattern [(b', f)] []
  | moved {b b' : Broker} {f : Feed} {seen : List (Broker × Feed)} {read : List KeyEntry}
      (h : Watching k settings pattern ((b, f) :: seen) read) (hmove : k.Move b b') :
      Watching k settings pattern ((b', f) :: (b, f) :: seen) read
  | drained {b : Broker} {f f' : Feed} {seen : List (Broker × Feed)} {read items : List KeyEntry}
      {most : Option Nat} (h : Watching k settings pattern ((b, f) :: seen) read)
      (hdrain : b.drain f k.entryOf? most = (items, f')) :
      Watching k settings pattern ((b, f') :: (b, f) :: seen) (read ++ items)

/-- The newest messages of an index in a list of messages that match a pattern: the last of a
subject is the newest. -/
structure Reflects (x : Index) (pattern : String) (due : List StoredMessage) : Prop where
  /-- The messages match. -/
  mem_matches : ∀ m ∈ due, subjectMatches m.subject pattern = true
  /-- The last message of a subject that matches is the newest in the index. -/
  getLast?_eq : ∀ subject, subjectMatches subject pattern = true →
    (due.filter fun m => decide (m.subject = subject)).getLast? = (x.ofSubject subject).getLast?

/-- The newest messages of the subjects reflect an index. -/
theorem reflects_newestMatching {x : Index} (hx : x.Sound) (pattern : String) :
    Reflects x pattern (x.newestMatching pattern) where
  mem_matches _ hm := (List.mem_filter.1 (List.mem_filter.1 hm).1).2
  getLast?_eq _ hmatches := hx.coherent.toTallied.getLast?_newestMatching hmatches

/-- What comes is reflected where the newest messages are kept. -/
theorem Reflects.append {due : List StoredMessage} (h : Reflects s.index pattern due)
    (hkeeps : s.KeepsNewest s') (hs : s.index.Filed) (hs' : s'.index.Filed) :
    Reflects s'.index pattern
      (due ++ (s.newcomers s').filter fun m => subjectMatches m.subject pattern) where
  mem_matches m hm :=
    (List.mem_append.1 hm).elim (h.mem_matches m) fun hm => (List.mem_filter.1 hm).2
  getLast?_eq subject hmatches := by
    rw [List.filter_append, List.getLast?_append, Stream.filter_matching_subject hmatches,
      h.getLast?_eq subject hmatches, (hkeeps subject).getLast?_eq hs hs']

/-- A bucket is watched, and what is due to the reader reflects what the bucket holds. -/
structure Reads (k : KeyValueBucket) (settings : KeyValueSettings) (pattern : String) (b : Broker)
    (f : Feed) (s : Stream) (seen : List (Broker × Feed)) (due taken : List StoredMessage) :
    Prop where
  /-- The bucket is there. -/
  isOpen : k.IsOpen settings b s
  /-- What it keeps beside its messages is right. -/
  sound : s.index.Sound
  /-- The feed is on its way. -/
  follows : b.Follows f s (k.subject pattern) seen due taken
  /-- The last message of a subject that is due is the newest. -/
  reflects : Reflects s.index (k.subject pattern) due

theorem Watching.reads (h : k.Watching settings pattern ((b, f) :: seen) read) :
    ∃ s due taken, k.Reads settings pattern b f s ((b, f) :: seen) due taken ∧
      read = taken.filterMap k.entryOf? := by
  generalize hstates : (b, f) :: seen = states at h
  induction h generalizing b f seen with
  | @opened b b' past f s history hlegible hwatch hopen =>
    cases hstates
    rw [watch] at hwatch
    rcases action_check_cases hwatch with ⟨e, -, he, -⟩ | ⟨-, -, hwatch⟩
    · cases he
    obtain ⟨u, hu, hid, rfl, hstep⟩ := Broker.run_watch_cases history.staffed hwatch
    have history' := history.step hstep
    have hfound := history'.staffed.streamById?_eq hu
    -- No two streams have one number, so the stream that is watched is that of the bucket.
    obtain rfl : u = s := history'.staffed.eq_of_id (List.mem_append_left _ hu)
      (List.mem_append_left _ hopen.mem) (hid.trans hopen.id_eq.symm)
    have hx := history'.sound hlegible u (List.mem_append_left _ hu)
    refine ⟨u, _, [], ⟨hopen, hx,
      Broker.follows_of_watch history (fun _ => hlegible) hwatch hfound, ?_⟩, rfl⟩
    rw [Index.due, List.filter_nil, List.append_nil]
    exact reflects_newestMatching hx _
  | @moved _ _ f _ _ h hmove ih =>
    cases hstates
    obtain ⟨s, due, taken, hreads, rfl⟩ := ih rfl
    obtain ⟨past, history⟩ := hreads.follows.history
    obtain ⟨hstep, s', hopen, hx, hkeeps⟩ :=
      hreads.isOpen.move history.staffed hreads.sound hmove
    have hid : s'.id = f.stream := by
      rw [hopen.id_eq, ← hreads.isOpen.id_eq]
      exact (Broker.known_of_streamById? hreads.follows.found).2
    have hfound := (history.step hstep).staffed.streamById?_eq hopen.mem
    rw [hid] at hfound
    exact ⟨s', _, taken, ⟨hopen, hx, hreads.follows.moved hstep hfound,
      hreads.reflects.append hkeeps hreads.sound.coherent.toFiled hx.coherent.toFiled⟩, rfl⟩
  | drained h hdrain ih =>
    cases hstates
    obtain ⟨s, due, taken, hreads, rfl⟩ := ih rfl
    obtain ⟨more, rfl, hfollows⟩ := hreads.follows.drained hdrain
    exact ⟨s, due, taken ++ more, ⟨hreads.isOpen, hreads.sound, hfollows, hreads.reflects⟩,
      List.filterMap_append.symm⟩

/-- **A reader knows what the bucket holds**: to a reader who keeps up, and has read what there is,
the revisions that were yielded tell the values of just those keys that match the pattern and have
one, with the numbers of their revisions. -/
theorem Watching.converges (h : k.Watching settings pattern ((b, f) :: seen) read)
    (hkeeps : ∀ p ∈ (b, f) :: seen, p.1.KeepsUp p.2) :
    ∃ s, k.IsOpen settings b s ∧ ∀ key,
      KeyEntry.replay (read ++ (b.drain f k.entryOf? none).1) key =
        if subjectMatches key pattern = true then (k.mapOf s.index).current? key else none := by
  obtain ⟨s, due, taken, hreads, rfl⟩ := h.reads
  refine ⟨s, hreads.isOpen, fun key => ?_⟩
  have hfront := checkSubject_front hreads.isOpen.checkBucket_name
  have hmatches : subjectMatches (k.subject key) (k.subject pattern) =
      subjectMatches key pattern := by
    rw [subject_eq, subject_eq, subjectMatches_behind hfront]
  rw [Broker.drain_none _ hreads.follows.found, ← List.filterMap_append,
    hreads.follows.complete hkeeps, KeyEntry.replay_eq, filter_filterMap_entryOf?,
    List.getLast?_map]
  split
  · next hkey =>
    rw [hreads.reflects.getLast?_eq _ (hmatches.trans hkey), KeyMap.current?, newest?_mapOf]
  · next hkey =>
    have hnone : (due.filter fun m => decide (m.subject = k.subject key)) = [] := by
      refine List.filter_eq_nil_iff.2 fun m hm hsubject => hkey ?_
      have hm := hreads.reflects.mem_matches m hm
      rwa [of_decide_eq_true hsubject, hmatches] at hm
    rw [hnone]
    rfl

/-- A bucket in memory that keeps one revision of a key. -/
def smallSettings : KeyValueSettings := { bucket := "b", storage := .memory }

/-- The first bucket of a broker with these settings. -/
def smallBucket : KeyValueBucket := ⟨"b", 0⟩

/-- The bucket is created. -/
def created : Broker :=
  ((Broker.openStream
    { name := KeyValueSettings.streamName "b"
      subjects := [KeyValueSettings.keyPrefix "b" ++ ">"]
      storage := .memory
      discard := .new
      maxMessagesPerSubject := some 1 }).run
    (.start {} 0 Stream.epochClock Stream.blankBackend)).2

/-- The message of an operation is published. -/
def publishing (op : KeyOp) : StreamOp := .publish 8 {} (op.message smallBucket)

/-- What an operation does to the stream of the bucket. -/
def wrote (b : Broker) (op : StreamOp) : Broker := (Broker.onStream 0 (op.run b.clock) b).2

/-- A key is written before the bucket is watched. -/
def noted : Broker := wrote created (publishing (.put "a" [1]))

/-- The feed that is then opened. -/
def noticed : Feed where
  stream := 0
  pattern := "$KV.b.>"
  snapshot := [((KeyOp.put "a" [1]).message smallBucket).stored 1 Stream.epochClock.wall.toMicro]
  high := 1
  position := 1
  capacity := 1024

/-- Then another key is written. -/
def notedMore : Broker := wrote (Broker.evict 0 noted).2 (publishing (.put "b" [2]))

/-- The first key is marked as purged. -/
def marked : Broker := wrote notedMore (publishing (.purge "a"))

/-- It is cut down to the mark. -/
def purged : Broker := wrote marked (.purge { filter := some "$KV.b.a", keep := some 1 })

/-- Who watches knows the value of the other key only. -/
theorem converges_purged : ∃ seen read,
    smallBucket.Watching smallSettings ">" ((purged, noticed) :: seen) read ∧
      (∀ p ∈ (purged, noticed) :: seen, p.1.KeepsUp p.2) ∧
      KeyEntry.replay (read ++ (purged.drain noticed smallBucket.entryOf? none).1) "a" = none ∧
      KeyEntry.replay (read ++ (purged.drain noticed smallBucket.entryOf? none).1) "b" =
        some ([2], 2) := by
  have hstarted := Broker.History.started {} 0 Stream.blankBackend
    (show Stream.epochClock.IsDated from rfl)
  have hcreated : Broker.History (created :: _) := hstarted.step (.opened _)
  have history : Broker.History (noted :: _) := hcreated.step (@Broker.Step.operated created 0
    created.nextId (publishing (.put "a" [1])) (fun _ _ => trivial) (Nat.le_refl _)
    (by decide +kernel))
  have hlegible : ∀ t ∈ noted :: created :: [Broker.start {} 0 Stream.epochClock
      Stream.blankBackend], t.backend.IsLegible := by
    simp only [List.forall_mem_cons]
    exact ⟨Backend.isLegible_of_isBlank (by decide +kernel),
      Backend.isLegible_of_isBlank (by decide +kernel),
      Backend.isLegible_of_isBlank (by decide +kernel), fun t ht => by cases ht⟩
  have hopen {b : Broker} {s : Stream} (hs : s ∈ b.streams)
      (hall : ∀ s ∈ b.streams, s.id = 0 ∧ smallSettings.streamSettings = .ok s.settings) :
      smallBucket.IsOpen smallSettings b s := ⟨hs, (hall s hs).1, rfl, rfl, (hall s hs).2⟩
  obtain ⟨s, hs⟩ := List.exists_mem_of_ne_nil noted.streams (by decide +kernel)
  obtain ⟨t, ht⟩ := List.exists_mem_of_ne_nil (Broker.evict 0 noted).2.streams (by decide +kernel)
  -- What the feed begins with is found by a scan, which can be computed.
  have hx := history.sound (fun t ht => hlegible t (List.mem_cons_of_mem _ ht)) s
    (List.mem_append_left _ hs)
  have hfeed : Feed.start s "$KV.b.>" .lastPerSubject noted.settings.watchBuffer = noticed := by
    rw [Feed.start, Stream.snapshot_eq _ fun _ => hx]
    exact (by decide +kernel : ∀ s ∈ noted.streams, (⟨s.id, "$KV.b.>",
      s.index.selected "$KV.b.>" .lastPerSubject, s.index.lastSeq, s.events.length,
      Feed.ringSize noted.settings.watchBuffer⟩ : Feed) = noticed) s hs
  have hwatch : (smallBucket.watch ">").run noted = _ :=
    (hopen hs (by decide +kernel)).run_watch history.staffed (by decide +kernel)
      (by decide +kernel)
  rw [show smallBucket.subject ">" = "$KV.b.>" from rfl, hfeed] at hwatch
  have hmove {b : Broker} {op : StreamOp} (hop : smallBucket.Writes op)
      (hreply : (Broker.onStream 0 (op.run b.clock) b).1 ≠ .error .numbersExhausted) :
      smallBucket.Move b (wrote b op) := .wrote hop hreply
  have hwatching : smallBucket.Watching smallSettings ">" [(purged, noticed), (marked, noticed),
      (notedMore, noticed), ((Broker.evict 0 noted).2, noticed)] [] :=
    (((Watching.opened history hlegible hwatch (hopen ht (by decide +kernel))).moved
      (hmove (.publish (.put "b" [2]) (by decide +kernel) 8 {}) (by decide +kernel))).moved
      (hmove (.publish (.purge "a") (by decide +kernel) 8 {}) (by decide +kernel))).moved
      (hmove (.cut "a" (by decide +kernel)) (by decide +kernel))
  have hkeeps : ∀ p ∈ [(purged, noticed), (marked, noticed), (notedMore, noticed),
      ((Broker.evict 0 noted).2, noticed)], p.1.KeepsUp p.2 := by decide +kernel
  obtain ⟨u, hu, hreplay⟩ := hwatching.converges hkeeps
  have hcurrent := (by decide +kernel : ∀ u ∈ purged.streams,
    (smallBucket.mapOf u.index).current? "a" = none ∧
      (smallBucket.mapOf u.index).current? "b" = some ([2], 2)) u hu.mem
  exact ⟨_, _, hwatching, hkeeps, (hreplay "a").trans hcurrent.1, (hreplay "b").trans hcurrent.2⟩

end KeyValueBucket

end StreamBroker
