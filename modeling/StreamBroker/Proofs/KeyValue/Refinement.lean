import StreamBroker.Proofs.KeyValue.Held

/-!
# What operations do to the map of a bucket

An operation on a bucket is one message with an expectation, and a lookup when a key is created for
which there are revisions already, and a cut when a key is purged.  Put together they do to the map
that the bucket stands for what the operation is to do to a map, and what is looked up is said of
the map.

## Main definitions

* `KeyOp.Fits`: an operation whose key and value can be stored

## Main results

* `KeyValueBucket.Held.run_eq`: an operation does to the map what it is to do
* `KeyValueBucket.Held.run_entry`, `KeyValueBucket.Held.run_get`,
  `KeyValueBucket.Held.run_history`, `KeyValueBucket.Held.run_keys`: what is looked up
-/

namespace StreamBroker

/-! ## Operations -/

namespace KeyOp

open KeyValueBucket

variable {k : KeyValueBucket} {op : KeyOp} {b : Broker}

/-- The message that an operation publishes. -/
def message (k : KeyValueBucket) : KeyOp → Message
  | put key value | create key value | update key value _ => k.valueMessage key value
  | delete key => k.markerMessage key deleteMarker
  | purge key => k.markerMessage key purgeMarker

theorem message_subject (k : KeyValueBucket) (op : KeyOp) :
    (op.message k).subject = k.subject op.key := by
  cases op <;> rfl

theorem message_payload (k : KeyValueBucket) (op : KeyOp) : (op.message k).payload = op.value := by
  cases op <;> rfl

/-- The message of an operation is the revision that it is to write. -/
theorem revisionOf_message (M : KeyMap) (now : Timestamp) (op : KeyOp) :
    k.revisionOf op.key ((op.message k).stored (M.last + 1) now) = M.written k.name now op := by
  cases op <;> rfl

/-- The key of an operation is valid, and its key and its value can be stored. -/
structure Fits (op : KeyOp) (k : KeyValueBucket) (b : Broker) : Prop where
  /-- The key is valid. -/
  checkKey_eq : checkKey op.key = .ok ()
  /-- The subject of the key is short enough for an entry. -/
  subject_le : (k.subject op.key).utf8ByteSize ≤ Entry.longestText
  /-- The value is short enough for the broker. -/
  value_le : op.value.length ≤ b.settings.maxPayload
  /-- The value is short enough for an entry. -/
  payload_le : op.value.length ≤ Entry.longestPayload

/-- The message of an operation that fits has a binary form. -/
theorem Fits.entry (h : op.Fits k b) (n : Nat) (now : Timestamp) :
    Entry.Fits ((op.message k).stored n now) where
  subject_le := Nat.le_trans (Nat.le_of_eq (congrArg _ (message_subject k op))) h.subject_le
  count_le := by
    cases op <;> simp [message, valueMessage, markerMessage, Message.stored, Entry.longestText]
  headers := by
    cases op with
    | delete key =>
      intro e he
      rw [List.mem_singleton.1 he]
      exact ⟨fun h => absurd rfl h, by decide⟩
    | purge key =>
      intro e he
      rw [List.mem_singleton.1 he]
      exact ⟨fun h => absurd rfl h, by decide⟩
    | _ =>
      intro e he
      cases he
  payload_le := Nat.le_trans (Nat.le_of_eq (congrArg _ (message_payload k op))) h.payload_le

end KeyOp

namespace KeyValueBucket

variable {k : KeyValueBucket} {settings : KeyValueSettings} {b b' : Broker} {s : Stream}
  {key : String} {reply : Except Error Nat}

/-- The keys that have a value, in the order of the messages. -/
def liveKeys (k : KeyValueBucket) (x : Index) : List String :=
  (((x.newestMatching (k.subject ">")).filterMap k.entryOf?).filter fun e =>
    decide (e.operation = .put)).map KeyEntry.key

namespace Held

/-! ## Reading -/

/-- The newest revision of a key is looked up. -/
theorem run_entry (h : k.Held settings b s) (hkey : checkKey key = .ok ()) :
    ∃ b', (k.entry key).run b = (.ok ((k.mapOf s.index).newest? key), b') ∧
      b.Evolves s b' s := by
  obtain ⟨b', hlast, hevolves⟩ :=
    h.hosts.run_lastMessage (checkSubject_subject h.checkBucket_name hkey)
  refine ⟨b', ?_, hevolves⟩
  rw [h.id_eq] at hlast
  rw [entry, run_check_bind hkey, newest?_mapOf]
  cases hnewest : (s.index.ofSubject (k.subject key)).getLast? with
  | none =>
    simp only [hnewest] at hlast
    rw [Action.bind_ok (run_attempt hlast fun h => by cases h)]
    rfl
  | some m =>
    simp only [hnewest] at hlast
    rw [Action.bind_ok (run_attempt hlast fun h => by cases h)]
    have hm := h.hosts.sound.coherent.mem_ofSubject_iff.1 (List.mem_of_getLast? hnewest)
    simp only [entryOf?_eq hm.2]
    rfl

/-- The value of a key is looked up. -/
theorem run_get (h : k.Held settings b s) (hkey : checkKey key = .ok ()) :
    ∃ b', (k.get key).run b = (.ok ((k.mapOf s.index).value? key), b') ∧ b.Evolves s b' s := by
  obtain ⟨b', hentry, hevolves⟩ := h.run_entry hkey
  refine ⟨b', ?_, hevolves⟩
  rw [get, Action.bind_ok hentry]
  rfl

/-- The revisions of a key are looked up. -/
theorem run_history (h : k.Held settings b s) (hkey : checkKey key = .ok ()) :
    ∃ b', (k.history key).run b =
        (if (k.mapOf s.index).revisions key = [] then .error (.keyNotFound key k.name)
          else .ok ((k.mapOf s.index).revisions key), b') ∧ b.Evolves s b' s := by
  obtain ⟨b', hmatching, hevolves⟩ :=
    h.hosts.run_matchingMessages (checkSubject_subject h.checkBucket_name hkey)
  refine ⟨b', ?_, hevolves⟩
  rw [h.id_eq] at hmatching
  have hentries : (s.index.ofSubject (k.subject key)).filterMap k.entryOf? =
      (k.mapOf s.index).revisions key := by
    refine (List.filterMap_congr fun m hm => ?_).trans (congrFun List.filterMap_eq_map _)
    exact entryOf?_eq (h.hosts.sound.coherent.mem_ofSubject_iff.1 hm).2
  rw [history, run_check_bind hkey, Action.bind_ok hmatching]
  simp only [hentries, List.isEmpty_iff]
  split <;> rfl

/-! ## Operations -/

/-- A revision is written for a key, or the revision that is expected is not the newest. -/
theorem write_message (h : k.Held settings b s) {op : KeyOp} (hop : op.Fits k b)
    {expected : Option Nat} (hrun : (k.write (op.message k) expected).run b = (reply, b'))
    (hreply : reply ≠ .error .numbersExhausted) :
    ∃ s', k.Held settings b' s' ∧ b.Evolves s b' s' ∧
      ((∃ r, r ∈ expected ∧ r ≠ (k.mapOf s.index).newestRevision op.key ∧
          reply = .error (.wrongLastSubjectSequence r (k.subject op.key)
            ((k.mapOf s.index).newestRevision op.key)) ∧
          k.mapOf s'.index = k.mapOf s.index) ∨
        ((∀ r ∈ expected, r = (k.mapOf s.index).newestRevision op.key) ∧
          reply = .ok ((k.mapOf s.index).last + 1) ∧
          k.mapOf s'.index = (k.mapOf s.index).extend settings.history
            ((k.mapOf s.index).written k.name b.clock.wall.toMicro op))) := by
  have hm := KeyOp.message_subject k op
  have hsize : (op.message k).payload.length ≤ b.settings.maxPayload :=
    Nat.le_trans (Nat.le_of_eq (congrArg _ (KeyOp.message_payload k op))) hop.value_le
  have hcases := h.write_cases hop.checkKey_eq hm hsize (fun n => hop.entry n _) hrun hreply
  rw [hm] at hcases
  rwa [← KeyOp.revisionOf_message]

/-- An operation that writes at once does to the map what it is to do, if it expects what the map
is asked for. -/
theorem apply_of_write (h : k.Held settings b s) {op : KeyOp} (hop : op.Fits k b)
    {expected : Option Nat} (hleaves : op.leaves settings.history = settings.history)
    (hrefusal : (k.mapOf s.index).refusal? k.name op =
      (expected.filter fun r => decide (r ≠ (k.mapOf s.index).newestRevision op.key)).map fun r =>
        .wrongLastSubjectSequence r (k.subject op.key) ((k.mapOf s.index).newestRevision op.key))
    (hrun : (k.write (op.message k) expected).run b = (reply, b'))
    (hreply : reply ≠ .error .numbersExhausted) :
    ∃ s', k.Held settings b' s' ∧ b.Evolves s b' s' ∧
      (k.mapOf s.index).apply k.name settings.history b.clock.wall.toMicro op =
        (reply, k.mapOf s'.index) := by
  obtain ⟨s', hheld, hevolves, ⟨r, hr, hne, rfl, hmap⟩ | ⟨hall, rfl, hmap⟩⟩ :=
    h.write_message hop hrun hreply
  · refine ⟨s', hheld, hevolves, ?_⟩
    rw [Option.mem_def.1 hr, Option.filter_some, if_pos (decide_eq_true hne)] at hrefusal
    rw [KeyMap.apply, hrefusal, hmap]
    rfl
  · refine ⟨s', hheld, hevolves, ?_⟩
    -- Nothing was expected, or the newest revision was.
    have hnone : (expected.filter fun r =>
        decide (r ≠ (k.mapOf s.index).newestRevision op.key)) = none :=
      Option.filter_eq_none_iff.2 fun r hr hne => of_decide_eq_true hne (hall r hr)
    rw [hnone] at hrefusal
    rw [KeyMap.apply, hrefusal, hmap, hleaves]
    rfl

theorem run_put (h : k.Held settings b s) {value : Bytes} (hop : (KeyOp.put key value).Fits k b)
    (hrun : (k.put key value).run b = (reply, b')) (hreply : reply ≠ .error .numbersExhausted) :
    ∃ s', k.Held settings b' s' ∧ b.Evolves s b' s' ∧
      (k.mapOf s.index).apply k.name settings.history b.clock.wall.toMicro (.put key value) =
        (reply, k.mapOf s'.index) := by
  have hkey : checkKey key = .ok () := hop.checkKey_eq
  rw [put, run_check_bind hkey] at hrun
  exact h.apply_of_write hop rfl rfl hrun hreply

theorem run_update (h : k.Held settings b s) {value : Bytes} {revision : Nat}
    (hop : (KeyOp.update key value revision).Fits k b)
    (hrun : (k.update key value revision).run b = (reply, b'))
    (hreply : reply ≠ .error .numbersExhausted) :
    ∃ s', k.Held settings b' s' ∧ b.Evolves s b' s' ∧
      (k.mapOf s.index).apply k.name settings.history b.clock.wall.toMicro
        (.update key value revision) = (reply, k.mapOf s'.index) := by
  have hkey : checkKey key = .ok () := hop.checkKey_eq
  rw [update, run_check_bind hkey] at hrun
  refine h.apply_of_write hop rfl ?_ hrun hreply
  rw [KeyMap.refusal?, Option.filter_some]
  by_cases hr : revision = (k.mapOf s.index).newestRevision key
  · simp [hr, KeyOp.key]
  · simp [hr, KeyOp.key, subject]

theorem run_delete (h : k.Held settings b s) (hop : (KeyOp.delete key).Fits k b)
    (hrun : (k.delete key).run b = (reply, b')) (hreply : reply ≠ .error .numbersExhausted) :
    ∃ s', k.Held settings b' s' ∧ b.Evolves s b' s' ∧
      (k.mapOf s.index).apply k.name settings.history b.clock.wall.toMicro (.delete key) =
        (reply, k.mapOf s'.index) := by
  have hkey : checkKey key = .ok () := hop.checkKey_eq
  rw [delete, run_check_bind hkey] at hrun
  exact h.apply_of_write hop rfl rfl hrun hreply

/-- A purge writes its marker, and then cuts the key down to it. -/
theorem run_purge (h : k.Held settings b s) (hop : (KeyOp.purge key).Fits k b)
    (hrun : (k.purge key).run b = (reply, b')) (hreply : reply ≠ .error .numbersExhausted) :
    ∃ s', k.Held settings b' s' ∧ b.Evolves s b' s' ∧
      (k.mapOf s.index).apply k.name settings.history b.clock.wall.toMicro (.purge key) =
        (reply, k.mapOf s'.index) := by
  have hkey : checkKey key = .ok () := hop.checkKey_eq
  rw [purge, run_check_bind hkey] at hrun
  rcases action_bind_cases hrun with ⟨e, hwrite, rfl⟩ | ⟨n, b₁, hwrite, hrun⟩
  · obtain ⟨s', -, -, ⟨r, hr, -⟩ | ⟨-, he, -⟩⟩ := h.write_message hop hwrite hreply
    · cases hr
    · cases he
  obtain ⟨s₁, hheld, hevolves, ⟨r, hr, -⟩ | ⟨-, hn, hmap⟩⟩ :=
    h.write_message hop hwrite fun h => by cases h
  · cases hr
  cases hn
  have hsubject := checkSubject_subject h.checkBucket_name hkey
  rw [← hheld.id_eq] at hrun
  -- The marker is there, and what is under it is cut without a refusal.
  rcases action_bind_cases hrun with ⟨e, hpurge, rfl⟩ | ⟨m, b₂, hpurge, hrun⟩
  · obtain ⟨s₂, -, ⟨n, hn⟩, -⟩ := hheld.hosts.purge_cases hsubject hpurge hreply
    cases hn
  obtain ⟨s₂, hevolves', -, hindex⟩ :=
    hheld.hosts.purge_cases hsubject hpurge fun h => by cases h
  cases hrun
  have hx := hheld.hosts.sound.coherent
  refine ⟨s₂, hheld.evolve hevolves' fun m hm => .inl ?_, hevolves.trans hevolves', ?_⟩
  · rw [hindex] at hm
    exact ((Retention.removes_trimSubject _ _ _).loses.toList_sublist hx.toFiled).subset hm
  · refine Prod.ext rfl (KeyMap.ext ?_ (funext fun other => ?_))
    · rw [hindex]
      show (k.mapOf s.index).last + 1 = Index.lastSeq _
      rw [(Retention.removes_trimSubject _ _ _).loses.lastSeq_eq]
      exact (congrArg KeyMap.last hmap).symm
    · -- The marker is the newest, so a cut to one leaves it.
      have htrim := mapOf_trimSubject (k := k) hx.toTallied key 1 other
      rw [hindex]
      show _ = (k.mapOf (Retention.trimSubject 1 s₁.index (k.subject key)).2).revisions other
      rw [htrim, hmap]
      exact KeyMap.revisions_extend_one h.one_le_history (k.mapOf s.index) _ other

/-- The newest revision of a key has a number from one on. -/
theorem newestRevision_eq_zero_iff (h : k.Held settings b s) :
    (k.mapOf s.index).newestRevision key = 0 ↔ (k.mapOf s.index).newest? key = none := by
  rw [KeyMap.newestRevision, newest?_mapOf]
  cases hnewest : (s.index.ofSubject (k.subject key)).getLast? with
  | none => simp
  | some m =>
    have hm := h.hosts.sound.coherent.mem_ofSubject_iff.1 (List.mem_of_getLast? hnewest)
    have hpos := h.hosts.sound.pos hm.1
    simp only [Option.map_some, Option.getD_some, revisionOf, reduceCtorEq, iff_false]
    exact Nat.ne_of_gt hpos

/-- Where a key has revisions, a creation is decided by the newest of them: a value refuses it, a
deletion is what it follows. -/
theorem run_replaceDeleted (h : k.Held settings b s) {value : Bytes}
    (hop : (KeyOp.create key value).Fits k b) {newest : KeyEntry}
    (hnewest : (k.mapOf s.index).newest? key = some newest)
    (hrun : (k.replaceDeleted key value).run b = (reply, b'))
    (hreply : reply ≠ .error .numbersExhausted) :
    ∃ s', k.Held settings b' s' ∧ b.Evolves s b' s' ∧
      (k.mapOf s.index).apply k.name settings.history b.clock.wall.toMicro (.create key value) =
        (reply, k.mapOf s'.index) := by
  have hkey : checkKey key = .ok () := hop.checkKey_eq
  obtain ⟨b₁, hentry, hevolves⟩ := h.run_entry hkey
  have hheld := h.evolve hevolves fun m hm => .inl hm
  rw [hnewest] at hentry
  rw [replaceDeleted, Action.bind_ok hentry] at hrun
  dsimp only at hrun
  split at hrun
  · next hput =>
    cases hrun
    refine ⟨s, hheld, hevolves, ?_⟩
    have hvalue : ((k.mapOf s.index).value? key).isSome = true := by
      rw [KeyMap.value?, hnewest, Option.filter_some, if_pos (decide_eq_true hput)]
      rfl
    rw [KeyMap.apply, KeyMap.refusal?, if_pos hvalue]
  · next hput =>
    have hop' : (KeyOp.update key value newest.revision).Fits k b₁ :=
      ⟨hkey, hop.subject_le, hevolves.limits_eq ▸ hop.value_le, hop.payload_le⟩
    obtain ⟨s', hheld', hevolves', happly⟩ := hheld.run_update hop' hrun hreply
    refine ⟨s', hheld', hevolves.trans hevolves', ?_⟩
    have hvalue : (k.mapOf s.index).value? key = none := by
      rw [KeyMap.value?, hnewest, Option.filter_some, if_neg (by simpa using hput)]
      rfl
    have hrevision : (k.mapOf s.index).newestRevision key = newest.revision := by
      rw [KeyMap.newestRevision, hnewest]
      rfl
    -- To the map a creation that nothing refuses is the update that expects the deletion.
    rw [hevolves.clock_eq] at happly
    rw [← happly, KeyMap.apply, KeyMap.refusal?, hvalue, KeyMap.apply, KeyMap.refusal?,
      if_pos hrevision.symm]
    rfl

/-- A creation expects that the key has no revisions, and if it has, that the newest is a
deletion. -/
theorem run_create (h : k.Held settings b s) {value : Bytes}
    (hop : (KeyOp.create key value).Fits k b)
    (hrun : (k.create key value).run b = (reply, b')) (hreply : reply ≠ .error .numbersExhausted) :
    ∃ s', k.Held settings b' s' ∧ b.Evolves s b' s' ∧
      (k.mapOf s.index).apply k.name settings.history b.clock.wall.toMicro (.create key value) =
        (reply, k.mapOf s'.index) := by
  have hkey : checkKey key = .ok () := hop.checkKey_eq
  rw [create, run_check_bind hkey] at hrun
  rcases action_bind_cases hrun with ⟨e, hattempt, rfl⟩ | ⟨r, b₁, hattempt, hrun⟩
  · rcases action_attempt_cases hattempt with ⟨he, -⟩ | ⟨r, he, -⟩
    · cases he
      exact absurd rfl hreply
    · cases he
  rcases action_attempt_cases hattempt with ⟨he, -⟩ | ⟨r', hr, hwrite, hr'⟩
  · cases he
  cases hr
  obtain ⟨s₁, hheld, hevolves, ⟨n, hn, hne, rfl, hmap⟩ | ⟨hall, rfl, hmap⟩⟩ :=
    h.write_message hop hwrite hr'
  · -- The key has revisions, so the attempt left the map as it was.
    have hsome : (k.mapOf s.index).newest? key ≠ none := by
      cases hn
      exact fun hnone => hne (h.newestRevision_eq_zero_iff.2 hnone).symm
    obtain ⟨newest, hnewest⟩ := Option.ne_none_iff_exists'.1 hsome
    have hop₁ : (KeyOp.create key value).Fits k b₁ :=
      ⟨hkey, hop.subject_le, hevolves.limits_eq ▸ hop.value_le, hop.payload_le⟩
    obtain ⟨s', hheld', hevolves', happly⟩ :=
      hheld.run_replaceDeleted hop₁ (hmap ▸ hnewest) hrun hreply
    rw [hmap, hevolves.clock_eq] at happly
    exact ⟨s', hheld', hevolves.trans hevolves', happly⟩
  · have hnone : (k.mapOf s.index).newest? key = none :=
      h.newestRevision_eq_zero_iff.1 (hall 0 rfl).symm
    cases hrun
    refine ⟨s₁, hheld, hevolves, ?_⟩
    rw [KeyMap.apply, KeyMap.refusal?, KeyMap.value?, hnone, hmap]
    rfl

/-- **An operation does to the map what it is to do.** -/
theorem run_eq (h : k.Held settings b s) {op : KeyOp} (hop : op.Fits k b)
    (hrun : (op.run k).run b = (reply, b')) (hreply : reply ≠ .error .numbersExhausted) :
    ∃ s', k.Held settings b' s' ∧
      (k.mapOf s.index).apply k.name settings.history b.clock.wall.toMicro op =
        (reply, k.mapOf s'.index) := by
  cases op with
  | put key value => exact (h.run_put hop hrun hreply).imp fun _ h => ⟨h.1, h.2.2⟩
  | create key value => exact (h.run_create hop hrun hreply).imp fun _ h => ⟨h.1, h.2.2⟩
  | update key value revision => exact (h.run_update hop hrun hreply).imp fun _ h => ⟨h.1, h.2.2⟩
  | delete key => exact (h.run_delete hop hrun hreply).imp fun _ h => ⟨h.1, h.2.2⟩
  | purge key => exact (h.run_purge hop hrun hreply).imp fun _ h => ⟨h.1, h.2.2⟩

/-! ## Keys -/

/-- The newest message of a subject of keys, and no other, is the newest revision of its key. -/
theorem mem_newestMatching_iff (h : k.Held settings b s) (e : KeyEntry) :
    (∃ m ∈ s.index.newestMatching (k.subject ">"), k.entryOf? m = some e) ↔
      (k.mapOf s.index).newest? e.key = some e := by
  have hx := h.hosts.sound.coherent.toTallied
  have hmatches : subjectMatches (k.subject e.key) (k.subject ">") = true := by
    rw [subject_eq k ">", subjectMatches_behind_iff (checkSubject_front h.checkBucket_name)]
    exact ⟨e.key, subject_eq k e.key⟩
  simp only [hx.mem_newestMatching_iff, entryOf?_eq_some_iff, newest?_mapOf, Option.map_eq_some_iff]
  constructor
  · rintro ⟨m, ⟨-, hlast⟩, hsubject, he⟩
    exact ⟨m, hsubject ▸ hlast, he⟩
  · rintro ⟨m, hlast, he⟩
    have hsubject := (hx.mem_ofSubject_iff.1 (List.mem_of_getLast? hlast)).2
    exact ⟨m, ⟨hsubject ▸ hmatches, hsubject ▸ hlast⟩, hsubject, he⟩

theorem mem_liveKeys_iff (h : k.Held settings b s) :
    key ∈ k.liveKeys s.index ↔ ((k.mapOf s.index).value? key).isSome = true := by
  rw [KeyMap.value?, Option.isSome_map, liveKeys]
  simp only [List.mem_map, List.mem_filter, List.mem_filterMap, h.mem_newestMatching_iff]
  constructor
  · rintro ⟨e, ⟨he, hput⟩, rfl⟩
    rw [he, Option.filter_some, if_pos hput]
    rfl
  · intro hsome
    obtain ⟨e, he⟩ := Option.isSome_iff_exists.1 hsome
    obtain ⟨hnewest, hput⟩ := Option.filter_eq_some_iff.1 he
    have hkey : e.key = key := by
      rw [newest?_mapOf, Option.map_eq_some_iff] at hnewest
      obtain ⟨m, -, rfl⟩ := hnewest
      rfl
    exact ⟨e, ⟨hkey.symm ▸ hnewest, hput⟩, hkey⟩

/-- The messages are of different subjects, so the keys are different. -/
theorem nodup_liveKeys (h : k.Held settings b s) : (k.liveKeys s.index).Nodup := by
  have hx := h.hosts.sound.coherent.toTallied
  have hapart : (s.index.newestMatching (k.subject ">")).Pairwise fun m w =>
      m.sequence < w.sequence := (hx.pairwise_toList.filter _).filter _
  refine List.pairwise_map.2 (List.Pairwise.filter _ (List.pairwise_filterMap.2 ?_))
  refine List.Pairwise.imp_of_mem (fun {m w} hm hw hlt d hd e he heq => ?_) hapart
  have hm := ((hx.mem_newestMatching_iff _).1 hm).2
  have hw := ((hx.mem_newestMatching_iff _).1 hw).2
  rw [(entryOf?_eq_some_iff.1 hd).1, heq] at hm
  rw [(entryOf?_eq_some_iff.1 he).1, hm] at hw
  exact Nat.ne_of_lt hlt (congrArg _ (Option.some.inj hw))

/-- The keys that have a value are listed in order. -/
theorem run_keys (h : k.Held settings b s) :
    ∃ keys b', k.keys.run b = (.ok keys, b') ∧ b.Evolves s b' s ∧ keys.Pairwise (· < ·) ∧
      ∀ key, key ∈ keys ↔ ((k.mapOf s.index).value? key).isSome = true := by
  have hpattern : checkPattern (k.subject ">") = .ok () := by
    rw [subject_eq]
    exact checkPattern_behind (checkSubject_front h.checkBucket_name)
  obtain ⟨b', hlast, hevolves⟩ := h.hosts.run_lastPerSubject hpattern
  rw [h.id_eq] at hlast
  have hrun : k.keys.run b =
      (.ok ((k.liveKeys s.index).mergeSort fun d e => decide (d ≤ e)), b') := by
    rw [keys, Action.bind_ok hlast]
    rfl
  refine ⟨_, b', hrun, hevolves, ?_, fun key => ?_⟩
  · -- No key is listed twice, so the order is strict.
    have hnodup := (List.mergeSort_perm (k.liveKeys s.index) fun d e => decide (d ≤ e)).nodup_iff.2
      h.nodup_liveKeys
    refine ((List.pairwise_mergeSort ?_ ?_ _).and hnodup).imp fun {d e} hde => ?_
    · simp only [decide_eq_true_eq]
      exact fun _ _ _ => String.le_trans
    · simp only [Bool.or_eq_true, decide_eq_true_eq]
      exact String.le_total
    · exact String.not_le.1 fun hle => hde.2 (String.le_antisymm (of_decide_eq_true hde.1) hle)
  · rw [List.mem_mergeSort, h.mem_liveKeys_iff]

end Held

end KeyValueBucket

end StreamBroker
