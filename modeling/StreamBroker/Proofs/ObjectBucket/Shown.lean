import StreamBroker.Proofs.Broker.Routing
import StreamBroker.Proofs.Index.Trimmed
import StreamBroker.Proofs.ObjectBucket.Description
import StreamBroker.Proofs.ObjectBucket.Map
import StreamBroker.Proofs.Text.Base64

/-!
# What an index shows of a bucket

The descriptions of a name and the chunks of a nuid are the messages of one subject each, and no two
names, no two nuids, and no name and no nuid have the same.  So a message changes what is shown of
one name or one nuid, and so does cutting a subject down.

## Main definitions

* `ObjectBucket.viewOf`: what an index shows
* `ObjectBucket.Stocked`: an index has nothing but chunks and descriptions

## Main results

* `ObjectBucket.viewOf_commit_description`, `ObjectBucket.viewOf_commit_chunk`: messages come
* `ObjectBucket.viewOf_trim_descriptions`, `ObjectBucket.viewOf_trim_chunks`: messages go
* `ObjectBucket.Stocked.mem_listed_iff`: what is listed is described newest and not deleted
-/

namespace StreamBroker

namespace ObjectBucket

variable {o : ObjectBucket} {object nuid : String} {m : StoredMessage} {x : Index}
  {d : ObjectDescription}

/-! ## Subjects -/

theorem chunkSubject_eq (o : ObjectBucket) (nuid : String) :
    o.chunkSubject nuid = "$O" ++ "." ++ o.name ++ "." ++ "C" ++ "." ++ nuid := by
  simp only [chunkSubject, ObjectBucketSettings.chunkPrefix, String.append_assoc]
  rfl

theorem behindDescriptions_eq (o : ObjectBucket) (text : String) :
    ObjectBucketSettings.descriptionPrefix o.name ++ text =
      "$O" ++ "." ++ o.name ++ "." ++ "M" ++ "." ++ text := by
  simp only [ObjectBucketSettings.descriptionPrefix, String.append_assoc]
  rfl

/-- The part of a subject in front of what tells it apart is a subject. -/
theorem checkSubject_front (hname : checkBucket o.name = .ok ()) {kind : String}
    (hkind : checkSubject kind = .ok ()) :
    checkSubject ("$O" ++ "." ++ o.name ++ "." ++ kind) = .ok () := by
  obtain ⟨htokens, hliteral⟩ := tokens_of_checkBucket hname
  rw [checkSubject_eq_ok_iff, tokens_append_dot, tokens_append_dot, htokens]
  intro t ht
  simp only [List.mem_append, List.mem_singleton] at ht
  rcases ht with (ht | rfl) | ht
  · rw [List.mem_singleton.1 ht]
    rfl
  · exact hliteral
  · exact checkSubject_eq_ok_iff.1 hkind t ht

theorem checkSubject_descriptionSubject (hname : checkBucket o.name = .ok ())
    (hobject : object ≠ "") : checkSubject (o.descriptionSubject object) = .ok () := by
  rw [descriptionSubject, behindDescriptions_eq]
  exact checkSubject_behind (checkSubject_front hname rfl)
    (Base64.isKeyToken_encode (Bytes.ofText_ne_nil hobject))

theorem checkSubject_chunkSubject (hname : checkBucket o.name = .ok ())
    (hnuid : isKeyToken nuid.toList = true) : checkSubject (o.chunkSubject nuid) = .ok () := by
  rw [chunkSubject_eq]
  exact checkSubject_behind (checkSubject_front hname rfl) hnuid

theorem checkPattern_allDescriptions (hname : checkBucket o.name = .ok ()) :
    checkPattern o.allDescriptions = .ok () := by
  rw [allDescriptions, behindDescriptions_eq]
  exact checkPattern_behind (checkSubject_front hname rfl)

/-- Nuids are known by the subjects of their chunks. -/
theorem chunkSubject_inj {other : String} :
    o.chunkSubject nuid = o.chunkSubject other ↔ nuid = other :=
  String.append_right_inj _

/-- Names are known by the subjects of their descriptions. -/
theorem descriptionSubject_inj {other : String} :
    o.descriptionSubject object = o.descriptionSubject other ↔ object = other :=
  ⟨fun h => Bytes.ofText_inj (Base64.encode_inj ((String.append_right_inj _).1 h)),
    congrArg o.descriptionSubject⟩

/-- Chunks and descriptions have different subjects. -/
theorem chunkSubject_ne (o : ObjectBucket) (nuid text : String) :
    o.chunkSubject nuid ≠ ObjectBucketSettings.descriptionPrefix o.name ++ text := by
  intro h
  rw [chunkSubject_eq, behindDescriptions_eq] at h
  simp only [String.append_assoc, String.append_right_inj] at h
  have hchars := congrArg String.toList h
  simp only [String.toList_append, show "C" = String.ofList ['C'] from rfl,
    show "M" = String.ofList ['M'] from rfl, String.toList_ofList, List.singleton_append] at hchars
  exact absurd (List.cons.inj hchars).1 (by decide)

theorem chunkSubject_ne_descriptionSubject (o : ObjectBucket) (nuid object : String) :
    o.chunkSubject nuid ≠ o.descriptionSubject object :=
  o.chunkSubject_ne nuid _

/-- Made-up names are tokens. -/
theorem isKeyToken_nameOf (b : Broker) (n : Nat) : isKeyToken (b.nameOf n).toList = true := by
  have hdigit : ∀ n < 16, isKeyChar (Bytes.hexDigit n) = true := by decide +kernel
  rw [Broker.nameOf, Bytes.toHex, String.toList_ofList, isKeyToken, Bool.and_eq_true,
    Bool.not_eq_true', List.isEmpty_eq_false_iff, List.all_eq_true]
  refine ⟨?_, fun c hc => ?_⟩
  · exact List.cons_ne_nil _ _
  · obtain ⟨b, -, hc⟩ := List.mem_flatMap.1 hc
    have hlt := b.toNat_lt
    simp only [List.mem_cons, List.not_mem_nil, or_false] at hc
    rcases hc with rfl | rfl
    · exact hdigit _ (by omega)
    · exact hdigit _ (by omega)

/-! ## What an index shows -/

/-- What an index shows of the objects of a bucket. -/
def viewOf (o : ObjectBucket) (x : Index) : ObjectView where
  newest object := (x.ofSubject (o.descriptionSubject object)).getLast?.bind descriptionOf?
  chunks nuid := (x.ofSubject (o.chunkSubject nuid)).map StoredMessage.payload

/-- A description that comes is the newest of its name. -/
theorem viewOf_commit_description (hx : x.Filed) (hm : x.lastSeq < m.sequence)
    (hsubject : m.subject = o.descriptionSubject d.name) (hd : descriptionOf? m = some d) :
    o.viewOf (x.commit m) = (o.viewOf x).describe d := by
  refine ObjectView.ext (funext fun object => ?_) (funext fun nuid => ?_)
  · simp only [viewOf, ObjectView.describe, Function.update_apply]
    split
    · next h =>
      rw [h, ← hsubject, Index.ofSubject_commit_self hx hm, List.getLast?_concat, Option.bind_some,
        hd]
    · next h =>
      have hne : o.descriptionSubject object ≠ m.subject := fun heq =>
        h (descriptionSubject_inj.1 (heq.trans hsubject))
      rw [Index.ofSubject_commit_of_ne hx hm hne]
  · have hne : o.chunkSubject nuid ≠ m.subject := hsubject ▸ o.chunkSubject_ne nuid _
    simp only [viewOf, ObjectView.describe, Index.ofSubject_commit_of_ne hx hm hne]

/-- A chunk that comes is the last of its nuid. -/
theorem viewOf_commit_chunk (hx : x.Filed) (hm : x.lastSeq < m.sequence)
    (hsubject : m.subject = o.chunkSubject nuid) :
    o.viewOf (x.commit m) = (o.viewOf x).write nuid [m.payload] := by
  refine ObjectView.ext (funext fun object => ?_) (funext fun other => ?_)
  · have hne : o.descriptionSubject object ≠ m.subject := hsubject ▸ (o.chunkSubject_ne nuid _).symm
    simp only [viewOf, ObjectView.write, Index.ofSubject_commit_of_ne hx hm hne]
  · simp only [viewOf, ObjectView.write, Function.update_apply]
    split
    · next h =>
      rw [h, ← hsubject, Index.ofSubject_commit_self hx hm, List.map_append]
      rfl
    · next h =>
      have hne : o.chunkSubject other ≠ m.subject := fun heq =>
        h (chunkSubject_inj.1 (heq.trans hsubject))
      rw [Index.ofSubject_commit_of_ne hx hm hne]

/-- The descriptions of a name go. -/
theorem viewOf_trim_descriptions (hx : x.Tallied) (object : String) :
    o.viewOf (Retention.trimSubject 0 x (o.descriptionSubject object)).2 =
      (o.viewOf x).forget object := by
  refine ObjectView.ext (funext fun other => ?_) (funext fun nuid => ?_)
  · simp only [viewOf, ObjectView.forget, Function.update_apply,
      Retention.ofSubject_trimSubject hx, descriptionSubject_inj]
    split
    · rw [List.rtake_zero]
      rfl
    · rfl
  · simp only [viewOf, ObjectView.forget, Retention.ofSubject_trimSubject hx]
    rw [if_neg (o.chunkSubject_ne_descriptionSubject nuid object)]

/-- Only the newest description of a name is shown. -/
theorem viewOf_trim_older (hx : x.Tallied) (object : String) :
    o.viewOf (Retention.trimSubject 1 x (o.descriptionSubject object)).2 = o.viewOf x := by
  refine ObjectView.ext (funext fun other => ?_) (funext fun nuid => ?_)
  · simp only [viewOf, Retention.ofSubject_trimSubject hx, descriptionSubject_inj]
    split
    · next h =>
      rw [h, List.rtake, List.getLast?_drop]
      split
      · next hle =>
        rw [List.eq_nil_of_length_eq_zero (show (x.ofSubject _).length = 0 by omega)]
        rfl
      · rfl
    · rfl
  · simp only [viewOf, Retention.ofSubject_trimSubject hx]
    rw [if_neg (o.chunkSubject_ne_descriptionSubject nuid object)]

/-- The chunks of a nuid go. -/
theorem viewOf_trim_chunks (hx : x.Tallied) (nuid : String) :
    o.viewOf (Retention.trimSubject 0 x (o.chunkSubject nuid)).2 = (o.viewOf x).drop nuid := by
  refine ObjectView.ext (funext fun object => ?_) (funext fun other => ?_)
  · simp only [viewOf, ObjectView.drop, Retention.ofSubject_trimSubject hx]
    rw [if_neg (o.chunkSubject_ne_descriptionSubject nuid object).symm]
  · simp only [viewOf, ObjectView.drop, Function.update_apply,
      Retention.ofSubject_trimSubject hx, chunkSubject_inj]
    split
    · rw [List.rtake_zero]
      rfl
    · rfl

/-! ## Indices of buckets -/

/-- The settings of the stream of a bucket. -/
theorem streamSettings_eq_ok {settings : ObjectBucketSettings} {stream : StreamSettings}
    (h : settings.streamSettings = .ok stream) :
    checkBucket settings.bucket = .ok () ∧
      stream =
        { name := ObjectBucketSettings.streamName settings.bucket
          description := settings.description
          subjects := [ObjectBucketSettings.chunkPrefix settings.bucket ++ ">",
            ObjectBucketSettings.descriptionPrefix settings.bucket ++ ">"]
          storage := settings.storage
          discard := .new
          maxAge := settings.maxAge
          maxBytes := settings.maxBytes } := by
  rw [ObjectBucketSettings.streamSettings] at h
  obtain ⟨⟨⟩, hbucket, h⟩ := except_bind_eq_ok.1 h
  cases h
  exact ⟨hbucket, rfl⟩

/-- A message is the description of an object, whose chunks have a subject. -/
structure IsDescription (o : ObjectBucket) (m : StoredMessage) (d : ObjectDescription) : Prop where
  /-- The description is read. -/
  descriptionOf_eq : descriptionOf? m = some d
  /-- The object has a name. -/
  name_ne : d.name ≠ ""
  /-- The message has the subject of the name. -/
  subject_eq : m.subject = o.descriptionSubject d.name
  /-- There is a subject for the chunks. -/
  checkSubject_eq : checkSubject (o.chunkSubject d.nuid) = .ok ()

/-- A message is a chunk, or the description of an object. -/
def IsOwn (o : ObjectBucket) (m : StoredMessage) : Prop :=
  (∃ nuid, m.subject = o.chunkSubject nuid) ∨ ∃ d, o.IsDescription m d

/-- An index has nothing but chunks and descriptions of a bucket. -/
structure Stocked (o : ObjectBucket) (x : Index) : Prop where
  /-- What is kept beside the messages is right. -/
  sound : x.Sound
  /-- The bucket has a name. -/
  checkBucket_name : checkBucket o.name = .ok ()
  /-- Every message is a chunk or a description. -/
  own : ∀ m ∈ x.toList, o.IsOwn m

/-- The descriptions of what exists, in the order of the messages. -/
def live (o : ObjectBucket) (x : Index) : List ObjectDescription :=
  ((x.newestMatching o.allDescriptions).filterMap descriptionOf?).filter fun d => !d.deleted

/-- The descriptions of what exists, in the order of the names. -/
def listed (o : ObjectBucket) (x : Index) : List ObjectDescription :=
  (live o x).mergeSort fun d e => decide (d.name ≤ e.name)

/-- The subjects of descriptions match their pattern. -/
theorem subjectMatches_iff (hname : checkBucket o.name = .ok ()) {subject : String} :
    subjectMatches subject o.allDescriptions = true ↔
      ∃ back, subject = ObjectBucketSettings.descriptionPrefix o.name ++ back := by
  rw [allDescriptions, behindDescriptions_eq,
    subjectMatches_behind_iff (checkSubject_front hname rfl)]
  simp only [behindDescriptions_eq]

/-- A message that has the subject of a description is one. -/
theorem IsOwn.isDescription (hm : o.IsOwn m) {back : String}
    (hsubject : m.subject = ObjectBucketSettings.descriptionPrefix o.name ++ back) :
    ∃ d, o.IsDescription m d :=
  hm.resolve_left fun ⟨nuid, hnuid⟩ => o.chunkSubject_ne nuid back (hnuid.symm.trans hsubject)

namespace Stocked

/-- The messages of a name describe objects of the name. -/
theorem exists_isDescription (h : o.Stocked x)
    (hm : m ∈ x.ofSubject (o.descriptionSubject object)) :
    ∃ d, o.IsDescription m d ∧ d.name = object := by
  obtain ⟨hmem, hsubject⟩ := List.mem_filter.1 hm
  have hsubject : m.subject = o.descriptionSubject object := of_decide_eq_true hsubject
  obtain ⟨d, hd⟩ := (h.own m hmem).isDescription hsubject
  exact ⟨d, hd, descriptionSubject_inj.1 (hd.subject_eq.symm.trans hsubject)⟩

/-- The newest description of a name is in a message of the name. -/
theorem newest_eq_some (h : o.Stocked x) (hd : d ∈ (o.viewOf x).newest object) :
    ∃ m, (x.ofSubject (o.descriptionSubject object)).getLast? = some m ∧ o.IsDescription m d ∧
      d.name = object := by
  obtain ⟨m, hlast, hm⟩ := Option.bind_eq_some_iff.1 hd
  obtain ⟨e, he, hname⟩ := h.exists_isDescription (List.mem_of_getLast? hlast)
  cases hm.symm.trans he.descriptionOf_eq
  exact ⟨m, hlast, he, hname⟩

/-- What is described newest has the name that it is found by, and its chunks have a subject. -/
theorem newest_spec (h : o.Stocked x) (hd : d ∈ (o.viewOf x).newest object) :
    object ≠ "" ∧ d.name = object ∧ checkSubject (o.chunkSubject d.nuid) = .ok () := by
  obtain ⟨m, -, hm, rfl⟩ := h.newest_eq_some hd
  exact ⟨hm.name_ne, rfl, hm.checkSubject_eq⟩

/-- The newest description of a name is looked up where its message is. -/
theorem run_newestDescription (h : o.Stocked x) (hobject : object ≠ "") {b b' : Broker}
    {stream : String}
    (hlast : (Broker.lastMessage o.stream (o.descriptionSubject object)).run b =
      (match (x.ofSubject (o.descriptionSubject object)).getLast? with
        | some m => .ok m
        | none => .error (.subjectNotFound (o.descriptionSubject object) stream), b')) :
    (o.newestDescription object).run b = (.ok ((o.viewOf x).newest object), b') := by
  have hcheck : checkObjectName object = .ok () := by
    rw [checkObjectName, if_neg (by simpa using hobject)]
  rw [newestDescription, run_check_bind hcheck]
  cases hnewest : (x.ofSubject (o.descriptionSubject object)).getLast? with
  | none =>
    simp only [hnewest] at hlast
    rw [Action.bind_ok (run_attempt hlast fun h => by cases h)]
    simp only [viewOf, hnewest]
    rfl
  | some m =>
    simp only [hnewest] at hlast
    rw [Action.bind_ok (run_attempt hlast fun h => by cases h)]
    obtain ⟨d, hd, -⟩ := h.exists_isDescription (List.mem_of_getLast? hnewest)
    simp only [viewOf, hnewest, Option.bind_some, hd.descriptionOf_eq]
    rfl

/-- The newest messages of descriptions have the subjects of the names that they tell, and are the
last ones there. -/
theorem getLast?_of_mem_newestMatching (h : o.Stocked x)
    (hm : m ∈ x.newestMatching o.allDescriptions) (hd : descriptionOf? m = some d) :
    (x.ofSubject (o.descriptionSubject d.name)).getLast? = some m := by
  obtain ⟨hpattern, hlast⟩ := (h.sound.coherent.toTallied.mem_newestMatching_iff _).1 hm
  obtain ⟨back, hback⟩ := (subjectMatches_iff h.checkBucket_name).1 hpattern
  have hmem := (List.mem_filter.1 (List.mem_of_getLast? hlast)).1
  obtain ⟨e, he⟩ := (h.own m hmem).isDescription hback
  cases hd.symm.trans he.descriptionOf_eq
  exact he.subject_eq ▸ hlast

/-- The newest messages of descriptions, and no others, hold the newest descriptions. -/
theorem mem_newestMatching_iff (h : o.Stocked x) :
    (∃ m ∈ x.newestMatching o.allDescriptions, descriptionOf? m = some d) ↔
      (o.viewOf x).newest d.name = some d := by
  have hx := h.sound.coherent.toTallied
  constructor
  · rintro ⟨m, hm, hd⟩
    exact Option.bind_eq_some_iff.2 ⟨m, h.getLast?_of_mem_newestMatching hm hd, hd⟩
  · intro hd
    obtain ⟨m, hlast, hm⟩ := Option.bind_eq_some_iff.1 hd
    have hsubject : m.subject = o.descriptionSubject d.name :=
      of_decide_eq_true (List.mem_filter.1 (List.mem_of_getLast? hlast)).2
    refine ⟨m, (hx.mem_newestMatching_iff _).2 ⟨?_, hsubject ▸ hlast⟩, hm⟩
    exact (subjectMatches_iff h.checkBucket_name).2 ⟨_, hsubject⟩

/-- What is listed is described newest and not deleted. -/
theorem mem_listed_iff (h : o.Stocked x) :
    d ∈ listed o x ↔ (o.viewOf x).newest d.name = some d ∧ d.deleted = false := by
  rw [listed, List.mem_mergeSort, live, List.mem_filter, List.mem_filterMap,
    h.mem_newestMatching_iff, Bool.not_eq_true']

/-- The messages are of different subjects, so the names are different. -/
theorem nodup_live (h : o.Stocked x) : ((live o x).map ObjectDescription.name).Nodup := by
  have hapart : (x.newestMatching o.allDescriptions).Pairwise fun m w =>
      m.sequence < w.sequence := (h.sound.coherent.toTallied.pairwise_toList.filter _).filter _
  refine List.pairwise_map.2 (List.Pairwise.filter _ (List.pairwise_filterMap.2 ?_))
  refine List.Pairwise.imp_of_mem (fun {m w} hm hw hlt d hd e he heq => ?_) hapart
  have hlast := h.getLast?_of_mem_newestMatching hm hd
  rw [heq, h.getLast?_of_mem_newestMatching hw he] at hlast
  exact Nat.ne_of_lt hlt (congrArg _ (Option.some.inj hlast).symm)

/-- The objects are listed in the order of their names. -/
theorem pairwise_listed (h : o.Stocked x) : (listed o x).Pairwise fun d e => d.name < e.name := by
  have hperm := List.mergeSort_perm (live o x) fun d e => decide (d.name ≤ e.name)
  have hnodup := List.pairwise_map.1 ((hperm.map _).nodup_iff.2 h.nodup_live)
  refine ((List.pairwise_mergeSort ?_ ?_ _).and hnodup).imp fun {d e} hde => ?_
  · simp only [decide_eq_true_eq]
    exact fun _ _ _ => String.le_trans
  · simp only [Bool.or_eq_true, decide_eq_true_eq]
    exact fun _ _ => String.le_total _ _
  · exact String.not_le.1 fun hle => hde.2 (String.le_antisymm (of_decide_eq_true hde.1) hle)

end Stocked

end ObjectBucket

end StreamBroker
