import StreamBroker.Proofs.Broker.Calls
import StreamBroker.Proofs.ObjectBucket.Refinement
import StreamBroker.Proofs.Stream.Limits
import StreamBroker.Proofs.Stream.Newest

/-!
# What happens to an object bucket

An object bucket without a limit on age is written to in a few ways: chunks and descriptions are
published, the chunks of a nuid are dropped, and the descriptions of a name are cut down to the
newest one, or go altogether.  The operations of a bucket are made of these moves, and of looking,
which changes nothing.  Whatever becomes of the calls to the store, the newest description of a name
goes only when the object gets another name; all else keeps it or leaves a newer one in its place.

## Main definitions

* `ObjectBucket.IsOpen`: a broker has a bucket without a limit on age
* `ObjectBucket.Writes`: what operations do to the stream of a bucket
* `ObjectBucket.Move`: a bucket is written to, or left alone
* `ObjectBucket.KeepsNewest`: the newest descriptions are kept, but for those of names that objects
  had
* `ObjectBucket.Performs`: an action is made of moves
* `ObjectOp.Renames`: an operation gives another name to an object

## Main results

* `ObjectBucket.IsOpen.move`: a move keeps the newest descriptions in this way
* `ObjectBucket.IsOpen.performs_run`: the operations of a bucket are made of moves
* `ObjectBucket.IsOpen.newest_of_updateLabel`: an object that gets another name is described no more
  by its old one
-/

namespace StreamBroker

namespace ObjectBucket

variable {o : ObjectBucket} {settings : ObjectBucketSettings} {b b' : Broker} {s s' : Stream}
  {object nuid : String} {d : ObjectDescription} {renamed : String → Prop}

/-! ## Buckets that are written to -/

/-- A broker has the stream of a bucket without a limit on age, in which there are only chunks and
descriptions. -/
structure IsOpen (o : ObjectBucket) (settings : ObjectBucketSettings) (b : Broker) (s : Stream) :
    Prop where
  /-- The broker has the stream. -/
  mem : s ∈ b.streams
  /-- The stream is that of the bucket. -/
  id_eq : s.id = o.stream
  /-- No description is ever too old. -/
  maxAge_eq : settings.maxAge = none
  /-- The stream has the settings of the bucket. -/
  settings_eq : settings.streamSettings = .ok s.settings
  /-- There are only chunks and descriptions. -/
  stocked : o.Stocked s.index

/-- What the operations of a bucket do to its stream.  All descriptions of a name go at most where
an object had the name, and then it is not described anew. -/
inductive Writes (o : ObjectBucket) (renamed : String → Prop) : StreamOp → Prop where
  /-- A chunk or a description is published. -/
  | publish {m : Message} (hown : ∀ n now, o.IsOwn (m.stored n now))
      (hother : ∀ object, renamed object → m.subject ≠ o.descriptionSubject object)
      (maxPayload : Nat) (e : Expectations) : Writes o renamed (.publish maxPayload e m)
  /-- The chunks of a nuid go. -/
  | drop {nuid : String} (hnuid : checkSubject (o.chunkSubject nuid) = .ok ()) :
      Writes o renamed (.purge { filter := some (o.chunkSubject nuid) })
  /-- The descriptions of a name go, all but the newest. -/
  | cut {object : String} (hobject : object ≠ "") :
      Writes o renamed (.purge { filter := some (o.descriptionSubject object), keep := some 1 })
  /-- All descriptions of a name go. -/
  | forget {object : String} (hobject : object ≠ "") (h : renamed object) :
      Writes o renamed (.purge { filter := some (o.descriptionSubject object) })

/-- What happens to a broker: its bucket is written to, or left alone. -/
inductive Move (o : ObjectBucket) (renamed : String → Prop) (b : Broker) : Broker → Prop where
  | wrote {op : StreamOp} (hop : o.Writes renamed op)
      (hreply : (Broker.onStream o.stream (op.run b.clock) b).1 ≠ .error .numbersExhausted) :
      Move o renamed b (Broker.onStream o.stream (op.run b.clock) b).2
  | aside {b' : Broker} (hstep : b.Step b')
      (hleft : ∀ s ∈ b.streams, s.id = o.stream →
        ∃ s' ∈ b'.streams, s'.id = s.id ∧ s'.settings = s.settings ∧ s'.index = s.index) :
      Move o renamed b b'

/-- The newest descriptions are kept until newer ones come, but for those of names that objects had.
Of these none comes. -/
structure KeepsNewest (o : ObjectBucket) (renamed : String → Prop) (s s' : Stream) : Prop where
  /-- The newest description of another name is kept until a newer one comes. -/
  kept : ∀ object, ¬ renamed object → s.KeepsNewestOf s' (o.descriptionSubject object)
  /-- The newest description of a name that an object had is kept, or all of them go. -/
  gone : ∀ object, renamed object →
    (s'.index.ofSubject (o.descriptionSubject object)).getLast? =
        (s.index.ofSubject (o.descriptionSubject object)).getLast? ∨
      s'.index.ofSubject (o.descriptionSubject object) = []

theorem keepsNewest_of_index_eq (h : s'.index = s.index) : o.KeepsNewest renamed s s' where
  kept _ _ := Stream.keepsNewest_of_index_eq h _
  gone _ _ := .inl (by rw [h])

theorem Writes.isProper {op : StreamOp} (h : o.Writes renamed op) (s : Stream) : op.IsProper s := by
  cases h <;> trivial

theorem Writes.numbers {op : StreamOp} (h : o.Writes renamed op) (next : Nat) :
    op.Numbers next next := by
  cases h <;> exact Nat.le_refl _

/-- A move is a step. -/
theorem Move.step (h : o.Move renamed b b') : b.Step b' := by
  cases h with
  | wrote hop hreply => exact .operated (fun s _ => hop.isProper s) (hop.numbers _) hreply
  | aside hstep hleft => exact hstep

/-- Moves are steps, so streams stay told apart. -/
theorem staffed_of_moves (hb : b.Staffed) (h : Relation.ReflTransGen (o.Move renamed) b b') :
    b'.Staffed := by
  induction h with
  | refl => exact hb
  | tail _ hmove ih => exact (hmove.step.carries ih).staffed

namespace IsOpen

theorem isSteady (h : o.IsOpen settings b s) : s.settings.IsSteady := by
  rw [(streamSettings_eq_ok h.settings_eq).2]
  exact ⟨h.maxAge_eq, rfl, rfl⟩

theorem received_eq (h : o.IsOpen settings b s) (m : StoredMessage) :
    s.received m = s.index.commit m := by
  rw [Stream.received, (streamSettings_eq_ok h.settings_eq).2]

/-- A bucket is there where its stream has the same index. -/
theorem of_index_eq (h : o.IsOpen settings b s) (hmem : s' ∈ b'.streams) (hid : s'.id = s.id)
    (hsettings : s'.settings = s.settings) (hindex : s'.index = s.index) :
    o.IsOpen settings b' s' where
  mem := hmem
  id_eq := hid.trans h.id_eq
  maxAge_eq := h.maxAge_eq
  settings_eq := hsettings ▸ h.settings_eq
  stocked := hindex ▸ h.stocked

/-- What is written to a bucket leaves only chunks and descriptions in it. -/
theorem stocked_run (h : o.IsOpen settings b s) {op : StreamOp} (hop : o.Writes renamed op)
    {clock : Clock} {backend backend' : Backend} {reply : Except Error StreamReply}
    (hrun : op.run clock s backend = (reply, s', backend'))
    (hreply : reply ≠ .error .numbersExhausted) : o.Stocked s'.index := by
  -- Of what is left by a purge, all was there before.
  have hcut {subject : String} {keep : Option Nat} (hsubject : checkSubject subject = .ok ())
      (hrun : (StreamOp.purge { filter := some subject, keep }).run clock s backend =
        (reply, s', backend')) : o.Stocked s'.index := by
    cases StreamOp.outcome_run hrun with
    | purge hr =>
      rcases Stream.index_purge_subject h.stocked.sound hsubject hr
        (StreamOp.ne_exhausted_of_map hreply) with ⟨hindex, -⟩ | hindex
      · exact hindex ▸ h.stocked
      · have hloses := (Retention.removes_trimSubject (keep.getD 0) s.index subject).loses
        rw [hindex]
        refine ⟨hloses.sound h.stocked.sound, h.stocked.checkBucket_name, fun m hm => ?_⟩
        exact h.stocked.own m ((hloses.toList_sublist h.stocked.sound.filed).subset hm)
  cases hop with
  | publish hown maxPayload e =>
    cases StreamOp.outcome_run hrun with
    | publish hr =>
      rcases Stream.index_publish h.isSteady hr (StreamOp.ne_exhausted_of_map hreply) with
        hindex | hindex
      · exact hindex ▸ h.stocked
      · rw [hindex, h.received_eq]
        refine ⟨h.stocked.sound.commit (Nat.lt_succ_self _), h.stocked.checkBucket_name,
          fun w hw => ?_⟩
        rw [Index.toList_commit h.stocked.sound.filed (Nat.lt_succ_self _), List.mem_append,
          List.mem_singleton] at hw
        rcases hw with hw | rfl
        · exact h.stocked.own w hw
        · exact hown _ _
  | drop hnuid => exact hcut hnuid hrun
  | cut hobject =>
    exact hcut (checkSubject_descriptionSubject h.stocked.checkBucket_name hobject) hrun
  | forget hobject =>
    exact hcut (checkSubject_descriptionSubject h.stocked.checkBucket_name hobject) hrun

/-- What is written to a bucket keeps the newest descriptions, but for those of names that objects
had. -/
theorem keepsNewest_run (h : o.IsOpen settings b s) {op : StreamOp} (hop : o.Writes renamed op)
    {clock : Clock} {backend backend' : Backend} {reply : Except Error StreamReply}
    (hrun : op.run clock s backend = (reply, s', backend'))
    (hreply : reply ≠ .error .numbersExhausted) : o.KeepsNewest renamed s s' := by
  have hx := h.stocked.sound
  have hcut {subject : String} {keep : Option Nat} (hsubject : checkSubject subject = .ok ())
      (hkeep : ∀ object, o.descriptionSubject object = subject →
        1 ≤ keep.getD 0 ∨ keep = none ∧ renamed object)
      (hrun : (StreamOp.purge { filter := some subject, keep }).run clock s backend =
        (reply, s', backend')) : o.KeepsNewest renamed s s' := by
    cases StreamOp.outcome_run hrun with
    | purge hr =>
      have hr' := StreamOp.ne_exhausted_of_map hreply
      rcases Stream.index_purge_subject hx hsubject hr hr' with ⟨hindex, -⟩ | hindex
      · exact keepsNewest_of_index_eq hindex
      refine ⟨fun object hobject => ?_, fun object hobject => ?_⟩
      · refine Stream.keepsNewestOf_purge hx hsubject (fun heq => ?_) hr hr'
        exact (hkeep object heq).resolve_right fun hgone => hobject hgone.2
      · rw [hindex, Retention.ofSubject_trimSubject hx.coherent.toTallied]
        split
        · next heq =>
          rcases hkeep object heq with hone | ⟨rfl, -⟩
          · exact .inl (by rw [heq, Stream.getLast?_rtake _ hone])
          · exact .inr (List.rtake_zero _)
        · exact .inl rfl
  have hname := h.stocked.checkBucket_name
  cases hop with
  | publish hown hother maxPayload e =>
    cases StreamOp.outcome_run hrun with
    | publish hr =>
      have hr' := StreamOp.ne_exhausted_of_map hreply
      refine ⟨fun object _ => ?_, fun object hobject => .inl ?_⟩
      · refine Stream.keepsNewest_publish h.isSteady (fun most hmost => ?_) hx hr hr' _
        rw [(streamSettings_eq_ok h.settings_eq).2] at hmost
        cases hmost
      · rcases Stream.index_publish h.isSteady hr hr' with hindex | hindex
        · rw [hindex]
        · rw [hindex, h.received_eq, Index.ofSubject_commit_of_ne hx.coherent.toFiled
            (Nat.lt_succ_self _) (hother object hobject).symm]
  | drop hnuid =>
    refine hcut hnuid (fun object heq => ?_) hrun
    exact absurd heq.symm (o.chunkSubject_ne_descriptionSubject _ _)
  | cut hobject =>
    refine hcut (checkSubject_descriptionSubject hname hobject) (fun _ _ => .inl ?_) hrun
    exact Nat.le_refl 1
  | forget hobject hrenamed =>
    refine hcut (checkSubject_descriptionSubject hname hobject) (fun object heq => ?_) hrun
    exact .inr ⟨rfl, descriptionSubject_inj.1 heq ▸ hrenamed⟩

/-- **A move keeps the newest descriptions**, but for those of names that objects had, and the
bucket is still there. -/
theorem move (h : o.IsOpen settings b s) (hb : b.Staffed) (hmove : o.Move renamed b b') :
    ∃ s', o.IsOpen settings b' s' ∧ o.KeepsNewest renamed s s' := by
  cases hmove with
  | @wrote op hop hreply =>
    have hlive : b.liveStream o.stream = .ok s := h.id_eq ▸ hb.liveStream_eq h.mem
    simp only [Broker.onStream, hlive] at hreply ⊢
    cases hrun : op.run b.clock s b.backend with
    | mk reply left =>
      obtain ⟨s', backend⟩ := left
      rw [hrun] at hreply
      have hid := (StreamOp.attends_run (hb.roster s h.mem) hrun hreply).1
      have hsettings : s'.settings = s.settings :=
        StreamOp.settings_run (fun t heq => by cases hop <;> cases heq) hrun hreply
      exact ⟨s', ⟨List.mem_map.2 ⟨s, h.mem, if_pos (beq_iff_eq.2 hid.symm)⟩, hid.trans h.id_eq,
        h.maxAge_eq, hsettings ▸ h.settings_eq, h.stocked_run hop hrun hreply⟩,
        h.keepsNewest_run hop hrun hreply⟩
  | aside hstep hleft =>
    obtain ⟨s', hmem, hid, hsettings, hindex⟩ := hleft s h.mem h.id_eq
    exact ⟨s', h.of_index_eq hmem hid hsettings hindex, keepsNewest_of_index_eq hindex⟩

/-- Moves leave a bucket there. -/
theorem moves (h : o.IsOpen settings b s) (hb : b.Staffed)
    (hmoves : Relation.ReflTransGen (o.Move renamed) b b') : ∃ s', o.IsOpen settings b' s' := by
  induction hmoves with
  | refl => exact ⟨s, h⟩
  | tail hmoves hmove ih =>
    obtain ⟨s', h'⟩ := ih
    obtain ⟨t, ht, -⟩ := h'.move (staffed_of_moves hb hmoves) hmove
    exact ⟨t, ht⟩

end IsOpen

/-! ## Calls are made of moves -/

/-- An action is made of moves when it begins in a state, unless it runs out of numbers. -/
def Performs {α : Type} (o : ObjectBucket) (renamed : String → Prop) (b : Broker)
    (x : Action Broker α) : Prop :=
  ∀ reply b', x.run b = (reply, b') → reply ≠ .error .numbersExhausted →
    Relation.ReflTransGen (o.Move renamed) b b'

section Calls

variable {α β : Type} {x : Action Broker α} {f : α → Action Broker β} {reply : Except Error α}

theorem performs_of_run_eq (h : x.run b = (reply, b)) : o.Performs renamed b x := by
  intro r b' hrun _
  obtain ⟨-, rfl⟩ := Prod.mk.inj (h.symm.trans hrun)
  exact .refl

/-- Two actions, one after the other, are made of moves if both are. -/
theorem performs_bind (hx : o.Performs renamed b x)
    (hf : ∀ a t, x.run b = (.ok a, t) → Relation.ReflTransGen (o.Move renamed) b t →
      o.Performs renamed t (f a)) : o.Performs renamed b (x >>= f) := by
  intro reply b' hrun hreply
  rcases action_bind_cases hrun with ⟨e, hrefused, rfl⟩ | ⟨a, t, hok, hrest⟩
  · exact hx _ _ hrefused fun he => hreply (by cases he; rfl)
  · have hmoves := hx _ _ hok fun he => by cases he
    exact hmoves.trans (hf a t hok hmoves reply b' hrest hreply)

theorem performs_pure (a : α) : o.Performs renamed b (pure a : Action Broker α) :=
  performs_of_run_eq rfl

theorem performs_refuse (e : Error) : o.Performs renamed b (Action.refuse e : Action Broker α) :=
  performs_of_run_eq rfl

/-- An action that follows a check is made of moves if it is when the check is passed. -/
theorem performs_check {check : Except Error β} {f : β → Action Broker α}
    (h : ∀ c, check = .ok c → o.Performs renamed b (f c)) :
    o.Performs renamed b ((liftM check : Action Broker β) >>= f) := by
  intro reply b' hrun hreply
  rcases action_check_cases hrun with ⟨e, -, -, rfl⟩ | ⟨c, hc, hrest⟩
  · exact .refl
  · exact h c hc reply b' hrest hreply

/-- What is written to another stream leaves a bucket alone. -/
theorem move_elsewhere (hb : b.Staffed) {id : Nat} (hid : id ≠ o.stream) {op : StreamOp}
    (hop : o.Writes renamed op)
    (hreply : (Broker.onStream id (op.run b.clock) b).1 ≠ .error .numbersExhausted) :
    o.Move renamed b (Broker.onStream id (op.run b.clock) b).2 :=
  .aside (.operated (fun s _ => hop.isProper s) (hop.numbers _) hreply) fun s hs heq =>
    ⟨s, hb.mem_onStream hs (heq ▸ hid) hreply, rfl, rfl, rfl⟩

/-- A chunk or a description is published to the bucket, or to a stream that refuses it, or to
none. -/
theorem performs_publish (hb : b.Staffed) {m : Message} (hown : ∀ n now, o.IsOwn (m.stored n now))
    (hother : ∀ object, renamed object → m.subject ≠ o.descriptionSubject object) :
    o.Performs renamed b (o.publish m) := by
  refine performs_bind (fun r b' hrun hr => ?_) fun _ _ _ _ => performs_pure _
  rcases Broker.run_publish_cases hrun hr with rfl | ⟨id, hreply, rfl⟩
  · exact .refl
  · refine .single ?_
    by_cases hid : id = o.stream
    · subst hid
      exact .wrote (.publish hown hother _ _) hreply
    · exact move_elsewhere hb hid (.publish hown hother _ _) hreply

theorem performs_publishDescription (hb : b.Staffed) (hkept : d.IsKept) (hname : d.name ≠ "")
    (hnuid : checkSubject (o.chunkSubject d.nuid) = .ok ()) (hother : ¬ renamed d.name) :
    o.Performs renamed b (o.publishDescription d) := by
  have hread := ObjectDescription.ofStored?_encode hkept
  rw [publishDescription]
  generalize hm : (⟨o.descriptionSubject d.name, d.encode,
    [(contentTypeHeader, "application/json")]⟩ : Message) = m
  have hsubject : m.subject = o.descriptionSubject d.name := hm ▸ rfl
  have hstored (n : Nat) (now : Timestamp) : o.IsDescription (m.stored n now) d := by
    subst hm
    exact ⟨hread, hname, rfl, hnuid⟩
  refine performs_publish hb (fun n now => .inr ⟨d, hstored n now⟩) fun object hobject heq => ?_
  exact hother (descriptionSubject_inj.1 (hsubject.symm.trans heq) ▸ hobject)

theorem performs_publishChunks (hb : b.Staffed) (nuid : String) (chunks : List Bytes) :
    o.Performs renamed b (o.publishChunks nuid chunks) := by
  induction chunks generalizing b with
  | nil => exact performs_pure _
  | cons chunk chunks ih =>
    refine performs_bind (performs_publish hb (fun n now => .inl ⟨nuid, rfl⟩) fun object _ => ?_)
      fun _ t _ hmoves => ih (staffed_of_moves hb hmoves)
    exact o.chunkSubject_ne_descriptionSubject _ _

/-- A subject is purged. -/
theorem performs_purgeSubject {subject : String} {keep : Option Nat}
    (hop : o.Writes renamed (.purge { filter := some subject, keep })) :
    o.Performs renamed b (o.purgeSubject subject keep) := by
  refine performs_bind (fun r b' hrun hr => ?_) fun _ _ _ _ => performs_pure _
  obtain ⟨hreply, rfl⟩ := Broker.run_purge hrun hr
  exact .single (.wrote hop hreply)

theorem performs_dropChunks (hnuid : checkSubject (o.chunkSubject nuid) = .ok ()) :
    o.Performs renamed b (o.dropChunks nuid) := by
  intro reply b' hrun hreply
  obtain ⟨-, r, hpurge, hr⟩ := dropChunks_eq_ok hrun hreply
  exact performs_purgeSubject (.drop hnuid) r b' hpurge hr

/-- What is made of moves still is when chunks are dropped in case it is refused. -/
theorem performs_orDropChunks (hnuid : checkSubject (o.chunkSubject nuid) = .ok ())
    {x : Action Broker Unit} (hx : o.Performs renamed b x) :
    o.Performs renamed b (o.orDropChunks nuid x) := by
  intro reply b' hrun hreply
  rcases orDropChunks_cases hrun hreply with ⟨hok, -⟩ | ⟨e, t, herror, he, hdrop, -⟩
  · exact hx _ _ hok fun he => by cases he
  · exact (hx _ _ herror he).trans (performs_dropChunks hnuid _ _ hdrop fun he => by cases he)

theorem performs_writeData (hb : b.Staffed) (nuid : String) (source : ObjectSource) (size : Nat) :
    o.Performs renamed b (o.writeData nuid source size) := by
  rw [writeData]
  split
  · exact performs_refuse _
  · refine performs_bind (performs_publishChunks hb nuid _) fun _ t _ _ => ?_
    split
    · exact performs_refuse _
    · exact performs_pure _

end Calls

/-! ## Operations are made of moves -/

namespace IsOpen

/-- The newest description of a name is looked up. -/
theorem run_newestDescription (h : o.IsOpen settings b s) (hb : b.Staffed)
    (hobject : object ≠ "") :
    (o.newestDescription object).run b = (.ok ((o.viewOf s.index).newest object), b) := by
  apply h.stocked.run_newestDescription hobject
  rw [Broker.lastMessage, ← h.id_eq, hb.run_inspect h.mem h.isSteady, checkLiteralSubject,
    checkSubject_descriptionSubject h.stocked.checkBucket_name hobject,
    h.stocked.sound.coherent.lastForSubject_eq]
  rfl

/-- Looking for an object changes nothing, and what is found is described newest. -/
theorem info_cases (h : o.IsOpen settings b s) (hb : b.Staffed)
    {reply : Except Error ObjectDescription} (hrun : (o.info object).run b = (reply, b')) :
    b' = b ∧ ∀ d, reply = .ok d →
      (o.viewOf s.index).newest object = some d ∧ d.deleted = false := by
  by_cases hobject : object = ""
  · subst hobject
    cases hrun
    exact ⟨rfl, fun d hd => by cases hd⟩
  rw [info, Action.bind_ok (h.run_newestDescription hb hobject)] at hrun
  split at hrun
  · next d hd =>
    split at hrun
    · cases hrun
      exact ⟨rfl, fun d hd => by cases hd⟩
    · next hlive =>
      cases hrun
      refine ⟨rfl, ?_⟩
      rintro _ ⟨⟩
      exact ⟨hd, Bool.not_eq_true _ ▸ hlive⟩
  · cases hrun
    exact ⟨rfl, fun d hd => by cases hd⟩

/-- What is done with an object that was found is made of moves if it is where the object is
described newest. -/
theorem performs_info {α : Type} (h : o.IsOpen settings b s) (hb : b.Staffed)
    {f : ObjectDescription → Action Broker α}
    (hf : ∀ d, (o.viewOf s.index).newest object = some d → o.Performs renamed b (f d)) :
    o.Performs renamed b (o.info object >>= f) := by
  refine performs_bind (fun r b' hrun _ => (h.info_cases hb hrun).1 ▸ .refl) fun d t hrun _ => ?_
  obtain ⟨rfl, hfound⟩ := h.info_cases hb hrun
  exact hf d (hfound d rfl).1

/-- Looking whether a name is free changes nothing. -/
theorem eq_of_checkFree (h : o.IsOpen settings b s) (hb : b.Staffed) {reply : Except Error Unit}
    (hrun : (o.checkFree object).run b = (reply, b')) : b' = b := by
  by_cases hobject : object = ""
  · subst hobject
    cases hrun
    rfl
  rw [checkFree, Action.bind_ok (h.run_newestDescription hb hobject)] at hrun
  split at hrun
  · split at hrun <;> cases hrun <;> rfl
  · cases hrun
    rfl

/-- What is described newest is read back when it is described anew, with no larger numbers. -/
theorem isKept_of_newest (h : o.IsOpen settings b s) (hb : b.Staffed) {e : ObjectDescription}
    (he : (o.viewOf s.index).newest object = some e) (hmodified : d.modified = b.clock.wall)
    (hsize : d.size ≤ e.size) (hchunks : d.chunks ≤ e.chunks) : d.IsKept := by
  obtain ⟨m, -, hm, -⟩ := h.stocked.newest_eq_some he
  obtain ⟨hsize', hchunks'⟩ := ObjectDescription.lt_of_ofStored? hm.descriptionOf_eq
  exact ObjectDescription.isKept_of_date hb.dated hmodified (Nat.lt_of_le_of_lt hsize hsize')
    (Nat.lt_of_le_of_lt hchunks hchunks')

theorem performs_delete (h : o.IsOpen settings b s) (hb : b.Staffed)
    (hother : ¬ renamed object) : o.Performs renamed b (o.delete object) := by
  refine h.performs_info hb fun current hnewest => ?_
  obtain ⟨hobject, rfl, hnuid⟩ := h.stocked.newest_spec hnewest
  have hkept := h.isKept_of_newest hb (d := { current with
    deleted := true, size := 0, chunks := 0, digest := "", modified := b.clock.wall }) hnewest rfl
    (Nat.zero_le _) (Nat.zero_le _)
  refine performs_bind (performs_of_run_eq (Action.run_read b)) fun _ _ hread _ => ?_
  cases hread
  refine performs_bind (performs_publishDescription hb hkept hobject hnuid hother) fun _ _ _ _ => ?_
  refine performs_bind (performs_purgeSubject (.cut hobject)) fun _ _ _ _ => ?_
  exact performs_purgeSubject (.drop hnuid)

/-- An object is described anew, and older descriptions go, or all those of a name that it had. -/
theorem performs_relabel (hb : b.Staffed) (hkept : d.IsKept) (hname : d.name ≠ "")
    (hnuid : checkSubject (o.chunkSubject d.nuid) = .ok ()) (hother : ¬ renamed d.name)
    (hobject : object ≠ "") {all : Bool} (hrenamed : all = true → renamed object) :
    o.Performs renamed b (do
      o.publishDescription d
      o.purgeSubject (o.descriptionSubject object) (if all then none else some 1)
      pure d) := by
  refine performs_bind (performs_publishDescription hb hkept hname hnuid hother) fun _ _ _ _ => ?_
  refine performs_bind (performs_purgeSubject ?_) fun _ _ _ _ => performs_pure d
  cases all with
  | true => exact .forget hobject (hrenamed rfl)
  | false => exact .cut hobject

theorem performs_updateLabel (h : o.IsOpen settings b s) (hb : b.Staffed) {label : ObjectLabel}
    (hrenamed : label.name ≠ object → renamed object) (hother : ¬ renamed label.name) :
    o.Performs renamed b (o.updateLabel object label) := by
  refine performs_check fun _ hcheck => h.performs_info hb fun current hnewest => ?_
  obtain ⟨hobject, rfl, hnuid⟩ := h.stocked.newest_spec hnewest
  have hkept := h.isKept_of_newest hb (d := { current with
    name := label.name, description := label.description, modified := b.clock.wall }) hnewest rfl
    (Nat.le_refl _) (Nat.le_refl _)
  have hall : (label.name != current.name) = true → renamed current.name := fun hne =>
    hrenamed (by simpa using hne)
  have hrelabel :=
    performs_relabel hb hkept (ne_of_checkObjectName hcheck) hnuid hother hobject hall
  dsimp only
  -- Only a name that changes is looked up, and the look changes nothing.
  by_cases hne : (label.name != current.name) = true
  · rw [if_pos hne]
    refine performs_bind (fun r b' hrun _ => h.eq_of_checkFree hb hrun ▸ .refl)
      fun _ t hrun _ => ?_
    obtain rfl := h.eq_of_checkFree hb hrun
    refine performs_bind (performs_of_run_eq (Action.run_read t)) fun _ _ hread _ => ?_
    cases hread
    exact hrelabel
  · rw [if_neg hne]
    refine performs_bind (performs_of_run_eq (Action.run_read b)) fun _ _ hread _ => ?_
    cases hread
    exact hrelabel

/-- The chunks of an older version go, and older descriptions. -/
theorem performs_dropPrevious {previous : Option ObjectDescription}
    (hnuid : ∀ old ∈ previous, checkSubject (o.chunkSubject old.nuid) = .ok ())
    (hname : d.name ≠ "") :
    o.Performs renamed b (match previous with
      | some old => do
        o.dropChunks old.nuid
        o.purgeSubject (o.descriptionSubject d.name) (some 1)
        pure d
      | none => do
        o.purgeSubject (o.descriptionSubject d.name) (some 1)
        pure d) := by
  have hcut {t : Broker} : o.Performs renamed t (do
      o.purgeSubject (o.descriptionSubject d.name) (some 1)
      pure d) :=
    performs_bind (performs_purgeSubject (.cut hname)) fun _ _ _ _ => performs_pure d
  cases previous with
  | none => exact hcut
  | some old => exact performs_bind (performs_dropChunks (hnuid old rfl)) fun _ _ _ _ => hcut

theorem performs_put (h : o.IsOpen settings b s) (hb : b.Staffed) {label : ObjectLabel}
    {source : ObjectSource} (hlength : source.octets.length < maxObjectSize)
    (hother : ¬ renamed label.name) :
    o.Performs renamed b (o.put label source) := by
  refine performs_check fun _ hcheck => ?_
  have hname := ne_of_checkObjectName hcheck
  refine performs_bind (performs_of_run_eq (h.run_newestDescription hb hname))
    fun previous _ hrun _ => ?_
  rw [h.run_newestDescription hb hname] at hrun
  cases hrun
  have hnuid : checkSubject (o.chunkSubject (b.nameOf b.namesMade)) = .ok () :=
    checkSubject_chunkSubject h.stocked.checkBucket_name (isKeyToken_nameOf b _)
  have hnamed : o.Performs renamed b (Action.answer Broker.freshName) := by
    rintro _ _ ⟨⟩ _
    exact .single (.aside (.aside rfl rfl rfl rfl (Nat.le_refl _)) fun s hs _ =>
      ⟨s, hs, rfl, rfl, rfl⟩)
  refine performs_bind hnamed fun nuid b₁ hrun hmoves => ?_
  have hb₁ := staffed_of_moves hb hmoves
  have hclock : b₁.clock = b.clock := by cases hrun; rfl
  obtain rfl : nuid = b.nameOf b.namesMade := by cases hrun; rfl
  generalize b.nameOf b.namesMade = nuid at hnuid
  refine performs_bind (performs_of_run_eq (Action.run_read b₁)) fun _ _ hread _ => ?_
  cases hread
  refine performs_bind (performs_orDropChunks hnuid (performs_writeData hb₁ _ _ _))
    fun _ t _ hwritten => ?_
  have hchunks := Nat.le_trans (source.length_chunks_le b₁.settings.chunkSize)
    (length_chunksOf_le b₁.settings.chunkSize source.octets)
  refine performs_bind (performs_orDropChunks hnuid (performs_publishDescription
    (staffed_of_moves hb₁ hwritten) ?_ hname hnuid hother)) fun _ u _ _ => ?_
  · exact ObjectDescription.isKept_of_clock hb₁.dated rfl hlength hchunks
  · exact performs_dropPrevious (fun old hold => (h.stocked.newest_spec hold).2.2) hname

/-- What was described by a name is gone when its descriptions were purged. -/
theorem ofSubject_purged (h : o.IsOpen settings b s) (hb : b.Staffed) (hobject : object ≠ "")
    (hrun : (o.purgeSubject (o.descriptionSubject object) none).run b = (.ok (), b'))
    (h' : o.IsOpen settings b' s') : s'.index.ofSubject (o.descriptionSubject object) = [] := by
  have hx := h.stocked.sound
  have hlive : b.liveStream o.stream = .ok s := h.id_eq ▸ hb.liveStream_eq h.mem
  rcases action_bind_cases hrun with ⟨_, -, he⟩ | ⟨n, t, hpurge, hpure⟩
  · cases he
  cases hpure
  have hon : Broker.onStream o.stream
      (fun s => s.purge { filter := some (o.descriptionSubject object) }) b = (.ok n, b') := hpurge
  simp only [Broker.onStream, hlive] at hon
  cases hcut : s.purge { filter := some (o.descriptionSubject object) } b.backend with
  | mk reply left =>
    obtain ⟨u, backend⟩ := left
    rw [hcut] at hon
    obtain ⟨rfl, rfl⟩ := Prod.mk.inj hon
    have hid : u.id = o.stream := by
      have hrun : (StreamOp.purge { filter := some (o.descriptionSubject object) }).run b.clock s
          b.backend = ((Except.ok n).map .removed, u, backend) := by
        simp only [StreamOp.run, hcut]
        rfl
      exact (StreamOp.attends_run (hb.roster s h.mem) hrun fun he => by cases he).1.trans h.id_eq
    -- The stream of the bucket is the one that was cut down.
    obtain rfl : u = s' := by
      obtain ⟨t, -, ht⟩ := List.mem_map.1 h'.mem
      split at ht
      · exact ht
      · next hne =>
        subst ht
        exact absurd (beq_iff_eq.2 (h'.id_eq.trans hid.symm)) hne
    rcases Stream.index_purge_subject hx
      (checkSubject_descriptionSubject h.stocked.checkBucket_name hobject) hcut
      (fun he => by cases he) with ⟨-, e, he⟩ | hindex
    · cases he
    · rw [hindex, Retention.ofSubject_trimSubject hx.coherent.toTallied, if_pos rfl]
      exact List.rtake_zero _

/-- **An object that gets another name is described no more by its old one.** -/
theorem newest_of_updateLabel (h : o.IsOpen settings b s) (hb : b.Staffed) {label : ObjectLabel}
    (hne : label.name ≠ object) (hrun : (o.updateLabel object label).run b = (.ok d, b'))
    (h' : o.IsOpen settings b' s') :
    (∃ e, (o.viewOf s.index).newest object = some e ∧ e.deleted = false) ∧
      (o.viewOf s'.index).newest object = none := by
  rcases action_check_cases hrun with ⟨_, -, he, -⟩ | ⟨_, hcheck, hchecked⟩
  · cases he
  rcases action_bind_cases hchecked with ⟨_, -, he⟩ | ⟨current, t, hinfo, hinformed⟩
  · cases he
  obtain ⟨rfl, hfound⟩ := h.info_cases hb hinfo
  obtain ⟨hnewest, hlive⟩ := hfound current rfl
  refine ⟨⟨current, hnewest, hlive⟩, ?_⟩
  obtain ⟨hobject, rfl, hnuid⟩ := h.stocked.newest_spec hnewest
  have hkept := h.isKept_of_newest hb (d := { current with
    name := label.name, description := label.description, modified := t.clock.wall }) hnewest rfl
    (Nat.le_refl _) (Nat.le_refl _)
  dsimp only at hinformed
  rw [if_pos (bne_iff_ne.2 hne)] at hinformed
  rcases action_bind_cases hinformed with ⟨_, -, he⟩ | ⟨_, t₁, hfree, hnamed⟩
  · cases he
  obtain rfl := h.eq_of_checkFree hb hfree
  rw [Action.bind_ok (Action.run_read t₁)] at hnamed
  rcases action_bind_cases hnamed with ⟨_, -, he⟩ | ⟨_, t₂, hdescribe, hdescribed⟩
  · cases he
  have hmoves : Relation.ReflTransGen (o.Move fun _ => False) t₁ t₂ :=
    performs_publishDescription hb hkept (ne_of_checkObjectName hcheck) hnuid id _ _ hdescribe
      fun he => by cases he
  obtain ⟨s₂, h₂⟩ := h.moves hb hmoves
  rcases action_bind_cases hdescribed with ⟨_, -, he⟩ | ⟨⟨⟩, t₃, hpurge, hpure⟩
  · cases he
  cases hpure
  -- The descriptions by the old name are purged last of all.
  rw [if_pos (bne_iff_ne.2 hne)] at hpurge
  have hempty := h₂.ofSubject_purged (staffed_of_moves hb hmoves) hobject hpurge h'
  simp only [viewOf, hempty]
  rfl

end IsOpen

end ObjectBucket

/-- The names that an operation takes from objects. -/
def ObjectOp.Renames (op : ObjectOp) (object : String) : Prop :=
  ∃ label, op = .updateLabel object label ∧ label.name ≠ object

/-- **The operations of a bucket are made of moves**, and all descriptions of a name go only if an
object gets another name. -/
theorem ObjectBucket.IsOpen.performs_run {o : ObjectBucket} {settings : ObjectBucketSettings}
    {b : Broker} {s : Stream} (h : o.IsOpen settings b s) (hb : b.Staffed) {op : ObjectOp}
    (hlength : ∀ label source, op = .put label source → source.octets.length < maxObjectSize) :
    o.Performs op.Renames b (op.run o) := by
  cases op with
  | put label source =>
    have hother : ¬ (ObjectOp.put label source).Renames label.name := by
      rintro ⟨_, heq, -⟩
      cases heq
    exact performs_bind (h.performs_put hb (hlength label source rfl) hother)
      fun _ _ _ _ => performs_pure _
  | updateLabel object label =>
    have hother : ¬ (ObjectOp.updateLabel object label).Renames label.name := by
      rintro ⟨_, heq, hne⟩
      cases heq
      exact hne rfl
    exact performs_bind (h.performs_updateLabel hb (fun hne => ⟨label, rfl, hne⟩) hother)
      fun _ _ _ _ => performs_pure _
  | delete object =>
    have hother : ¬ (ObjectOp.delete object).Renames object := by
      rintro ⟨_, heq, -⟩
      cases heq
    exact performs_bind (h.performs_delete hb hother) fun _ _ _ _ => performs_pure _

end StreamBroker
