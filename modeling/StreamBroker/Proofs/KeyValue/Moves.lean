import StreamBroker.Proofs.Broker.Calls
import StreamBroker.Proofs.KeyValue.Refinement
import StreamBroker.Proofs.Stream.Limits
import StreamBroker.Proofs.Stream.Newest

/-!
# What happens to a bucket

A bucket without a limit on age is written to in two ways: the message of a revision is published,
and a key is cut down to its newest revision when it is purged.  The operations of a bucket are made
of these moves, and of looking, which leaves it alone.  Whatever becomes of the calls to the store,
no move takes the newest revision of a key away without writing a newer one.

## Main definitions

* `KeyValueBucket.IsOpen`: a broker has a bucket without a limit on age
* `KeyValueBucket.Writes`: what operations do to the stream of a bucket
* `KeyValueBucket.Move`: a bucket is written to, or left alone

## Main results

* `KeyValueBucket.IsOpen.move`: a move keeps the newest revisions, or writes newer ones
* `KeyValueBucket.IsOpen.moves_run`: the operations of a bucket are made of moves
-/

namespace StreamBroker.KeyValueBucket

variable {k : KeyValueBucket} {settings : KeyValueSettings} {b b' : Broker} {s s' : Stream}
  {key : String}

/-! ## Buckets that are written to -/

/-- A broker has the stream of a bucket without a limit on age. -/
structure IsOpen (k : KeyValueBucket) (settings : KeyValueSettings) (b : Broker) (s : Stream) :
    Prop where
  /-- The broker has the stream. -/
  mem : s ∈ b.streams
  /-- The stream is that of the bucket. -/
  id_eq : s.id = k.stream
  /-- The bucket has the name that is set. -/
  name_eq : k.name = settings.bucket
  /-- No revision is ever too old. -/
  maxAge_eq : settings.maxAge = none
  /-- The stream has the settings of the bucket. -/
  settings_eq : settings.streamSettings = .ok s.settings

/-- What the operations of a bucket do to its stream: the message of an operation is published, or
a key is cut down to its newest revision. -/
inductive Writes (k : KeyValueBucket) : StreamOp → Prop where
  | publish (op : KeyOp) (hkey : checkKey op.key = .ok ()) (maxPayload : Nat) (e : Expectations) :
      Writes k (.publish maxPayload e (op.message k))
  | cut (key : String) (hkey : checkKey key = .ok ()) :
      Writes k (.purge { filter := some (k.subject key), keep := some 1 })

/-- What happens to a broker: its bucket is written to, or left alone. -/
inductive Move (k : KeyValueBucket) (b : Broker) : Broker → Prop where
  | wrote {op : StreamOp} (hop : k.Writes op)
      (hreply : (Broker.onStream k.stream (op.run b.clock) b).1 ≠ .error .numbersExhausted) :
      Move k b (Broker.onStream k.stream (op.run b.clock) b).2
  | aside {b' : Broker} (hstep : b.Step b')
      (hleft : ∀ s ∈ b.streams, s.id = k.stream →
        ∃ s' ∈ b'.streams, s'.id = s.id ∧ s'.settings = s.settings ∧ s'.index = s.index) :
      Move k b b'

theorem IsOpen.isSteady (h : k.IsOpen settings b s) : s.settings.IsSteady := by
  rw [(streamSettings_eq_ok h.settings_eq).2.2]
  exact ⟨h.maxAge_eq, rfl, rfl⟩

theorem IsOpen.checkBucket_name (h : k.IsOpen settings b s) : checkBucket k.name = .ok () :=
  h.name_eq ▸ (streamSettings_eq_ok h.settings_eq).1

/-- One revision of a key is kept at least. -/
theorem IsOpen.one_le (h : k.IsOpen settings b s) :
    ∀ most ∈ s.settings.maxMessagesPerSubject, 1 ≤ most := by
  obtain ⟨-, hhistory, heq⟩ := streamSettings_eq_ok h.settings_eq
  rw [heq]
  intro most hmost
  cases hmost
  exact hhistory

/-- What is written to a bucket keeps the newest revisions. -/
theorem IsOpen.keepsNewest (h : k.IsOpen settings b s) (hx : s.index.Sound) {op : StreamOp}
    (hop : k.Writes op) {clock : Clock} {backend backend' : Backend}
    {reply : Except Error StreamReply} (hrun : op.run clock s backend = (reply, s', backend'))
    (hreply : reply ≠ .error .numbersExhausted) : s.KeepsNewest s' := by
  cases hop with
  | publish op hkey maxPayload e =>
    cases StreamOp.outcome_run hrun with
    | publish hr =>
      exact Stream.keepsNewest_publish h.isSteady h.one_le hx hr
        (StreamOp.ne_exhausted_of_map hreply)
  | cut key hkey =>
    cases StreamOp.outcome_run hrun with
    | purge hr =>
      have hsubject := checkSubject_subject h.checkBucket_name hkey
      intro other
      refine Stream.keepsNewestOf_purge hx hsubject (fun _ => ?_) hr
        (StreamOp.ne_exhausted_of_map hreply)
      exact Nat.le_refl 1

/-- **A move is a step** after which the bucket is still there, with its newest revisions or newer
ones. -/
theorem IsOpen.move (h : k.IsOpen settings b s) (hb : b.Staffed) (hx : s.index.Sound)
    (hmove : k.Move b b') :
    b.Step b' ∧ ∃ s', k.IsOpen settings b' s' ∧ s'.index.Sound ∧ s.KeepsNewest s' := by
  cases hmove with
  | @wrote op hop hreply =>
    have hproper (t : Stream) : op.IsProper t := by cases hop <;> trivial
    have hnumbers : op.Numbers b.nextId b.nextId := by cases hop <;> exact Nat.le_refl _
    refine ⟨.operated (fun t _ => hproper t) hnumbers hreply, ?_⟩
    have hlive : b.liveStream k.stream = .ok s := h.id_eq ▸ hb.liveStream_eq h.mem
    simp only [Broker.onStream, hlive] at hreply ⊢
    cases hrun : op.run b.clock s b.backend with
    | mk reply left =>
      obtain ⟨s', backend⟩ := left
      rw [hrun] at hreply
      have hid := (StreamOp.attends_run (hb.roster s h.mem) hrun hreply).1
      -- What is written to a bucket changes no settings.
      have hsettings : s'.settings = s.settings :=
        StreamOp.settings_run (fun t heq => by cases hop <;> cases heq) hrun hreply
      obtain ⟨ms, hmoves, -⟩ := StreamOp.moves_run hb.dated (hproper s) hrun hreply
      refine ⟨s', ⟨List.mem_map.2 ⟨s, h.mem, if_pos (beq_iff_eq.2 hid.symm)⟩, hid.trans h.id_eq,
        h.name_eq, h.maxAge_eq, hsettings ▸ h.settings_eq⟩, hmoves.run.sound hx,
        h.keepsNewest hx hop hrun hreply⟩
  | aside hstep hleft =>
    obtain ⟨s', hmem, hid, hsettings, hindex⟩ := hleft s h.mem h.id_eq
    exact ⟨hstep, s', ⟨hmem, hid.trans h.id_eq, h.name_eq, h.maxAge_eq, hsettings ▸ h.settings_eq⟩,
      hindex ▸ hx, Stream.keepsNewest_of_index_eq hindex⟩

/-! ## Operations are made of moves -/

/-- An operation on another stream leaves a bucket alone. -/
theorem move_elsewhere (hb : b.Staffed) {id : Nat} (hid : id ≠ k.stream) {op : StreamOp}
    (hop : ∀ t, op.IsProper t) (hnumbers : op.Numbers b.nextId b.nextId)
    (hreply : (Broker.onStream id (op.run b.clock) b).1 ≠ .error .numbersExhausted) :
    k.Move b (Broker.onStream id (op.run b.clock) b).2 :=
  .aside (.operated (fun t _ => hop t) hnumbers hreply) fun s hs heq =>
    ⟨s, hb.mem_onStream hs (heq ▸ hid) hreply, rfl, rfl, rfl⟩

/-- A message for a key is published to the bucket, or to a stream that refuses it, or to none. -/
theorem moves_write (hb : b.Staffed) {op : KeyOp} (hkey : checkKey op.key = .ok ())
    {expected : Option Nat} {reply : Except Error Nat}
    (hrun : (k.write (op.message k) expected).run b = (reply, b'))
    (hreply : reply ≠ .error .numbersExhausted) : Relation.ReflTransGen k.Move b b' := by
  rw [write] at hrun
  obtain ⟨r, hpublish, rfl⟩ := action_map_cases (f := PublishAck.sequence) hrun
  have hr : r ≠ .error .numbersExhausted := by
    rintro rfl
    exact hreply rfl
  rcases Broker.run_publish_cases hpublish hr with rfl | ⟨id, hreply, rfl⟩
  · exact .refl
  · refine .single ?_
    by_cases hid : id = k.stream
    · subst hid
      exact .wrote (.publish op hkey _ _) hreply
    · exact move_elsewhere hb hid (fun _ => trivial) (Nat.le_refl b.nextId) hreply

/-- Looking for the newest revision of a key changes nothing. -/
theorem IsOpen.eq_of_entry (h : k.IsOpen settings b s) (hb : b.Staffed)
    {reply : Except Error (Option KeyEntry)} (hrun : (k.entry key).run b = (reply, b')) :
    b' = b := by
  rw [entry] at hrun
  rcases action_check_cases hrun with ⟨e, -, -, rfl⟩ | ⟨-, -, hrun⟩
  · rfl
  have hlook {r : Except Error (Except Error StoredMessage)} {t : Broker}
      (hr : ((Broker.lastMessage k.stream (k.subject key)).attempt).run b = (r, t)) : t = b := by
    rw [Broker.lastMessage, ← h.id_eq] at hr
    rcases action_attempt_cases hr with ⟨-, hlast⟩ | ⟨_, -, hlast, -⟩ <;>
      rw [hb.run_inspect h.mem h.isSteady] at hlast <;> exact (congrArg Prod.snd hlast).symm
  rcases action_bind_cases hrun with ⟨e, hlast, -⟩ | ⟨r, t, hlast, hrest⟩
  · exact hlook hlast
  · rw [← hlook hlast]
    split at hrest
    · cases hrest
      rfl
    · split at hrest <;> cases hrest <;> rfl

/-- Moves leave a bucket there. -/
theorem IsOpen.moves (h : k.IsOpen settings b s) (hb : b.Staffed) (hx : s.index.Sound)
    (hmoves : Relation.ReflTransGen k.Move b b') :
    b'.Staffed ∧ ∃ s', k.IsOpen settings b' s' ∧ s'.index.Sound := by
  induction hmoves with
  | refl => exact ⟨hb, s, h, hx⟩
  | tail _ hmove ih =>
    obtain ⟨hb, s, h, hx⟩ := ih
    obtain ⟨hstep, s', h', hx', -⟩ := h.move hb hx hmove
    exact ⟨(hstep.carries hb).staffed, s', h', hx'⟩

/-- Cutting a key down is a move. -/
theorem move_cut (hkey : checkKey key = .ok ()) {reply : Except Error Nat}
    (hrun : (Broker.purge k.stream { filter := some (k.subject key), keep := some 1 }).run b =
      (reply, b')) (hreply : reply ≠ .error .numbersExhausted) : k.Move b b' := by
  obtain ⟨hreply, rfl⟩ := Broker.run_purge hrun hreply
  exact .wrote (.cut key hkey) hreply

/-- A deleted key is written anew in one move at most. -/
theorem IsOpen.moves_replaceDeleted (h : k.IsOpen settings b s) (hb : b.Staffed)
    (hkey : checkKey key = .ok ()) {value : Bytes} {reply : Except Error Nat}
    (hrun : (k.replaceDeleted key value).run b = (reply, b'))
    (hreply : reply ≠ .error .numbersExhausted) : Relation.ReflTransGen k.Move b b' := by
  rw [replaceDeleted] at hrun
  rcases action_bind_cases hrun with ⟨e, hentry, -⟩ | ⟨newest, t, hentry, hwrite⟩
  · exact h.eq_of_entry hb hentry ▸ .refl
  rw [h.eq_of_entry hb hentry] at hwrite
  split at hwrite
  · next newest =>
    split at hwrite
    · cases hwrite
      exact .refl
    · have hchecked : checkKey (KeyOp.update key value newest.revision).key = .ok () := hkey
      rw [update, run_check_bind hkey] at hwrite
      exact moves_write hb hchecked hwrite hreply
  · cases hwrite
    exact .refl

/-- **The operations of a bucket are made of moves.** -/
theorem IsOpen.moves_run (h : k.IsOpen settings b s) (hb : b.Staffed) (hx : s.index.Sound)
    {op : KeyOp} {reply : Except Error Nat} (hrun : (op.run k).run b = (reply, b'))
    (hreply : reply ≠ .error .numbersExhausted) : Relation.ReflTransGen k.Move b b' := by
  have hchecked {f : Unit → Action Broker Nat}
      (hrun : ((liftM (checkKey op.key) : Action Broker Unit) >>= f).run b = (reply, b'))
      (hf : checkKey op.key = .ok () → (f ()).run b = (reply, b') →
        Relation.ReflTransGen k.Move b b') : Relation.ReflTransGen k.Move b b' := by
    rcases action_check_cases hrun with ⟨e, -, -, rfl⟩ | ⟨⟨⟩, hkey, hrun⟩
    · exact .refl
    · exact hf hkey hrun
  cases op with
  | put key value =>
    exact hchecked hrun fun hkey hrun => moves_write hb hkey hrun hreply
  | update key value revision =>
    exact hchecked hrun fun hkey hrun =>
      moves_write hb hkey hrun hreply
  | delete key =>
    exact hchecked hrun fun hkey hrun => moves_write hb hkey hrun hreply
  | purge key =>
    refine hchecked hrun fun hkey hrun => ?_
    rcases action_bind_cases hrun with ⟨e, hwrite, rfl⟩ | ⟨n, t, hwrite, hrun⟩
    · exact moves_write hb hkey hwrite hreply
    have hmarked := moves_write hb hkey hwrite (by simp)
    obtain ⟨r, hcut, rfl⟩ := action_map_cases (f := fun _ => n) hrun
    refine hmarked.tail (move_cut hkey hcut ?_)
    rintro rfl
    exact hreply rfl
  | create key value =>
    refine hchecked hrun fun hkey hrun => ?_
    rcases action_bind_cases hrun with ⟨e, hattempt, rfl⟩ | ⟨r, t, hattempt, hrun⟩
    · rcases action_attempt_cases hattempt with ⟨he, -⟩ | ⟨r, he, -⟩
      · cases he
        exact absurd rfl hreply
      · cases he
    rcases action_attempt_cases hattempt with ⟨he, -⟩ | ⟨r', hr, hwrite, hr'⟩
    · cases he
    cases hr
    have hwrote := moves_write hb hkey hwrite hr'
    -- The attempt has moved the bucket even where it was refused.
    obtain ⟨ht, s', h', hx'⟩ := h.moves hb hx hwrote
    split at hrun
    · cases hrun
      exact hwrote
    · split at hrun
      · exact hwrote.trans (h'.moves_replaceDeleted ht hkey hrun hreply)
      · cases hrun
        exact hwrote

end StreamBroker.KeyValueBucket
