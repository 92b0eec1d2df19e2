import StreamBroker.Proofs.Broker.History
import StreamBroker.Proofs.Journal.Legible

/-!
# Where the streams of a broker come from

After a step a stream is what it was before, or an operation on it has come to an end, or it has
just been opened, or it has been deleted and is empty.  What is to hold of the messages of all
streams at any time is shown of these cases, and of no step in particular.

## Main definitions

* `Broker.known`: the streams of a broker, deleted or not
* `Broker.Origin`, `Broker.LeadsTo`: where the streams of a broker come from
* `Broker.Filed`: the messages of all streams are found under their numbers

## Main results

* `Broker.Step.leadsTo`: every stream after a step comes from somewhere
* `Broker.History.filed`: the messages of all streams are found under their numbers at any time
* `Broker.History.sound`: what streams keep beside their messages is right, if the journals that
  they are opened from can be read
-/

namespace StreamBroker

namespace Broker

variable {b b' t : Broker} {s s' u : Stream}

/-! ## Origins -/

/-- The streams of a broker, deleted or not. -/
def known (b : Broker) : List Stream := b.streams ++ b.formerStreams

/-- Two streams are the same, and so is what is in them and what they announced. -/
structure SameLog (s s' : Stream) : Prop where
  /-- They have one number. -/
  id_eq : s'.id = s.id
  /-- They have the same messages. -/
  index_eq : s'.index = s.index
  /-- They have announced the same. -/
  events_eq : s'.events = s.events

theorem SameLog.refl (s : Stream) : SameLog s s := ⟨rfl, rfl, rfl⟩

theorem SameLog.trans (h : SameLog s u) (h' : SameLog u s') : SameLog s s' :=
  ⟨h'.id_eq.trans h.id_eq, h'.index_eq.trans h.index_eq, h'.events_eq.trans h.events_eq⟩

/-- Where a stream comes from that a broker has after a step. -/
inductive Origin (b b' : Broker) (s' : Stream) : Prop where
  /-- Nothing has happened to what is in it. -/
  | kept {s : Stream} (hs : s ∈ b.known) (hlive : s' ∈ b'.streams → s ∈ b.streams)
      (h : SameLog s s')
  /-- An operation on it has come to an end. -/
  | operated {s u : Stream} {op : StreamOp} {backend : Backend} {reply : Except Error StreamReply}
      (hs : s ∈ b.streams) (hop : op.IsProper s)
      (hrun : op.run b.clock s b.backend = (reply, u, backend))
      (hreply : reply ≠ .error .numbersExhausted) (h : SameLog u s')
  /-- It was opened under a new number. -/
  | opened {u : Stream} {settings : StreamSettings} {backend : Backend} (hnew : b.nextId ≤ s'.id)
      (hopen : Stream.open? s'.id settings b.clock b.backend = (.ok u, backend))
      (h : SameLog u s')
  /-- It was deleted, and is empty. -/
  | destroyed {s : Stream} (hs : s ∈ b.streams) (hgone : s' ∉ b'.streams) (hid : s'.id = s.id)
      (hindex : s'.index = Index.empty) (hevents : s'.events = s.events)

/-- The streams of a broker are those of another, with other consumers at most. -/
def KeepsLogs (b b' : Broker) : Prop :=
  ∀ s' ∈ b'.known, ∃ s ∈ b.known, (s' ∈ b'.streams → s ∈ b.streams) ∧ SameLog s s'

theorem KeepsLogs.of_streams_eq (hstreams : b'.streams = b.streams)
    (hformer : b'.formerStreams = b.formerStreams) : b.KeepsLogs b' := by
  intro s' hs'
  rw [known, hstreams, hformer] at hs'
  exact ⟨s', hs', fun h => hstreams ▸ h, .refl s'⟩

/-- Every stream of one broker comes from another. -/
def LeadsTo (b b' : Broker) : Prop := ∀ s' ∈ b'.known, b.Origin b' s'

theorem KeepsLogs.leadsTo (h : b.KeepsLogs b') : b.LeadsTo b' := fun s' hs' =>
  let ⟨_, hs, hlive, hsame⟩ := h s' hs'
  .kept hs hlive hsame

theorem leadsTo_of_streams_eq (hstreams : b'.streams = b.streams)
    (hformer : b'.formerStreams = b.formerStreams) : b.LeadsTo b' :=
  (KeepsLogs.of_streams_eq hstreams hformer).leadsTo

/-- Where only consumers have changed since, streams come from where they came from. -/
theorem LeadsTo.trans (h : b.LeadsTo t) (h' : t.KeepsLogs b') : b.LeadsTo b' := by
  intro s' hs'
  obtain ⟨s, hs, hlive, hsame⟩ := h' s' hs'
  cases h s hs with
  | kept hr hlive' hsame' =>
    exact .kept hr (fun hmem => hlive' (hlive hmem)) (hsame'.trans hsame)
  | operated hr hop hrun hreply hsame' => exact .operated hr hop hrun hreply (hsame'.trans hsame)
  | opened hnew hopen hsame' =>
    rw [← hsame.id_eq] at hnew hopen
    exact .opened hnew hopen (hsame'.trans hsame)
  | destroyed hr hgone hid hindex hevents =>
    exact .destroyed hr (fun hmem => hgone (hlive hmem)) (hsame.id_eq.trans hid)
      (hsame.index_eq.trans hindex) (hsame.events_eq.trans hevents)

/-! ## What a step does -/

/-- A stream that is put in its place is there, and the others are where they were. -/
theorem mem_known_putStream (hb : b.Staffed) (hs : s ∈ b.known) (hid : u.id = s.id)
    (h : s' ∈ (b.putStream u).known) :
    (s' = u ∧ (s' ∈ (b.putStream u).streams → s ∈ b.streams)) ∨
      s' ∈ b.known ∧ (s' ∈ (b.putStream u).streams → s' ∈ b.streams) := by
  have hcases : s' = u ∨ s' ∈ b.known ∧ s'.id ≠ u.id := by
    rcases List.mem_append.1 h with h | h
    · exact (mem_map_put h).imp And.left fun ⟨hmem, hne⟩ => ⟨List.mem_append_left _ hmem, hne⟩
    · exact (mem_map_put h).imp And.left fun ⟨hmem, hne⟩ => ⟨List.mem_append_right _ hmem, hne⟩
  rcases hcases with rfl | ⟨hmem, hne⟩
  · refine .inl ⟨rfl, fun hlive => ?_⟩
    rcases mem_map_put hlive with ⟨-, hids⟩ | ⟨-, hne⟩
    · obtain ⟨v, hv, heq⟩ := List.mem_map.1 hids
      rwa [← hb.eq_of_id (List.mem_append_left _ hv) hs (heq.trans hid)]
    · exact absurd rfl hne
  · refine .inr ⟨hmem, fun hlive => ?_⟩
    rcases mem_map_put hlive with ⟨rfl, -⟩ | ⟨hmem, -⟩
    · exact absurd rfl hne
    · exact hmem

theorem keepsLogs_modifyConsumer (hb : b.Staffed) (stream consumer : Nat)
    (f : Consumer → Consumer) : b.KeepsLogs (b.modifyConsumer stream consumer f) := by
  rw [modifyConsumer]
  split
  · next s hfind =>
    intro s' hs'
    have hs : s ∈ b.known := List.mem_of_find?_eq_some hfind
    rcases mem_known_putStream (u := s.modifyConsumer consumer f) hb hs rfl hs' with
      ⟨rfl, hlive⟩ | ⟨hmem, hlive⟩
    · exact ⟨s, hs, hlive, rfl, rfl, rfl⟩
    · exact ⟨s', hmem, hlive, .refl s'⟩
  · exact .of_streams_eq rfl rfl

/-- An operation on a stream that comes to an end. -/
theorem leadsTo_run (hb : b.Staffed) {next : Nat} {op : StreamOp} {backend : Backend}
    {reply : Except Error StreamReply} (hs : s ∈ b.streams) (hop : op.IsProper s)
    (h : op.run b.clock s b.backend = (reply, u, backend))
    (hreply : reply ≠ .error .numbersExhausted) :
    b.LeadsTo ({ b with backend, nextId := next }.putStream u) := by
  have hid := (StreamOp.attends_run (hb.roster s hs) h hreply).1
  intro s' hs'
  rcases mem_known_putStream (b := b) hb (List.mem_append_left _ hs) hid hs' with
    ⟨rfl, -⟩ | ⟨hmem, hlive⟩
  · exact .operated hs hop h hreply (.refl _)
  · exact .kept hmem hlive (.refl s')

theorem leadsTo_onStream (hb : b.Staffed) {id next : Nat} {op : StreamOp}
    (hop : ∀ s, b.liveStream id = .ok s → op.IsProper s)
    (hreply : (onStream id (op.run b.clock) { b with nextId := next }).1 ≠
      .error .numbersExhausted) :
    b.LeadsTo (onStream id (op.run b.clock) { b with nextId := next }).2 := by
  cases operates id next op b with
  | missed hlive heq =>
    rw [heq]
    exact leadsTo_of_streams_eq rfl rfl
  | ran hlive hrun heq =>
    rw [heq] at hreply ⊢
    exact leadsTo_run hb (liveStream_eq_ok hlive).1 (hop _ hlive) hrun hreply

theorem leadsTo_openStream (hb : b.Staffed) (settings : StreamSettings) :
    b.LeadsTo ((openStream settings).run b).2 := by
  have hkept {backend : Backend} : b.LeadsTo { b with nextId := b.nextId + 1, backend } :=
    leadsTo_of_streams_eq rfl rfl
  cases opens settings b with
  | failed hopen heq | ringless hopen heq =>
    rw [heq]
    exact hkept
  | @opened s backend hopen heq =>
    rw [heq]
    have hid : s.id = b.nextId := by
      obtain ⟨x, b₁, -, rfl, -⟩ := Stream.open?_eq_ok hopen
      rfl
    intro s' hs'
    have hnew : s' = s ∨ s' ∈ b.known ∧ (s' ∈ b.streams ++ [s] → s' ∈ b.streams) := by
      have hmem : s' ∈ b.streams ++ [s] ++ b.formerStreams := hs'
      rw [List.mem_append] at hmem
      rcases hmem with hmem | hmem
      · rw [List.mem_append, List.mem_singleton] at hmem
        exact hmem.symm.imp_right fun hmem => ⟨List.mem_append_left _ hmem, fun _ => hmem⟩
      · -- A stream that was deleted has not the number that is new.
        refine .inr ⟨List.mem_append_right _ hmem, fun hlive => ?_⟩
        rw [List.mem_append, List.mem_singleton] at hlive
        refine hlive.resolve_right fun heq => ?_
        have hlt := hb.id_lt _ (List.mem_map_of_mem (List.mem_append_right _ hmem))
        rw [heq, hid] at hlt
        exact Nat.lt_irrefl _ hlt
    rcases hnew with rfl | ⟨hmem, hlive⟩
    · rw [← hid] at hopen
      exact .opened (Nat.le_of_eq hid.symm) hopen (.refl s')
    · exact .kept hmem hlive (.refl s')

theorem leadsTo_deleteStream (name : String) :
    b.LeadsTo ((deleteStream name).run b).2 := by
  cases deletes name b with
  | missed hnone heq =>
    rw [heq]
    exact leadsTo_of_streams_eq rfl rfl
  | @deleted s gone reply backend hs hdestroy heq =>
    rw [heq]
    obtain ⟨hid, -, hindex, hevents⟩ := Stream.eq_of_destroy hdestroy
    intro s' hs'
    have hmem : s' ∈ (b.streams.filter fun t => t.id != s.id) ++ gone :: b.formerStreams := hs'
    rw [List.mem_append, List.mem_cons] at hmem
    rcases hmem with hmem | rfl | hmem
    · have hlive := (List.mem_filter.1 hmem).1
      exact .kept (List.mem_append_left _ hlive) (fun _ => hlive) (.refl s')
    · -- What is left of the stream stands among the former ones only.
      refine .destroyed hs (fun hlive => ?_) hid hindex hevents
      have hne := (List.mem_filter.1 hlive).2
      rw [hid] at hne
      simp at hne
    · exact .kept (List.mem_append_right _ hmem) (fun hlive => (List.mem_filter.1 hlive).1)
        (.refl s')

/-- A look of a pull is an operation on a stream that comes to an end, or no consumer is found. -/
theorem glance_run (hb : b.Staffed) {p : Pull} (hreply : (glance p b).1.IsAnswered) :
    (glance p b).2 = b ∨ ∃ s ∈ b.streams, ∃ consumer limits reply u backend,
      (StreamOp.collect consumer limits).run b.clock s b.backend = (reply, u, backend) ∧
        reply ≠ .error .numbersExhausted ∧ (glance p b).2 = { b with backend }.putStream u := by
  cases hb.glances p with
  | missed hlive heq => exact .inl (congrArg Prod.snd heq)
  | failed h heq =>
    rw [heq] at hreply ⊢
    exact .inr ⟨_, h.has.mem_streams, _, _, _, _, _, h.run_eq hb, hreply.ne_error, rfl⟩
  | ended h heq | waits h hnone hlt heq =>
    rw [heq]
    exact .inr ⟨_, h.has.mem_streams, _, _, _, _, _, h.run_eq hb, nofun, rfl⟩

theorem leadsTo_glance (hb : b.Staffed) {p : Pull} (hreply : (glance p b).1.IsAnswered) :
    b.LeadsTo (glance p b).2 := by
  rcases glance_run hb hreply with
    heq | ⟨s, hs, consumer, limits, reply, u, backend, hrun, hne, heq⟩
  · rw [heq]
    exact leadsTo_of_streams_eq rfl rfl
  · have hproper : (StreamOp.collect consumer limits).IsProper s := trivial
    rw [heq]
    show b.LeadsTo ({ b with backend, nextId := b.nextId }.putStream u)
    exact leadsTo_run hb hs hproper hrun hne

theorem leadsTo_lookOnce (hb : b.Staffed) {p : Pull} (hbatch : p.request.batch ≠ 0)
    (hreply : (glance p b).1.IsAnswered) : b.LeadsTo (lookOnce p b) := by
  have hleads := leadsTo_glance hb hreply
  have hstaffed := (carries_glance hb hbatch hreply).1.staffed
  rw [lookOnce]
  cases hg : glance p b with
  | mk r t =>
    rw [hg] at hleads hstaffed
    cases r with
    | «over» result =>
      exact hleads.trans (keepsLogs_modifyConsumer hstaffed p.stream p.consumer _)
    | waits q => exact hleads.trans (.of_streams_eq rfl rfl)

/-- **Every stream after a step comes from somewhere.** -/
theorem Step.leadsTo (hb : b.Staffed) (h : b.Step b') : b.LeadsTo b' := by
  cases h with
  | operated hop hnext hreply => exact leadsTo_onStream hb hop hreply
  | attended stream consumer a => exact (keepsLogs_modifyConsumer hb stream consumer _).leadsTo
  | opened settings => exact leadsTo_openStream hb settings
  | deleted name => exact leadsTo_deleteStream name
  | looked hbatch hreply => exact leadsTo_lookOnce hb hbatch hreply
  | withdrawn id => exact leadsTo_of_streams_eq rfl rfl
  | parked id parked => exact leadsTo_of_streams_eq rfl rfl
  | waited hnow hclock => exact leadsTo_of_streams_eq rfl rfl
  | aside hstreams hformer hpulls hclock hnext => exact leadsTo_of_streams_eq hstreams hformer
  | restarted =>
    intro s' hs'
    cases hs'

/-! ## Operations without the common form -/

/-- An operation in the common form does to a broker what it does without it. -/
theorem onStream_answering {α : Type} {op : Stream → Backend → Except Error α × Stream × Backend}
    {r : Except Error α} {id : Nat} (h : onStream id op b = (r, b')) (g : α → StreamReply) :
    onStream id (fun s backend => StreamOp.answering g (op s backend)) b = (r.map g, b') := by
  simp only [onStream] at h ⊢
  cases hlive : b.liveStream id with
  | error e =>
    simp only [hlive] at h ⊢
    cases h
    rfl
  | ok s =>
    simp only [hlive] at h ⊢
    cases h
    rfl

/-- That what is too old has gone is a step. -/
theorem step_of_evict {id : Nat} (h : evict id b = (.ok (), b')) : b.Step b' := by
  have hrun : onStream id (StreamOp.evict.run b.clock) b = (.ok .done, b') :=
    onStream_answering h fun _ => .done
  have hstep := @Step.operated b id b.nextId .evict (fun _ _ => trivial) (Nat.le_refl _)
    (by rw [hrun]; simp)
  rwa [hrun] at hstep

/-- What is too old goes from a stream that was not deleted. -/
theorem evict_eq_ok {id : Nat} (h : evict id b = (.ok (), b')) :
    ∃ s u backend, b.liveStream id = .ok s ∧ b' = { b with backend }.putStream u ∧
      u = { s with index := (Retention.expire s.settings b.clock.wall s.index).2 } := by
  simp only [evict, onStream] at h
  cases hlive : b.liveStream id with
  | error e =>
    rw [hlive] at h
    cases h
  | ok s =>
    rw [hlive] at h
    dsimp only at h
    cases hr : s.evict b.clock.wall b.backend with
    | mk reply left =>
      obtain ⟨u, backend⟩ := left
      rw [hr] at h
      obtain ⟨hreply, rfl⟩ := Prod.mk.inj h
      rcases Stream.evict_cases hr with ⟨herror, -⟩ | ⟨-, hu, -⟩
      · cases herror.symm.trans hreply
      · exact ⟨s, u, backend, rfl, rfl, hu⟩

/-- What is found when one looks at a stream is found in what is left after what is too old has
gone. -/
theorem inspect_eq_ok {α : Type} {id : Nat} {check : Except Error Unit}
    {f : Stream → Except Error α} {a : α} (hb : b.Staffed)
    (h : inspect id check f b = (.ok a, b')) :
    ∃ s u, b.liveStream id = .ok s ∧ u ∈ b'.streams ∧ f u = .ok a ∧ evict id b = (.ok (), b') ∧
      u = { s with index := (Retention.expire s.settings b.clock.wall s.index).2 } := by
  have hevict : evict id b = (.ok (), b') ∧ (b'.liveStream id >>= f) = .ok a := by
    simp only [inspect] at h
    split at h
    · cases h
    · cases h
    · split at h
      · cases h
      · next heq =>
        obtain ⟨hfound, rfl⟩ := Prod.mk.inj h
        exact ⟨heq, hfound⟩
  obtain ⟨hevict, hfound⟩ := hevict
  -- The function is applied to the stream as it is found behind the eviction.
  obtain ⟨s, u, backend, hlive, rfl, hu⟩ := evict_eq_ok hevict
  obtain ⟨hs, rfl⟩ := liveStream_eq_ok hlive
  have hmem : u ∈ ({ b with backend }.putStream u).streams :=
    List.mem_map.2 ⟨s, hs, if_pos (by rw [hu]; exact beq_self_eq_true _)⟩
  have hstaffed := ((step_of_evict hevict).carries hb).staffed
  have hput := hstaffed.liveStream_eq hmem
  rw [show u.id = s.id by rw [hu]] at hput
  rw [hput] at hfound
  exact ⟨s, u, hlive, hmem, hfound, hevict, hu⟩

/-! ## What holds of the messages at any time -/

/-- The messages of all streams are found under their numbers. -/
def Filed (b : Broker) : Prop := ∀ s ∈ b.known, s.index.Filed

theorem Step.filed (hb : b.Staffed) (hfiled : b.Filed) (h : b.Step b') : b'.Filed := by
  intro s' hs'
  cases h.leadsTo hb s' hs' with
  | kept hs hlive hsame => exact hsame.index_eq ▸ hfiled _ hs
  | operated hs hop hrun hreply hsame =>
    exact hsame.index_eq ▸ ((hb.roster _ hs).run hb.dated hop hrun hreply).filed
  | opened hnew hopen hsame => exact hsame.index_eq ▸ (Stream.roster_of_open? hopen).filed
  | destroyed hs hgone hid hindex hevents => exact hindex ▸ Index.empty_coherent.toFiled

theorem History.filed {past : List Broker} (h : History (b :: past)) : b.Filed := by
  generalize hstates : b :: past = states at h
  induction h generalizing b past with
  | started settings seed backend hclock =>
    cases hstates
    intro s hs
    cases hs
  | step h hstep ih =>
    cases hstates
    exact hstep.filed h.staffed (ih rfl)

/-- What the streams of a broker keep beside their messages is right. -/
def Sound (b : Broker) : Prop := ∀ s ∈ b.known, s.index.Sound

theorem Step.sound (hb : b.Staffed) (hlegible : b.backend.IsLegible)
    (hsound : b.Sound) (h : b.Step b') : b'.Sound := by
  intro s' hs'
  cases h.leadsTo hb s' hs' with
  | kept hs hlive hsame => exact hsame.index_eq ▸ hsound _ hs
  | operated hs hop hrun hreply hsame =>
    obtain ⟨ms, hmoves, -⟩ := StreamOp.moves_run hb.dated hop hrun hreply
    exact hsame.index_eq ▸ hmoves.run.sound (hsound _ (List.mem_append_left _ hs))
  | opened hnew hopen hsame =>
    obtain ⟨x, b₁, hread, -, hrun⟩ := Stream.moves_of_open? hopen
    have hx := (Stream.sound_of_reread (Stream.legible_of_reread hlegible hread) hread).1
    exact hsame.index_eq ▸ hrun.sound hx
  | destroyed hs hgone hid hindex hevents => exact hindex ▸ Index.empty_sound

/-- **What streams keep beside their messages is right** at any time, if the journals on the store
could be read all the time. -/
theorem History.sound {past : List Broker} (h : History (b :: past))
    (hlegible : ∀ t ∈ past, t.backend.IsLegible) : b.Sound := by
  generalize hstates : b :: past = states at h
  induction h generalizing b past with
  | started settings seed backend hclock =>
    cases hstates
    intro s hs
    cases hs
  | step h hstep ih =>
    cases hstates
    rw [List.forall_mem_cons] at hlegible
    exact hstep.sound h.staffed hlegible.1 (ih hlegible.2 rfl)

end Broker

end StreamBroker
