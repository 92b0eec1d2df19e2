import Mathlib.Data.List.Nodup
import StreamBroker.Proofs.Cursor.Course
import StreamBroker.Proofs.Stream.Moves

/-!
# The consumers of a stream

Whatever an operation is about, its consumers come out of it in one of two ways: one more is hired,
or those that are not deleted go on, each with what the operation makes of its cursor.  What is to
hold of all consumers of a stream is shown of these two, and the operations are not looked at again.

## Main definitions

* `CursorStep`: what an operation makes of a cursor
* `Stream.Continues`, `Stream.Hires`: consumers go on, and a consumer is new
* `Stream.SameStaff`: nothing happens to consumers but that they are told to look again
* `Stream.Roster`: consumers are told apart, by their numbers and by their names

## Main results

* `StreamOp.staff_run`: what becomes of the consumers
* `Stream.Life.roster`: consumers are told apart throughout a life
-/

namespace StreamBroker

/-- What an operation makes of the cursor of a consumer that stays. -/
inductive CursorStep (s : Stream) (clock : Clock) (reply : Except Error StreamReply)
    (c : Consumer) : StreamOp → Cursor → Prop where
  /-- The operation is not about the consumer. -/
  | kept {op : StreamOp} : CursorStep s clock reply c op c.cursor
  /-- The consumer collects from what is not too old. -/
  | collected {l : Cursor.Limits} : CursorStep s clock reply c (.collect c.id l)
      (c.cursor.collect (Retention.expire s.settings clock.wall s.index).2 l clock.elapsed).1
  /-- The consumer acknowledges a delivery. -/
  | acknowledged {n : Nat} {kind : AckKind} : CursorStep s clock reply c (.acknowledge c.id n kind)
      (c.cursor.acknowledge n kind clock.elapsed).2
  /-- The consumer is given other settings. -/
  | configured {mode : UpsertMode} {id : Nat} {madeUp : String} {defaults : BrokerSettings}
      {settings wanted : ConsumerSettings} (hname : settings.explicitName.getD madeUp = c.name)
      (hfilter : wanted.filter = settings.filter) (h : c.cursor.settings.MayBecome wanted)
      (hdisjoint : s.checkDisjointFrom c.name wanted.filter = .ok ())
      (hreply : reply = .ok (.consumer c.id)) :
      CursorStep s clock reply c (.upsertConsumer mode id madeUp defaults settings)
        { c.cursor with settings := wanted }
  /-- The consumer is attended to. -/
  | attended {a : Attendance} : CursorStep s clock reply c (.attend c.id a)
      (a.change clock.elapsed c).cursor

namespace Stream

variable {s s' t u : Stream} {b b' : Backend} {clock : Clock} {id : Nat} {c : Consumer}
  {step : Consumer → Cursor → Prop}

/-- The consumers of a stream go on, except for those that are deleted. -/
def Continues (s : Stream) (step : Consumer → Cursor → Prop) (s' : Stream) : Prop :=
  ∃ (kept : List Consumer) (f : Consumer → Consumer), kept.Sublist s.consumers ∧
    s'.consumers = kept.map f ∧
    ∀ c ∈ kept, (f c).id = c.id ∧ (f c).name = c.name ∧ step c (f c).cursor

/-- The consumers of a stream are as they were, or were told to look again. -/
def SameStaff (s s' : Stream) : Prop :=
  s'.consumers = s.consumers ∨ s'.consumers = s.notifyAll.consumers

/-- A stream has a new consumer. -/
structure Hires (s : Stream) (clock : Clock) (c : Consumer) (s' : Stream) : Prop where
  /-- It comes behind the others. -/
  consumers_eq : s'.consumers = s.consumers ++ [c]
  /-- The messages stay. -/
  index_eq : s'.index = s.index
  /-- No other has its number. -/
  id_ne : ∀ d ∈ s.consumers, d.id ≠ c.id
  /-- No other has its name. -/
  name_ne : ∀ d ∈ s.consumers, d.name ≠ c.name
  /-- It begins with the messages that there are. -/
  begins : c.cursor.settings.IsAccepted ∧
    c.cursor = .start c.cursor.settings s.index clock.elapsed
  /-- It may share a work queue. -/
  ackPolicy_ne : s.settings.retention = .workQueue → c.cursor.settings.ackPolicy ≠ .none
  /-- It shares a work queue from the first message on. -/
  deliverPolicy_eq : s.settings.retention = .workQueue → c.cursor.settings.deliverPolicy = .all
  /-- It gets no subjects of another. -/
  disjoint : s.checkDisjointFrom c.name c.cursor.settings.filter = .ok ()

/-! ## Consumers that go on -/

namespace Continues

theorem exists_of_mem (h : s.Continues step s') (hc : c ∈ s'.consumers) :
    ∃ d ∈ s.consumers, c.id = d.id ∧ c.name = d.name ∧ step d c.cursor := by
  obtain ⟨kept, f, hkept, heq, hf⟩ := h
  rw [heq] at hc
  obtain ⟨d, hd, rfl⟩ := List.mem_map.1 hc
  exact ⟨d, hkept.subset hd, hf d hd⟩

/-- What consumers have from the beginning to the end, those have that are left. -/
theorem sublist_map {α : Type} (h : s.Continues step s') {g : Consumer → α}
    (hg : ∀ c d : Consumer, c.id = d.id → c.name = d.name → g c = g d) :
    (s'.consumers.map g).Sublist (s.consumers.map g) := by
  obtain ⟨kept, f, hkept, heq, hf⟩ := h
  rw [heq, List.map_map]
  have hmap : kept.map (g ∘ f) = kept.map g :=
    List.map_congr_left fun c hc => hg _ _ (hf c hc).1 (hf c hc).2.1
  exact hmap ▸ hkept.map g

theorem of_sublist (h : s'.consumers.Sublist s.consumers) (hstep : ∀ c, step c c.cursor) :
    s.Continues step s' :=
  ⟨s'.consumers, fun c => c, h, by rw [List.map_id'], fun c _ => ⟨rfl, rfl, hstep c⟩⟩

theorem of_eq (h : s'.consumers = s.consumers) (hstep : ∀ c, step c c.cursor) :
    s.Continues step s' := of_sublist (h ▸ List.Sublist.refl _) hstep

/-- The consumers are told to look again. -/
theorem of_notifyAll (h : s'.consumers = s.notifyAll.consumers) (hstep : ∀ c, step c c.cursor) :
    s.Continues step s' :=
  ⟨s.consumers, Consumer.notify, .refl _, h, fun c _ => ⟨rfl, rfl, hstep c⟩⟩

theorem of_sameStaff (h : s.SameStaff s') (hstep : ∀ c, step c c.cursor) : s.Continues step s' :=
  h.elim (of_eq · hstep) (of_notifyAll · hstep)

/-- One consumer goes on. -/
theorem of_modifyConsumer {f : Consumer → Consumer}
    (h : s'.consumers = (s.modifyConsumer id f).consumers) (hid : ∀ c, (f c).id = c.id)
    (hname : ∀ c, (f c).name = c.name) (hstep : ∀ c, step c c.cursor)
    (hf : ∀ c ∈ s.consumers, c.id = id → step c (f c).cursor) : s.Continues step s' := by
  refine ⟨s.consumers, fun c => if c.id == id then f c else c, .refl _, h, fun c hc => ?_⟩
  dsimp only
  split
  · next heq => exact ⟨hid c, hname c, hf c hc (beq_iff_eq.1 heq)⟩
  · exact ⟨rfl, rfl, hstep c⟩

end Continues

/-- A consumer that is changed and then told to look again is changed once. -/
theorem consumers_modifyConsumer_notify {f : Consumer → Consumer}
    (h : t.consumers = (s.modifyConsumer id f).consumers) (hid : ∀ c, (f c).id = c.id) :
    (t.modifyConsumer id Consumer.notify).consumers =
      (s.modifyConsumer id fun c => (f c).notify).consumers := by
  simp only [modifyConsumer] at h ⊢
  rw [h, List.map_map]
  refine List.map_congr_left fun c _ => ?_
  simp only [Function.comp]
  by_cases heq : c.id = id <;> simp [heq, hid]

theorem consumers_announce (s : Stream) (m : StoredMessage) :
    (s.announce m).consumers = s.consumers := by
  rw [announce]
  split <;> rfl

/-! ## Operations on the log -/

theorem consumers_evict {now : Timestamp} {reply : Except Error Unit}
    (h : s.evict now b = (reply, s', b')) (hreply : reply ≠ .error .numbersExhausted) :
    s'.consumers = s.consumers := by
  rcases evict_cases h with ⟨rfl, -⟩ | ⟨-, rfl, -⟩
  · exact absurd rfl hreply
  · rfl

theorem sameStaff_publish {maxPayload : Nat} {e : Expectations} {m : Message}
    {reply : Except Error Nat} (h : s.publish maxPayload clock e m b = (reply, s', b'))
    (hreply : reply ≠ .error .numbersExhausted) : s.SameStaff s' := by
  rcases publish_cases h with ⟨-, rfl, -⟩ | ⟨rfl, -⟩ | ⟨t, b₁, hevict, hrest⟩
  · exact .inl rfl
  · exact absurd rfl hreply
  · have ht := consumers_evict hevict (by simp)
    rcases hrest with ⟨-, rfl, -⟩ | ⟨-, -, hstore⟩
    · exact .inl ht
    · rcases storeMessage_cases hstore with ⟨e, -, -, rfl⟩ | ⟨b₂, -, ⟨rfl, -⟩ | ⟨u, rfl, -, rfl, -⟩⟩
      · exact .inl ht
      · exact absurd rfl hreply
      · refine .inr ?_
        simp only [notifyAll, consumers_announce, ht]

theorem sameStaff_deleteMessage {n : Nat} {reply : Except Error Unit}
    (h : s.deleteMessage n b = (reply, s', b')) (hreply : reply ≠ .error .numbersExhausted) :
    s.SameStaff s' := by
  rcases deleteMessage_cases h with ⟨rfl, -⟩ | ⟨rfl, -⟩ | ⟨rfl, -⟩
  · exact .inl rfl
  · exact absurd rfl hreply
  · exact .inl rfl

theorem sameStaff_purge {r : PurgeRequest} {reply : Except Error Nat}
    (h : s.purge r b = (reply, s', b')) (hreply : reply ≠ .error .numbersExhausted) :
    s.SameStaff s' := by
  rcases purge_cases h with ⟨rfl, -⟩ | ⟨rfl, -⟩ | ⟨left, t, -, rfl, rfl | rfl, -⟩
  · exact .inl rfl
  · exact absurd rfl hreply
  · exact .inl rfl
  · exact .inr rfl

theorem sameStaff_changeSettings {settings : StreamSettings} {reply : Except Error Unit}
    (h : s.changeSettings settings clock b = (reply, s', b'))
    (hreply : reply ≠ .error .numbersExhausted) : s.SameStaff s' := by
  rcases changeSettings_cases h with ⟨rfl, -⟩ | ⟨t, rfl, rfl, -⟩
  · exact absurd rfl hreply
  · exact .inr rfl

/-! ## Creating, changing and deleting -/

theorem consumers_releaseUnclaimed {reply : Except Error Unit}
    (h : s.releaseUnclaimed b = (reply, s', b')) (hreply : reply ≠ .error .numbersExhausted) :
    s'.consumers = s.consumers := by
  rcases releaseUnclaimed_cases h with ⟨rfl, -⟩ | ⟨-, -, rfl, -⟩ | ⟨-, rfl, -⟩
  · exact absurd rfl hreply
  · rfl
  · rfl

theorem ackPolicy_ne_of_checkWorker {settings : ConsumerSettings}
    (h : s.checkWorker settings = .ok ()) (hqueue : s.settings.retention = .workQueue) :
    settings.ackPolicy ≠ .none := by
  intro hnone
  rw [checkWorker, if_pos hqueue, if_pos hnone] at h
  cases h

theorem deliverPolicy_eq_of_checkWorker {settings : ConsumerSettings}
    (h : s.checkWorker settings = .ok ()) (hqueue : s.settings.retention = .workQueue) :
    settings.deliverPolicy = .all := by
  have hack := ackPolicy_ne_of_checkWorker h hqueue
  rw [checkWorker, if_pos hqueue] at h
  dsimp only at h
  rw [if_neg hack] at h
  split at h
  · cases h
  · next hall => exact Classical.not_not.1 hall

/-- A consumer is hired, or goes on with other settings. -/
theorem staff_upsertConsumer (hids : (s.consumers.map (·.id)).Nodup) {mode : UpsertMode}
    {madeUp : String} {defaults : BrokerSettings} {settings : ConsumerSettings}
    {reply : Except Error Nat} (hnew : s.consumerById? id = none)
    (h : s.upsertConsumer mode id madeUp defaults settings clock b = (reply, s', b'))
    (hreply : reply ≠ .error .numbersExhausted) :
    s.Continues (CursorStep s clock (reply.map .consumer) ·
      (.upsertConsumer mode id madeUp defaults settings)) s' ∨ ∃ c, s.Hires clock c s' := by
  rcases upsertConsumer_cases h with ⟨rfl, -⟩ | ⟨name, wanted, hnone, hchecked, hwanted, -, hadd⟩ |
    ⟨c, wanted, changed, hc, hchecked, hwanted, hchange, hdisjoint, hchanged, rfl⟩
  · exact .inl (.of_eq rfl fun _ => .kept)
  · obtain ⟨hcheck, hworker⟩ := checkConsumer_eq_ok hchecked
    have hs := (Prod.mk.inj (addConsumer_eq_ok hadd)).2
    refine .inr ⟨{ id, name, created := clock.wall,
                   cursor := Cursor.start wanted s.index clock.elapsed },
      ?_, ?_, ?_, ?_, ?_, ?_, ?_, ?_⟩
    · rw [hs]
    · rw [hs]
    · intro d hd heq
      exact List.find?_eq_none.1 hnew d (List.mem_append_left _ hd) (beq_iff_eq.2 heq)
    · intro d hd heq
      exact List.find?_eq_none.1 hnone d hd (beq_iff_eq.2 heq)
    · exact ⟨⟨settings, some name, defaults, hcheck, hwanted⟩, rfl⟩
    · intro hqueue
      show wanted.ackPolicy ≠ .none
      rw [hwanted]
      exact ackPolicy_ne_of_checkWorker hworker hqueue
    · intro hqueue
      show wanted.deliverPolicy = .all
      rw [hwanted]
      exact deliverPolicy_eq_of_checkWorker hworker hqueue
    · exact checkDisjointFrom_of_addConsumer hadd
  · refine .inl ?_
    rcases changeConsumer_cases hchanged with ⟨rfl, -⟩ | ⟨t, u, rfl, hrelease, rfl, rfl⟩
    · exact absurd rfl hreply
    · have hname : c.name = settings.explicitName.getD madeUp := by simpa using List.find?_some hc
      have hconsumers := consumers_releaseUnclaimed hrelease (by simp)
      refine .of_modifyConsumer (consumers_modifyConsumer_notify hconsumers fun _ => rfl)
        (fun _ => rfl) (fun _ => rfl) (fun _ => .kept) fun d hd heq => ?_
      -- No other consumer has its number.
      obtain rfl : d = c := List.inj_on_of_nodup_map hids hd (List.mem_of_find?_eq_some hc) heq
      refine .configured hname.symm ?_ ⟨settings, some _, defaults, d.name,
        (checkConsumer_eq_ok hchecked).1, hwanted, hchange⟩ hdisjoint rfl
      rw [hwanted]
      rfl

theorem consumers_deleteConsumer {name : String} {reply : Except Error Unit}
    (h : s.deleteConsumer name b = (reply, s', b')) (hreply : reply ≠ .error .numbersExhausted) :
    s'.consumers.Sublist s.consumers := by
  rcases deleteConsumer_cases h with ⟨rfl, -⟩ | ⟨t, -, -, hsublist, hrelease⟩
  · exact .refl _
  · exact consumers_releaseUnclaimed hrelease hreply ▸ hsublist

theorem consumers_deleteConsumers {names : List String} {reply : Except Error Unit}
    (h : s.deleteConsumers names b = (reply, s', b')) (hreply : reply ≠ .error .numbersExhausted) :
    s'.consumers.Sublist s.consumers := by
  induction names generalizing s b reply with
  | nil =>
    cases h
    exact .refl _
  | cons name names ih =>
    rcases deleteConsumers_cons_cases h with ⟨rfl, -⟩ | ⟨r, t, b₁, hd, hr, hrest⟩
    · exact absurd rfl hreply
    · exact (ih hrest hreply).trans (consumers_deleteConsumer hd hr)

theorem consumers_sweep {reply : Except Error Unit} (h : s.sweep clock b = (reply, s', b'))
    (hreply : reply ≠ .error .numbersExhausted) : s'.consumers.Sublist s.consumers := by
  rcases sweep_cases h with ⟨rfl, -⟩ | ⟨t, b₁, names, hevict, hdelete⟩
  · exact absurd rfl hreply
  · exact consumers_evict hevict (by simp) ▸ consumers_deleteConsumers hdelete hreply

/-! ## Handing out and acknowledging -/

theorem continues_collect (hids : (s.consumers.map (·.id)).Nodup) (hc : c ∈ s.consumers)
    {l : Cursor.Limits} {reply : Except Error Collected} {answer : Except Error StreamReply}
    (h : s.collect c l clock b = (reply, s', b')) (hreply : reply ≠ .error .numbersExhausted) :
    s.Continues (CursorStep s clock answer · (.collect c.id l)) s' := by
  rcases collect_cases h with ⟨rfl, -⟩ | ⟨t, rfl, hhand⟩
  · exact absurd rfl hreply
  · rcases handOut_cases hhand with ⟨rfl, -⟩ | ⟨u, rfl, rfl, -⟩
    · exact absurd rfl hreply
    · refine .of_modifyConsumer rfl (fun _ => rfl) (fun _ => rfl) (fun _ => .kept) ?_
      intro d hd heq
      obtain rfl : d = c := List.inj_on_of_nodup_map hids hd hc heq
      exact .collected

theorem continues_acknowledge (hids : (s.consumers.map (·.id)).Nodup) (hc : c ∈ s.consumers)
    {n : Nat} {kind : AckKind} {reply : Except Error Unit} {answer : Except Error StreamReply}
    (h : s.acknowledge c n kind clock b = (reply, s', b')) (htakes : s'.takesAcks = true) :
    s.Continues (CursorStep s clock answer · (.acknowledge c.id n kind)) s' := by
  rcases acknowledge_cases h with ⟨rfl, -⟩ | ⟨hstuck, -⟩ | ⟨t, u, settled, -, ht, hu, rfl, -⟩
  · exact .of_eq rfl fun _ => .kept
  · rw [hstuck] at htakes
    cases htakes
  · have hconsumers : u.consumers = (s.modifyConsumer c.id
        (·.mapCursor fun _ => (c.cursor.acknowledge n kind clock.elapsed).2)).consumers := by
      rw [hu, ht]
    refine .of_modifyConsumer (consumers_modifyConsumer_notify hconsumers fun _ => rfl)
      (fun _ => rfl) (fun _ => rfl) (fun _ => .kept) fun d hd heq => ?_
    obtain rfl : d = c := List.inj_on_of_nodup_map hids hd hc heq
    exact .acknowledged

theorem continues_attend (id : Nat) (a : Attendance) {answer : Except Error StreamReply} :
    s.Continues (CursorStep s clock answer · (.attend id a))
      (s.modifyConsumer id (a.change clock.elapsed)) := by
  refine .of_modifyConsumer rfl ?_ ?_ (fun _ => .kept) fun d _ heq => ?_
  · intro c
    cases a <;> rfl
  · intro c
    cases a <;> rfl
  · exact heq ▸ .attended

end Stream

/-! ## Operations -/

namespace StreamOp

variable {s s' : Stream} {b b' : Backend} {op : StreamOp} {clock : Clock}
  {reply : Except Error StreamReply}

/-- **The consumers of a stream go on with what an operation makes of their cursors**, or one more
is hired. -/
theorem staff_run (hids : (s.consumers.map (·.id)).Nodup) (hop : op.IsProper s)
    (h : op.run clock s b = (reply, s', b')) (hreply : reply ≠ .error .numbersExhausted) :
    s.Continues (CursorStep s clock reply · op) s' ∨ ∃ c, s.Hires clock c s' := by
  have hkept (c : Consumer) : CursorStep s clock reply c op c.cursor := .kept
  cases outcome_run h with
  | upsertConsumer hr =>
    exact Stream.staff_upsertConsumer hids hop hr (ne_exhausted_of_map hreply)
  | publish hr =>
    exact .inl (.of_sameStaff (Stream.sameStaff_publish hr (ne_exhausted_of_map hreply)) hkept)
  | deleteMessage hr =>
    exact .inl (.of_sameStaff (Stream.sameStaff_deleteMessage hr (ne_exhausted_of_map hreply))
      hkept)
  | purge hr =>
    exact .inl (.of_sameStaff (Stream.sameStaff_purge hr (ne_exhausted_of_map hreply)) hkept)
  | evict hr => exact .inl (.of_eq (Stream.consumers_evict hr (ne_exhausted_of_map hreply)) hkept)
  | changeSettings hr =>
    exact .inl (.of_sameStaff (Stream.sameStaff_changeSettings hr (ne_exhausted_of_map hreply))
      hkept)
  | deleteConsumer hr =>
    exact .inl (.of_sublist (Stream.consumers_deleteConsumer hr (ne_exhausted_of_map hreply)) hkept)
  | sweep hr =>
    exact .inl (.of_sublist (Stream.consumers_sweep hr (ne_exhausted_of_map hreply)) hkept)
  | @collect id c l r _ _ hc hr =>
    obtain rfl : c.id = id := by simpa using List.find?_some hc
    exact .inl (Stream.continues_collect hids (List.mem_of_find?_eq_some hc) hr
      (ne_exhausted_of_map hreply))
  | @acknowledge id n c kind r _ _ hc hr htakes =>
    obtain rfl : c.id = id := by simpa using List.find?_some hc
    exact .inl (Stream.continues_acknowledge hids (List.mem_of_find?_eq_some hc) hr htakes)
  | acknowledgeStuck => exact absurd rfl hreply
  | attend => exact .inl (Stream.continues_attend _ _)
  | collectNone => exact .inl (.of_eq rfl hkept)
  | acknowledgeNone => exact .inl (.of_eq rfl hkept)

end StreamOp

/-! ## Lives -/

section Steps

variable {journal : Option String} {x y : Index} {b b' : Backend} {ms : List StoredMessage}

theorem LogStep.filed (h : LogStep journal x b ms y b') (hx : x.Filed) : y.Filed := by
  cases h with
  | store hnext hlt htime hwritten => exact hx.commit _
  | lose hloses => exact hx.loses hloses
  | fail hjournal hlt hfail => exact hx

theorem LogRun.filed (h : LogRun journal x b ms y b') (hx : x.Filed) : y.Filed := by
  induction h with
  | refl => exact hx
  | step run hstep ih => exact hstep.filed ih

/-- The last number does not go back, and no message comes under a number that was given. -/
theorem LogStep.keeps (h : LogStep journal x b ms y b') : x.lastSeq ≤ y.lastSeq ∧
    ∀ {n m}, y.get? n = some m → n ≤ x.lastSeq → x.get? n = some m := by
  cases h with
  | @store _ _ m hnext hlt htime hwritten =>
    refine ⟨Nat.le_max_left _ _, fun {n w} hw hn => ?_⟩
    have hne : n ≠ m.sequence := by omega
    rwa [Index.get?_commit, if_neg hne] at hw
  | lose hloses => exact ⟨Nat.le_of_eq hloses.lastSeq_eq.symm, fun hm _ => hloses.get?_of_get? hm⟩
  | fail hjournal hlt hfail => exact ⟨Nat.le_refl _, fun hm _ => hm⟩

theorem LogRun.keeps (h : LogRun journal x b ms y b') : x.lastSeq ≤ y.lastSeq ∧
    ∀ {n m}, y.get? n = some m → n ≤ x.lastSeq → x.get? n = some m := by
  induction h with
  | refl => exact ⟨Nat.le_refl _, fun hm _ => hm⟩
  | step run hstep ih =>
    obtain ⟨hle, hkeeps⟩ := hstep.keeps
    exact ⟨Nat.le_trans ih.1 hle, fun hm hn => ih.2 (hkeeps hm (Nat.le_trans hn ih.1)) hn⟩

end Steps

namespace Stream

variable {others : Backend → Backend → Prop} {events : List StreamEvent} {s s' : Stream}
  {b₀ b b' : Backend} {clock : Clock} {c : Consumer}

/-- The consumers of a stream are told apart, and so are its messages. -/
structure Roster (s : Stream) : Prop where
  /-- The messages are found under their numbers. -/
  filed : s.index.Filed
  /-- No two consumers have one number. -/
  ids : (s.consumers.map (·.id)).Nodup
  /-- No two consumers have one name. -/
  names : (s.consumers.map (·.name)).Nodup

namespace Roster

theorem continues {step : Consumer → Cursor → Prop} (hs : s.Roster) (h : s.Continues step s')
    (hfiled : s'.index.Filed) : s'.Roster where
  filed := hfiled
  ids := hs.ids.sublist (h.sublist_map fun _ _ hid _ => hid)
  names := hs.names.sublist (h.sublist_map fun _ _ _ hname => hname)

theorem hires (hs : s.Roster) (h : s.Hires clock c s') : s'.Roster where
  filed := h.index_eq ▸ hs.filed
  ids := by
    rw [h.consumers_eq, List.map_append, List.nodup_append]
    refine ⟨hs.ids, List.pairwise_singleton .., fun i hi j hj => ?_⟩
    obtain ⟨d, hd, rfl⟩ := List.mem_map.1 hi
    obtain rfl := List.mem_singleton.1 hj
    exact h.id_ne d hd
  names := by
    rw [h.consumers_eq, List.map_append, List.nodup_append]
    refine ⟨hs.names, List.pairwise_singleton .., fun i hi j hj => ?_⟩
    obtain ⟨d, hd, rfl⟩ := List.mem_map.1 hi
    obtain rfl := List.mem_singleton.1 hj
    exact h.name_ne d hd

theorem eq_of_name (hs : s.Roster) {d : Consumer} (hc : c ∈ s.consumers) (hd : d ∈ s.consumers)
    (h : c.name = d.name) : c = d := List.inj_on_of_nodup_map hs.names hc hd h

theorem eq_of_id (hs : s.Roster) {d : Consumer} (hc : c ∈ s.consumers) (hd : d ∈ s.consumers)
    (h : c.id = d.id) : c = d := List.inj_on_of_nodup_map hs.ids hc hd h

/-- A consumer is found by its number. -/
theorem find?_id (hs : s.Roster) (hc : c ∈ s.consumers) :
    s.consumers.find? (fun d => d.id == c.id) = some c := by
  have hfound : (s.consumers.find? fun d => d.id == c.id).isSome :=
    List.find?_isSome.2 ⟨c, hc, beq_self_eq_true c.id⟩
  obtain ⟨d, hd⟩ := Option.isSome_iff_exists.1 hfound
  have hid : d.id = c.id := by simpa using List.find?_some hd
  rw [hd, hs.eq_of_id (List.mem_of_find?_eq_some hd) hc hid]

/-- An operation that comes to an end leaves messages and consumers told apart. -/
theorem run {op : StreamOp} {reply : Except Error StreamReply} (hs : s.Roster)
    (hclock : clock.IsDated) (hop : op.IsProper s) (h : op.run clock s b = (reply, s', b'))
    (hreply : reply ≠ .error .numbersExhausted) : s'.Roster := by
  obtain ⟨ms, hmoves, -⟩ := StreamOp.moves_run hclock hop h hreply
  rcases StreamOp.staff_run hs.ids hop h hreply with hcontinues | ⟨c, hhires⟩
  · exact hs.continues hcontinues (hmoves.run.filed hs.filed)
  · exact hs.hires hhires

end Roster

/-- A broker that starts anew knows of no consumers. -/
theorem consumers_of_open? {id : Nat} {settings : StreamSettings}
    (h : open? id settings clock b = (.ok s, b')) : s.consumers = [] := by
  obtain ⟨x, b₁, -, rfl, -⟩ := open?_eq_ok h
  rfl

theorem roster_of_open? {id : Nat} {settings : StreamSettings}
    (h : open? id settings clock b = (.ok s, b')) : s.Roster := by
  obtain ⟨x, b₁, hread, -, hrun⟩ := moves_of_open? h
  have hnone := consumers_of_open? h
  refine ⟨hrun.filed (filed_of_reread hread), ?_, ?_⟩
  · rw [hnone]
    exact List.nodup_nil
  · rw [hnone]
    exact List.nodup_nil

/-- **The consumers of a stream are told apart throughout its life.** -/
theorem Life.roster (life : Life others b₀ events s b) : s.Roster := by
  induction life with
  | opened hcheck hclock h => exact roster_of_open? h
  | operated life hop hclock h hreply ih => exact ih.run hclock hop h hreply
  | reopened life hs hcheck hname hstorage hclock h ih => exact roster_of_open? h
  | elsewhere life h ih => exact ih

end Stream

end StreamBroker
