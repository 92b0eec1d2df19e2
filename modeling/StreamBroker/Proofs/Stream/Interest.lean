import StreamBroker.Proofs.Stream.Restart
import StreamBroker.Proofs.Stream.Taken

/-!
# Streams that keep what is needed

A stream of which the retention policy is to keep what is needed holds a message as long as a
consumer has still to get it or to settle it, and not longer.  This holds throughout a life in which
no consumer is given another filter, whatever its backend does.

## Main definitions

* `StreamOp.KeepsFilters`: an operation gives no consumer another filter
* `StreamOp.Stores`: the message that an operation stores under a number
* `StreamOp.Takes`: the messages that an operation may take although they are needed

## Main results

* `StreamOp.claimed_run`: an operation leaves what is needed, and nothing else
* `Stream.Life.needed_and_spares`: so does every operation of a life
-/

namespace StreamBroker

namespace Stream

variable {s s' t u : Stream} {b b' : Backend} {taken : Nat → Prop}

/-! ## Consumers -/

/-- What holds of a stream holds of one with its index and its cursors. -/
theorem claimed_congr (h : t.Claimed ∧ s.Spares taken t) (hindex : u.index = t.index)
    (hcursors : u.cursors = t.cursors) (hretention : u.settings.retention = t.settings.retention) :
    u.Claimed ∧ s.Spares taken u := by
  have hloses : t.index.Loses [] u.index := hindex ▸ Index.Loses.refl t.index
  refine ⟨h.1.lose hloses hcursors hretention, ?_⟩
  intro n m hm hn hu
  rw [isNeeded_congr hcursors] at hu
  exact h.2 n m hm (hindex ▸ hn) hu

/-- When the consumers have changed, all goes that is not needed any more, and nothing else. -/
theorem claimed_releaseUnclaimed (ht : t.Orderly) (hindex : t.index = s.index)
    {reply : Except Error Unit} (h : t.releaseUnclaimed b = (reply, s', b'))
    (hreply : reply ≠ .error .numbersExhausted) :
    (s'.Claimed ∧ s.Spares (fun _ => False) s') ∧ s'.cursors = t.cursors ∧
      ∃ gone, s.index.Loses gone s'.index := by
  rcases releaseUnclaimed_cases h with ⟨rfl, -⟩ | ⟨hne, -⟩ | ⟨-, rfl, -⟩
  · exact absurd rfl hreply
  · exact absurd ht.retention hne
  · obtain ⟨hclaimed, hspares⟩ := ht.releaseUnclaimed
      (t := { t with index := (Retention.releaseUnclaimed t.isNeeded t.index).2 }) rfl rfl rfl
    have hsame : s.index.Loses [] t.index := hindex ▸ Index.Loses.refl t.index
    exact ⟨⟨hclaimed, fun n m hm => hspares n m (hindex ▸ hm)⟩, rfl, _,
      hsame.trans (Retention.loses_releaseUnclaimed t.isNeeded t.index)⟩

/-- A consumer that is new needs no less than there was. -/
theorem claimed_addConsumer (hs : s.Claimed) {id : Nat} {name : String}
    {settings : ConsumerSettings} {clock : Clock} (hnew : s.consumerById? id = none)
    (h : s.addConsumer id name settings clock = .ok (id, s')) :
    s'.Claimed ∧ s.Spares (fun _ => False) s' := by
  have ht := (Prod.mk.inj (addConsumer_eq_ok h)).2
  have hindex : s'.index = s.index := ht ▸ rfl
  have hcursors : s'.cursors =
      s.cursors ++ [(id, Cursor.start settings s.index clock.elapsed)] := by
    rw [ht]
    exact List.map_append
  -- The number is one that no consumer has.
  have hfresh : ∀ e ∈ s.cursors, e.1 ≠ id := by
    intro e he heq
    obtain ⟨c, hc, rfl⟩ := List.mem_map.1 he
    exact List.find?_eq_none.1 hnew c (List.mem_append_left _ hc) (beq_iff_eq.2 heq)
  refine ⟨⟨hs.toOrderly.add hindex (ht ▸ rfl) hcursors hfresh (Cursor.tracks_start ..), ?_⟩,
    spares_of_index_eq hindex _⟩
  intro n m hm
  obtain ⟨e, he, hneeds⟩ := isNeeded_iff.1 (hs.needed (hindex ▸ hm))
  exact isNeeded_iff.2 ⟨e, hcursors ▸ List.mem_append_left _ he, hneeds⟩

/-- A consumer that changes in nothing that decides what it gets keeps what it needed. -/
theorem claimed_changeConsumer (hs : s.Claimed) {c : Consumer} {settings : ConsumerSettings}
    {reply : Except Error Unit} (hc : c ∈ s.consumers)
    (hfilter : reply = .ok () → settings.filter = c.cursor.settings.filter)
    (h : s.changeConsumer c settings b = (reply, s', b'))
    (hreply : reply ≠ .error .numbersExhausted) : s'.Claimed ∧ s.Spares (fun _ => False) s' := by
  rcases changeConsumer_cases h with ⟨rfl, -⟩ | ⟨t, u, ht, hrelease, rfl, rfl⟩
  · exact absurd rfl hreply
  · have hcursor : (c.id, c.cursor) ∈ s.cursors := List.mem_map.2 ⟨c, hc, rfl⟩
    -- Settings other than the filter have no part in what the consumer gets.
    have hserves (d : Cursor) (hd : (c.id, d) ∈ s.cursors) :
        Cursor.Serves s.index d [] { d with settings } := by
      obtain rfl := hs.cursor_eq hcursor hd
      exact Cursor.Discharges.serves (.of_eq ⟨rfl, rfl, hfilter rfl⟩ rfl rfl rfl (fun _ => rfl) rfl)
        (hs.tracks _ hcursor)
    obtain ⟨horderly, -⟩ := hs.toOrderly.modifyConsumer
      (f := (·.mapCursor ({ · with settings }))) (fun _ => rfl) (fun _ => rfl) hserves
    have hindex : t.index = s.index := ht ▸ rfl
    rw [← ht] at horderly
    obtain ⟨hclaimed, -, -⟩ := claimed_releaseUnclaimed horderly hindex hrelease hreply
    exact claimed_congr hclaimed rfl (cursors_notify u c.id) rfl

theorem claimed_upsertConsumer (hs : s.Claimed) {mode : UpsertMode} {id : Nat} {madeUp : String}
    {defaults : BrokerSettings} {settings : ConsumerSettings} {clock : Clock}
    {reply : Except Error Nat} (hnew : s.consumerById? id = none)
    (hfilter : (∃ id, reply = .ok id) → ∀ c,
      s.consumer? (settings.explicitName.getD madeUp) = some c →
        settings.filter = c.cursor.settings.filter)
    (h : s.upsertConsumer mode id madeUp defaults settings clock b = (reply, s', b'))
    (hreply : reply ≠ .error .numbersExhausted) : s'.Claimed ∧ s.Spares (fun _ => False) s' := by
  rcases upsertConsumer_cases h with ⟨rfl, rfl⟩ | ⟨name, wanted, -, -, -, rfl, hadd⟩ |
    ⟨c, wanted, changed, hc, -, rfl, -, -, hchange, rfl⟩
  · exact ⟨hs, .refl s' _⟩
  · exact claimed_addConsumer hs hnew hadd
  · -- What is left open of the settings is filled in, and the filter is not touched by that.
    have hkept (hok : changed = .ok ()) : (wantedSettings
        { settings with name := some (settings.explicitName.getD madeUp) }
        c.cursor.settings defaults).filter = c.cursor.settings.filter :=
      hfilter ⟨c.id, by rw [hok]; rfl⟩ c hc
    apply claimed_changeConsumer hs (List.mem_of_find?_eq_some hc) hkept hchange
    rintro rfl
    exact hreply rfl

/-- What only a consumer needed that is deleted goes with it. -/
theorem claimed_deleteConsumer (hs : s.Claimed) {name : String} {reply : Except Error Unit}
    (h : s.deleteConsumer name b = (reply, s', b')) (hreply : reply ≠ .error .numbersExhausted) :
    (s'.Claimed ∧ s.Spares (fun _ => False) s') ∧ s'.cursors ⊆ s.cursors ∧
      ∃ gone, s.index.Loses gone s'.index := by
  rcases deleteConsumer_cases h with ⟨rfl, -⟩ | ⟨t, hindex, hsettings, hsublist, hrelease⟩
  · exact ⟨⟨hs, .refl s' _⟩, List.Subset.refl _, [], .refl _⟩
  · have hcursors : t.cursors.Sublist s.cursors := hsublist.map _
    have hretention := congrArg StreamSettings.retention hsettings
    have horderly := hs.toOrderly.sublist hindex hretention hcursors
    obtain ⟨hclaimed, heq, hloses⟩ := claimed_releaseUnclaimed horderly hindex hrelease hreply
    exact ⟨hclaimed, heq ▸ hcursors.subset, hloses⟩

/-! ## Handing out and acknowledging -/

/-- A consumer goes on, and of what it settled all goes that is not needed any more. -/
theorem claimed_settle (hs : s.Claimed) {id : Nat} {c c' : Cursor} {settled : List Nat}
    (hc : (id, c) ∈ s.cursors) (hserves : Cursor.Serves s.index c settled c')
    (ht : t = s.modifyConsumer id (·.mapCursor fun _ => c'))
    (hindex : u.index = (t.releasing settled t.index).2) (hcursors : u.cursors = t.cursors)
    (hretention : u.settings.retention = t.settings.retention) :
    u.Claimed ∧ s.Spares (fun _ => False) u := by
  subst ht
  -- Everything was needed, so what is not needed now is among what was settled.
  obtain ⟨horderly, hneeded⟩ := hs.toOrderly.modifyConsumer (f := (·.mapCursor fun _ => c'))
    (fun _ => rfl) (fun _ => rfl) fun d hd => hs.cursor_eq hc hd ▸ hserves
  exact horderly.release (fun hm => hneeded hm (hs.needed hm)) hindex hcursors hretention

theorem claimed_handOut (hs : s.Claimed) {id : Nat} {c cursor : Cursor} {haul : Cursor.Haul}
    {expired : List Nat} {reply : Except Error Collected} (hc : (id, c) ∈ s.cursors)
    (hserves : Cursor.Serves s.index c haul.settled cursor)
    (h : s.handOut id cursor haul expired b = (reply, s', b'))
    (hreply : reply ≠ .error .numbersExhausted) : s'.Claimed ∧ s.Spares (fun _ => False) s' := by
  rcases handOut_cases h with ⟨rfl, -⟩ | ⟨t, ht, rfl, -⟩
  · exact absurd rfl hreply
  · exact claimed_settle hs hc hserves ht rfl rfl rfl

/-- What is handed out takes what is too old with it. -/
theorem claimed_collect (hs : s.Claimed) {c : Consumer} {l : Cursor.Limits} {clock : Clock}
    {reply : Except Error Collected} (hc : c ∈ s.consumers)
    (h : s.collect c l clock b = (reply, s', b')) (hreply : reply ≠ .error .numbersExhausted) :
    s'.Claimed ∧ s.Spares (· ∈ (Retention.expire s.settings clock.wall s.index).1) s' := by
  rcases collect_cases h with ⟨rfl, -⟩ | ⟨t, ht, hhand⟩
  · exact absurd rfl hreply
  · have hexpired : s.index.Loses (Retention.expire s.settings clock.wall s.index).1 t.index :=
      ht ▸ Retention.loses_expire s.settings clock.wall s.index
    have hcursors : t.cursors = s.cursors := ht ▸ rfl
    -- What is too old goes before the cursor looks at the stream.
    obtain ⟨hclaimed, -⟩ := claimed_of_loses hs hexpired hcursors (ht ▸ rfl)
    have hcursor : (c.id, c.cursor) ∈ t.cursors := hcursors ▸ List.mem_map.2 ⟨c, hc, rfl⟩
    obtain ⟨hclaimed, hspares⟩ := claimed_handOut hclaimed hcursor
      ((Cursor.steps_collect hclaimed.keyed.filed c.cursor l clock.elapsed).serves hclaimed.keyed
        (hclaimed.tracks _ hcursor)) hhand hreply
    have hall := Spares.of_loses_trans hexpired hspares
    exact ⟨hclaimed, hall.mono fun n hn => hn.resolve_right not_false⟩

theorem claimed_acknowledge (hs : s.Claimed) {c : Consumer} {n : Nat} {kind : AckKind}
    {clock : Clock} {reply : Except Error Unit} (hc : c ∈ s.consumers)
    (h : s.acknowledge c n kind clock b = (reply, s', b')) (htakes : s'.takesAcks = true) :
    s'.Claimed ∧ s.Spares (fun _ => False) s' := by
  rcases acknowledge_cases h with ⟨rfl, -⟩ | ⟨hstuck, -⟩ | ⟨t, u, settled, rfl, ht, rfl, rfl, -⟩
  · exact ⟨hs, .refl s' _⟩
  · rw [hstuck] at htakes
    cases htakes
  · have hcursor : (c.id, c.cursor) ∈ s.cursors := List.mem_map.2 ⟨c, hc, rfl⟩
    exact claimed_settle hs hcursor
      ((Cursor.steps_acknowledge s.index c.cursor n kind clock.elapsed).serves hs.keyed
        (hs.tracks _ hcursor)) ht rfl (cursors_notify _ _) rfl

theorem claimed_attend (hs : s.Claimed) (id : Nat) (a : Attendance) (now : Instant) :
    (s.modifyConsumer id (a.change now)).Claimed ∧
      s.Spares (fun _ => False) (s.modifyConsumer id (a.change now)) := by
  have hid (c : Consumer) : (a.change now c).id = c.id := by cases a <;> rfl
  -- Whether a pull waits or a subscription is there decides nothing about what is needed.
  have hsame (waiting : Nat) (lastActive : Instant) (c : Cursor) (hc : c.Tracks s.index) :
      Cursor.Serves s.index c [] { c with waiting, lastActive } :=
    Cursor.Discharges.serves (.of_eq ⟨rfl, rfl, rfl⟩ rfl rfl rfl (fun _ => rfl) rfl) hc
  obtain ⟨g, hg, hserves⟩ : ∃ g : Cursor → Cursor,
      (∀ c : Consumer, (a.change now c).cursor = g c.cursor) ∧
        ∀ c : Cursor, c.Tracks s.index → Cursor.Serves s.index c [] (g c) := by
    cases a with
    | arrive => exact ⟨(·.addWaiting now), fun _ => rfl, fun c => hsame (c.waiting + 1) now c⟩
    | leave => exact ⟨(·.removeWaiting now), fun _ => rfl, fun c => hsame (c.waiting - 1) now c⟩
    | touch => exact ⟨(·.touch now), fun _ => rfl, fun c => hsame c.waiting now c⟩
    | bind => exact ⟨fun c => c, fun _ => rfl, fun c hc => .refl hc⟩
    | unbind => exact ⟨(·.touch now), fun _ => rfl, fun c => hsame c.waiting now c⟩
  obtain ⟨horderly, hneeded⟩ := hs.toOrderly.modifyConsumer hid hg fun c hc =>
    hserves c (hs.tracks _ hc)
  have hindex : (s.modifyConsumer id (a.change now)).index = s.index := rfl
  refine ⟨⟨horderly, ?_⟩, spares_of_index_eq hindex _⟩
  intro n m hm
  exact (hneeded hm (hs.needed hm)).resolve_right List.not_mem_nil

/-! ## Sweeping -/

theorem claimed_deleteConsumers (hs : s.Claimed) {names : List String}
    {reply : Except Error Unit} (h : s.deleteConsumers names b = (reply, s', b'))
    (hreply : reply ≠ .error .numbersExhausted) :
    (s'.Claimed ∧ s.Spares (fun _ => False) s') ∧ s'.cursors ⊆ s.cursors := by
  induction names generalizing s b reply with
  | nil =>
    cases h
    exact ⟨⟨hs, .refl s' _⟩, List.Subset.refl _⟩
  | cons name names ih =>
    rcases deleteConsumers_cons_cases h with ⟨rfl, -⟩ | ⟨r, t, b₁, hd, hr, hrest⟩
    · exact absurd rfl hreply
    · -- What the remaining consumers need was needed by them when the first one was deleted.
      obtain ⟨⟨ht, hspares⟩, hcursors, gone, hloses⟩ := claimed_deleteConsumer hs hd hr
      obtain ⟨⟨hs', hspares'⟩, hcursors'⟩ := ih ht hrest hreply
      refine ⟨⟨hs', hspares.trans hloses hspares' fun _ _ => isNeeded_of_subset hcursors'⟩, ?_⟩
      exact List.Subset.trans hcursors' hcursors

theorem claimed_sweep (hs : s.Claimed) {clock : Clock} {reply : Except Error Unit}
    (h : s.sweep clock b = (reply, s', b')) (hreply : reply ≠ .error .numbersExhausted) :
    s'.Claimed ∧ s.Spares (· ∈ (Retention.expire s.settings clock.wall s.index).1) s' := by
  rcases sweep_cases h with ⟨rfl, -⟩ | ⟨t, b₁, names, hevict, hdelete⟩
  · exact absurd rfl hreply
  · obtain ⟨hleft, -⟩ := claimed_evict hs hevict (by simp)
    obtain ⟨⟨hclaimed, hspares⟩, -⟩ := claimed_deleteConsumers hleft hdelete hreply
    rcases evict_cases hevict with ⟨hok, -⟩ | ⟨-, rfl, -⟩
    · cases hok
    · have hall := Spares.of_loses_trans (s := s)
        (Retention.loses_expire s.settings clock.wall s.index) hspares
      exact ⟨hclaimed, hall.mono fun n hn => hn.resolve_right not_false⟩

/-! ## Opening -/

/-- Where nobody needs anything, nothing is left. -/
theorem get?_prune_eq_none {settings : StreamSettings} (hinterest : settings.retention = .interest)
    (now : Timestamp) {x : Index} (hx : x.Filed) (n : Nat) :
    (prune settings now x).2.get? n = none := by
  have htrim := loses_trim settings now x
  have hrelease := Retention.loses_releaseUnclaimed (fun _ _ => false) (trim settings now x).2
  simp only [prune, if_pos hinterest]
  apply Option.eq_none_iff_forall_ne_some.2
  intro m hm
  rw [hrelease.get?_eq_none ((Retention.mem_releaseUnclaimed_iff (hx.loses htrim).sequence_eq
    (hrelease.get?_of_get? hm)).2 rfl)] at hm
  cases hm

/-- A stream that is opened has no consumers yet, and nothing in it that they could need. -/
theorem claimed_of_open? {id : Nat} {settings : StreamSettings} {clock : Clock}
    (hinterest : settings.retention = .interest)
    (h : open? id settings clock b = (.ok s, b')) : s.Claimed := by
  obtain ⟨x, b₁, hread, rfl, -⟩ := open?_eq_ok h
  have habsent {n : Nat} {m : StoredMessage}
      (hm : (prune settings clock.wall x).2.get? n = some m) : False := by
    rw [get?_prune_eq_none hinterest clock.wall (filed_of_reread hread) n] at hm
    cases hm
  exact {
    retention := hinterest
    keyed := ⟨fun hm => (habsent hm).elim, fun hm => (habsent hm).elim,
      fun hm => (habsent hm).elim⟩
    nodup := List.Pairwise.nil
    tracks := fun _ he => absurd he List.not_mem_nil
    needed := fun hm => (habsent hm).elim }

end Stream

/-! ## Operations -/

namespace StreamOp

/-- An operation that is done gives no consumer another filter. -/
def KeepsFilters (s : Stream) (reply : Except Error StreamReply) : StreamOp → Prop
  | upsertConsumer _ _ madeUp _ settings => (∃ r, reply = .ok r) → ∀ c,
      s.consumer? (settings.explicitName.getD madeUp) = some c →
        settings.filter = c.cursor.settings.filter
  | _ => True

/-- The message that an operation stores under a number. -/
def Stores (clock : Clock) (reply : Except Error StreamReply) (n : Nat) (m : StoredMessage) :
    StreamOp → Prop
  | publish _ _ w => reply = .ok (.stored n) ∧ m = w.stored n clock.wall.toMicro
  | _ => False

/-- The messages that an operation takes although they may be needed: those that are to go, those
that are too old and those that exceed the limits. -/
def Takes (clock : Clock) (s : Stream) (n : Nat) : StreamOp → Prop
  | publish _ _ m => s.PublishTakes clock.wall.toMicro m n
  | deleteMessage k => n = k
  | purge r => n ∈ s.index.purgeSelection r
  | changeSettings settings => n ∈ (Stream.trim settings clock.wall s.index).1
  | evict | collect .. | sweep => n ∈ (Retention.expire s.settings clock.wall s.index).1
  | upsertConsumer .. | deleteConsumer _ | acknowledge .. | attend .. => False

variable {s s' : Stream} {b b' : Backend} {op : StreamOp} {clock : Clock}
  {reply : Except Error StreamReply}

/-- **An operation leaves everything that is needed, and nothing else**, of what it finds and what
it stores, but for what it is to take. -/
theorem claimed_run (hs : s.Claimed) (hop : op.IsProper s) (hfilters : op.KeepsFilters s reply)
    (h : op.run clock s b = (reply, s', b')) (hreply : reply ≠ .error .numbersExhausted) :
    s'.Claimed ∧ ∀ {n m}, s.index.get? n = some m ∨ op.Stores clock reply n m →
      s'.index.get? n = none → s'.isNeeded n m.subject = true → op.Takes clock s n := by
  -- All but a publish store nothing.
  have hall (hstores : ∀ n m, ¬op.Stores clock reply n m)
      (hclaimed : s'.Claimed ∧ s.Spares (op.Takes clock s) s') :
      s'.Claimed ∧ ∀ {n m}, s.index.get? n = some m ∨ op.Stores clock reply n m →
        s'.index.get? n = none → s'.isNeeded n m.subject = true → op.Takes clock s n :=
    ⟨hclaimed.1, fun {n m} hm => hclaimed.2 n m (hm.resolve_right (hstores n m))⟩
  cases outcome_run h with
  | publish hr =>
    obtain ⟨hclaimed, hspares, hstored⟩ :=
      Stream.claimed_publish hs hr (ne_exhausted_of_map hreply)
    refine ⟨hclaimed, ?_⟩
    intro n m hm hn hu
    rcases hm with hm | ⟨hok, rfl⟩
    · exact hspares n m hm hn hu
    · exact hstored n (map_stored_eq_ok hok) hn hu
  | deleteMessage hr =>
    exact hall (fun _ _ h => h) (Stream.claimed_deleteMessage hs hr (ne_exhausted_of_map hreply))
  | purge hr =>
    exact hall (fun _ _ h => h) (Stream.claimed_purge hs hr (ne_exhausted_of_map hreply))
  | evict hr =>
    exact hall (fun _ _ h => h) (Stream.claimed_evict hs hr (ne_exhausted_of_map hreply))
  | changeSettings hr =>
    exact hall (fun _ _ h => h)
      (Stream.claimed_changeSettings hs hop.2.2 hr (ne_exhausted_of_map hreply))
  | upsertConsumer hr =>
    refine hall (fun _ _ h => h) (Stream.claimed_upsertConsumer hs hop (fun hok => hfilters ?_) hr
      (ne_exhausted_of_map hreply))
    obtain ⟨id, hok⟩ := hok
    exact ⟨_, by rw [hok]; rfl⟩
  | deleteConsumer hr =>
    exact hall (fun _ _ h => h)
      (Stream.claimed_deleteConsumer hs hr (ne_exhausted_of_map hreply)).1
  | collect hc hr =>
    exact hall (fun _ _ h => h)
      (Stream.claimed_collect hs (List.mem_of_find?_eq_some hc) hr (ne_exhausted_of_map hreply))
  | acknowledge hc hr htakes =>
    exact hall (fun _ _ h => h)
      (Stream.claimed_acknowledge hs (List.mem_of_find?_eq_some hc) hr htakes)
  | acknowledgeStuck => exact absurd rfl hreply
  | sweep hr =>
    exact hall (fun _ _ h => h) (Stream.claimed_sweep hs hr (ne_exhausted_of_map hreply))
  | attend => exact hall (fun _ _ h => h) (Stream.claimed_attend hs _ _ clock.elapsed)
  | collectNone => exact hall (fun _ _ h => h) ⟨hs, .refl s _⟩
  | acknowledgeNone => exact hall (fun _ _ h => h) ⟨hs, .refl s _⟩

end StreamOp

namespace Stream

variable {others : Backend → Backend → Prop} {events : List StreamEvent} {s s' : Stream}
  {b₀ b b' : Backend}

/-! ## Lives -/

theorem Life.claimed (life : Life others b₀ events s b)
    (hinterest : s.settings.retention = .interest)
    (hfilters : ∀ before op reply, .operated before op reply ∈ events →
      op.KeepsFilters before reply) : s.Claimed := by
  induction life with
  | opened hcheck hclock h =>
    obtain ⟨-, -, -, hsettings, -⟩ := moves_of_open? h
    exact claimed_of_open? (hsettings ▸ hinterest) h
  | operated life hop hclock h hreply ih =>
    obtain ⟨ms, hmoves, -⟩ := StreamOp.moves_run hclock hop h hreply
    have hs := ih (hmoves.retention ▸ hinterest) fun before op reply hmem =>
      hfilters before op reply (List.mem_append_left _ hmem)
    have hkeeps := hfilters _ _ _ (List.mem_append_right _ List.mem_cons_self)
    exact (StreamOp.claimed_run hs hop hkeeps h hreply).1
  -- A broker that starts anew knows of no consumers, so nothing is needed.
  | reopened life hs hcheck hname hstorage hclock h ih =>
    obtain ⟨-, -, -, hsettings, -⟩ := moves_of_open? h
    exact claimed_of_open? (hsettings ▸ hinterest) h
  | elsewhere life h ih => exact ih hinterest hfilters

/-- **A stream that keeps what is needed holds exactly that**: in a life in which no consumer is
given another filter everything in it is needed by a consumer, and what an operation finds there or
stores and what is still needed behind it is gone only if it was to be deleted, too old or too
much. -/
theorem Life.needed_and_spares (life : Life others b₀ events s b)
    (hinterest : s.settings.retention = .interest)
    (hfilters : ∀ before op reply, .operated before op reply ∈ events →
      op.KeepsFilters before reply) :
    (∀ n m, s.index.get? n = some m → s.isNeeded n m.subject = true) ∧
      ∀ (op : StreamOp) (clock : Clock) (reply : Except Error StreamReply) (s' : Stream)
        (b' : Backend), op.IsProper s → op.KeepsFilters s reply →
          op.run clock s b = (reply, s', b') → reply ≠ .error .numbersExhausted →
            ∀ n m, s.index.get? n = some m ∨ op.Stores clock reply n m →
              s'.index.get? n = none → s'.isNeeded n m.subject = true → op.Takes clock s n := by
  have hs := life.claimed hinterest hfilters
  refine ⟨fun n m => hs.needed, fun op clock reply s' b' hop hkeeps h hreply n m => ?_⟩
  exact (StreamOp.claimed_run hs hop hkeeps h hreply).2

/-- What was handed out and is not acknowledged stays. -/
theorem delivered_stays :
    ∃ events s b s' b' c m, Life (Backend.Elsewhere "stream_S") blankBackend events s b ∧
      (StreamOp.collect 0 { batch := 1 }).run epochClock s b = (.ok (.collected c), s', b') ∧
      c.deliveries.length = 1 ∧ s.index.get? 1 = some m ∧ s.isNeeded 1 m.subject = true ∧
      s'.index.get? 1 ≠ none := by
  have hclock : epochClock.IsDated := rfl
  obtain ⟨s₀, b₀, s₁, b₁, s, b, c, s', b', m, hopen, hupsert, hpublish, hcollect, hlength, hnew,
      hnone, hinterest, hm, hneeded, hexpired⟩ :
      ∃ s₀ b₀ s₁ b₁ s b c s' b' m,
        open? 0 { name := "S", retention := .interest } epochClock blankBackend = (.ok s₀, b₀) ∧
        (StreamOp.upsertConsumer .create 0 "C" {} {}).run epochClock s₀ b₀ =
          (.ok (.consumer 0), s₁, b₁) ∧
        plainPublish.run epochClock s₁ b₁ = (.ok (.stored 1), s, b) ∧
        (StreamOp.collect 0 { batch := 1 }).run epochClock s b = (.ok (.collected c), s', b') ∧
        c.deliveries.length = 1 ∧ s₀.consumerById? 0 = none ∧ s₀.consumer? "C" = none ∧
        s.settings.retention = .interest ∧ s.index.get? 1 = some m ∧
        s'.isNeeded 1 m.subject = true ∧
        (Retention.expire s.settings epochClock.wall s.index).1 = [] :=
    ⟨_, _, _, _, _, _, _, _, _, _, rfl, rfl, rfl, rfl, rfl, rfl, rfl, rfl, rfl, rfl, rfl⟩
  have hadd : (StreamOp.upsertConsumer .create 0 "C" {} {}).IsProper s₀ := hnew
  have hstore : plainPublish.IsProper s₁ := trivial
  have hdeliver : (StreamOp.collect 0 { batch := 1 }).IsProper s := trivial
  have hkeeps : (StreamOp.collect 0 { batch := 1 }).KeepsFilters s (.ok (.collected c)) := trivial
  have life : Life (Backend.Elsewhere "stream_S") blankBackend _ s b :=
    ((Life.opened rfl hclock hopen).operated hadd hclock hupsert nofun).operated hstore hclock
      hpublish nofun
  obtain ⟨hneeds, htaken⟩ := life.needed_and_spares hinterest fun before op reply hmem => by
    simp only [List.cons_append, List.nil_append, List.mem_cons, reduceCtorEq, false_or,
      StreamEvent.operated.injEq, List.not_mem_nil, or_false] at hmem
    rcases hmem with ⟨rfl, rfl, rfl⟩ | ⟨rfl, rfl, rfl⟩
    · exact fun _ d hd => nomatch hnone.symm.trans hd
    · trivial
  -- If it were gone, it would have been too old.
  refine ⟨_, s, b, s', b', c, m, life, hcollect, hlength, hm, hneeds 1 m hm, ?_⟩
  intro hgone
  have htakes : 1 ∈ (Retention.expire s.settings epochClock.wall s.index).1 :=
    htaken _ _ _ _ _ hdeliver hkeeps hcollect nofun 1 m (.inl hm) hgone hneeded
  rw [hexpired] at htakes
  exact List.not_mem_nil htakes

end Stream

end StreamBroker
