import StreamBroker.Proofs.Broker.Routing
import StreamBroker.Proofs.Index.Dated
import StreamBroker.Proofs.Stream.Steady

/-!
# Brokers that host a stream

What a client does with a stream that lets nothing go on its own, but perhaps what is too old, is a
sequence of calls to its broker: messages are published and subjects purged, and now and then the
client looks.  Seen from the client, the broker is the stream and what the calls read beside it, so
each call is taken apart once, into what it answers and what becomes of the stream.  What is too old
goes when one looks or publishes, and where nothing is too old the stream lets nothing go.

## Main definitions

* `Broker.Lodges`: a broker has a stream that lets nothing go on its own but for what is too old
* `Broker.Becomes`: the stream has become another, and what calls read beside it is as it was
* `Broker.Hosts`, `Broker.Evolves`: the same of a stream that lets nothing go at all
* `Broker.LeavesAlone`: what happens to a broker does nothing to a stream of it
* `Broker.LeavesToAge`: what happens to a broker does nothing to a stream, from which at most what
  is too old goes

## Main results

* `Broker.lodges_of_createStream`: a stream that is created begins empty
* `Broker.Lodges.inspect_cases`: when one looks, what is too old goes
* `Broker.Lodges.publish_cases`: a message is refused or received
* `Broker.Lodges.purge_cases`: a subject is cut down
* `Broker.Hosts.run_inspect`: looking changes nothing where nothing is ever too old
-/

namespace StreamBroker.Broker

variable {b b' b'' : Broker} {s s' s'' : Stream} {α : Type}

/-- A broker has a stream that lets nothing go on its own but for what is too old, and whose calls
succeed. -/
structure Lodges (b : Broker) (s : Stream) : Prop where
  /-- The registry of the broker is in order. -/
  orderly : b.Orderly
  /-- The stream is one of its streams. -/
  mem : s ∈ b.streams
  /-- The stream lets nothing go on its own but for what is too old. -/
  plain : s.settings.IsPlain
  /-- What the stream keeps beside its messages is right. -/
  sound : s.index.Sound
  /-- The calls of the stream succeed. -/
  backed : s.Backed b.backend

/-- A stream of a broker has become another, and what calls read beside it is as it was. -/
structure Becomes (b : Broker) (s : Stream) (b' : Broker) (s' : Stream) : Prop where
  /-- The broker has the stream. -/
  lodges : b'.Lodges s'
  /-- It is told apart by the same number. -/
  id_eq : s'.id = s.id
  /-- It has the same settings. -/
  settings_eq : s'.settings = s.settings
  /-- No time has passed. -/
  clock_eq : b'.clock = b.clock
  /-- The broker has the same settings. -/
  limits_eq : b'.settings = b.settings
  /-- The same names will be made up. -/
  seed_eq : b'.seed = b.seed
  /-- No name was made up. -/
  namesMade_eq : b'.namesMade = b.namesMade

/-- A broker has a stream that lets nothing go on its own, and whose calls succeed. -/
structure Hosts (b : Broker) (s : Stream) : Prop where
  /-- The registry of the broker is in order. -/
  orderly : b.Orderly
  /-- The stream is one of its streams. -/
  mem : s ∈ b.streams
  /-- The stream lets nothing go on its own. -/
  steady : s.settings.IsSteady
  /-- What the stream keeps beside its messages is right. -/
  sound : s.index.Sound
  /-- The calls of the stream succeed. -/
  backed : s.Backed b.backend

/-- A stream of a broker has become another, and what calls read beside it is as it was. -/
structure Evolves (b : Broker) (s : Stream) (b' : Broker) (s' : Stream) : Prop where
  /-- The broker has the stream. -/
  hosts : b'.Hosts s'
  /-- It is told apart by the same number. -/
  id_eq : s'.id = s.id
  /-- It has the same settings. -/
  settings_eq : s'.settings = s.settings
  /-- No time has passed. -/
  clock_eq : b'.clock = b.clock
  /-- The broker has the same settings. -/
  limits_eq : b'.settings = b.settings
  /-- The same names will be made up. -/
  seed_eq : b'.seed = b.seed
  /-- No name was made up. -/
  namesMade_eq : b'.namesMade = b.namesMade

theorem Lodges.becomes (h : b.Lodges s) : b.Becomes s b s := ⟨h, rfl, rfl, rfl, rfl, rfl, rfl⟩

theorem Becomes.trans (h : b.Becomes s b' s') (h' : b'.Becomes s' b'' s'') :
    b.Becomes s b'' s'' where
  lodges := h'.lodges
  id_eq := h'.id_eq.trans h.id_eq
  settings_eq := h'.settings_eq.trans h.settings_eq
  clock_eq := h'.clock_eq.trans h.clock_eq
  limits_eq := h'.limits_eq.trans h.limits_eq
  seed_eq := h'.seed_eq.trans h.seed_eq
  namesMade_eq := h'.namesMade_eq.trans h.namesMade_eq

theorem Hosts.evolves (h : b.Hosts s) : b.Evolves s b s := ⟨h, rfl, rfl, rfl, rfl, rfl, rfl⟩

theorem Hosts.lodges (h : b.Hosts s) : b.Lodges s where
  orderly := h.orderly
  mem := h.mem
  plain := h.steady.isPlain
  sound := h.sound
  backed := h.backed

theorem Lodges.hosts (h : b.Lodges s) (hs : s.settings.IsSteady) : b.Hosts s where
  orderly := h.orderly
  mem := h.mem
  steady := hs
  sound := h.sound
  backed := h.backed

/-- What becomes of a stream that lets nothing go on its own is one. -/
theorem Hosts.evolves_of_becomes (h : b.Hosts s) (hb : b.Becomes s b' s') :
    b.Evolves s b' s' where
  hosts := hb.lodges.hosts (hb.settings_eq ▸ h.steady)
  id_eq := hb.id_eq
  settings_eq := hb.settings_eq
  clock_eq := hb.clock_eq
  limits_eq := hb.limits_eq
  seed_eq := hb.seed_eq
  namesMade_eq := hb.namesMade_eq

theorem Evolves.trans (h : b.Evolves s b' s') (h' : b'.Evolves s' b'' s'') :
    b.Evolves s b'' s'' where
  hosts := h'.hosts
  id_eq := h'.id_eq.trans h.id_eq
  settings_eq := h'.settings_eq.trans h.settings_eq
  clock_eq := h'.clock_eq.trans h.clock_eq
  limits_eq := h'.limits_eq.trans h.limits_eq
  seed_eq := h'.seed_eq.trans h.seed_eq
  namesMade_eq := h'.namesMade_eq.trans h.namesMade_eq

/-- What happens to a broker leaves a stream alone: it may have become another, but not its settings
and not what is in it. -/
def LeavesAlone (id : Nat) (b b' : Broker) : Prop :=
  ∀ s, b.Hosts s → s.id = id →
    ∃ s', b'.Hosts s' ∧ s'.id = s.id ∧ s'.settings = s.settings ∧ s'.index = s.index

/-- Time that passes leaves a stream alone. -/
theorem leavesAlone_clock (id : Nat) (b : Broker) (clock : Clock) :
    LeavesAlone id b { b with clock } := fun s hs _ =>
  ⟨s, ⟨hs.orderly.sublist (List.Sublist.refl _) (Nat.le_refl _), hs.mem, hs.steady, hs.sound,
    hs.backed⟩, rfl, rfl, rfl⟩

/-- What happens to a broker leaves a stream to age: time goes on, and what was too old at some time
may have gone from the stream. -/
def LeavesToAge (id : Nat) (b b' : Broker) : Prop :=
  b.clock.wall.sinceEpoch ≤ b'.clock.wall.sinceEpoch ∧
    ∀ s, b.Lodges s → s.id = id →
      ∃ s', b'.Lodges s' ∧ s'.id = s.id ∧ s'.settings = s.settings ∧
        (s'.index.toList = s.index.toList ∨
          ∃ now : Timestamp, now.sinceEpoch ≤ b'.clock.wall.sinceEpoch ∧
            s'.index.toList = s.index.toList.filter fun m => decide (s.settings.IsYoung now m))

/-- Time that passes leaves a stream to age. -/
theorem leavesToAge_clock (id : Nat) {b : Broker} {clock : Clock}
    (hle : b.clock.wall.sinceEpoch ≤ clock.wall.sinceEpoch) :
    LeavesToAge id b { b with clock } :=
  ⟨hle, fun s hs _ => ⟨s, ⟨hs.orderly.sublist (List.Sublist.refl _) (Nat.le_refl _), hs.mem,
    hs.plain, hs.sound, hs.backed⟩, rfl, rfl, .inl rfl⟩⟩

/-! ## Streams that begin -/

/-- **A stream that is created on a blank journal is lodged, and it is empty.** -/
theorem lodges_of_createStream {settings : StreamSettings} (hb : b.Orderly)
    (hnew : b.stream? settings.name = none) (hplain : settings.IsPlain)
    (hblank : ∀ ns ∈ settings.journal?, b.backend.Keeps ns SeqMap.empty) {id : Nat}
    (h : (createStream settings).run b = (.ok id, b')) :
    ∃ s, b'.Lodges s ∧ s.id = id ∧ s.settings = settings ∧ s.index.toList = [] ∧
      s.index.lastSeq = 0 := by
  have horderly := hb.registers (registers_createStream h)
  rw [createStream] at h
  rcases action_check_cases h with ⟨e, -, he, -⟩ | ⟨⟨⟩, -, h⟩
  · cases he
  rw [createChecked, Action.bind_ok (Action.run_read b), hnew] at h
  rcases action_check_cases h with ⟨e, -, he, -⟩ | ⟨⟨⟩, -, h⟩
  · cases he
  -- The checks passed, so it is up to the stream whether it opens.
  cases opens settings b with
  | failed hopen heq | ringless hopen heq => cases h.symm.trans heq
  | @opened s backend hopen heq =>
    cases h.symm.trans heq
    obtain ⟨hid, hsettings, hsound, hbacked, hempty, hlast⟩ := Stream.open?_blank hblank hopen
    refine ⟨s, ⟨horderly, List.mem_append_right _ (List.mem_singleton_self s), ?_, hsound,
      hbacked⟩, hid, hsettings, hempty, hlast⟩
    exact hsettings ▸ hplain

/-- A stream that lets nothing go on its own is hosted when it is created on a blank journal. -/
theorem hosts_of_createStream {settings : StreamSettings} (hb : b.Orderly)
    (hnew : b.stream? settings.name = none) (hsteady : settings.IsSteady)
    (hblank : ∀ ns ∈ settings.journal?, b.backend.Keeps ns SeqMap.empty) {id : Nat}
    (h : (createStream settings).run b = (.ok id, b')) :
    ∃ s, b'.Hosts s ∧ s.id = id ∧ s.settings = settings ∧ s.index.toList = [] ∧
      s.index.lastSeq = 0 := by
  obtain ⟨s, hlodges, hid, rfl, hempty, hlast⟩ :=
    lodges_of_createStream hb hnew hsteady.isPlain hblank h
  exact ⟨s, hlodges.hosts hsteady, hid, rfl, hempty, hlast⟩

namespace Lodges

/-- The stream is found by its number. -/
theorem liveStream_eq (h : b.Lodges s) : b.liveStream s.id = .ok s := h.orderly.liveStream_eq h.mem

/-- The stream is put in its place again. -/
theorem putStream (h : b.Lodges s) {backend : Backend} (hs : s.Stays s' backend) :
    b.Becomes s ({ b with backend }.putStream s') s' := by
  have horderly : ({ b with backend } : Broker).Orderly :=
    h.orderly.sublist (List.Sublist.refl _) (Nat.le_refl _)
  have hregistry : ({ b with backend }.putStream s').registry = b.registry :=
    horderly.registry_putStream_eq h.mem hs.id_eq hs.settings_eq
  refine ⟨⟨?_, ?_, hs.settings_eq ▸ h.plain, hs.sound, hs.backed⟩, hs.id_eq, hs.settings_eq,
    rfl, rfl, rfl, rfl⟩
  · exact h.orderly.sublist (hregistry ▸ List.Sublist.refl _) (Nat.le_refl _)
  · exact List.mem_map.2 ⟨s, h.mem, if_pos (beq_iff_eq.2 hs.id_eq.symm)⟩

/-- An operation on the stream is answered as the stream answers it. -/
theorem run_onStream (h : b.Lodges s)
    (f : Stream → Backend → Except Error α × Stream × Backend) :
    (onStream s.id f).run b = ((f s b.backend).1,
      { b with backend := (f s b.backend).2.2 }.putStream (f s b.backend).2.1) := by
  simp only [Action.run, onStream, h.liveStream_eq]

/-- A stream that has become another in no time, but for what is too old, is left to age. -/
theorem leavesToAge_of_becomes (h : b.Lodges s) (he : b.Becomes s b' s')
    (hindex : s'.index.toList =
      s.index.toList.filter fun m => decide (s.settings.IsYoung b.clock.wall m)) :
    LeavesToAge s.id b b' := by
  refine ⟨Int.le_of_eq (he.clock_eq ▸ rfl), fun t ht hid => ?_⟩
  have hs := h.liveStream_eq
  rw [← hid, ht.liveStream_eq] at hs
  obtain rfl := Except.ok.inj hs
  exact ⟨s', he.lodges, he.id_eq, he.settings_eq,
    .inr ⟨_, Int.le_of_eq (he.clock_eq ▸ rfl), hindex⟩⟩

/-! ## Looking -/

/-- **When one looks at the stream, what is too old goes.** -/
theorem inspect_cases (h : b.Lodges s) {check : Except Error Unit} {f : Stream → Except Error α}
    {reply : Except Error α} (hrun : (inspect s.id check f).run b = (reply, b'))
    (hreply : reply ≠ .error .numbersExhausted) :
    (∃ e, check = .error e ∧ reply = .error e ∧ b' = b) ∨
      check = .ok () ∧ ∃ s', b.Becomes s b' s' ∧
        s'.index = (Retention.expire s.settings b.clock.wall s.index).2 ∧ reply = f s' := by
  have hevict := h.run_onStream fun s backend => s.evict b.clock.wall backend
  simp only [Action.run, inspect, h.liveStream_eq] at hrun
  cases check with
  | error e =>
    cases hrun
    exact .inl ⟨e, rfl, rfl, rfl⟩
  | ok u =>
    refine .inr ⟨rfl, ?_⟩
    -- What is too old goes first, and what is left is looked at.
    cases hs : s.evict b.clock.wall b.backend with
    | mk r left =>
      obtain ⟨s', backend⟩ := left
      simp only [hs] at hevict
      have hevict : evict s.id b = (r, { b with backend }.putStream s') := hevict
      have hr : r ≠ .error .numbersExhausted := by
        rintro rfl
        simp only [hevict] at hrun
        cases hrun
        exact hreply rfl
      obtain ⟨rfl, hs', hstays⟩ := Stream.evict_backed h.sound h.backed hs hr
      have hput := h.putStream hstays
      have hlive := hput.lodges.liveStream_eq
      rw [hput.id_eq] at hlive
      simp only [hevict, hlive] at hrun
      cases hrun
      exact ⟨s', hput, congrArg Stream.index hs', rfl⟩

/-- Looking at the stream changes nothing where nothing is too old. -/
theorem run_inspect (h : b.Lodges s)
    (hrest : Retention.expire s.settings b.clock.wall s.index = ([], s.index))
    (check : Except Error Unit) (f : Stream → Except Error α) :
    ∃ b', (inspect s.id check f).run b = (check >>= fun _ => f s, b') ∧ b.Becomes s b' s := by
  have hevict := h.run_onStream fun s backend => s.evict b.clock.wall backend
  simp only [Stream.evict_rested hrest] at hevict
  have hput := h.putStream (.refl h.sound h.backed)
  cases check with
  | error e =>
    refine ⟨b, ?_, h.becomes⟩
    simp only [Action.run, inspect, h.liveStream_eq]
    rfl
  | ok u =>
    refine ⟨_, ?_, hput⟩
    have hevict' : evict s.id b = _ := hevict
    simp only [Action.run, inspect, h.liveStream_eq, hevict', hput.lodges.liveStream_eq]
    rfl

/-- The newest message of a subject, after what is too old has gone. -/
theorem lastMessage_cases (h : b.Lodges s) {subject : String}
    (hsubject : checkSubject subject = .ok ()) {reply : Except Error StoredMessage}
    (hrun : (lastMessage s.id subject).run b = (reply, b'))
    (hreply : reply ≠ .error .numbersExhausted) :
    ∃ s', b.Becomes s b' s' ∧
      s'.index = (Retention.expire s.settings b.clock.wall s.index).2 ∧
      reply = match (s'.index.ofSubject subject).getLast? with
        | some m => .ok m
        | none => .error (.subjectNotFound subject s'.name) := by
  rcases h.inspect_cases hrun hreply with ⟨e, he, -⟩ | ⟨-, s', hbecomes, hindex, rfl⟩
  · rw [checkLiteralSubject, hsubject] at he
    cases he
  · have hlast := hbecomes.lodges.sound.coherent.lastForSubject_eq subject
    refine ⟨s', hbecomes, hindex, ?_⟩
    cases hm : (s'.index.ofSubject subject).getLast? with
    | none => simp only [hlast, hm]
    | some m => simp only [hlast, hm]

/-- The messages of a subject, where nothing is too old. -/
theorem run_matchingMessages (h : b.Lodges s)
    (hrest : Retention.expire s.settings b.clock.wall s.index = ([], s.index)) {subject : String}
    (hsubject : checkSubject subject = .ok ()) :
    ∃ b', (matchingMessages s.id subject).run b = (.ok (s.index.ofSubject subject), b') ∧
      b.Becomes s b' s := by
  obtain ⟨b', hrun, hbecomes⟩ := h.run_inspect hrest (checkFilter subject) fun s =>
    .ok (s.index.matching subject)
  refine ⟨b', ?_, hbecomes⟩
  rw [matchingMessages, hrun, checkFilter, checkPattern_of_checkSubject hsubject,
    Index.matching_subject _ hsubject]
  rfl

/-! ## Messages come and go -/

/-- A subject that the stream takes leads to it. -/
theorem route_eq_ok (h : b.Lodges s) {subject : String} (hsubject : checkSubject subject = .ok ())
    (htakes : s.settings.takes subject = true) : b.route subject = .ok s := by
  have hfind := (find?_eq_some_iff_of_pairwise (h.orderly.pairwise_takes subject)).2
    ⟨h.mem, htakes⟩
  rw [route_eq hsubject, hfind]

/-- **A message is refused or received**, where nothing is too old. -/
theorem publish_cases (h : b.Lodges s)
    (hrest : Retention.expire s.settings b.clock.wall.toMicro s.index = ([], s.index))
    {m : Message} {e : Expectations} (hsubject : checkSubject m.subject = .ok ())
    (htakes : s.settings.takes m.subject = true) (he : ∀ name ∈ e.stream, name = s.name)
    {reply : Except Error PublishAck} (hrun : (publish m e).run b = (reply, b'))
    (hreply : reply ≠ .error .numbersExhausted) :
    ∃ s', b.Becomes s b' s' ∧
      ((∃ error, reply = .error error ∧ s'.index = s.index ∧
          s.Refuses b.settings.maxPayload b.clock.wall.toMicro e m error) ∨
        ∃ stored,
          s.index.prepare s.settings b.settings.maxPayload b.clock.wall.toMicro e m = .ok stored ∧
          reply = .ok ⟨s.name, stored.sequence⟩ ∧ s'.index = s.received stored) := by
  rw [publish, Action.bind_ok (Action.run_read b), h.route_eq_ok hsubject htakes] at hrun
  rcases action_check_cases hrun with ⟨error, herror, -⟩ | ⟨t, ht, hrun⟩
  · cases herror
  · cases ht
    have hon := h.run_onStream fun s backend =>
      s.publish b.settings.maxPayload b.clock e m backend
    cases hp : s.publish b.settings.maxPayload b.clock e m b.backend with
    | mk r left =>
      obtain ⟨s', backend⟩ := left
      simp only [hp] at hon
      -- The broker adds nothing to the answer of the stream but its name.
      have hanswer : reply = r.map (⟨s.name, ·⟩) ∧ b' = { b with backend }.putStream s' := by
        cases r with
        | error error =>
          rw [Action.bind_error hon] at hrun
          cases hrun
          exact ⟨rfl, rfl⟩
        | ok n =>
          rw [Action.bind_ok hon] at hrun
          cases hrun
          exact ⟨rfl, rfl⟩
      obtain ⟨rfl, rfl⟩ := hanswer
      have hr : r ≠ .error .numbersExhausted := by
        rintro rfl
        exact hreply rfl
      obtain ⟨hstays, ⟨error, rfl, hindex, hrefuses⟩ | ⟨stored, hprepare, rfl, hindex⟩⟩ :=
        Stream.publish_rested h.plain h.sound h.backed hrest he hp hr
      · exact ⟨s', h.putStream hstays, .inl ⟨error, rfl, hindex, hrefuses⟩⟩
      · exact ⟨s', h.putStream hstays, .inr ⟨stored, hprepare, rfl, hindex⟩⟩

/-- **A subject is cut down** on request. -/
theorem purge_cases (h : b.Lodges s) {subject : String} (hsubject : checkSubject subject = .ok ())
    {keep : Option Nat} {reply : Except Error Nat}
    (hrun : (purge s.id { filter := some subject, keep }).run b = (reply, b'))
    (hreply : reply ≠ .error .numbersExhausted) :
    ∃ s', b.Becomes s b' s' ∧ (∃ n, reply = .ok n) ∧
      s'.index = (Retention.trimSubject (keep.getD 0) s.index subject).2 := by
  have hon := h.run_onStream fun s backend =>
    s.purge { filter := some subject, keep } backend
  cases hp : s.purge { filter := some subject, keep } b.backend with
  | mk r left =>
    obtain ⟨s', backend⟩ := left
    simp only [hp] at hon
    obtain ⟨rfl, rfl⟩ := Prod.mk.inj (hrun.symm.trans hon)
    obtain ⟨hstays, hok, hindex⟩ := Stream.purge_steady h.sound h.backed hsubject hp hreply
    exact ⟨s', h.putStream hstays, hok, hindex⟩

end Lodges

/-! ## Streams that let nothing go at all -/

namespace Hosts

/-- Looking at a stream leaves it alone. -/
theorem leavesAlone_of_evolves (h : b.Hosts s) (he : b.Evolves s b' s) :
    LeavesAlone s.id b b' := by
  intro t ht hid
  have hs := h.lodges.liveStream_eq
  rw [← hid, ht.lodges.liveStream_eq] at hs
  obtain rfl := Except.ok.inj hs
  exact ⟨t, he.hosts, rfl, rfl, rfl⟩

/-- The stream is found by its number. -/
theorem liveStream_eq (h : b.Hosts s) : b.liveStream s.id = .ok s := h.lodges.liveStream_eq

/-- Looking at the stream changes nothing. -/
theorem run_inspect (h : b.Hosts s) (check : Except Error Unit) (f : Stream → Except Error α) :
    ∃ b', (inspect s.id check f).run b = (check >>= fun _ => f s, b') ∧ b.Evolves s b' s := by
  obtain ⟨b', hrun, hbecomes⟩ := h.lodges.run_inspect (Stream.expire_steady h.steady _) check f
  exact ⟨b', hrun, h.evolves_of_becomes hbecomes⟩

/-- The newest message of a subject. -/
theorem run_lastMessage (h : b.Hosts s) {subject : String}
    (hsubject : checkSubject subject = .ok ()) :
    ∃ b', (lastMessage s.id subject).run b =
        (match (s.index.ofSubject subject).getLast? with
          | some m => .ok m
          | none => .error (.subjectNotFound subject s.name), b') ∧ b.Evolves s b' s := by
  obtain ⟨b', hrun, hevolves⟩ := h.run_inspect (checkLiteralSubject subject) fun s =>
    match s.index.lastForSubject subject with
    | some m => .ok m
    | none => .error (.subjectNotFound subject s.name)
  refine ⟨b', hrun.trans ?_, hevolves⟩
  rw [checkLiteralSubject, hsubject, h.sound.coherent.lastForSubject_eq]
  rfl

/-- The messages of a subject. -/
theorem run_matchingMessages (h : b.Hosts s) {subject : String}
    (hsubject : checkSubject subject = .ok ()) :
    ∃ b', (matchingMessages s.id subject).run b = (.ok (s.index.ofSubject subject), b') ∧
      b.Evolves s b' s := by
  obtain ⟨b', hrun, hbecomes⟩ :=
    h.lodges.run_matchingMessages (Stream.expire_steady h.steady _) hsubject
  exact ⟨b', hrun, h.evolves_of_becomes hbecomes⟩

/-- The newest messages of the subjects of a pattern. -/
theorem run_lastPerSubject (h : b.Hosts s) {pattern : String}
    (hpattern : checkPattern pattern = .ok ()) :
    ∃ b', (lastPerSubject s.id pattern).run b = (.ok (s.index.newestMatching pattern), b') ∧
      b.Evolves s b' s := by
  obtain ⟨b', hrun, hevolves⟩ := h.run_inspect (checkFilter pattern) fun s =>
    .ok (s.index.lastPerSubject pattern)
  refine ⟨b', ?_, hevolves⟩
  rw [lastPerSubject, hrun, checkFilter, hpattern, h.sound.coherent.lastPerSubject_eq]
  rfl

/-- **A message is refused or received.** -/
theorem publish_cases (h : b.Hosts s) {m : Message} {e : Expectations}
    (hsubject : checkSubject m.subject = .ok ()) (htakes : s.settings.takes m.subject = true)
    (he : ∀ name ∈ e.stream, name = s.name) {reply : Except Error PublishAck}
    (hrun : (publish m e).run b = (reply, b')) (hreply : reply ≠ .error .numbersExhausted) :
    ∃ s', b.Evolves s b' s' ∧
      ((∃ error, reply = .error error ∧ s'.index = s.index ∧
          s.Refuses b.settings.maxPayload b.clock.wall.toMicro e m error) ∨
        ∃ stored,
          s.index.prepare s.settings b.settings.maxPayload b.clock.wall.toMicro e m = .ok stored ∧
          reply = .ok ⟨s.name, stored.sequence⟩ ∧ s'.index = s.received stored) := by
  obtain ⟨s', hbecomes, hcases⟩ := h.lodges.publish_cases (Stream.expire_steady h.steady _)
    hsubject htakes he hrun hreply
  exact ⟨s', h.evolves_of_becomes hbecomes, hcases⟩

/-- **A subject is cut down** on request. -/
theorem purge_cases (h : b.Hosts s) {subject : String} (hsubject : checkSubject subject = .ok ())
    {keep : Option Nat} {reply : Except Error Nat}
    (hrun : (purge s.id { filter := some subject, keep }).run b = (reply, b'))
    (hreply : reply ≠ .error .numbersExhausted) :
    ∃ s', b.Evolves s b' s' ∧ (∃ n, reply = .ok n) ∧
      s'.index = (Retention.trimSubject (keep.getD 0) s.index subject).2 := by
  obtain ⟨s', hbecomes, hcases⟩ := h.lodges.purge_cases hsubject hrun hreply
  exact ⟨s', h.evolves_of_becomes hbecomes, hcases⟩

end Hosts

end StreamBroker.Broker
