import StreamBroker.Proofs.Broker.Watching
import StreamBroker.Proofs.ObjectBucket.Moves

/-!
# Watching an object bucket

Who watches a bucket gets the newest description of every object, and then the descriptions that are
written.  A reader who keeps the last description of every name, and forgets the name when the
description says that the object was deleted, so comes to know what the bucket lists.

There is one exception.  An object that gets another name is described by the new name, and what was
described by the old one goes.  Nothing is written of that, so the reader still holds the object by
its old name too, until an object of this name is put.

## Main definitions

* `ObjectDescription.replay`: what is known to a reader of descriptions
* `ObjectView.staleAfter`: what a reader still holds though it is described no more
* `ObjectBucket.Watching`: a bucket is watched, and operations are done on it meanwhile

## Main results

* `ObjectBucket.Watching.holds`: a reader holds what is listed, and what had another name
* `ObjectBucket.Watching.operate`: an object that gets another name is held by the old one too
-/

namespace StreamBroker

/-! ## What a reader knows -/

namespace ObjectDescription

/-- The description, if the object exists. -/
def live? (d : ObjectDescription) : Option ObjectDescription :=
  if d.deleted then none else some d

/-- What is known of every name after some descriptions to a reader who knew nothing. -/
def replay (ds : List ObjectDescription) : String → Option ObjectDescription :=
  ds.foldl (fun known d => Function.update known d.name d.live?) fun _ => none

theorem replay_concat (ds : List ObjectDescription) (d : ObjectDescription) :
    replay (ds ++ [d]) = Function.update (replay ds) d.name d.live? := by
  rw [replay, List.foldl_append]
  rfl

theorem live?_eq_some_iff {d e : ObjectDescription} :
    d.live? = some e ↔ d = e ∧ d.deleted = false := by
  rw [live?]
  cases d.deleted <;> simp

end ObjectDescription

namespace ObjectView

variable {u v w : ObjectView} {stale : String → Option ObjectDescription} {name : String}

/-- What is known of a name to a reader who holds some descriptions of names that are described no
more. -/
def known (v : ObjectView) (stale : String → Option ObjectDescription) (name : String) :
    Option ObjectDescription :=
  match v.newest name with
  | some d => d.live?
  | none => stale name

/-- What a reader is left with when what is shown changes: the names that are described no more. -/
def staleAfter (v w : ObjectView) (stale : String → Option ObjectDescription) (name : String) :
    Option ObjectDescription :=
  match w.newest name with
  | some _ => none
  | none => v.known stale name

theorem known_of_eq_none (h : v.newest name = none) : v.known stale name = stale name := by
  rw [known, h]

theorem staleAfter_of_eq_none (h : w.newest name = none) :
    v.staleAfter w stale name = v.known stale name := by
  rw [staleAfter, h]

/-- What is described newest is known, and of other names what was known before. -/
theorem known_staleAfter : w.known (v.staleAfter w stale) name =
    match w.newest name with
    | some d => d.live?
    | none => v.known stale name := by
  cases h : w.newest name <;> simp only [known, staleAfter, h]

/-- Nothing gets stale where nothing changes. -/
theorem staleAfter_self (h : ∀ name, v.newest name ≠ none → stale name = none) :
    v.staleAfter v stale = stale := by
  funext name
  cases hname : v.newest name with
  | none => rw [staleAfter_of_eq_none hname, known_of_eq_none hname]
  | some d => rw [staleAfter, hname, h name fun hnone => by cases hname.symm.trans hnone]

/-- What gets stale in two steps gets stale in one, if what goes in the second was there before the
first. -/
theorem staleAfter_trans (h : ∀ name, w.newest name = none →
    v.newest name = none ∨ v.newest name = u.newest name) :
    v.staleAfter w (u.staleAfter v stale) = u.staleAfter w stale := by
  funext name
  cases hname : w.newest name with
  | some d => rw [staleAfter, staleAfter, hname]
  | none =>
    rw [staleAfter_of_eq_none hname, staleAfter_of_eq_none hname, known_staleAfter]
    rcases h name hname with hgone | hsame
    · rw [hgone]
    · rw [hsame]
      cases hshown : u.newest name with
      | some d => rw [known, hshown]
      | none => rfl

end ObjectView

namespace ObjectBucket

variable {o : ObjectBucket} {settings : ObjectBucketSettings} {b b' : Broker} {s s' : Stream}
  {f : Feed} {name : String} {seen : List (Broker × Feed)} {read : List ObjectDescription}
  {due taken : List StoredMessage} {renamed : String → Prop} {ops : List ObjectOp}
  {stale : String → Option ObjectDescription}

/-- The last description of a name in a list of messages. -/
def lastDescription (o : ObjectBucket) (ms : List StoredMessage) (name : String) :
    Option ObjectDescription :=
  (ms.filter fun m => decide (m.subject = o.descriptionSubject name)).getLast?.bind descriptionOf?

/-- Who reads descriptions knows the last ones. -/
theorem replay_descriptions {ms : List StoredMessage} (h : ∀ m ∈ ms, ∃ d, o.IsDescription m d)
    (name : String) : ObjectDescription.replay (ms.filterMap descriptionOf?) name =
      (o.lastDescription ms name).bind ObjectDescription.live? := by
  induction ms using List.reverseRecOn with
  | nil => rfl
  | append_singleton ms m ih =>
    obtain ⟨d, hd⟩ := h m (List.mem_append_right _ List.mem_cons_self)
    -- A name is known by the subject of its descriptions.
    have hsubject : m.subject = o.descriptionSubject name ↔ name = d.name := by
      rw [hd.subject_eq, descriptionSubject_inj, eq_comm]
    rw [List.filterMap_append, List.filterMap_cons_some hd.descriptionOf_eq, List.filterMap_nil,
      ObjectDescription.replay_concat, Function.update_apply, lastDescription, List.filter_append]
    split
    · next hname =>
      rw [List.filter_cons_of_pos (by simpa using hsubject.2 hname), List.filter_nil,
        List.getLast?_concat, Option.bind_some, hd.descriptionOf_eq]
      rfl
    · next hname =>
      rw [List.filter_cons_of_neg (by simpa using fun heq => hname (hsubject.1 heq)),
        List.filter_nil, List.append_nil]
      exact ih fun m hm => h m (List.mem_append_left _ hm)

/-! ## Reading -/

/-- What comes of a name, and what becomes of its newest description: none comes and the newest is
kept or goes, or the last that comes is the newest.  It goes at most where an object had the
name. -/
theorem KeepsNewest.cases (h : o.KeepsNewest renamed s s') (hs : o.Stocked s.index)
    (hs' : o.Stocked s'.index) (name : String) :
    ((s.newcomers s').filter fun m => decide (m.subject = o.descriptionSubject name)) = [] ∧
        ((o.viewOf s'.index).newest name = (o.viewOf s.index).newest name ∨
          (o.viewOf s'.index).newest name = none ∧ renamed name) ∨
      ∃ m d, ((s.newcomers s').filter
          fun m => decide (m.subject = o.descriptionSubject name)).getLast? = some m ∧
        descriptionOf? m = some d ∧ (o.viewOf s'.index).newest name = some d := by
  have hnone (hlast : (s'.index.ofSubject (o.descriptionSubject name)).getLast? =
      (s.index.ofSubject (o.descriptionSubject name)).getLast?) :=
    Stream.newcomers_of_getLast?_eq hs.sound.filed hs'.sound.filed hlast
  by_cases hname : renamed name
  · -- Nothing comes of a name that is taken from an object.
    rcases h.gone name hname with hlast | hempty
    · exact .inl ⟨hnone hlast, .inl (congrArg (Option.bind · descriptionOf?) hlast)⟩
    · refine .inl ⟨?_, .inr ⟨?_, hname⟩⟩
      · rw [Stream.filter_newcomers_subject, hempty]
        rfl
      · simp only [viewOf, hempty]
        rfl
  · have hlast := (h.kept name hname).getLast?_eq hs.sound.filed hs'.sound.filed
    cases hnews : ((s.newcomers s').filter
        fun m => decide (m.subject = o.descriptionSubject name)).getLast? with
    | none =>
      rw [hnews, Option.none_or] at hlast
      exact .inl ⟨hnone hlast, .inl (congrArg (Option.bind · descriptionOf?) hlast)⟩
    | some m =>
      rw [hnews, Option.some_or] at hlast
      obtain ⟨d, hd, -⟩ := hs'.exists_isDescription (List.mem_of_getLast? hlast)
      exact .inr ⟨m, d, rfl, hd.descriptionOf_eq, by
        simp only [viewOf, hlast, Option.bind_some, hd.descriptionOf_eq]⟩

/-- What is described no more was not described before, or an object had the name. -/
theorem KeepsNewest.eq_none (h : o.KeepsNewest renamed s s') (hs : o.Stocked s.index)
    (hs' : o.Stocked s'.index) (hnone : (o.viewOf s'.index).newest name = none) :
    (o.viewOf s.index).newest name = none ∨ renamed name := by
  rcases h.cases hs hs' name with ⟨-, hsame | ⟨-, hname⟩⟩ | ⟨m, d, -, -, hsome⟩
  · exact .inl (hsame.symm.trans hnone)
  · exact .inr hname
  · cases hnone.symm.trans hsome

/-- What is described by a name that an object had stays or goes. -/
theorem KeepsNewest.newest_of_renamed (h : o.KeepsNewest renamed s s') (hname : renamed name) :
    (o.viewOf s'.index).newest name = (o.viewOf s.index).newest name ∨
      (o.viewOf s'.index).newest name = none := by
  rcases h.gone name hname with hlast | hempty
  · exact .inl (congrArg (Option.bind · descriptionOf?) hlast)
  · exact .inr (by simp only [viewOf, hempty]; rfl)

/-- A bucket is watched, and what is due to the reader tells what is described newest, and of names
that are described no more what is stale. -/
structure Reads (o : ObjectBucket) (settings : ObjectBucketSettings) (b : Broker) (f : Feed)
    (s : Stream) (seen : List (Broker × Feed)) (due taken : List StoredMessage)
    (ops : List ObjectOp) (stale : String → Option ObjectDescription) : Prop where
  /-- The bucket is there. -/
  isOpen : o.IsOpen settings b s
  /-- The feed is on its way. -/
  follows : b.Follows f s o.allDescriptions seen due taken
  /-- What is due are descriptions. -/
  isDescription : ∀ m ∈ due, ∃ d, o.IsDescription m d
  /-- The last description of a name that is due tells what is known of it. -/
  told : ∀ name, (o.lastDescription due name).bind ObjectDescription.live? =
    (o.viewOf s.index).known stale name
  /-- What is stale is described no more, and an operation took its name from an object. -/
  stale_spec : ∀ name d, stale name = some d → (o.viewOf s.index).newest name = none ∧
    d.name = name ∧ ∃ op ∈ ops, op.Renames name

theorem Reads.staleAfter_self (h : o.Reads settings b f s seen due taken ops stale) :
    (o.viewOf s.index).staleAfter (o.viewOf s.index) stale = stale :=
  ObjectView.staleAfter_self fun name hne => Option.eq_none_iff_forall_not_mem.2 fun d hd =>
    hne (h.stale_spec name d hd).1

/-- Messages of a bucket that match the pattern of descriptions are descriptions. -/
theorem Stocked.isDescription_of_matches {x : Index} (h : o.Stocked x) {m : StoredMessage}
    (hm : m ∈ x.toList) (hmatches : subjectMatches m.subject o.allDescriptions = true) :
    ∃ d, o.IsDescription m d := by
  obtain ⟨back, hback⟩ := (subjectMatches_iff h.checkBucket_name).1 hmatches
  exact (h.own m hm).isDescription hback

/-- With what comes, the last description of a name still tells what is known of it. -/
theorem Reads.told_append (h : o.Reads settings b f s seen due taken ops stale)
    (hs' : o.Stocked s'.index) (hkeeps : o.KeepsNewest renamed s s') (name : String) :
    (o.lastDescription (due ++
        (s.newcomers s').filter fun m => subjectMatches m.subject o.allDescriptions) name).bind
          ObjectDescription.live? =
      (o.viewOf s'.index).known ((o.viewOf s.index).staleAfter (o.viewOf s'.index) stale) name := by
  have hmatches : subjectMatches (o.descriptionSubject name) o.allDescriptions = true :=
    (subjectMatches_iff hs'.checkBucket_name).2 ⟨_, rfl⟩
  have htold := h.told name
  rw [ObjectView.known_staleAfter, lastDescription, List.filter_append, List.getLast?_append,
    Stream.filter_matching_subject hmatches]
  rcases hkeeps.cases h.isOpen.stocked hs' name with
    ⟨hnone, hnewest | ⟨hnewest, -⟩⟩ | ⟨m, d, hnews, hm, hnewest⟩
  · rw [hnone, hnewest]
    refine htold.trans ?_
    cases hshown : (o.viewOf s.index).newest name with
    | some d => rw [ObjectView.known, hshown]
    | none => rfl
  · -- The description went and nothing came, so the reader keeps what it was told.
    rw [hnone, hnewest]
    exact htold
  · rw [hnews, hnewest, Option.some_or, Option.bind_some, hm, Option.bind_some]

/-- What is stale behind a change was stale, or is what the change took from a name. -/
theorem Reads.stale_staleAfter (h : o.Reads settings b f s seen due taken ops stale)
    (hs' : o.Stocked s'.index) (hkeeps : o.KeepsNewest renamed s s') {ops' : List ObjectOp}
    (hops : ∀ op ∈ ops, op ∈ ops') (hrenamed : ∀ name, renamed name → ∃ op ∈ ops', op.Renames name)
    {d : ObjectDescription}
    (hd : (o.viewOf s.index).staleAfter (o.viewOf s'.index) stale name = some d) :
    (o.viewOf s'.index).newest name = none ∧ d.name = name ∧ ∃ op ∈ ops', op.Renames name := by
  cases hnewest : (o.viewOf s'.index).newest name with
  | some e =>
    rw [ObjectView.staleAfter, hnewest] at hd
    cases hd
  | none =>
    rw [ObjectView.staleAfter_of_eq_none hnewest] at hd
    refine ⟨rfl, ?_, ?_⟩
    · -- It was stale before, or was described until now by its own name.
      cases hbefore : (o.viewOf s.index).newest name with
      | none =>
        rw [ObjectView.known_of_eq_none hbefore] at hd
        exact (h.stale_spec name d hd).2.1
      | some e =>
        rw [ObjectView.known, hbefore] at hd
        obtain ⟨rfl, -⟩ := ObjectDescription.live?_eq_some_iff.1 hd
        exact (h.isOpen.stocked.newest_spec hbefore).2.1
    · rcases hkeeps.eq_none h.isOpen.stocked hs' hnewest with hbefore | hname
      · rw [ObjectView.known_of_eq_none hbefore] at hd
        obtain ⟨-, -, op, hop, hrenames⟩ := h.stale_spec name d hd
        exact ⟨op, hops op hop, hrenames⟩
      · exact hrenamed name hname

theorem Reads.moved (h : o.Reads settings b f s seen due taken ops stale) (hstep : b.Step b')
    (hopen : o.IsOpen settings b' s') (hkeeps : o.KeepsNewest renamed s s')
    {ops' : List ObjectOp} (hops : ∀ op ∈ ops, op ∈ ops')
    (hrenamed : ∀ name, renamed name → ∃ op ∈ ops', op.Renames name) :
    ∃ due', o.Reads settings b' f s' ((b', f) :: seen) due' taken ops'
      ((o.viewOf s.index).staleAfter (o.viewOf s'.index) stale) := by
  obtain ⟨past, history⟩ := h.follows.history
  have hid : s'.id = f.stream := by
    rw [hopen.id_eq, ← h.isOpen.id_eq]
    exact (Broker.known_of_streamById? h.follows.found).2
  have hfound := (history.step hstep).staffed.streamById?_eq hopen.mem
  rw [hid] at hfound
  exact ⟨_, {
    isOpen := hopen
    follows := h.follows.moved hstep hfound
    isDescription := by
      intro m hm
      rcases List.mem_append.1 hm with hm | hm
      · exact h.isDescription m hm
      · obtain ⟨hnew, hmatches⟩ := List.mem_filter.1 hm
        exact hopen.stocked.isDescription_of_matches (List.mem_filter.1 hnew).1 hmatches
    told := h.told_append hopen.stocked hkeeps
    stale_spec := fun _ _ hd => h.stale_staleAfter hopen.stocked hkeeps hops hrenamed hd }⟩

/-- **Moves are read as one**, for whoever keeps up when they are made. -/
theorem Reads.moves (h : o.Reads settings b f s seen due taken ops stale)
    (hmoves : Relation.ReflTransGen (o.Move renamed) b b') {ops' : List ObjectOp}
    (hops : ∀ op ∈ ops, op ∈ ops')
    (hrenamed : ∀ name, renamed name → ∃ op ∈ ops', op.Renames name) :
    ∃ s' due', o.Reads settings b' f s' ((b', f) :: seen) due' taken ops'
        ((o.viewOf s.index).staleAfter (o.viewOf s'.index) stale) ∧
      ∀ name, renamed name → (o.viewOf s'.index).newest name = (o.viewOf s.index).newest name ∨
        (o.viewOf s'.index).newest name = none := by
  induction hmoves with
  | refl =>
    refine ⟨s, due, ?_, fun name _ => .inl rfl⟩
    rw [h.staleAfter_self]
    refine { h with follows := h.follows.seenAt fun hkeeps => (List.forall_mem_cons.1 hkeeps).2,
                    stale_spec := fun name d hd => ?_ }
    obtain ⟨hnone, hname, op, hop, hrenames⟩ := h.stale_spec name d hd
    exact ⟨hnone, hname, op, hops op hop, hrenames⟩
  | @tail b₁ b₂ hmoves hmove ih =>
    obtain ⟨s₁, due₁, h₁, hsame⟩ := ih
    obtain ⟨past, history⟩ := h₁.follows.history
    obtain ⟨s₂, hopen, hkeeps⟩ := h₁.isOpen.move history.staffed hmove
    obtain ⟨due₂, h₂⟩ := h₁.moved hmove.step hopen hkeeps (fun _ hop => hop) hrenamed
    rw [ObjectView.staleAfter_trans fun name hnone => ?_] at h₂
    · refine ⟨s₂, due₂, { h₂ with follows := h₂.follows.seenAt fun hseen => ?_ },
        fun name hname => ?_⟩
      · obtain ⟨hlast, hseen⟩ := List.forall_mem_cons.1 hseen
        refine List.forall_mem_cons.2 ⟨hlast, List.forall_mem_cons.2 ⟨?_, hseen⟩⟩
        exact h₁.follows.keepsUp_of_step hmove.step h₂.follows.found hlast
      · -- A description that went does not come back under the same operation.
        rcases hkeeps.newest_of_renamed hname with heq | hnone
        · rw [heq]
          exact hsame name hname
        · exact .inr hnone
    · rcases hkeeps.eq_none h₁.isOpen.stocked hopen.stocked hnone with hgone | hname
      · exact .inl hgone
      · exact (hsame name hname).symm

theorem Reads.drained {f' : Feed} {items : List ObjectDescription} {most : Option Nat}
    (h : o.Reads settings b f s seen due taken ops stale)
    (hdrain : b.drain f descriptionOf? most = (items, f')) :
    ∃ more, items = more.filterMap descriptionOf? ∧
      o.Reads settings b f' s ((b, f') :: seen) due (taken ++ more) ops stale := by
  obtain ⟨more, hitems, hfollows⟩ := h.follows.drained hdrain
  exact ⟨more, hitems, { h with follows := hfollows }⟩

/-- The objects are listed. -/
theorem IsOpen.run_list (h : o.IsOpen settings b s) (hb : b.Staffed) :
    o.list.run b = (.ok (listed o s.index), b) := by
  have hlast : (Broker.lastPerSubject o.stream o.allDescriptions).run b =
      (.ok (s.index.newestMatching o.allDescriptions), b) := by
    rw [Broker.lastPerSubject, ← h.id_eq, hb.run_inspect h.mem h.isSteady, checkFilter,
      checkPattern_allDescriptions h.stocked.checkBucket_name,
      h.stocked.sound.coherent.toTallied.lastPerSubject_eq]
    rfl
  rw [list, Action.bind_ok hlast]
  rfl

/-! ## Buckets that are watched -/

/-- A bucket is watched: a feed of descriptions that begins with the newest ones was opened at some
time when the journals that streams were opened from could be read.  Since then operations were done
on the bucket, others did what they do and left it alone, and descriptions were read. -/
inductive Watching (o : ObjectBucket) (settings : ObjectBucketSettings) :
    List (Broker × Feed) → List ObjectOp → (String → Option ObjectDescription) →
      List ObjectDescription → Prop where
  | opened {b b' : Broker} {past : List Broker} {f : Feed} {s : Stream}
      (history : Broker.History (b :: past)) (hlegible : ∀ t ∈ b :: past, t.backend.IsLegible)
      (hwatch : (o.watch true).run b = (.ok f, b')) (h : o.IsOpen settings b' s) :
      Watching o settings [(b', f)] [] (fun _ => none) []
  | operated {b b' : Broker} {f : Feed} {s s' : Stream} {seen : List (Broker × Feed)}
      {ops : List ObjectOp} {stale : String → Option ObjectDescription}
      {read : List ObjectDescription} (h : Watching o settings ((b, f) :: seen) ops stale read)
      (op : ObjectOp)
      (hlength : ∀ label source, op = .put label source → source.octets.length < maxObjectSize)
      {reply : Except Error (Option ObjectDescription)} (hrun : (op.run o).run b = (reply, b'))
      (hreply : reply ≠ .error .numbersExhausted) (hs : b.liveStream o.stream = .ok s)
      (hs' : b'.liveStream o.stream = .ok s') :
      Watching o settings ((b', f) :: (b, f) :: seen) (op :: ops)
        ((o.viewOf s.index).staleAfter (o.viewOf s'.index) stale) read
  | meanwhile {b b' : Broker} {f : Feed} {seen : List (Broker × Feed)} {ops : List ObjectOp}
      {stale : String → Option ObjectDescription} {read : List ObjectDescription}
      (h : Watching o settings ((b, f) :: seen) ops stale read) (hstep : b.Step b')
      (hleft : ∀ s ∈ b.streams, s.id = o.stream →
        ∃ s' ∈ b'.streams, s'.id = s.id ∧ s'.settings = s.settings ∧ s'.index = s.index) :
      Watching o settings ((b', f) :: (b, f) :: seen) ops stale read
  | drained {b : Broker} {f f' : Feed} {seen : List (Broker × Feed)} {ops : List ObjectOp}
      {stale : String → Option ObjectDescription} {read items : List ObjectDescription}
      {most : Option Nat} (h : Watching o settings ((b, f) :: seen) ops stale read)
      (hdrain : b.drain f descriptionOf? most = (items, f')) :
      Watching o settings ((b, f') :: (b, f) :: seen) ops stale (read ++ items)

theorem Watching.reads (h : o.Watching settings ((b, f) :: seen) ops stale read) :
    ∃ s due taken, o.Reads settings b f s ((b, f) :: seen) due taken ops stale ∧
      read = taken.filterMap descriptionOf? := by
  generalize hstates : (b, f) :: seen = states at h
  induction h generalizing b f seen with
  | @opened b b' past f s history hlegible hwatch hopen =>
    cases hstates
    rw [watch, if_pos rfl] at hwatch
    obtain ⟨u, hu, hid, rfl, hstep⟩ := Broker.run_watch_cases history.staffed hwatch
    have history' := history.step hstep
    have hfound := history'.staffed.streamById?_eq hu
    obtain rfl : u = s := history'.staffed.eq_of_id (List.mem_append_left _ hu)
      (List.mem_append_left _ hopen.mem) (hid.trans hopen.id_eq.symm)
    have hstocked := hopen.stocked
    refine ⟨u, _, [], ⟨hopen, Broker.follows_of_watch history (fun _ => hlegible) hwatch hfound,
      fun m hm => ?_, fun name => ?_, fun name d hd => ?_⟩, rfl⟩
    · rw [Index.due, List.filter_nil, List.append_nil] at hm
      obtain ⟨hmem, hmatches⟩ := List.mem_filter.1 (List.mem_filter.1 hm).1
      exact hstocked.isDescription_of_matches hmem hmatches
    · have hmatches : subjectMatches (o.descriptionSubject name) o.allDescriptions = true :=
        (subjectMatches_iff hstocked.checkBucket_name).2 ⟨_, rfl⟩
      rw [lastDescription, Index.due, List.filter_nil, List.append_nil, Index.selected,
        hstocked.sound.coherent.toTallied.getLast?_newestMatching hmatches, ObjectView.known]
      show ((o.viewOf u.index).newest name).bind _ = _
      cases (o.viewOf u.index).newest name <;> rfl
    · cases hd
  | @operated b b' f s s' seen ops stale read h op hlength reply hrun hreply hs hs' ih =>
    cases hstates
    obtain ⟨t, due, taken, hreads, rfl⟩ := ih rfl
    obtain ⟨past, history⟩ := hreads.follows.history
    obtain rfl : t = s := Except.ok.inj
      ((hreads.isOpen.id_eq ▸ history.staffed.liveStream_eq hreads.isOpen.mem).symm.trans hs)
    have hmoves := hreads.isOpen.performs_run history.staffed hlength _ _ hrun hreply
    obtain ⟨u, due', hreads', -⟩ := hreads.moves hmoves
      (fun _ hop => List.mem_cons_of_mem _ hop) fun name hname => ⟨op, List.mem_cons_self, hname⟩
    obtain ⟨past', history'⟩ := hreads'.follows.history
    obtain rfl : u = s' := Except.ok.inj
      ((hreads'.isOpen.id_eq ▸ history'.staffed.liveStream_eq hreads'.isOpen.mem).symm.trans hs')
    exact ⟨u, due', taken, hreads', rfl⟩
  | @meanwhile b b' f seen ops stale read h hstep hleft ih =>
    cases hstates
    obtain ⟨t, due, taken, hreads, rfl⟩ := ih rfl
    obtain ⟨t', hmem, hid, hsettings, hindex⟩ := hleft t hreads.isOpen.mem hreads.isOpen.id_eq
    have hkeeps : o.KeepsNewest (fun _ => False) t t' := keepsNewest_of_index_eq hindex
    obtain ⟨due', hreads'⟩ := hreads.moved hstep
      (hreads.isOpen.of_index_eq hmem hid hsettings hindex) hkeeps (fun _ hop => hop)
      fun _ hname => hname.elim
    rw [hindex, hreads.staleAfter_self] at hreads'
    exact ⟨t', due', taken, hreads', rfl⟩
  | drained h hdrain ih =>
    cases hstates
    obtain ⟨s, due, taken, hreads, rfl⟩ := ih rfl
    obtain ⟨more, rfl, hreads'⟩ := hreads.drained hdrain
    exact ⟨s, due, taken ++ more, hreads', List.filterMap_append.symm⟩

/-- **An object that gets another name is stale by its old one.**  Whatever operation is done on a
bucket that is watched, it can be read. -/
theorem Watching.operate (h : o.Watching settings ((b, f) :: seen) ops stale read) (op : ObjectOp)
    (hlength : ∀ label source, op = .put label source → source.octets.length < maxObjectSize)
    {reply : Except Error (Option ObjectDescription)} (hrun : (op.run o).run b = (reply, b'))
    (hreply : reply ≠ .error .numbersExhausted) :
    ∃ stale', o.Watching settings ((b', f) :: (b, f) :: seen) (op :: ops) stale' read ∧
      ∀ object label d, op = .updateLabel object label → label.name ≠ object → reply = .ok d →
        ∃ e, stale' object = some e := by
  obtain ⟨s, due, taken, hreads, -⟩ := h.reads
  obtain ⟨past, history⟩ := hreads.follows.history
  have hmoves := hreads.isOpen.performs_run history.staffed hlength _ _ hrun hreply
  have hb' := staffed_of_moves history.staffed hmoves
  obtain ⟨s', hopen⟩ := hreads.isOpen.moves history.staffed hmoves
  refine ⟨_, h.operated op hlength hrun hreply
    (hreads.isOpen.id_eq ▸ history.staffed.liveStream_eq hreads.isOpen.mem)
    (hopen.id_eq ▸ hb'.liveStream_eq hopen.mem), ?_⟩
  rintro object label d rfl hne rfl
  rcases action_bind_cases hrun with ⟨_, -, he⟩ | ⟨e, t, hupdate, hpure⟩
  · cases he
  cases hpure
  obtain ⟨⟨e, hnewest, hlive⟩, hnone⟩ :=
    hreads.isOpen.newest_of_updateLabel history.staffed hne hupdate hopen
  refine ⟨e, ?_⟩
  rw [ObjectView.staleAfter_of_eq_none hnone, ObjectView.known, hnewest]
  exact ObjectDescription.live?_eq_some_iff.2 ⟨rfl, hlive⟩

/-- **A reader holds what is listed, and what had another name**: to a reader who keeps up, and has
read what there is, the descriptions that were yielded tell the objects that are listed, each by its
name, and otherwise only what is stale.  What is stale is not listed, and its name was taken from an
object by an operation since the bucket is watched. -/
theorem Watching.holds (h : o.Watching settings ((b, f) :: seen) ops stale read)
    (hkeeps : ∀ p ∈ (b, f) :: seen, p.1.KeepsUp p.2) :
    ∃ ds, o.list.run b = (.ok ds, b) ∧
      (∀ name d,
        ObjectDescription.replay (read ++ (b.drain f descriptionOf? none).1) name = some d ↔
          d ∈ ds ∧ d.name = name ∨ stale name = some d) ∧
      ∀ name d, stale name = some d → d.name = name ∧ (∀ e ∈ ds, e.name ≠ name) ∧
        ∃ op ∈ ops, op.Renames name := by
  obtain ⟨s, due, taken, hreads, rfl⟩ := h.reads
  obtain ⟨past, history⟩ := hreads.follows.history
  have hstocked := hreads.isOpen.stocked
  refine ⟨_, hreads.isOpen.run_list history.staffed, fun name d => ?_, fun name d hd => ?_⟩
  · rw [Broker.drain_none _ hreads.follows.found, ← List.filterMap_append,
      hreads.follows.complete hkeeps, replay_descriptions hreads.isDescription, hreads.told]
    cases hnewest : (o.viewOf s.index).newest name with
    | none =>
      rw [ObjectView.known_of_eq_none hnewest, or_iff_right_of_imp]
      rintro ⟨hlisted, rfl⟩
      cases hnewest.symm.trans (hstocked.mem_listed_iff.1 hlisted).1
    | some e =>
      have hname := (hstocked.newest_spec hnewest).2.1
      rw [ObjectView.known, hnewest, hstocked.mem_listed_iff]
      simp only [ObjectDescription.live?_eq_some_iff]
      constructor
      · rintro ⟨rfl, hlive⟩
        exact .inl ⟨⟨hname ▸ hnewest, hlive⟩, hname⟩
      · rintro (⟨⟨hsome, hlive⟩, rfl⟩ | hstale)
        · cases hnewest.symm.trans hsome
          exact ⟨rfl, hlive⟩
        · cases hnewest.symm.trans (hreads.stale_spec name d hstale).1
  · obtain ⟨hnone, hname, hrenamed⟩ := hreads.stale_spec name d hd
    refine ⟨hname, ?_, hrenamed⟩
    rintro e he rfl
    cases hnone.symm.trans (hstocked.mem_listed_iff.1 he).1

/-- A bucket in memory. -/
def smallSettings : ObjectBucketSettings := { bucket := "b", storage := .memory }

/-- The first bucket of a broker with these settings. -/
def smallBucket : ObjectBucket := ⟨"b", 0⟩

/-- The bucket is created. -/
def created : Broker :=
  ((Broker.openStream
    { name := ObjectBucketSettings.streamName "b"
      subjects := [ObjectBucketSettings.chunkPrefix "b" ++ ">",
        ObjectBucketSettings.descriptionPrefix "b" ++ ">"]
      storage := .memory
      discard := .new }).run (.start {} 0 Stream.epochClock Stream.blankBackend)).2

/-- A feed is opened. -/
def noticing : Except Error Feed × Broker := (smallBucket.watch true).run created

/-- There is nothing yet. -/
def noticed : Feed where
  stream := 0
  pattern := smallBucket.allDescriptions
  snapshot := []
  high := 0
  position := 0
  capacity := 1024

/-- An object is put. -/
def putting : ObjectOp := .put ⟨"a", none⟩ ⟨[1], none⟩

/-- It gets another name. -/
def relabelling : ObjectOp := .updateLabel "a" ⟨"c", none⟩

/-- What becomes of a broker by an operation on the bucket. -/
def wrote (b : Broker) (op : ObjectOp) : Broker := ((op.run smallBucket).run b).2

/-- An object that got another name is held by the old one too, though it is not listed by it. -/
theorem holds_renamed : ∃ b f seen ops stale read ds e,
    smallBucket.Watching smallSettings ((b, f) :: seen) ops stale read ∧
      (∀ p ∈ (b, f) :: seen, p.1.KeepsUp p.2) ∧ smallBucket.list.run b = (.ok ds, b) ∧
      ObjectDescription.replay (read ++ (b.drain f descriptionOf? none).1) "a" = some e ∧
      ∀ d ∈ ds, d.name ≠ "a" := by
  have hstarted := Broker.History.started {} 0 Stream.blankBackend
    (show Stream.epochClock.IsDated from rfl)
  have history : Broker.History (created :: _) := hstarted.step (.opened _)
  have hlegible : ∀ t ∈ [created, Broker.start {} 0 Stream.epochClock Stream.blankBackend],
      t.backend.IsLegible := by
    simp only [List.forall_mem_cons]
    exact ⟨Backend.isLegible_of_isBlank (by decide +kernel),
      Backend.isLegible_of_isBlank (by decide +kernel), fun t ht => by cases ht⟩
  have hwatch : (smallBucket.watch true).run created = (.ok noticed, noticing.2) :=
    Prod.ext (by decide +kernel) rfl
  obtain ⟨s, hs⟩ := List.exists_mem_of_ne_nil noticing.2.streams (by decide +kernel)
  have hnew := (by decide +kernel : ∀ s ∈ noticing.2.streams, s.id = 0 ∧
    smallSettings.streamSettings = .ok s.settings ∧ s.index.toList = []) s hs
  obtain ⟨-, -, -, -, hstep⟩ := Broker.run_watch_cases history.staffed hwatch
  have hopen : smallBucket.IsOpen smallSettings noticing.2 s :=
    ⟨hs, hnew.1, rfl, hnew.2.1, (history.step hstep).sound hlegible s
      (List.mem_append_left _ hs), rfl, fun m hm => by rw [hnew.2.2] at hm; cases hm⟩
  have hrun (b : Broker) (op : ObjectOp) : (op.run smallBucket).run b =
      (((op.run smallBucket).run b).1, wrote b op) := rfl
  obtain ⟨hput, hrenamed, hkeepsUp⟩ :
      ((putting.run smallBucket).run noticing.2).1 ≠ .error .numbersExhausted ∧
        ((relabelling.run smallBucket).run (wrote noticing.2 putting)).1.isOk = true ∧
        ∀ p ∈ [(wrote (wrote noticing.2 putting) relabelling, noticed),
          (wrote noticing.2 putting, noticed), (noticing.2, noticed)], p.1.KeepsUp p.2 := by
    decide +kernel
  obtain ⟨_, hwatching, -⟩ := (Watching.opened history hlegible hwatch hopen).operate putting
    (by rintro _ _ ⟨⟩; decide +kernel) (hrun _ _) hput
  cases hreply : ((relabelling.run smallBucket).run (wrote noticing.2 putting)).1 with
  | error e =>
    rw [hreply] at hrenamed
    cases hrenamed
  | ok d =>
    obtain ⟨stale, hwatching', hstale⟩ := hwatching.operate relabelling (fun _ _ h => by cases h)
      (hrun _ _) (hreply ▸ fun he => by cases he)
    obtain ⟨e, he⟩ := hstale "a" ⟨"c", none⟩ d rfl (by decide) hreply
    obtain ⟨ds, hlist, hheld, hleft⟩ := hwatching'.holds hkeepsUp
    exact ⟨_, _, _, _, stale, _, ds, e, hwatching', hkeepsUp, hlist, (hheld "a" e).2 (.inr he),
      (hleft "a" e he).2.1⟩

end ObjectBucket

end StreamBroker
