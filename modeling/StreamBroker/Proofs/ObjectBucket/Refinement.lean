import StreamBroker.Proofs.ObjectBucket.Operations

/-!
# Buckets without a limit on age are maps of objects

A bucket without a limit on age lets nothing go on its own.  What it shows stands for a map of
objects: looking finds the objects of the map, and an operation does to the map what it is to do.

## Main definitions

* `ObjectBucket.Held`: a broker holds a bucket without a limit on age

## Main results

* `ObjectBucket.held_of_createBucket`: a bucket that is created is held, and shows nothing
* `ObjectBucket.Held.run_eq`: an operation does to the map what it is to do
* `ObjectBucket.Held.run_info`, `ObjectBucket.Held.run_get`, `ObjectBucket.Held.run_list`: what is
  looked up
-/

namespace StreamBroker

namespace ObjectBucket

variable {o : ObjectBucket} {settings : ObjectBucketSettings} {P : StoredMessage → Prop}
  {b b' : Broker} {s s' : Stream} {object : String} {d : ObjectDescription} {M : ObjectMap}
  {x : StoredObject}

/-- A broker holds a bucket without a limit on age, to which nothing was written but chunks and
descriptions. -/
structure Held (o : ObjectBucket) (settings : ObjectBucketSettings) (b : Broker) (s : Stream) :
    Prop where
  /-- The broker has the stream. -/
  hosts : b.Hosts s
  /-- The stream is that of the bucket. -/
  id_eq : s.id = o.stream
  /-- The bucket has the name that is set. -/
  name_eq : o.name = settings.bucket
  /-- The stream has the settings of the bucket. -/
  settings_eq : settings.streamSettings = .ok s.settings
  /-- Every message is a chunk or a description. -/
  own : ∀ m ∈ s.index.toList, o.IsOwn m

/-- A bucket without a limit on age is held. -/
theorem Lodged.held (h : o.Lodged settings P b s) (hage : settings.maxAge = none) :
    o.Held settings b s where
  hosts := h.lodges.hosts ⟨h.maxAge_eq.trans hage, h.lodges.plain.retention_eq,
    h.lodges.plain.discard_eq⟩
  id_eq := h.id_eq
  name_eq := h.name_eq
  settings_eq := h.settings_eq
  own := h.own

/-- **A bucket that is created on a blank journal is held, and shows nothing.** -/
theorem held_of_createBucket (hage : settings.maxAge = none) (hb : b.Orderly)
    (hnew : b.stream? (ObjectBucketSettings.streamName settings.bucket) = none)
    (hblank : settings.storage = .file → b.backend.Keeps
      (Journal.namespaceOf (ObjectBucketSettings.streamName settings.bucket)) SeqMap.empty)
    (h : (createBucket settings).run b = (.ok o, b')) :
    ∃ s, o.Held settings b' s ∧ o.viewOf s.index = .empty := by
  obtain ⟨s, hlodged, hempty⟩ :=
    lodged_of_createBucket (P := fun _ => True) hb hnew hblank h
  refine ⟨s, hlodged.held hage, ?_⟩
  simp only [viewOf, Index.ofSubject, hempty]
  rfl

namespace Held

/-- There is no limit on age. -/
theorem maxAge_eq (h : o.Held settings b s) : settings.maxAge = none := by
  have hage := h.hosts.steady.maxAge_eq
  rw [(streamSettings_eq_ok h.settings_eq).2] at hage
  exact hage

/-- A bucket that is held is there. -/
theorem lodged (h : o.Held settings b s) : o.Lodged settings (fun _ => True) b s where
  lodges := h.hosts.lodges
  id_eq := h.id_eq
  name_eq := h.name_eq
  settings_eq := h.settings_eq
  own := h.own
  noted _ _ := trivial
  dated maxAge hmaxAge := by
    rw [h.maxAge_eq] at hmaxAge
    cases hmaxAge

/-! ## Looking -/

/-- The newest description of a name is looked up. -/
theorem run_newestDescription (h : o.Held settings b s) (hobject : object ≠ "") :
    ∃ b', (o.newestDescription object).run b = (.ok ((o.viewOf s.index).newest object), b') ∧
      b.Evolves s b' s := by
  obtain ⟨b', hlast, hevolves⟩ := h.hosts.run_lastMessage
    (checkSubject_descriptionSubject h.lodged.checkBucket_name hobject)
  exact ⟨b', h.lodged.stocked.run_newestDescription hobject (h.id_eq ▸ hlast), hevolves⟩

/-- The objects that exist, and no others, are looked up by their names. -/
theorem run_info (h : o.Held settings b s) (hM : (o.viewOf s.index).Keeps M) (object : String) :
    ∃ reply b', (o.info object).run b = (reply, b') ∧ b.Evolves s b' s ∧
      ∀ d, reply = .ok d ↔ ∃ x ∈ M object, x.description = d := by
  have hnone (hx : M object = none) (e : Error) (d : ObjectDescription) :
      Except.error e = .ok d ↔ ∃ x ∈ M object, x.description = d := by
    rw [hx]
    exact ⟨fun he => (by cases he), fun ⟨x, hx, _⟩ => (by cases hx)⟩
  by_cases hobject : object = ""
  · subst hobject
    refine ⟨_, b, rfl, h.hosts.evolves, hnone ?_ _⟩
    cases hx : M "" with
    | none => rfl
    | some x => exact absurd rfl (h.lodged.stocked.newest_spec (hM.newest_eq _ x hx)).1
  obtain ⟨b', hnewest, hevolves⟩ := h.run_newestDescription hobject
  cases hx : M object with
  | none =>
    refine ⟨.error (.objectNotFound object o.name), b', ?_, hevolves, hx ▸ hnone hx _⟩
    rw [info, Action.bind_ok hnewest]
    -- A name without an object shows nothing or a deletion.
    cases hd : (o.viewOf s.index).newest object with
    | none => rfl
    | some d =>
      dsimp only
      rw [(hM.deleted object hx d hd).1]
      rfl
  | some x =>
    refine ⟨.ok x.description, b', ?_, hevolves, fun d => ?_⟩
    · rw [info, Action.bind_ok hnewest, hM.newest_eq object x hx]
      dsimp only
      rw [(hM.right object x hx).live]
      rfl
    · simp

/-- The data of an object is put together. -/
theorem run_get (h : o.Held settings b s) (hM : (o.viewOf s.index).Keeps M) (hx : x ∈ M object) :
    ∃ b', (o.get object).run b = (.ok x.octets, b') ∧ b.Evolves s b' s := by
  obtain ⟨reply, b₁, hinfo, hevolves, hreply⟩ := h.run_info hM object
  obtain rfl := (hreply x.description).2 ⟨x, hx, rfl⟩
  have hright := hM.right object x hx
  obtain ⟨-, -, hnuid⟩ := h.lodged.stocked.newest_spec (hM.newest_eq object x hx)
  obtain ⟨b₂, hmatching, hevolves'⟩ := hevolves.hosts.run_matchingMessages hnuid
  rw [h.id_eq] at hmatching
  exact ⟨b₂, run_get_of_whole hright hinfo hmatching (hM.chunks_eq object x hx),
    hevolves.trans hevolves'⟩

/-! ## Lists -/

theorem mem_listed_iff (h : o.Held settings b s) (hM : (o.viewOf s.index).Keeps M) :
    d ∈ listed o s.index ↔ ∃ x ∈ M d.name, x.description = d := by
  rw [h.lodged.stocked.mem_listed_iff]
  constructor
  · rintro ⟨hd, hlive⟩
    cases hx : M d.name with
    | none =>
      rw [(hM.deleted _ hx d hd).1] at hlive
      cases hlive
    | some x =>
      rw [hM.newest_eq _ x hx, Option.some.injEq] at hd
      exact ⟨x, rfl, hd⟩
  · rintro ⟨x, hx, rfl⟩
    exact ⟨hM.newest_eq _ x hx, (hM.right _ x hx).live⟩

/-- The objects are listed in the order of their names. -/
theorem run_list (h : o.Held settings b s) (hM : (o.viewOf s.index).Keeps M) :
    ∃ ds b', o.list.run b = (.ok ds, b') ∧ b.Evolves s b' s ∧
      (ds.Pairwise fun d e => d.name < e.name) ∧
      ∀ d, d ∈ ds ↔ ∃ x ∈ M d.name, x.description = d := by
  obtain ⟨b', hlast, hevolves⟩ :=
    h.hosts.run_lastPerSubject (checkPattern_allDescriptions h.lodged.checkBucket_name)
  rw [h.id_eq] at hlast
  have hrun : o.list.run b = (.ok (listed o s.index), b') := by
    rw [list, Action.bind_ok hlast]
    rfl
  exact ⟨_, b', hrun, hevolves, h.lodged.stocked.pairwise_listed, fun d => h.mem_listed_iff hM⟩

/-! ## Operations -/

/-- **An operation does to the map what it is to do**, and sets the label that it is given. -/
theorem run_eq (h : o.Held settings b s) (hM : (o.viewOf s.index).Keeps M) {op : ObjectOp}
    (hop : op.Fits o b) {reply : Except Error (Option ObjectDescription)}
    (hrun : (op.run o).run b = (reply, b')) (hreply : reply ≠ .error .numbersExhausted) :
    ∃ s', o.Held settings b' s' ∧
      (∀ d, reply = .ok d → d.map ObjectDescription.label = op.label?) ∧
      (o.viewOf s'.index).Keeps (M.apply b.settings.chunkSize op reply) := by
  obtain ⟨s', x, hlodged, -, hx, hchanges⟩ := h.lodged.run_cases hop
    (fun _ _ _ _ _ _ => trivial) (fun _ _ _ _ _ => trivial) hrun hreply
  obtain rfl : x = s.index := by
    rw [Stream.expire_steady h.hosts.steady] at hx
    exact hx.elim id id
  exact ⟨s', hlodged.held h.maxAge_eq, hchanges.label_eq, hM.changes hchanges⟩

end Held

end ObjectBucket

end StreamBroker
