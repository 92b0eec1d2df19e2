import Mathlib.Data.List.Nodup
import StreamBroker.Broker.Run
import StreamBroker.KeyValue.Bucket
import StreamBroker.ObjectBucket.Bucket
import StreamBroker.Proofs.Except
import StreamBroker.Proofs.Stream.Outcomes
import StreamBroker.Proofs.Subject

/-!
# The registry of a broker

Streams are created, changed and deleted, and so are buckets, which are streams.  Whatever is asked
and whether it is done or refused, the registry of a broker is left as it was, or has one more
stream, or one with other settings, or some fewer.  New settings were compared with those of all
other streams before, so that no two streams take a subject together at any time.

## Main definitions

* `Broker.registry`: the streams with their numbers and settings
* `RegistryOp`, `RegistryOp.run`: the changes of a registry
* `Broker.Opens`, `Broker.Deletes`: how a stream is opened and deleted
* `Broker.Registers`: what becomes of a registry
* `Broker.Orderly`: streams are told apart, and none takes subjects of another
* `Broker.Reached`: what can become of a broker

## Main results

* `Broker.registers_createStream`, `Broker.registers_updateStream`, …: one change
* `Broker.Orderly.registers`: a change keeps the registry in order
* `Broker.Reached.orderly`: the registry is in order at any time
* `Broker.run_createStream`: a stream that is created
-/

namespace StreamBroker

/-- Two streams have no bound subjects that overlap. -/
def StreamSettings.Apart (s t : StreamSettings) : Prop :=
  ∀ p ∈ s.boundSubjects, ∀ q ∈ t.boundSubjects, patternsOverlap p q = false

theorem StreamSettings.Apart.symm {s t : StreamSettings} (h : s.Apart t) : t.Apart s :=
  fun p hp q hq => (patternsOverlap_comm p q).trans (h q hq p hp)

namespace Broker

variable {b b' : Broker} {settings : StreamSettings}

/-- The streams with their numbers and settings. -/
def registry (b : Broker) : List (Nat × StreamSettings) :=
  b.streams.map fun s => (s.id, s.settings)

theorem mem_registry {s : Stream} (hs : s ∈ b.streams) : (s.id, s.settings) ∈ b.registry :=
  List.mem_map_of_mem hs

/-- A registry is in order. -/
structure Orderly (b : Broker) : Prop where
  /-- The numbers of streams were given. -/
  id_lt : ∀ e ∈ b.registry, e.1 < b.nextId
  /-- Their settings are acceptable. -/
  check_eq : ∀ e ∈ b.registry, e.2.check = .ok ()
  /-- They are told apart by numbers and by names, and their subjects do not overlap. -/
  apart : b.registry.Pairwise fun e f => e.1 ≠ f.1 ∧ e.2.name ≠ f.2.name ∧ e.2.Apart f.2

/-- What becomes of a registry. -/
inductive Registers (b b' : Broker) : Prop where
  /-- The streams stay. -/
  | kept (hregistry : b'.registry = b.registry) (hnext : b.nextId ≤ b'.nextId)
  /-- There is one more. -/
  | added (settings : StreamSettings) (hcheck : settings.check = .ok ())
      (hname : ∀ e ∈ b.registry, e.2.name ≠ settings.name)
      (hoverlap : ∀ e ∈ b.registry, e.2.name ≠ settings.name → e.2.Apart settings)
      (hregistry : b'.registry = b.registry ++ [(b.nextId, settings)])
      (hnext : b.nextId < b'.nextId)
  /-- One has other settings under its name. -/
  | changed (id : Nat) (settings : StreamSettings) (hcheck : settings.check = .ok ())
      (hname : ∀ e ∈ b.registry, e.1 = id → e.2.name = settings.name)
      (hoverlap : ∀ e ∈ b.registry, e.2.name ≠ settings.name → e.2.Apart settings)
      (hregistry : b'.registry = b.registry.map fun e => if e.1 = id then (id, settings) else e)
      (hnext : b'.nextId = b.nextId)
  /-- There are fewer. -/
  | deleted (hregistry : b'.registry.Sublist b.registry) (hnext : b'.nextId = b.nextId)

theorem Registers.refl (b : Broker) : b.Registers b := .kept rfl (Nat.le_refl _)

/-! ## The order of a registry -/

namespace Orderly

theorem sublist (h : b.Orderly) (hregistry : b'.registry.Sublist b.registry)
    (hnext : b.nextId ≤ b'.nextId) : b'.Orderly where
  id_lt e he := Nat.lt_of_lt_of_le (h.id_lt e (hregistry.subset he)) hnext
  check_eq e he := h.check_eq e (hregistry.subset he)
  apart := h.apart.sublist hregistry

/-- Without streams there is nothing to keep apart. -/
theorem of_empty (h : b.registry = []) : b.Orderly where
  id_lt e he := by
    rw [h] at he
    cases he
  check_eq e he := by
    rw [h] at he
    cases he
  apart := by
    rw [h]
    exact List.Pairwise.nil

/-- Streams of one number are one. -/
theorem eq_of_id (h : b.Orderly) {e f : Nat × StreamSettings} (he : e ∈ b.registry)
    (hf : f ∈ b.registry) (hid : e.1 = f.1) : e = f := by
  have hnodup : (b.registry.map Prod.fst).Nodup :=
    List.pairwise_map.2 (h.apart.imp fun hapart => hapart.1)
  exact List.inj_on_of_nodup_map hnodup he hf hid

/-- **A change keeps the registry in order.** -/
theorem registers (h : b.Orderly) (hchange : b.Registers b') : b'.Orderly := by
  cases hchange with
  | kept hregistry hnext => exact h.sublist (hregistry ▸ List.Sublist.refl _) hnext
  | deleted hregistry hnext => exact h.sublist hregistry (Nat.le_of_eq hnext.symm)
  | added settings hcheck hname hoverlap hregistry hnext =>
    refine ⟨?_, ?_, ?_⟩
    · intro e he
      rw [hregistry, List.mem_append, List.mem_singleton] at he
      rcases he with he | rfl
      · exact Nat.lt_trans (h.id_lt e he) hnext
      · exact hnext
    · intro e he
      rw [hregistry, List.mem_append, List.mem_singleton] at he
      rcases he with he | rfl
      · exact h.check_eq e he
      · exact hcheck
    · rw [hregistry]
      refine List.pairwise_append.2 ⟨h.apart, List.pairwise_singleton .., ?_⟩
      rintro e he f hf
      obtain rfl := List.mem_singleton.1 hf
      exact ⟨Nat.ne_of_lt (h.id_lt e he), hname e he, hoverlap e he (hname e he)⟩
  | changed id settings hcheck hname hoverlap hregistry hnext =>
    refine ⟨?_, ?_, ?_⟩
    · intro e he
      rw [hregistry] at he
      obtain ⟨f, hf, rfl⟩ := List.mem_map.1 he
      rw [hnext]
      split
      · next hid => exact hid ▸ h.id_lt f hf
      · exact h.id_lt f hf
    · intro e he
      rw [hregistry] at he
      obtain ⟨f, hf, rfl⟩ := List.mem_map.1 he
      split
      · exact hcheck
      · exact h.check_eq f hf
    · rw [hregistry, List.pairwise_map]
      refine h.apart.imp_of_mem ?_
      -- The settings that are new are those of one stream, and were compared with all others.
      rintro e f he hf ⟨hid, hnames, hapart⟩
      by_cases heq : e.1 = id
      · have hne : f.2.name ≠ settings.name := hname e he heq ▸ hnames.symm
        have hfid : ¬f.1 = id := fun hfid => hid (heq.trans hfid.symm)
        rw [if_pos heq, if_neg hfid]
        exact ⟨fun h => hfid h.symm, hne.symm, (hoverlap f hf hne).symm⟩
      · rw [if_neg heq]
        split
        · next hfid =>
          have hne : e.2.name ≠ settings.name := hname f hf hfid ▸ hnames
          exact ⟨heq, hne, hoverlap e he hne⟩
        · exact ⟨hid, hnames, hapart⟩

end Orderly

/-! ## Creating, changing and deleting -/

/-- Settings that are accepted have no subjects of a stream of another name. -/
theorem apart_of_checkOverlap (h : b.checkOverlap settings = .ok ()) :
    ∀ e ∈ b.registry, e.2.name ≠ settings.name → e.2.Apart settings := by
  intro e he hname
  obtain ⟨s, hs, rfl⟩ := List.mem_map.1 he
  rw [checkOverlap] at h
  split at h
  · cases h
  · next hnone =>
    intro p hp q hq
    have hall := List.findSome?_eq_none_iff.1 hnone s hs
    rw [if_neg (show ¬s.name = settings.name from hname)] at hall
    have hfind := Option.map_eq_none_iff.1 (List.findSome?_eq_none_iff.1 hall p hp)
    exact (patternsOverlap_comm p q).trans (Bool.eq_false_iff.2 (List.find?_eq_none.1 hfind q hq))

/-- How a stream of a new name is opened. -/
inductive Opens (settings : StreamSettings) (b : Broker) : Prop where
  /-- It cannot be opened. -/
  | failed {e : Error} {backend : Backend}
      (hopen : Stream.open? b.nextId settings b.clock b.backend = (.error e, backend))
      (heq : (openStream settings).run b = (.error e, { b with nextId := b.nextId + 1, backend }))
  /-- It could be opened, but there is no ring for those who watch it. -/
  | ringless {s : Stream} {backend : Backend}
      (hopen : Stream.open? b.nextId settings b.clock b.backend = (.ok s, backend))
      (heq : (openStream settings).run b =
        (.error .numbersExhausted, { b with nextId := b.nextId + 1, backend }))
  /-- It is opened behind all others. -/
  | opened {s : Stream} {backend : Backend}
      (hopen : Stream.open? b.nextId settings b.clock b.backend = (.ok s, backend))
      (heq : (openStream settings).run b = (.ok b.nextId,
        { b with nextId := b.nextId + 1, backend, streams := b.streams ++ [s] }))

theorem opens (settings : StreamSettings) (b : Broker) : Opens settings b := by
  have hfresh : b.freshId = (b.nextId, { b with nextId := b.nextId + 1 }) := rfl
  have heq := openStream.eq_1 settings b
  simp only [hfresh] at heq
  cases hopen : Stream.open? b.nextId settings b.clock b.backend with
  | mk reply backend =>
    rw [hopen] at heq
    cases reply with
    | error e => exact .failed hopen heq
    | ok s =>
      dsimp only at heq
      split at heq
      · exact .ringless hopen heq
      · exact .opened hopen heq

theorem openStream_cases {reply : Except Error Nat}
    (h : (openStream settings).run b = (reply, b')) : b.nextId < b'.nextId ∧
      (b'.registry = b.registry ∨ b'.registry = b.registry ++ [(b.nextId, settings)]) := by
  cases opens settings b with
  | failed hopen heq | ringless hopen heq =>
    cases h.symm.trans heq
    exact ⟨Nat.lt_succ_self _, .inl rfl⟩
  | opened hopen heq =>
    cases h.symm.trans heq
    obtain ⟨x, b₁, -, rfl, -⟩ := Stream.open?_eq_ok hopen
    refine ⟨Nat.lt_succ_self _, .inr ?_⟩
    rw [registry, List.map_append, List.map_singleton, registry]

theorem registers_createChecked (hcheck : settings.check = .ok ()) {reply : Except Error Nat}
    (h : (createChecked settings).run b = (reply, b')) : b.Registers b' := by
  rw [createChecked, Action.bind_ok (Action.run_read b)] at h
  cases hfind : b.stream? settings.name with
  | some s =>
    rw [hfind] at h
    dsimp only at h
    split at h <;> cases h <;> exact .refl b
  | none =>
    rw [hfind] at h
    rcases action_check_cases h with ⟨e, -, -, rfl⟩ | ⟨⟨⟩, hoverlap, h⟩
    · exact .refl b'
    · obtain ⟨hnext, hregistry | hregistry⟩ := openStream_cases h
      · exact .kept hregistry (Nat.le_of_lt hnext)
      · refine .added settings hcheck ?_ (apart_of_checkOverlap hoverlap) hregistry hnext
        intro e he
        obtain ⟨s, hs, rfl⟩ := List.mem_map.1 he
        have hname := List.find?_eq_none.1 hfind s hs
        exact fun heq => hname (beq_iff_eq.2 heq)

theorem changeSettings_eq {s s' : Stream} {clock : Clock} {backend backend' : Backend}
    {reply : Except Error Unit}
    (h : s.changeSettings settings clock backend = (reply, s', backend')) :
    s'.id = s.id ∧ (s'.settings = s.settings ∨ s'.settings = settings) := by
  simp only [Stream.changeSettings, Stream.reduce] at h
  split at h
  · next heq =>
    cases h
    split at heq <;> cases heq
    exact ⟨rfl, .inl rfl⟩
  · next heq =>
    cases h
    split at heq <;> cases heq
    exact ⟨rfl, .inr rfl⟩

theorem registry_putStream (b : Broker) (s : Stream) : (b.putStream s).registry =
    b.registry.map fun e => if e.1 = s.id then (s.id, s.settings) else e := by
  simp only [putStream, registry, List.map_map]
  refine List.map_congr_left fun t _ => ?_
  by_cases hid : t.id = s.id <;> simp [hid]

/-- The stream of a name. -/
theorem findStream_eq_ok {name : String} {s : Stream} (h : b.findStream name = .ok s) :
    s ∈ b.streams ∧ s.name = name := by
  rw [findStream] at h
  split at h
  · next hfind =>
    cases h
    have heq := List.find?_some hfind
    exact ⟨List.mem_of_find?_eq_some hfind, beq_iff_eq.1 heq⟩
  · cases h

/-- The stream of a number. -/
theorem liveStream_eq_ok {id : Nat} {s : Stream} (h : b.liveStream id = .ok s) :
    s ∈ b.streams ∧ s.id = id := by
  rw [liveStream] at h
  split at h
  · next hfind =>
    cases h
    have heq := List.find?_some hfind
    exact ⟨List.mem_of_find?_eq_some hfind, beq_iff_eq.1 heq⟩
  · cases h

/-- A stream that is put in its place again with the settings that it had. -/
theorem Orderly.registry_putStream_eq (hb : b.Orderly) {s s' : Stream} (hs : s ∈ b.streams)
    (hid : s'.id = s.id) (hsettings : s'.settings = s.settings) :
    (b.putStream s').registry = b.registry := by
  rw [registry_putStream, hid, hsettings]
  refine (List.map_congr_left fun e he => ?_).trans (List.map_id _)
  split
  · next heid => exact (hb.eq_of_id he (mem_registry hs) heid).symm
  · rfl

theorem registers_updateChecked (hb : b.Orderly) (hcheck : settings.check = .ok ())
    {reply : Except Error Nat} (h : (updateChecked settings).run b = (reply, b')) :
    b.Registers b' := by
  rw [updateChecked, Action.bind_ok (Action.run_read b)] at h
  rcases action_check_cases h with ⟨e, -, -, rfl⟩ | ⟨s, hfind, h⟩
  · exact .refl b'
  rcases action_check_cases h with ⟨e, -, -, rfl⟩ | ⟨⟨⟩, -, h⟩
  · exact .refl b'
  rcases action_check_cases h with ⟨e, -, -, rfl⟩ | ⟨⟨⟩, hoverlap, h⟩
  · exact .refl b'
  obtain ⟨hs, hname⟩ := findStream_eq_ok hfind
  have h : onStream s.id _ b = (reply, b') := h
  rw [onStream] at h
  split at h
  · cases h
    exact .refl b
  · next t ht =>
    obtain ⟨ht, htid⟩ := liveStream_eq_ok ht
    cases hr : t.changeSettings settings b.clock b.backend with
    | mk r left =>
      obtain ⟨s', backend⟩ := left
      simp only [hr] at h
      obtain ⟨-, rfl⟩ := Prod.mk.inj h
      obtain ⟨hid, hsettings | hsettings⟩ := changeSettings_eq hr
      · have hregistry : ({ b with backend }.putStream s').registry = b.registry :=
          Orderly.registry_putStream_eq (hb.sublist (List.Sublist.refl _) (Nat.le_refl _)) ht hid
            hsettings
        exact .kept hregistry (Nat.le_refl _)
      · have hregistry := registry_putStream { b with backend } s'
        rw [hid, htid, hsettings] at hregistry
        refine .changed s.id settings hcheck ?_ (apart_of_checkOverlap hoverlap) hregistry rfl
        -- The stream of the name is the only one of its number.
        intro e he hid
        rw [hb.eq_of_id he (mem_registry hs) hid]
        exact hname

/-- How a stream is deleted. -/
inductive Deletes (name : String) (b : Broker) : Prop where
  /-- None has the name. -/
  | missed (hnone : b.stream? name = none)
      (heq : (deleteStream name).run b = (.error (.streamNotFound name), b))
  /-- It is emptied and put among those that were. -/
  | deleted {s gone : Stream} {reply : Except Error Unit} {backend : Backend} (hs : s ∈ b.streams)
      (hdestroy : s.destroy b.backend = (reply, gone, backend))
      (heq : (deleteStream name).run b = (reply, { b with
        backend
        streams := b.streams.filter fun t => t.id != s.id
        formerStreams := gone :: b.formerStreams }))

theorem deletes (name : String) (b : Broker) : Deletes name b := by
  have heq := deleteStream.eq_1 name b
  cases hs : b.stream? name with
  | none =>
    rw [hs] at heq
    exact .missed hs heq
  | some s =>
    rw [hs] at heq
    exact .deleted (List.mem_of_find?_eq_some hs) rfl heq

theorem registers_deleteStream {name : String} {reply : Except Error Unit}
    (h : (deleteStream name).run b = (reply, b')) : b.Registers b' := by
  cases deletes name b with
  | missed hnone heq =>
    cases h.symm.trans heq
    exact .refl b
  | deleted hs hdestroy heq =>
    cases h.symm.trans heq
    exact .deleted (List.filter_sublist.map _) rfl

theorem registers_createStream {reply : Except Error Nat}
    (h : (createStream settings).run b = (reply, b')) : b.Registers b' := by
  rcases action_check_cases h with ⟨e, -, -, rfl⟩ | ⟨⟨⟩, hcheck, h⟩
  · exact .refl b'
  · exact registers_createChecked hcheck h

theorem registers_updateStream (hb : b.Orderly) {reply : Except Error Nat}
    (h : (updateStream settings).run b = (reply, b')) : b.Registers b' := by
  rcases action_check_cases h with ⟨e, -, -, rfl⟩ | ⟨⟨⟩, hcheck, h⟩
  · exact .refl b'
  · exact registers_updateChecked hb hcheck h

theorem registers_upsertStream (hb : b.Orderly) {reply : Except Error Nat}
    (h : (upsertStream settings).run b = (reply, b')) : b.Registers b' := by
  rcases action_check_cases h with ⟨e, -, -, rfl⟩ | ⟨⟨⟩, hcheck, h⟩
  · exact .refl b'
  · rw [Action.bind_ok (Action.run_read b)] at h
    split at h
    · exact registers_updateChecked hb hcheck h
    · exact registers_createChecked hcheck h

/-! ## Buckets -/

/-- A bucket is created by creating its stream. -/
theorem registers_createBucket {β : Type} {x : Except Error StreamSettings} {f : Nat → β}
    {reply : Except Error β}
    (h : (do let settings ← x; let id ← createStream settings; pure (f id) : Action Broker β).run
      b = (reply, b')) : b.Registers b' := by
  rcases action_check_cases h with ⟨e, -, -, rfl⟩ | ⟨settings, -, h⟩
  · exact .refl b'
  · cases hr : (createStream settings).run b with
    | mk r t =>
      cases r with
      | error e =>
        rw [Action.bind_error hr] at h
        cases h
        exact registers_createStream hr
      | ok id =>
        rw [Action.bind_ok hr] at h
        cases h
        exact registers_createStream hr

/-- A bucket is deleted by deleting its stream, with a refusal of its own. -/
theorem registers_deleteBucket {name : String} {refusal : Error → Error} {reply : Except Error Unit}
    (h : (do
      match ← (deleteStream name).attempt with
      | .ok () => pure ()
      | .error e => Action.refuse (refusal e) : Action Broker Unit).run b = (reply, b')) :
    b.Registers b' := by
  cases hr : (deleteStream name).run b with
  | mk r t =>
    have hr' : deleteStream name b = (r, t) := hr
    -- An attempt passes on that numbers ran out; every other answer becomes a value.
    have hattempt : ((deleteStream name).attempt).run b = (.error .numbersExhausted, t) ∨
        ((deleteStream name).attempt).run b = (.ok r, t) := by
      simp only [Action.run, Action.attempt, hr']
      split
      · next heq =>
        cases heq
        exact .inl rfl
      · next heq =>
        cases heq
        exact .inr rfl
    rcases hattempt with hattempt | hattempt
    · rw [Action.bind_error hattempt] at h
      cases h
      exact registers_deleteStream hr
    · rw [Action.bind_ok hattempt] at h
      split at h <;> cases h <;> exact registers_deleteStream hr

end Broker

/-! ## Changes -/

/-- A change of the registry of a broker. -/
inductive RegistryOp where
  /-- A stream is to be created. -/
  | createStream (settings : StreamSettings)
  /-- A stream is to be changed. -/
  | updateStream (settings : StreamSettings)
  /-- A stream is to be created or changed. -/
  | upsertStream (settings : StreamSettings)
  /-- A stream is to be deleted. -/
  | deleteStream (name : String)
  /-- A key-value bucket is to be created. -/
  | createKeyValueBucket (settings : KeyValueSettings)
  /-- A key-value bucket is to be deleted. -/
  | deleteKeyValueBucket (name : String)
  /-- An object bucket is to be created. -/
  | createObjectBucket (settings : ObjectBucketSettings)
  /-- An object bucket is to be deleted. -/
  | deleteObjectBucket (name : String)

/-- The broker after a change that was asked for, whether it was done or refused. -/
def RegistryOp.run (op : RegistryOp) (b : Broker) : Broker :=
  match op with
  | createStream settings => ((Broker.createStream settings).run b).2
  | updateStream settings => ((Broker.updateStream settings).run b).2
  | upsertStream settings => ((Broker.upsertStream settings).run b).2
  | deleteStream name => ((Broker.deleteStream name).run b).2
  | createKeyValueBucket settings => ((KeyValueBucket.createBucket settings).run b).2
  | deleteKeyValueBucket name => ((KeyValueBucket.deleteBucket name).run b).2
  | createObjectBucket settings => ((ObjectBucket.createBucket settings).run b).2
  | deleteObjectBucket name => ((ObjectBucket.deleteBucket name).run b).2

namespace Broker

variable {b b' : Broker}

/-- A stream is created that can be opened, if no other has its name or subjects of it. -/
theorem run_createStream {settings : StreamSettings} {s : Stream} {backend : Backend}
    (hcheck : settings.check = .ok ()) (hname : b.stream? settings.name = none)
    (hoverlap : b.checkOverlap settings = .ok ())
    (hring : Feed.ringSize b.settings.watchBuffer < tooLongRing)
    (hopen : Stream.open? b.nextId settings b.clock b.backend = (.ok s, backend)) :
    RegistryOp.run (.createStream settings) b =
      { b with nextId := b.nextId + 1, backend, streams := b.streams ++ [s] } := by
  have hlift {x : Except Error Unit} (hx : x = .ok ()) :
      (liftM x : Action Broker Unit).run b = (.ok (), b) := by
    rw [hx]
    rfl
  have hopened : (openStream settings).run b = (.ok b.nextId,
      { b with nextId := b.nextId + 1, backend, streams := b.streams ++ [s] }) := by
    have hfresh : b.freshId = (b.nextId, { b with nextId := b.nextId + 1 }) := rfl
    rw [Action.run, openStream, hfresh]
    dsimp only
    rw [hopen]
    exact if_neg (Nat.not_le_of_lt hring)
  rw [RegistryOp.run, createStream, Action.bind_ok (hlift hcheck), createChecked,
    Action.bind_ok (Action.run_read b), hname]
  dsimp only
  rw [Action.bind_ok (hlift hoverlap), hopened]

/-- **Whatever is asked**, the registry stays or one stream is added, changed or deleted. -/
theorem registers_run (hb : b.Orderly) (op : RegistryOp) : b.Registers (op.run b) := by
  cases op with
  | createStream settings => exact registers_createStream rfl
  | updateStream settings => exact registers_updateStream hb rfl
  | upsertStream settings => exact registers_upsertStream hb rfl
  | deleteStream name => exact registers_deleteStream rfl
  | createKeyValueBucket settings => exact registers_createBucket rfl
  | deleteKeyValueBucket name => exact registers_deleteBucket rfl
  | createObjectBucket settings => exact registers_createBucket rfl
  | deleteObjectBucket name => exact registers_deleteBucket rfl

/-- What can become of a broker: it begins without streams, its registry changes, it begins anew,
and whatever else happens leaves the streams with their numbers and settings. -/
inductive Reached : Broker → Prop where
  | started (settings : BrokerSettings) (seed : Nat) (clock : Clock) (backend : Backend) :
      Reached (start settings seed clock backend)
  | changed {b : Broker} (h : Reached b) (op : RegistryOp) : Reached (op.run b)
  | restarted {b : Broker} (h : Reached b) : Reached b.restart
  | meanwhile {b b' : Broker} (h : Reached b) (hregistry : b'.registry = b.registry)
      (hnext : b.nextId ≤ b'.nextId) : Reached b'

/-- **The registry is in order at any time.** -/
theorem Reached.orderly (h : b.Reached) : b.Orderly := by
  induction h with
  | started => exact .of_empty rfl
  | changed h op ih => exact ih.registers (registers_run ih op)
  | restarted h ih => exact .of_empty rfl
  | meanwhile h hregistry hnext ih => exact ih.registers (.kept hregistry hnext)

end Broker

end StreamBroker
