import StreamBroker.Proofs.KeyValue.Refinement
import StreamBroker.Proofs.Stream.Restart

/-!
# Buckets are maps of versioned keys

A bucket that is created anew stands for the empty map, and every operation does to the map what it
is to do.  Time passes meanwhile, and others do what they do, as long as they leave the stream of
the bucket alone.  At any time the answers of the bucket are those of the map.

## Main definitions

* `KeyValueBucket.Undisturbed`: what leaves a bucket alone
* `KeyValueBucket.Run`: what becomes of a bucket, and of the map that it stands for

## Main results

* `KeyValueBucket.Run.refines`: what a bucket answers is said of its map
-/

namespace StreamBroker

namespace KeyValueBucket

variable {k : KeyValueBucket} {settings : KeyValueSettings} {b b' : Broker} {s s' : Stream}
  {M : KeyMap} {reply : Except Error Nat}

/-- What happens to a broker leaves a bucket alone: the stream of the bucket may be another, but not
its settings and not what is in it. -/
def Undisturbed (k : KeyValueBucket) (b b' : Broker) : Prop :=
  ∀ s, b.Hosts s → s.id = k.stream →
    ∃ s', b'.Hosts s' ∧ s'.id = s.id ∧ s'.settings = s.settings ∧ s'.index = s.index

/-- A bucket that is left alone is held as before. -/
theorem Held.undisturbed (h : k.Held settings b s) (hb : k.Undisturbed b b') :
    ∃ s', k.Held settings b' s' ∧ s'.index = s.index := by
  obtain ⟨s', hhosts, hid, hsettings, hindex⟩ := hb s h.hosts h.id_eq
  exact ⟨s', ⟨hhosts, hid.trans h.id_eq, h.name_eq, h.unlimited, hsettings ▸ h.settings_eq,
    hindex ▸ h.keyed⟩, hindex⟩

/-- Looking leaves a bucket alone. -/
theorem Held.undisturbed_of_evolves (h : k.Held settings b s) (he : b.Evolves s b' s) :
    k.Undisturbed b b' := by
  intro t ht hid
  have hs := h.hosts.liveStream_eq
  rw [h.id_eq, ← hid, ht.liveStream_eq] at hs
  obtain rfl := Except.ok.inj hs
  exact ⟨t, he.hosts, rfl, rfl, rfl⟩

/-- Time that passes leaves a bucket alone. -/
theorem undisturbed_clock (k : KeyValueBucket) (b : Broker) (clock : Clock) :
    k.Undisturbed b { b with clock } := fun s hs _ =>
  ⟨s, ⟨hs.orderly.sublist (List.Sublist.refl _) (Nat.le_refl _), hs.mem, hs.steady, hs.sound,
    hs.backed⟩, rfl, rfl, rfl⟩

/-- What becomes of a bucket, and of the map that it stands for: it is created on a blank journal,
operations come to an end on it, and otherwise it is left alone. -/
inductive Run (settings : KeyValueSettings) (k : KeyValueBucket) : Broker → KeyMap → Prop where
  | created {b b' : Broker} (hunlimited : settings.IsUnlimited) (hb : b.Orderly)
      (hnew : b.stream? (KeyValueSettings.streamName settings.bucket) = none)
      (hblank : settings.storage = .file → b.backend.Keeps
        (Journal.namespaceOf (KeyValueSettings.streamName settings.bucket)) SeqMap.empty)
      (h : (createBucket settings).run b = (.ok k, b')) : Run settings k b' .empty
  | operated {b b' : Broker} {M : KeyMap} (run : Run settings k b M) (op : KeyOp)
      (hop : op.Fits k b) {reply : Except Error Nat} (h : (op.run k).run b = (reply, b'))
      (hreply : reply ≠ .error .numbersExhausted) :
      Run settings k b' (M.apply k.name settings.history b.clock.wall.toMicro op).2
  | meanwhile {b b' : Broker} {M : KeyMap} (run : Run settings k b M)
      (h : k.Undisturbed b b') : Run settings k b' M

/-- The stream of a bucket stands for the map, which is tidy. -/
theorem Run.exists_held (run : Run settings k b M) :
    ∃ s, k.Held settings b s ∧ k.mapOf s.index = M ∧ M.IsTidy settings.history := by
  induction run with
  | created hunlimited hb hnew hblank h =>
    obtain ⟨s, hheld, hmap⟩ := held_of_createBucket hunlimited hb hnew hblank h
    exact ⟨s, hheld, hmap, KeyMap.empty_isTidy _⟩
  | operated run op hop h hreply ih =>
    obtain ⟨s, hheld, rfl, htidy⟩ := ih
    obtain ⟨s', hheld', happly⟩ := hheld.run_eq hop h hreply
    exact ⟨s', hheld', (congrArg Prod.snd happly).symm, htidy.apply hheld.one_le_history _ _ _⟩
  | meanwhile run h ih =>
    obtain ⟨s, hheld, rfl, htidy⟩ := ih
    obtain ⟨s', hheld', hindex⟩ := hheld.undisturbed h
    exact ⟨s', hheld', congrArg k.mapOf hindex, htidy⟩

/-- **A bucket is a map of versioned keys.**  The map keeps no more revisions of a key than it
should, in the order of their numbers.  An operation is answered as the map answers it, and is
refused only for what the map says; a refusal changes nothing, a revision that is written has a
number above all others and a key does not affect another.  What is looked up is what the map has,
and looking changes nothing. -/
theorem Run.refines (run : Run settings k b M) :
    M.IsTidy settings.history ∧
    (∀ (op : KeyOp) (reply : Except Error Nat) (b' : Broker), op.Fits k b →
      (op.run k).run b = (reply, b') → reply ≠ .error .numbersExhausted →
      ∃ M', M.apply k.name settings.history b.clock.wall.toMicro op = (reply, M') ∧
        Run settings k b' M' ∧
        (∀ e, reply = .error e → M' = M) ∧
        (∀ n, reply = .ok n → M.last < n ∧ M'.last = n) ∧
        ∀ key, key ≠ op.key → M'.revisions key = M.revisions key) ∧
    (∀ key, checkKey key = .ok () →
      (∃ b', (k.entry key).run b = (.ok (M.newest? key), b') ∧ Run settings k b' M) ∧
      (∃ b', (k.get key).run b = (.ok (M.value? key), b') ∧ Run settings k b' M) ∧
      ∃ b', (k.history key).run b =
        (if M.revisions key = [] then .error (.keyNotFound key k.name) else .ok (M.revisions key),
          b') ∧ Run settings k b' M) ∧
    ∃ keys b', k.keys.run b = (.ok keys, b') ∧ Run settings k b' M ∧ keys.Pairwise (· < ·) ∧
      ∀ key, key ∈ keys ↔ (M.value? key).isSome = true := by
  obtain ⟨s, hheld, rfl, htidy⟩ := run.exists_held
  have hleft {b' : Broker} (he : b.Evolves s b' s) : Run settings k b' (k.mapOf s.index) :=
    run.meanwhile (hheld.undisturbed_of_evolves he)
  refine ⟨htidy, fun op reply b' hop h hreply => ?_, fun key hkey => ⟨?_, ?_, ?_⟩, ?_⟩
  · obtain ⟨s', -, happly⟩ := hheld.run_eq hop h hreply
    have hrun := run.operated op hop h hreply
    obtain ⟨rfl, hmap⟩ := Prod.mk.inj happly
    refine ⟨_, rfl, hrun, fun e he => KeyMap.apply_refused he, fun n hn => ?_, fun key hne => ?_⟩
    · exact KeyMap.apply_written hn
    · exact KeyMap.revisions_apply_of_ne hne
  · obtain ⟨b', hentry, he⟩ := hheld.run_entry hkey
    exact ⟨b', hentry, hleft he⟩
  · obtain ⟨b', hget, he⟩ := hheld.run_get hkey
    exact ⟨b', hget, hleft he⟩
  · obtain ⟨b', hhistory, he⟩ := hheld.run_history hkey
    exact ⟨b', hhistory, hleft he⟩
  · obtain ⟨keys, b', hkeys, he, hsorted, hmem⟩ := hheld.run_keys
    exact ⟨keys, b', hkeys, hleft he, hsorted, hmem⟩

/-- A key that was written and then, at another time, deleted has both revisions and no value. -/
theorem refines_deleted :
    ∃ (k : KeyValueBucket) (b : Broker) (M : KeyMap),
      Run { bucket := "b", history := 2, storage := .memory } k b M ∧
      (M.revisions "a").map (fun e => (e.revision, e.created.micros, e.operation)) =
        [(1, 0, .put), (2, 5, .delete)] ∧
      ∃ b', (k.get "a").run b = (.ok none, b') ∧
        Run { bucket := "b", history := 2, storage := .memory } k b' M := by
  have hcreated : Run { bucket := "b", history := 2, storage := .memory } ⟨"b", 0⟩ _ _ :=
    .created (b := .start {} 0 Stream.epochClock Stream.blankBackend) ⟨rfl, rfl, rfl⟩
      (.of_empty rfl) rfl (fun h => by cases h) (Prod.ext (by decide +kernel) rfl)
  have hput := hcreated.operated (.put "a" [1])
    ⟨by decide +kernel, by decide +kernel, by decide +kernel, by decide +kernel⟩ rfl
    (by decide +kernel)
  have hlater := hput.meanwhile (undisturbed_clock _ _ ⟨0, 5000⟩)
  have hdelete := hlater.operated (.delete "a")
    ⟨by decide +kernel, by decide +kernel, by decide +kernel, by decide +kernel⟩ rfl
    (by decide +kernel)
  obtain ⟨-, -, hreads, -⟩ := hdelete.refines
  obtain ⟨-, ⟨b', hget, hrun⟩, -⟩ := hreads "a" (by decide +kernel)
  exact ⟨_, _, _, hdelete, by decide +kernel, b', hget, hrun⟩

end KeyValueBucket

end StreamBroker
