import AuthServer.Crypto.KeyCalls

/-!
# Rotations under way

Whatever fails: a rotation under way has its files on disk as far as it has come, no loaded key and
no other rotation has its kid, and the active key of the running process is on disk.
-/

namespace AuthServer

open Storage RsaKeyProvider Directory

variable {L : RsaLib}

namespace KeyDraft

/-- The files that a rotation has written, and no others of its kid. -/
def Written (dir : Directory) (d : KeyDraft L) : Prop :=
  match d.stage with
  | .generated => dir.get (.privatePem d.kid) = none ∧ dir.get (.publicPem d.kid) = none
  | .privateWritten =>
    dir.get (.privatePem d.kid) = some (L.privatePem d.pair.privateKey) ∧
      dir.get (.publicPem d.kid) = none
  | .publicWritten =>
    dir.get (.privatePem d.kid) = some (L.privatePem d.pair.privateKey) ∧
      dir.get (.publicPem d.kid) = some (L.publicPem d.pair.publicKey)

/-- A rotation under way: only it has its kid. -/
structure Ready (host : KeyHost L) (issued : List String) (d : KeyDraft L) : Prop where
  issued : d.kid ∈ issued
  written : d.Written host.dir
  unloaded : ∀ store ∈ host.provider, store.byKid.get d.kid = none

variable {dir dir' : Directory} {host host' : KeyHost L} {issued issued' : List String}
  {d x a : KeyDraft L} {l : List (KeyDraft L)} {i : Nat}

theorem Written.congr (h : d.Written dir)
    (hpriv : dir'.get (.privatePem d.kid) = dir.get (.privatePem d.kid))
    (hpub : dir'.get (.publicPem d.kid) = dir.get (.publicPem d.kid)) : d.Written dir' := by
  unfold Written at h ⊢
  rw [hpriv, hpub]
  exact h

/-- A rotation that has not written both files has no pair on disk. -/
theorem Written.pairAt_none (h : d.Written dir) (hstage : d.stage ≠ .publicWritten) :
    pairAt (L := L) dir d.kid = none := by
  refine pairAt_eq_none.mpr (.inr ?_)
  unfold Written at h
  split at h
  · exact h.2
  · exact h.2
  · next hpublic => exact absurd hpublic hstage

/-- The kid of the rotation is not touched. -/
theorem Ready.congr (h : d.Ready host issued) (hissued : issued ⊆ issued')
    (hpriv : host'.dir.get (.privatePem d.kid) = host.dir.get (.privatePem d.kid))
    (hpub : host'.dir.get (.publicPem d.kid) = host.dir.get (.publicPem d.kid))
    (hloaded : ∀ store' ∈ host'.provider, ∃ store ∈ host.provider,
      store.byKid.get d.kid = none → store'.byKid.get d.kid = none) : d.Ready host' issued' := by
  refine ⟨hissued h.issued, h.written.congr hpriv hpub, fun store' hstore' => ?_⟩
  obtain ⟨store, hstore, hnone⟩ := hloaded store' hstore'
  exact hnone (h.unloaded store hstore)

/-- Kids that differ stay with their rotations when one of them goes on. -/
theorem of_mem_set (hnd : (l.map kid).Nodup) (hi : l[i]? = some d) (ha : a ∈ l.set i x) :
    a = x ∨ a ∈ l ∧ a.kid ≠ d.kid := by
  obtain ⟨j, hj⟩ := List.mem_iff_getElem?.mp ha
  rw [List.getElem?_set] at hj
  split at hj
  · split at hj
    · exact .inl (Option.some.inj hj).symm
    · cases hj
  · next hij =>
    refine .inr ⟨List.mem_of_getElem? hj, fun heq => hij ?_⟩
    have hlt : i < (l.map kid).length := by
      rw [List.length_map]
      exact (List.getElem?_eq_some_iff.mp hi).1
    refine (List.getElem?_inj hlt hnd).mp ?_
    rw [List.getElem?_map, List.getElem?_map, hi, hj, Option.map_some, Option.map_some, heq]

theorem of_mem_eraseIdx (hnd : (l.map kid).Nodup) (hi : l[i]? = some d)
    (ha : a ∈ l.eraseIdx i) : a ∈ l ∧ a.kid ≠ d.kid := by
  obtain ⟨j, hij, hj⟩ := List.mem_eraseIdx_iff_getElem?.mp ha
  refine ⟨List.mem_of_getElem? hj, fun heq => hij ?_⟩
  have hlt : j < (l.map kid).length := by
    rw [List.length_map]
    exact (List.getElem?_eq_some_iff.mp hj).1
  refine (List.getElem?_inj hlt hnd).mp ?_
  rw [List.getElem?_map, List.getElem?_map, hi, hj, Option.map_some, Option.map_some, heq]

theorem map_kid_set (hi : l[i]? = some d) (hx : x.kid = d.kid) :
    (l.set i x).map kid = l.map kid := by
  rw [List.map_set, hx]
  refine List.ext_getElem? fun j => ?_
  rw [List.getElem?_set]
  split
  · next hij =>
    subst hij
    rw [List.getElem?_map, hi, if_pos (by simpa using (List.getElem?_eq_some_iff.mp hi).1)]
    rfl
  · rfl

end KeyDraft

namespace KeyCalls

/-- What holds in every run. -/
structure Sane (s : KeyCalls L) : Prop where
  disk : ∀ kid, s.host.dir.get (.privatePem kid) ≠ none ∨ s.host.dir.get (.publicPem kid) ≠ none →
    kid ∈ s.issued
  loaded : ∀ store ∈ s.host.provider, ∀ kid, store.byKid.get kid ≠ none → kid ∈ s.issued
  active : ∀ store ∈ s.host.provider, ∃ pair, store.byKid.get store.activeKid = some pair ∧
    pairAt s.host.dir store.activeKid = some (.ok pair)
  drafts : ∀ d ∈ s.drafts, d.Ready s.host s.issued
  distinct : (s.drafts.map KeyDraft.kid).Nodup

variable {s s' : KeyCalls L} {ev : KeyEvent L}

/-- A new kid has no files and no key. -/
theorem Sane.fresh (h : s.Sane) {kid : String} (hnew : kid ∉ s.issued) :
    s.host.dir.get (.privatePem kid) = none ∧ s.host.dir.get (.publicPem kid) = none ∧
      ∀ store ∈ s.host.provider, store.byKid.get kid = none := by
  refine ⟨?_, ?_, fun store hstore => ?_⟩
  · by_contra hfile
    exact hnew (h.disk kid (.inl hfile))
  · by_contra hfile
    exact hnew (h.disk kid (.inr hfile))
  · by_contra hget
    exact hnew (h.loaded store hstore kid hget)

theorem Sane.generated (h : s.Sane) {key : L.Private} (hnew : L.kidOf key ∉ s.issued) :
    Sane { s with
      drafts := s.drafts ++ [⟨⟨key, L.publicOf key⟩, .generated⟩]
      issued := L.kidOf key :: s.issued } := by
  obtain ⟨hpriv, hpub, hunloaded⟩ := h.fresh hnew
  refine ⟨fun kid hfile => List.mem_cons_of_mem _ (h.disk kid hfile),
    fun store hstore kid hget => List.mem_cons_of_mem _ (h.loaded store hstore kid hget), h.active,
    fun d hd => ?_, ?_⟩
  · rcases List.mem_append.mp hd with hd | hd
    · exact (h.drafts d hd).congr (List.subset_cons_self _ _) rfl rfl fun store hstore =>
        ⟨store, hstore, fun hnone => hnone⟩
    · obtain rfl := List.mem_singleton.mp hd
      exact ⟨List.mem_cons_self, ⟨hpriv, hpub⟩, hunloaded⟩
  · rw [List.map_append, List.nodup_append]
    refine ⟨h.distinct, List.nodup_singleton _, fun a ha b hb hab => hnew ?_⟩
    obtain ⟨d, hd, rfl⟩ := List.mem_map.mp ha
    obtain rfl := List.mem_singleton.mp hb
    have hissued := (h.drafts d hd).issued
    rwa [hab] at hissued

variable {i : Nat} {dir : Directory}

theorem Sane.dropped (h : s.Sane) (hdir : Alike s.host.dir dir) :
    Sane { s with host := ⟨dir, s.host.provider⟩, drafts := s.drafts.eraseIdx i } := by
  refine ⟨fun kid hfile => h.disk kid ?_, h.loaded, fun store hstore => ?_, fun d hd => ?_, ?_⟩
  · rw [← hdir _ (read_privatePem kid), ← hdir _ (read_publicPem kid)]
    exact hfile
  · rw [pairAt_of_alike hdir]
    exact h.active store hstore
  · exact (h.drafts d (List.mem_of_mem_eraseIdx hd)).congr (fun _ hk => hk) (hdir _ (read_privatePem _))
      (hdir _ (read_publicPem _)) fun store hstore => ⟨store, hstore, fun hnone => hnone⟩
  · exact h.distinct.sublist ((List.eraseIdx_sublist _ _).map _)

/-- A rotation writes one of its files. -/
theorem Sane.wrote (h : s.Sane) {d x : KeyDraft L} {file : KeyFile} {content : String}
    (hdraft : s.drafts[i]? = some d) (hkid : x.kid = d.kid)
    (hfile : file = .privatePem d.kid ∨ file = .publicPem d.kid)
    (hdir : Writes file content s.host.dir dir) (hwritten : x.Written dir) :
    Sane { s with host := ⟨dir, s.host.provider⟩, drafts := s.drafts.set i x } := by
  have hd := h.drafts d (List.mem_of_getElem? hdraft)
  have hother : ∀ kid, kid ≠ d.kid → KeyFile.privatePem kid ≠ file ∧ KeyFile.publicPem kid ≠ file := by
    intro kid hne
    rcases hfile with rfl | rfl
    · exact ⟨by simpa using hne, nofun⟩
    · exact ⟨nofun, by simpa using hne⟩
  refine ⟨fun kid hkid => ?_, h.loaded, fun store hstore => ?_, fun a ha => ?_, ?_⟩
  · by_cases hne : kid = d.kid
    · rw [hne]
      exact hd.issued
    · refine h.disk kid ?_
      rw [← hdir.of_ne (read_privatePem kid) (hother kid hne).1,
        ← hdir.of_ne (read_publicPem kid) (hother kid hne).2]
      exact hkid
  · obtain ⟨pair, hget, hpair⟩ := h.active store hstore
    refine ⟨pair, hget, ?_⟩
    rw [pairAt_of_writes hdir (hother _ fun heq => ?_)]
    · exact hpair
    · rw [heq, hd.unloaded store hstore] at hget
      cases hget
  · rcases KeyDraft.of_mem_set h.distinct hdraft ha with rfl | ⟨ha, hne⟩
    · exact ⟨hkid ▸ hd.issued, hwritten, hkid ▸ hd.unloaded⟩
    · exact (h.drafts a ha).congr (fun _ hk => hk) (hdir.of_ne (read_privatePem _) (hother _ hne).1)
        (hdir.of_ne (read_publicPem _) (hother _ hne).2) fun store hstore =>
          ⟨store, hstore, fun hnone => hnone⟩
  · rw [KeyDraft.map_kid_set hdraft hkid]
    exact h.distinct

theorem Sane.installed (h : s.Sane) {pair : KeyPair L}
    (hdraft : s.drafts[i]? = some ⟨pair, .publicWritten⟩)
    (hfiles : ∀ f, f ≠ .activeKid → dir.get f = s.host.dir.get f) :
    Sane { s with
      host := ⟨dir, s.host.provider.map fun store => store.install (L.computeKid pair.publicKey) pair⟩
      drafts := s.drafts.eraseIdx i } := by
  have hd := h.drafts _ (List.mem_of_getElem? hdraft)
  have hpriv : ∀ kid, dir.get (.privatePem kid) = s.host.dir.get (.privatePem kid) :=
    fun kid => hfiles (.privatePem kid) nofun
  have hpub : ∀ kid, dir.get (.publicPem kid) = s.host.dir.get (.publicPem kid) :=
    fun kid => hfiles (.publicPem kid) nofun
  have hstores : ∀ store' ∈ s.host.provider.map fun store =>
      store.install (L.computeKid pair.publicKey) pair, ∃ store ∈ s.host.provider,
        store' = store.install (L.computeKid pair.publicKey) pair := by
    intro store' hstore'
    obtain ⟨store, hstore, rfl⟩ := Option.map_eq_some_iff.mp hstore'
    exact ⟨store, hstore, rfl⟩
  refine ⟨fun kid hkid => h.disk kid ?_, fun store' hstore' kid hget => ?_, fun store' hstore' => ?_,
    fun a ha => ?_, ?_⟩
  · rw [← hpriv, ← hpub]
    exact hkid
  · obtain ⟨store, hstore, rfl⟩ := hstores store' hstore'
    change (store.byKid.set _ _).get kid ≠ none at hget
    rw [Fields.get_set] at hget
    split at hget
    · next hk =>
      rw [hk]
      exact hd.issued
    · exact h.loaded store hstore kid hget
  · obtain ⟨store, hstore, rfl⟩ := hstores store' hstore'
    refine ⟨pair, ?_, pairAt_of_pem ?_ ?_⟩
    · exact Fields.get_set.trans (if_pos rfl)
    · exact (hpriv _).trans hd.written.1
    · exact (hpub _).trans hd.written.2
  · obtain ⟨ha, hne⟩ := KeyDraft.of_mem_eraseIdx h.distinct hdraft ha
    refine (h.drafts a ha).congr (fun _ hk => hk) (hpriv _) (hpub _) fun store' hstore' => ?_
    obtain ⟨store, hstore, rfl⟩ := hstores store' hstore'
    refine ⟨store, hstore, fun hnone => ?_⟩
    exact (Fields.get_set.trans (if_neg hne)).trans hnone
  · exact h.distinct.sublist ((List.eraseIdx_sublist _ _).map _)

theorem Sane.retired (h : s.Sane) {kid : String} {faults : KeyFaults} {store : KeyStore L}
    (hstore : s.host.provider = some store) (hactive : kid ≠ store.activeKid)
    (hloaded : store.byKid.get kid ≠ none) :
    Sane { s with
      host := ⟨KeyIo.cleared faults s.host.dir kid, some { store with byKid := store.byKid.erase kid }⟩
      retired := kid :: s.retired } := by
  have hpriv : ∀ k, k ≠ kid → (KeyIo.cleared faults s.host.dir kid).get (.privatePem k) =
      s.host.dir.get (.privatePem k) := fun k hne => KeyIo.get_cleared_of_ne (by simpa using hne) nofun
  have hpub : ∀ k, k ≠ kid → (KeyIo.cleared faults s.host.dir kid).get (.publicPem k) =
      s.host.dir.get (.publicPem k) := fun k hne => KeyIo.get_cleared_of_ne nofun (by simpa using hne)
  refine ⟨fun k hfile => h.disk k (hfile.imp KeyIo.get_of_cleared KeyIo.get_of_cleared), ?_, ?_,
    fun d hd => ?_, h.distinct⟩
  · rintro store' ⟨⟩ k hget
    rw [Fields.get_erase] at hget
    split at hget
    · exact absurd rfl hget
    · exact h.loaded store hstore k hget
  · rintro store' ⟨⟩
    obtain ⟨pair, hget, hpair⟩ := h.active store hstore
    refine ⟨pair, ?_, ?_⟩
    · exact (Fields.get_erase.trans (if_neg (Ne.symm hactive))).trans hget
    · exact (pairAt_congr (hpriv _ (Ne.symm hactive)) (hpub _ (Ne.symm hactive))).trans hpair
  · have hready := h.drafts d hd
    have hne : d.kid ≠ kid := fun heq => hloaded (heq ▸ hready.unloaded store hstore)
    refine hready.congr (fun _ hk => hk) (hpriv _ hne) (hpub _ hne) ?_
    rintro store' ⟨⟩
    exact ⟨store, hstore, fun hnone => (Fields.get_erase.trans (if_neg hne)).trans hnone⟩

theorem Sane.restarted {fresh : L.Private} {faults : KeyFaults} :
    Sane { s with
      host := (KeyIo.init faults fresh s.host).2
      drafts := []
      issued := L.kidOf fresh :: ((KeyIo.init faults fresh s.host).2.dir.kids ++ s.issued) } := by
  obtain ⟨-, hloaded, -⟩ := KeyIo.began_of_init (Prod.eta (KeyIo.init faults fresh s.host)).symm
  have hdisk : ∀ kid, (KeyIo.init faults fresh s.host).2.dir.get (.privatePem kid) ≠ none ∨
      (KeyIo.init faults fresh s.host).2.dir.get (.publicPem kid) ≠ none →
      kid ∈ L.kidOf fresh :: ((KeyIo.init faults fresh s.host).2.dir.kids ++ s.issued) :=
    fun kid hfile => List.mem_cons_of_mem _ (List.mem_append_left _ (mem_kids hfile))
  refine ⟨hdisk, fun store hstore kid hget => hdisk kid (.inl ?_), fun store hstore => ?_, nofun,
    List.nodup_nil⟩
  · obtain ⟨pair, hget⟩ := Option.ne_none_iff_exists'.mp hget
    exact get_of_pairAt (((hloaded store hstore).pairs kid pair).mp hget)
  · obtain ⟨pair, hget⟩ := Option.ne_none_iff_exists'.mp (hloaded store hstore).active
    exact ⟨pair, hget, ((hloaded store hstore).pairs _ pair).mp hget⟩

theorem Sane.step (h : s.Sane) (hstep : s.step ev = some s') : s'.Sane := by
  cases effect_of_step hstep with
  | nothing => exact h
  | generated hnew => exact h.generated hnew
  | dropped hdir => exact h.dropped hdir
  | wrotePrivate hdraft hdir =>
    have hd := h.drafts _ (List.mem_of_getElem? hdraft)
    refine h.wrote hdraft rfl (.inl rfl) hdir ⟨hdir.self (read_privatePem _), ?_⟩
    exact (hdir.of_ne (read_publicPem _) nofun).trans hd.written.2
  | wrotePublic hdraft hdir =>
    have hd := h.drafts _ (List.mem_of_getElem? hdraft)
    refine h.wrote hdraft rfl (.inr rfl) hdir ⟨?_, hdir.self (read_publicPem _)⟩
    exact (hdir.of_ne (read_privatePem _) nofun).trans hd.written.1
  | installed hdraft hfiles => exact h.installed hdraft hfiles
  | retired _ hstore hactive hloaded => exact h.retired hstore hactive hloaded
  | restarted => exact Sane.restarted

/-- A directory before its first process. -/
structure Start (s : KeyCalls L) : Prop where
  provider : s.host.provider = none
  drafts : s.drafts = []
  retired : s.retired = []
  issued : s.host.dir.kids ⊆ s.issued

theorem Start.sane (h : s.Start) : s.Sane := by
  refine ⟨fun kid hfile => h.issued (mem_kids hfile), fun store hstore => ?_, fun store hstore => ?_,
    fun d hd => ?_, ?_⟩
  · rw [h.provider] at hstore
    cases hstore
  · rw [h.provider] at hstore
    cases hstore
  · rw [h.drafts] at hd
    cases hd
  · rw [h.drafts]
    exact List.nodup_nil

end KeyCalls

end AuthServer
