import AuthServer.Crypto.KeyDrafts

/-!
# Retirement is permanent

`retire` drops a key from the memory and then removes its two files, without a look at the results.
A pair is loaded from two files, so one removal is enough to keep the key away from a restart. When
both fail the next process loads the key again.
-/

namespace AuthServer

open Storage RsaKeyProvider Directory

/-- A store that knows nothing of a kid: its tokens are rejected and it is not published. -/
structure KeyStore.Withdrawn {L : RsaLib} (store : KeyStore L) (kid : String) : Prop where
  unloaded : store.byKid.get kid = none
  rejected : store.decodingKeyByKid (some kid) = .ok none
  unpublished : kid ∉ store.allPublicKeys.map Prod.fst

theorem KeyStore.withdrawn_of_none {L : RsaLib} {store : KeyStore L} {kid : String} (hblank : kid ≠ "")
    (h : store.byKid.get kid = none) : store.Withdrawn kid := by
  refine ⟨h, ?_, fun hmem => ?_⟩
  · unfold KeyStore.decodingKeyByKid
    rw [Option.filter_some, if_pos (by simpa using hblank)]
    dsimp only
    rw [h]
    rfl
  · obtain ⟨⟨k, key⟩, hentry, rfl⟩ := List.mem_map.mp hmem
    obtain ⟨k', -, hk'⟩ := List.mem_filterMap.mp hentry
    obtain ⟨pair, hget, heq⟩ := Option.map_eq_some_iff.mp hk'
    cases heq
    rw [h] at hget
    cases hget

namespace KeyCalls

variable {L : RsaLib} {s s' : KeyCalls L} {ev : KeyEvent L} {allowed : Bool → Bool → Prop}

/-- Which of the two removals of a retirement fail. Every other operation may fail as it will. -/
def Removals (allowed : Bool → Bool → Prop) : KeyEvent L → Prop
  | .retire _ faults => allowed (faults .removePrivate).isSome (faults .removePublic).isSome
  | _ => True

/-- A key that has been retired: it is not loaded, not on disk and in no rotation. -/
structure Dropped (s : KeyCalls L) (kid : String) : Prop where
  blank : kid ≠ ""
  issued : kid ∈ s.issued
  disk : pairAt (L := L) s.host.dir kid = none
  rotation : ∀ d ∈ s.drafts, d.kid ≠ kid
  memory : ∀ store ∈ s.host.provider, store.byKid.get kid = none

/-- Some pair is on disk, so that a start writes no key file. -/
def Stocked (s : KeyCalls L) : Prop := ∃ kid pair, pairAt (L := L) s.host.dir kid = some (.ok pair)

theorem Stocked.of_provider (h : s.Sane) {store : KeyStore L} (hstore : store ∈ s.host.provider) :
    s.Stocked := by
  obtain ⟨pair, -, hpair⟩ := h.active store hstore
  exact ⟨_, pair, hpair⟩

variable {kid : String} {file : KeyFile} {content : String} {dir : Directory}

/-- A write of a rotation leaves the pairs of the other kids. -/
theorem pairAt_wrote {d : KeyDraft L} (hfile : file = .privatePem d.kid ∨ file = .publicPem d.kid)
    (hdir : Writes file content s.host.dir dir) (hne : kid ≠ d.kid) :
    pairAt (L := L) dir kid = pairAt s.host.dir kid := by
  refine pairAt_of_writes hdir ?_
  rcases hfile with rfl | rfl
  · exact ⟨by simpa using hne, nofun⟩
  · exact ⟨nofun, by simpa using hne⟩

theorem Stocked.wrote (h : s.Sane) (hs : s.Stocked) {i : Nat} {d x : KeyDraft L}
    (hdraft : s.drafts[i]? = some d) (hstage : d.stage ≠ .publicWritten)
    (hfile : file = .privatePem d.kid ∨ file = .publicPem d.kid)
    (hdir : Writes file content s.host.dir dir) :
    Stocked { s with host := ⟨dir, s.host.provider⟩, drafts := s.drafts.set i x } := by
  obtain ⟨kid, pair, hpair⟩ := hs
  refine ⟨kid, pair, (pairAt_wrote hfile hdir fun heq => ?_).trans hpair⟩
  rw [heq, (h.drafts d (List.mem_of_getElem? hdraft)).written.pairAt_none hstage] at hpair
  cases hpair

/-- A start on a directory with a pair leaves all pairs. -/
theorem pairAt_restarted (hs : s.Stocked) (fresh : L.Private) (faults : KeyFaults) (kid : String) :
    pairAt (L := L) (KeyIo.init faults fresh s.host).2.dir kid = pairAt s.host.dir kid := by
  obtain ⟨k, pair, hpair⟩ := hs
  exact pairAt_of_files (fun _ hf => KeyIo.files_of_init (Prod.eta _).symm hpair hf) kid

theorem Stocked.step (h : s.Sane) (hs : s.Stocked) (hstep : s.step ev = some s') : s'.Stocked := by
  have h' := h.step hstep
  cases effect_of_step hstep with
  | nothing => exact hs
  | generated => exact hs
  | dropped hdir =>
    obtain ⟨kid, pair, hpair⟩ := hs
    exact ⟨kid, pair, (pairAt_of_alike hdir kid).trans hpair⟩
  | wrotePrivate hdraft hdir => exact hs.wrote h hdraft nofun (.inl rfl) hdir
  | wrotePublic hdraft hdir => exact hs.wrote h hdraft nofun (.inr rfl) hdir
  | installed hdraft hfiles =>
    obtain ⟨kid, pair, hpair⟩ := hs
    exact ⟨kid, pair, (pairAt_of_files hfiles kid).trans hpair⟩
  | retired => exact .of_provider h' rfl
  | @restarted fresh faults =>
    have hsame := pairAt_restarted hs fresh faults
    obtain ⟨kid, pair, hpair⟩ := hs
    exact ⟨kid, pair, (hsame kid).trans hpair⟩

theorem Dropped.wrote (hd : s.Dropped kid) {i : Nat} {d x : KeyDraft L}
    (hdraft : s.drafts[i]? = some d) (hkid : x.kid = d.kid)
    (hfile : file = .privatePem d.kid ∨ file = .publicPem d.kid)
    (hdir : Writes file content s.host.dir dir) :
    Dropped { s with host := ⟨dir, s.host.provider⟩, drafts := s.drafts.set i x } kid := by
  have hne := hd.rotation d (List.mem_of_getElem? hdraft)
  refine ⟨hd.blank, hd.issued, (pairAt_wrote hfile hdir (Ne.symm hne)).trans hd.disk,
    fun a ha => ?_, hd.memory⟩
  rcases List.mem_or_eq_of_mem_set ha with ha | rfl
  · exact hd.rotation a ha
  · rw [hkid]
    exact hne

/-- A key that has been retired does not come back. -/
theorem Dropped.step (hs : s.Stocked) (hd : s.Dropped kid) (hstep : s.step ev = some s')
    : s'.Dropped kid := by
  cases effect_of_step hstep with
  | nothing => exact hd
  | generated hnew =>
    refine ⟨hd.blank, List.mem_cons_of_mem _ hd.issued, hd.disk, fun d hmem => ?_, hd.memory⟩
    rcases List.mem_append.mp hmem with hmem | hmem
    · exact hd.rotation d hmem
    · obtain rfl := List.mem_singleton.mp hmem
      intro heq
      have hissued := hd.issued
      rw [← heq] at hissued
      exact hnew hissued
  | dropped hdir =>
    exact ⟨hd.blank, hd.issued, (pairAt_of_alike hdir kid).trans hd.disk,
      fun d hmem => hd.rotation d (List.mem_of_mem_eraseIdx hmem), hd.memory⟩
  | wrotePrivate hdraft hdir => exact hd.wrote hdraft rfl (.inl rfl) hdir
  | wrotePublic hdraft hdir => exact hd.wrote hdraft rfl (.inr rfl) hdir
  | installed hdraft hfiles =>
    have hne := hd.rotation _ (List.mem_of_getElem? hdraft)
    refine ⟨hd.blank, hd.issued, (pairAt_of_files hfiles kid).trans hd.disk,
      fun d hmem => hd.rotation d (List.mem_of_mem_eraseIdx hmem), fun store' hstore' => ?_⟩
    obtain ⟨store, hstore, rfl⟩ := Option.map_eq_some_iff.mp hstore'
    exact (Fields.get_set.trans (if_neg (Ne.symm hne))).trans (hd.memory store hstore)
  | retired hblank hstore hactive hloaded =>
    refine ⟨hd.blank, hd.issued, ?_, hd.rotation, ?_⟩
    · rcases KeyIo.pairAt_cleared kid with hsame | hnone
      · exact hsame.trans hd.disk
      · exact hnone
    · rintro store' ⟨⟩
      refine Fields.get_erase.trans ?_
      split
      · rfl
      · exact hd.memory _ hstore
  | @restarted fresh faults =>
    have hdisk := (pairAt_restarted hs fresh faults kid).trans hd.disk
    refine ⟨hd.blank, List.mem_cons_of_mem _ (List.mem_append_right _ hd.issued), hdisk, by rintro _ ⟨⟩,
      fun store hstore => ?_⟩
    have hloaded := (KeyIo.began_of_init (Prod.eta _).symm).loaded store hstore
    refine Option.eq_none_iff_forall_ne_some.mpr fun pair hget => ?_
    rw [(hloaded.pairs kid pair), hdisk] at hget
    cases hget

/-- What a retirement leaves when one of its removals has not failed. -/
theorem dropped_of_retired (h : s.Sane) {faults : KeyFaults} {store : KeyStore L}
    (hblank : kid ≠ "") (hstore : s.host.provider = some store)
    (hloaded : store.byKid.get kid ≠ none)
    (hfaults : ¬ ((faults .removePrivate).isSome ∧ (faults .removePublic).isSome)) :
    Dropped { s with
      host := ⟨KeyIo.cleared faults s.host.dir kid, some { store with byKid := store.byKid.erase kid }⟩
      retired := kid :: s.retired } kid := by
  refine ⟨hblank, h.loaded store hstore kid hloaded, KeyIo.pairAt_cleared_self hfaults, fun d hd heq => ?_, ?_⟩
  · exact hloaded (heq ▸ (h.drafts d hd).unloaded store hstore)
  · rintro store' ⟨⟩
    exact Fields.get_erase.trans (if_pos rfl)

/-- Every retired key is gone, and a directory from which a key has been retired has a pair. -/
structure Retirements (s : KeyCalls L) : Prop where
  sane : s.Sane
  dropped : ∀ kid ∈ s.retired, s.Dropped kid
  stocked : s.retired ≠ [] → s.Stocked

theorem Retirements.step (h : s.Retirements) (hnot : ¬ allowed true true) (ha : Removals allowed ev)
    (hstep : s.step ev = some s') : s'.Retirements := by
  have hsane := h.sane.step hstep
  have hdropped : ∀ kid ∈ s.retired, s'.Dropped kid := fun kid hkid =>
    (h.dropped kid hkid).step (h.stocked (List.ne_nil_of_mem hkid)) hstep
  have hstocked : s.retired ≠ [] → s'.Stocked := fun hne => (h.stocked hne).step h.sane hstep
  cases effect_of_step hstep with
  | retired hblank hstore hactive hloaded =>
    refine ⟨hsane, fun kid hkid => ?_, fun _ => .of_provider hsane rfl⟩
    rcases List.mem_cons.mp hkid with rfl | hkid
    · refine dropped_of_retired h.sane hblank hstore hloaded fun hboth => hnot ?_
      rw [Removals, hboth.1, hboth.2] at ha
      exact ha
    · exact hdropped kid hkid
  | nothing | generated | dropped | wrotePrivate | wrotePublic | installed | restarted =>
    exact ⟨hsane, hdropped, hstocked⟩

end KeyCalls

/-- Once `retire` has succeeded no later process has the key. -/
def RetirementPermanent (allowed : Bool → Bool → Prop) : Prop :=
  ∀ (L : RsaLib) (s s' : KeyCalls L), s.Start → KeyCalls.Runs (KeyCalls.Removals allowed) s s' →
    ∀ kid ∈ s'.retired, ∀ store ∈ s'.host.provider, store.Withdrawn kid

theorem retirementPermanent_of_not {allowed : Bool → Bool → Prop} (hnot : ¬ allowed true true) :
    RetirementPermanent allowed := by
  intro L s s' hstart run kid hkid store hstore
  have hretired : s.Retirements := by
    refine ⟨hstart.sane, fun kid hkid => ?_, fun hne => absurd hstart.retired hne⟩
    rw [hstart.retired] at hkid
    cases hkid
  have h' := run.invariant (fun _ _ _ h ha hstep => h.step hnot ha hstep) hretired
  have hdropped := h'.dropped kid hkid
  exact KeyStore.withdrawn_of_none hdropped.blank (hdropped.memory store hstore)

namespace Retirement

open threeKeys

/-- The removals of both files fail. -/
def unremovable : KeyFaults
  | .removePrivate | .removePublic => some ⟨"permission denied", none⟩
  | _ => none

/-- A first key, a rotation, the retirement of the first key and a restart. -/
def events : List (KeyEvent threeKeys) :=
  [.restart (key 0) fun _ => none, .generate (key 1) fun _ => none,
    .writePrivate 0 fun _ => none, .writePublic 0 fun _ => none, .install 0 fun _ => none,
    .retire (threeKeys.kidOf (key 0)) unremovable, .restart (key 2) fun _ => none]

/-- The retired key is loaded again. -/
theorem events_reload : ((KeyCalls.play ⟨⟨[], none⟩, [], [], []⟩ events).map fun s =>
    (s.retired, s.host.provider.map fun store =>
      (store.byKid.get (threeKeys.kidOf (key 0))).isSome)) =
      some ([threeKeys.kidOf (key 0)], some true) := by
  decide +kernel

end Retirement

theorem not_permanent_of_allowed {allowed : Bool → Bool → Prop} (h : allowed true true) :
    ¬ RetirementPermanent allowed := by
  intro hperm
  obtain ⟨s', hplay, hs'⟩ := Option.map_eq_some_iff.mp Retirement.events_reload
  obtain ⟨hretired, hprovider⟩ := Prod.mk.inj hs'
  obtain ⟨store, hstore, hloaded⟩ := Option.map_eq_some_iff.mp hprovider
  have hadmits : ∀ ev ∈ Retirement.events, KeyCalls.Removals allowed ev := by
    intro ev hev
    simp only [Retirement.events, List.mem_cons, List.not_mem_nil, or_false] at hev
    rcases hev with rfl | rfl | rfl | rfl | rfl | rfl | rfl
    · trivial
    · trivial
    · trivial
    · trivial
    · trivial
    · exact h
    · trivial
  have hgone := hperm threeKeys _ s' ⟨rfl, rfl, rfl, List.nil_subset _⟩
    (.of_play hplay hadmits) _ (hretired ▸ List.mem_cons_self) store hstore
  rw [hgone.unloaded] at hloaded
  cases hloaded

/-- A retired key never comes back exactly when the two removals of a retirement do not both fail. -/
theorem retirementPermanent_iff {allowed : Bool → Bool → Prop} :
    RetirementPermanent allowed ↔ ¬ allowed true true := by
  constructor
  · exact fun hperm h => not_permanent_of_allowed h hperm
  · exact retirementPermanent_of_not

/-- When file removals may fail in any way, a retired key can come back. -/
theorem not_retirementPermanent : ¬ RetirementPermanent fun _ _ => True :=
  not_permanent_of_allowed trivial

end AuthServer
