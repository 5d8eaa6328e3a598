import AuthServer.Crypto.KeyDrafts

/-!
# A rotation that fails

`rotate` writes the two files of the new key, changes the memory and then writes the marker file.
A failure up to the change of the memory leaves the process as it was and a restart with the same
active key. When the write of the marker file fails, the process already signs with the new key.
-/

namespace AuthServer

open Storage RsaKeyProvider Directory Fallible KeyIo

variable {L : RsaLib}

/-- The failures are among the given points. -/
def KeyFaults.Within (P : KeyPoint → Prop) (faults : KeyFaults) : Prop :=
  ∀ point, faults point ≠ none → P point

namespace KeyCalls

/-- Rotations fail at the given points only. Retirements and starts fail as they will. -/
def Rotates (P : KeyPoint → Prop) : KeyEvent L → Prop
  | .generate _ faults | .writePrivate _ faults | .writePublic _ faults | .install _ faults =>
    faults.Within P
  | .retire _ _ | .restart _ _ => True

/-- The names of key files are trimmed. -/
def Clean (dir : Directory) : Prop := ∀ kid, dir.get (.privatePem kid) ≠ none → Text.trim kid = kid

variable {s s' : KeyCalls L} {ev : KeyEvent L} {P : KeyPoint → Prop}

/-- A restart finds the active key of the running process. -/
structure Marked (s : KeyCalls L) : Prop where
  sane : s.Sane
  clean : Clean s.host.dir
  sound : s.host.provider ≠ none → ∀ kid e, pairAt (L := L) s.host.dir kid ≠ some (.error e)
  marker : ∀ store ∈ s.host.provider,
    (s.host.dir.get .activeKid).map Text.trim = some store.activeKid

theorem Marked.generated (h : s.Marked) {key : L.Private} (hnew : L.kidOf key ∉ s.issued) :
    Marked { s with
      drafts := s.drafts ++ [⟨⟨key, L.publicOf key⟩, .generated⟩]
      issued := L.kidOf key :: s.issued } :=
  ⟨h.sane.generated hnew, h.clean, h.sound, h.marker⟩

/-- Files other than those of one kid stay, and what is there under this kid parses. -/
theorem Marked.of_files (h : s.Marked) (hsane : s'.Sane)
    (hprov : s'.host.provider = s.host.provider) {kid : String} (htrim : Text.trim kid = kid)
    (hfiles : ∀ f, f.Read → f ≠ .privatePem kid → f ≠ .publicPem kid →
      s'.host.dir.get f = s.host.dir.get f)
    (hpair : ∀ e, pairAt (L := L) s'.host.dir kid ≠ some (.error e)) : s'.Marked := by
  have hother : ∀ k, k ≠ kid → s'.host.dir.get (.privatePem k) = s.host.dir.get (.privatePem k) ∧
      s'.host.dir.get (.publicPem k) = s.host.dir.get (.publicPem k) := by
    intro k hne
    exact ⟨hfiles _ (read_privatePem k) (by simpa using hne) nofun,
      hfiles _ (read_publicPem k) nofun (by simpa using hne)⟩
  refine ⟨hsane, fun k hk => ?_, fun hserving k e => ?_, fun store hstore => ?_⟩
  · by_cases hne : k = kid
    · rw [hne]
      exact htrim
    · rw [(hother k hne).1] at hk
      exact h.clean k hk
  · by_cases hne : k = kid
    · rw [hne]
      exact hpair e
    · rw [pairAt_congr (hother k hne).1 (hother k hne).2]
      rw [hprov] at hserving
      exact h.sound hserving k e
  · rw [hprov] at hstore
    rw [hfiles _ read_activeKid nofun nofun]
    exact h.marker store hstore

theorem Marked.step (h : s.Marked) (hnot : ¬ P .marker) (ha : Rotates P ev)
    (hstep : s.step ev = some s') : s'.Marked := by
  have hsane := h.sane.step hstep
  cases effect_of_step hstep with
  | nothing => exact h
  | generated hnew => exact h.generated hnew
  | dropped hdir =>
    refine ⟨hsane, fun k hk => h.clean k ?_, fun hserving k e => ?_, fun store hstore => ?_⟩
    · rw [← hdir _ (read_privatePem k)]
      exact hk
    · rw [pairAt_of_alike hdir]
      exact h.sound hserving k e
    · rw [hdir _ read_activeKid]
      exact h.marker store hstore
  | @wrotePrivate i _ pair dir hdraft hdir =>
    have hmem : (⟨pair, .privateWritten⟩ : KeyDraft L) ∈ s.drafts.set i ⟨pair, .privateWritten⟩ :=
      List.mem_set (List.getElem?_eq_some_iff.mp hdraft).1 _
    have hnone := (hsane.drafts _ hmem).written.pairAt_none nofun
    refine h.of_files hsane rfl (L.trim_computeKid pair.publicKey)
      (fun f hf hpriv _ => hdir.of_ne hf hpriv) fun e he => ?_
    rw [show pairAt (L := L) dir (L.computeKid pair.publicKey) = none from hnone] at he
    cases he
  | @wrotePublic i _ pair dir hdraft hdir =>
    have hmem : (⟨pair, .publicWritten⟩ : KeyDraft L) ∈ s.drafts.set i ⟨pair, .publicWritten⟩ :=
      List.mem_set (List.getElem?_eq_some_iff.mp hdraft).1 _
    have hwritten := (hsane.drafts _ hmem).written
    refine h.of_files hsane rfl (L.trim_computeKid pair.publicKey)
      (fun f hf _ hpub => hdir.of_ne hf hpub) fun e he => ?_
    rw [show pairAt (L := L) dir (L.computeKid pair.publicKey) = some (.ok pair) from
      pairAt_of_pem hwritten.1 hwritten.2] at he
    cases he
  | @installed i faults pair dir hdraft hfiles hmarker =>
    refine ⟨hsane, fun k hk => h.clean k ?_, fun hserving k e => ?_, fun store' hstore' => ?_⟩
    · rw [← hfiles (.privatePem k) nofun]
      exact hk
    · rw [pairAt_of_files hfiles]
      refine h.sound (fun hnone => hserving ?_) k e
      rw [hnone]
      rfl
    · obtain ⟨store, -, rfl⟩ := Option.map_eq_some_iff.mp hstore'
      have hwritten : faults .marker = none := by
        by_contra hfault
        exact hnot (ha .marker hfault)
      rw [hmarker hwritten]
      exact congrArg some (L.trim_computeKid _)
  | @retired kid faults store hblank hstore hactive hloaded =>
    refine ⟨hsane, fun k hk => h.clean k (get_of_cleared hk), fun _ k e he => ?_, ?_⟩
    · rcases pairAt_cleared k with hsame | hnone
      · exact h.sound (by simp [hstore]) k e (hsame.symm.trans he)
      · cases hnone.symm.trans he
    · rintro store' ⟨⟩
      change ((cleared faults s.host.dir kid).get .activeKid).map Text.trim = _
      rw [get_cleared_of_ne (f := .activeKid) nofun nofun]
      exact h.marker store hstore
  | restarted =>
    obtain ⟨hnames, hloaded, hmarker⟩ := began_of_init (Prod.eta _).symm
    refine ⟨hsane, fun k hk => ?_, fun hserving k e => ?_, fun store hstore => ?_⟩
    · exact (hnames k hk).elim (h.clean k) fun htrim => htrim
    · obtain ⟨store, hstore⟩ := Option.ne_none_iff_exists'.mp hserving
      exact (hloaded store hstore).sound k e
    · exact hmarker h.clean store hstore

section Uninterrupted

variable {key : L.Private} {pair : KeyPair L} {faults : KeyFaults} {r : Except String String}
  {h' : KeyHost L} {i : Nat}

theorem runs_of_install (hin : faults.Within P) (hdraft : s.drafts[i]? = some ⟨pair, .publicWritten⟩)
    (hr : install faults pair s.host = (r, h')) :
    ∃ s', Runs (Rotates P) s s' ∧ s'.host = h' := by
  have hstep : s.step (.install i faults) =
      some (s.advance i (install faults pair s.host) none) := by
    unfold step
    dsimp only
    rw [hdraft]
  rw [hr] at hstep
  have hadmits : Rotates P (.install i faults : KeyEvent L) := hin
  exact ⟨_, .step (.refl s) hadmits hstep, rfl⟩

theorem runs_of_writePublic (hin : faults.Within P)
    (hdraft : s.drafts[i]? = some ⟨pair, .privateWritten⟩)
    (hr : (writePublic faults pair >>= fun _ => install faults pair) s.host = (r, h')) :
    ∃ s', Runs (Rotates P) s s' ∧ s'.host = h' := by
  have hstep : s.step (.writePublic i faults) = some (s.advance i
      (writePublic faults pair s.host) (some ⟨pair, .publicWritten⟩)) := by
    unfold step
    dsimp only
    rw [hdraft]
  have hadmits : Rotates P (.writePublic i faults : KeyEvent L) := hin
  rcases bind_cases hr with ⟨e, hwrite, -⟩ | ⟨_, h₁, hwrite, hr₁⟩
  · rw [hwrite] at hstep
    exact ⟨_, .step (.refl s) hadmits hstep, rfl⟩
  · rw [hwrite] at hstep
    have hlt := (List.getElem?_eq_some_iff.mp hdraft).1
    obtain ⟨s', run, hhost⟩ := runs_of_install (s := s.advance i (.ok (), h₁)
      (some ⟨pair, .publicWritten⟩)) (i := i) hin (List.getElem?_set_self hlt) hr₁
    exact ⟨s', .head hadmits hstep run, hhost⟩

theorem runs_of_writePrivate (hin : faults.Within P)
    (hdraft : s.drafts[i]? = some ⟨pair, .generated⟩)
    (hr : (writePrivate faults pair >>= fun _ => writePublic faults pair >>= fun _ =>
      install faults pair) s.host = (r, h')) :
    ∃ s', Runs (Rotates P) s s' ∧ s'.host = h' := by
  have hstep : s.step (.writePrivate i faults) = some (s.advance i
      (writePrivate faults pair s.host) (some ⟨pair, .privateWritten⟩)) := by
    unfold step
    dsimp only
    rw [hdraft]
  have hadmits : Rotates P (.writePrivate i faults : KeyEvent L) := hin
  rcases bind_cases hr with ⟨e, hwrite, -⟩ | ⟨_, h₁, hwrite, hr₁⟩
  · rw [hwrite] at hstep
    exact ⟨_, .step (.refl s) hadmits hstep, rfl⟩
  · rw [hwrite] at hstep
    have hlt := (List.getElem?_eq_some_iff.mp hdraft).1
    obtain ⟨s', run, hhost⟩ := runs_of_writePublic (s := s.advance i (.ok (), h₁)
      (some ⟨pair, .privateWritten⟩)) (i := i) hin (List.getElem?_set_self hlt) hr₁
    exact ⟨s', .head hadmits hstep run, hhost⟩

/-- A rotation that nobody interrupts is a run of its steps. -/
theorem runs_of_rotate (hserving : s.host.provider ≠ none) (hnew : L.kidOf key ∉ s.issued)
    (hin : faults.Within P) (hr : rotate faults key s.host = (r, h')) :
    ∃ s', Runs (Rotates P) s s' ∧ s'.host = h' := by
  have hguard : (s.host.provider.isNone || s.issued.contains (L.kidOf key)) = false := by
    simp [Option.isSome_iff_ne_none.mpr hserving, hnew]
  have hadmits : Rotates P (.generate key faults : KeyEvent L) := hin
  rcases bind_cases hr with ⟨e, hdraft, -⟩ | ⟨pair, h₁, hdraft, hr₁⟩
  · exact ⟨s, .refl s, (draft_eq hdraft).1.symm⟩
  · have hstep : s.step (.generate key faults) = some { s with
        host := h₁, drafts := s.drafts ++ [⟨pair, .generated⟩], issued := L.kidOf key :: s.issued } := by
      unfold step
      dsimp only
      rw [hguard, hdraft]
      rfl
    obtain ⟨s', run, hhost⟩ := runs_of_writePrivate (i := s.drafts.length) hin
      (s := { s with
        host := h₁, drafts := s.drafts ++ [⟨pair, .generated⟩], issued := L.kidOf key :: s.issued })
      List.getElem?_concat_length hr₁
    exact ⟨s', .head hadmits hstep run, hhost⟩

end Uninterrupted

/-- The memory is only changed when nothing but the marker file is left to write. -/
theorem provider_of_rotate {key : L.Private} {faults : KeyFaults} {e : String} {h h' : KeyHost L}
    (hmarker : faults .marker = none) (hr : rotate faults key h = (.error e, h')) :
    h'.provider = h.provider := by
  rcases bind_cases hr with ⟨_, hdraft, -⟩ | ⟨pair, h₁, hdraft, hr₁⟩
  · rw [(draft_eq hdraft).1]
  obtain ⟨rfl, -⟩ := draft_eq hdraft
  rcases bind_cases hr₁ with ⟨_, hpriv, -⟩ | ⟨_, h₂, hpriv, hr₂⟩
  · exact (writeAtomic_eq hpriv).1
  rw [← (writeAtomic_eq hpriv).1]
  rcases bind_cases hr₂ with ⟨_, hpub, -⟩ | ⟨_, h₃, hpub, hr₃⟩
  · exact (writeAtomic_eq hpub).1
  rw [← (writeAtomic_eq hpub).1]
  rcases install_eq hr₃ with ⟨rfl, -⟩ | ⟨-, ⟨hok, -⟩ | ⟨hfault, -⟩⟩
  · rfl
  · cases hok
  · exact absurd hmarker hfault

/-- A restart whose own steps do not fail has the active key of the process before it. -/
theorem Marked.restart (h : s.Marked) {store : KeyStore L} (hstore : store ∈ s.host.provider)
    (fresh : L.Private) : ∃ store' ∈ (KeyIo.init (fun _ => none) fresh s.host).2.provider,
      store'.activeKid = store.activeKid := by
  have hserving : s.host.provider ≠ none := by
    rw [Option.mem_def.mp hstore]
    nofun
  obtain ⟨pair, -, hpair⟩ := h.sane.active store hstore
  obtain ⟨byKid, hload⟩ := exists_loadExistingKeys (h.sound hserving)
  have hactive : storedActive byKid s.host.dir = some store.activeKid := by
    refine storedActive_eq_some.mpr ⟨h.marker store hstore, ?_⟩
    rw [((get_loadExistingKeys hload).2 _ pair).mpr hpair]
    nofun
  have hinit : KeyIo.init (fun _ => none) fresh s.host =
      (.ok (), ⟨s.host.dir, some ⟨byKid, store.activeKid⟩⟩) := by
    unfold KeyIo.init
    rw [bind_update]
    change (Fallible.ofExcept (loadExistingKeys s.host.dir) >>= _) _ = _
    rw [hload]
    refine Fallible.bind_ok.mpr ⟨byKid, _, rfl, ?_⟩
    dsimp only [Fallible.bind_read]
    rw [hactive]
    rfl
  exact ⟨⟨byKid, store.activeKid⟩, by rw [hinit]; rfl, rfl⟩

end KeyCalls

/-- A rotation that fails leaves the memory, and a restart finds the same active key. -/
def FailedRotationVoid (P : KeyPoint → Prop) : Prop :=
  ∀ (L : RsaLib) (s s' : KeyCalls L), s.Start → KeyCalls.Clean s.host.dir →
    KeyCalls.Runs (KeyCalls.Rotates P) s s' →
    ∀ store ∈ s'.host.provider, ∀ (key : L.Private) (faults : KeyFaults), L.kidOf key ∉ s'.issued →
    faults.Within P → ∀ e host', KeyIo.rotate faults key s'.host = (.error e, host') →
      host'.provider = some store ∧
        ∀ fresh, ∃ store' ∈ (KeyIo.init (fun _ => none) fresh host').2.provider,
          store'.activeKid = store.activeKid

theorem failedRotationVoid_of_not {P : KeyPoint → Prop} (hnot : ¬ P .marker) :
    FailedRotationVoid P := by
  intro L s s' hstart hclean run store hstore key faults hnew hin e host' hr
  have hserving : s'.host.provider ≠ none := by
    rw [Option.mem_def.mp hstore]
    nofun
  have hmarked : s.Marked := by
    refine ⟨hstart.sane, hclean, fun hserving => absurd hstart.provider hserving, fun store hs => ?_⟩
    rw [hstart.provider] at hs
    cases hs
  have hmarker : faults .marker = none := by
    by_contra hfault
    exact hnot (hin .marker hfault)
  have hstep : ∀ s₁ ev s₂, KeyCalls.Marked s₁ → KeyCalls.Rotates P ev →
      KeyCalls.step (L := L) s₁ ev = some s₂ → KeyCalls.Marked s₂ :=
    fun _ _ _ h ha hs => h.step hnot ha hs
  have hprovider := KeyCalls.provider_of_rotate hmarker hr
  obtain ⟨s₁, run₁, rfl⟩ := KeyCalls.runs_of_rotate hserving hnew hin hr
  have hmarked₁ := run₁.invariant hstep (run.invariant hstep hmarked)
  exact ⟨hprovider.trans hstore, hmarked₁.restart (hprovider.trans hstore)⟩

namespace RotateFailure

open threeKeys

/-- The write of the marker file fails. -/
def unmarkable : KeyFaults
  | .marker => some ⟨"no space left on device", none⟩
  | _ => none

/-- The process signs with the new key after a failed rotation. -/
theorem rotate_fails : ((KeyCalls.play ⟨⟨[], none⟩, [], [], []⟩
    [.restart (key 0) fun _ => none]).map fun s =>
      (s.host.provider.map KeyStore.activeKid, decide (threeKeys.kidOf (key 1) ∈ s.issued),
        (rotate unmarkable (key 1) s.host).1.isOk,
        (rotate unmarkable (key 1) s.host).2.provider.map KeyStore.activeKid)) =
      some (some (threeKeys.kidOf (key 0)), false, false, some (threeKeys.kidOf (key 1))) := by
  decide +kernel

end RotateFailure

theorem not_void_of_marker {P : KeyPoint → Prop} (h : P .marker) : ¬ FailedRotationVoid P := by
  intro hvoid
  obtain ⟨s', hplay, hs'⟩ := Option.map_eq_some_iff.mp RotateFailure.rotate_fails
  obtain ⟨hbefore, hrest⟩ := Prod.mk.inj hs'
  obtain ⟨hnew, hrest⟩ := Prod.mk.inj hrest
  obtain ⟨hfails, hafter⟩ := Prod.mk.inj hrest
  obtain ⟨store, hstore, hactive⟩ := Option.map_eq_some_iff.mp hbefore
  have hadmits : ∀ ev ∈ [(.restart (threeKeys.key 0) fun _ => none : KeyEvent threeKeys)],
      KeyCalls.Rotates P ev := by
    intro ev hev
    obtain rfl := List.mem_singleton.mp hev
    trivial
  have hin : RotateFailure.unmarkable.Within P := by
    intro point hpoint
    cases point with
    | marker => exact h
    | reading | keygen | kid | encodePrivate | encodePublic | writePrivate | writePublic | build
    | removePrivate | removePublic => exact absurd rfl hpoint
  rcases hr : rotate RotateFailure.unmarkable (threeKeys.key 1) s'.host with ⟨_ | _, host'⟩
  · have hkept := (hvoid threeKeys _ s' ⟨rfl, rfl, rfl, List.nil_subset _⟩ (fun _ hk => absurd rfl hk)
      (.of_play hplay hadmits) store hstore (threeKeys.key 1) _ (of_decide_eq_false hnew) hin _ host'
      hr).1
    rw [hr, hkept] at hafter
    have hsame := hactive.symm.trans (Option.some.inj hafter)
    revert hsame
    decide +kernel
  · rw [hr] at hfails
    cases hfails

/-- A failed rotation changes nothing exactly when the write of the marker file does not fail. -/
theorem failedRotationVoid_iff {P : KeyPoint → Prop} : FailedRotationVoid P ↔ ¬ P .marker := by
  constructor
  · exact fun hvoid h => not_void_of_marker h hvoid
  · exact failedRotationVoid_of_not

/-- When every step of a rotation may fail, a failed one can change the active key. -/
theorem not_failedRotationVoid : ¬ FailedRotationVoid fun _ => True :=
  not_void_of_marker trivial

end AuthServer
