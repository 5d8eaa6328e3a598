import AuthServer.Crypto.KeyStore

/-!
# The life of a key

A key stays what it is in the store and on disk until it is retired, also over restarts, and a
retired kid never comes back. The two keys of a pair match when those of the first directory do.
-/

namespace AuthServer

open Storage Concurrent RsaKeyProvider

variable {L : RsaLib} {env : Env}

/-! ## A key stays until it is retired -/

/-- The pair of a kid is on disk, and loaded while a process runs. -/
structure Holds (m : KeyMoment L) (kid : String) (pair : KeyPair L) : Prop where
  disk : pairAt m.world.dir kid = some (.ok pair)
  memory : ∀ store, m.world.provider = some store → store.byKid.get kid = some pair

/-- The retirement of a kid has succeeded. -/
def Retired (m : KeyMoment L) (kid : String) : Prop :=
  ∃ tid, (⟨tid, .retire kid, (.ok true : Except String Bool)⟩ : Event (KeyRes L)) ∈ m.trace

section Steps

variable {m : KeyMoment L} {tid : Nat} {kid : String} {pair : KeyPair L} {w : KeyWorld L}

variable {op : KeyOp L} {store : KeyStore L}

theorem Holds.exec {r : KeyRes L op} (hk : KeyInv m) (hh : Holds m kid pair)
    (h : KeyEffect tid m.world w op r) (hready : KeyReady (m.Marked keyMark tid) op)
    (hretire : ¬ Retired (m.after tid op r w) kid) : Holds (m.after tid op r w) kid pair := by
  rcases h.touched hready kid with hu | ht
  · refine ⟨hu.pairAt.trans hh.disk, fun store hs => ?_⟩
    obtain ⟨⟨old, hold, hmem⟩, -⟩ := hu.memory store hs
    exact hmem.trans (hh.memory old hold)
  · cases ht with
    | started hinit =>
      have hagree := agree_of_init (fun kid h => (hk.named kid h).2) hinit
      have hdisk := pairAt_init hinit hh.disk
      refine ⟨hdisk, fun store hs => ?_⟩
      cases hs
      exact (hagree.pairs kid pair).mpr hdisk
    | generated _ _ hfresh => exact absurd (hk.named _ (get_of_pairAt hh.disk)).1 hfresh
    -- the key of a rotation is not loaded
    | wrote hrot _ hs =>
      cases (hh.memory _ hs).symm.trans (((hk.running _ hs).kids _).absent tid _ hrot rfl)
    | installed hrot _ hs =>
      cases (hh.memory _ hs).symm.trans (((hk.running _ hs).kids _).absent tid _ hrot rfl)
    | retired => exact absurd ⟨tid, List.mem_cons_self⟩ hretire

/-- A retired kid: no private file, not loaded, in no rotation, and never drawn again. -/
structure Gone (m : KeyMoment L) (kid : String) : Prop where
  file : m.world.dir.get (.privatePem kid) = none
  memory : ∀ store, m.world.provider = some store → store.byKid.get kid = none
  rotation : ∀ tid key, Rotating m tid key → L.kidOf key ≠ kid
  issued : kid ∈ m.world.issued
  marker : ∃ active pair, (m.world.dir.get .activeKid).map Text.trim = some active ∧
    pairAt (L := L) m.world.dir active = some (.ok pair)

/-- The marker file names a pair on disk while a process runs. -/
theorem KeyInv.marker (hk : KeyInv m) (hs : m.world.provider = some store) :
    ∃ active pair, (m.world.dir.get .activeKid).map Text.trim = some active ∧
      pairAt (L := L) m.world.dir active = some (.ok pair) := by
  have hrunning := hk.running store hs
  obtain ⟨pair, hpair⟩ := Option.ne_none_iff_exists'.mp hrunning.active
  exact ⟨_, pair, hrunning.marker, (hrunning.kids _).onDisk pair hpair⟩

/-- A command leaves the directory as it is, or the process runs after it. -/
theorem KeyEffect.still {w' : KeyWorld L} {r : KeyRes L op} (h : KeyEffect tid w w' op r)
    : w'.dir = w.dir ∨ ∃ store, w'.provider = some store := by
  cases h with
  | quiet | failed | entered | generated => exact .inl rfl
  | wrote _ hs => exact .inr ⟨_, hs⟩
  | started | installed | retired => exact .inr ⟨_, rfl⟩

theorem Gone.exec {r : KeyRes L op} (hk : KeyInv m) (hk' : KeyInv (m.after tid op r w))
    (hg : Gone m kid) (h : KeyEffect tid m.world w op r)
    (hready : KeyReady (m.Marked keyMark tid) op) : Gone (m.after tid op r w) kid := by
  have hmarker : ∃ active pair, (w.dir.get .activeKid).map Text.trim = some active ∧
      pairAt (L := L) w.dir active = some (.ok pair) := by
    rcases h.still with hdir | ⟨store, hs⟩
    · rw [hdir]
      exact hg.marker
    · exact hk'.marker hs
  rcases h.touched hready kid with hu | ht
  · refine ⟨(hu.files _ (.inl rfl)).trans hg.file, fun store hs => ?_, fun i key hr hkid => ?_,
      hu.issued hg.issued, hmarker⟩
    · obtain ⟨⟨old, hold, hmem⟩, -⟩ := hu.memory store hs
      exact hmem.trans (hg.memory old hold)
    · exact hg.rotation i key (hu.rotating i key hr hkid) hkid
  · cases ht with
    | @started _ _ _ dir _ hinit =>
      obtain ⟨active, pair, hactive, hpair⟩ := hg.marker
      have hfile : dir.get (.privatePem kid) = none := by
        rw [init_of_marker hinit hactive hpair]
        exact hg.file
      have hagree := agree_of_init (fun kid h => (hk.named kid h).2) hinit
      refine ⟨hfile, fun store hs => ?_, fun i key hr => (nomatch hr.live),
        List.mem_append_right _ hg.issued, hmarker⟩
      cases hs
      by_contra hget
      obtain ⟨pair, hpair⟩ := Option.ne_none_iff_exists'.mp hget
      exact get_of_pairAt ((hagree.pairs kid pair).mp hpair) hfile
    | generated _ _ hfresh => exact absurd hg.issued hfresh
    | wrote hrot => exact absurd rfl (hg.rotation tid _ hrot)
    | installed hrot => exact absurd rfl (hg.rotation tid _ hrot)
    | retired hs hsome => exact absurd (hg.memory _ hs) hsome

/-- After the retirement the kid is gone. -/
theorem gone_of_retire {ch : KeyChoice L} (hk : KeyInv m)
    (hk' : KeyInv (m.after tid (.retire kid) (.ok true : Except String Bool) w))
    (h : KeyWorld.exec tid (.retire kid) ch m.world = some ((.ok true : Except String Bool), w)) :
    Gone (m.after tid (.retire kid) (.ok true : Except String Bool) w) kid := by
  obtain ⟨hin, store, hs, heq⟩ := KeyWorld.inProcess_cases h
  rcases KeyWorld.retire_cases heq with ⟨hr, -⟩ | ⟨-, hne, hsome, rfl⟩
  · exact absurd rfl hr
  · refine ⟨?_, fun store' hs' => ?_, fun i key hr => ?_, hk.issued_of_loaded hs hsome,
      hk'.marker rfl⟩
    · change ((m.world.dir.erase _).erase _).get (.privatePem kid) = none
      simp
    · cases hs'
      exact Fields.get_erase.trans (if_pos rfl)
    · rintro rfl
      have hgen := (Moment.marked_after.mp hr.generated).resolve_left fun hnew => by cases hnew.2
      exact hsome (((hk.running store hs).kids _).absent i key
        ⟨hr.live, hgen, fun hp => hr.pending hp.after⟩ rfl)

/-! ## The keys of a pair match -/

/-- The pairs on disk match, and so does the pair of very early runs. -/
structure Directory.Matching (L : RsaLib) (dir : Directory) : Prop where
  pairs : ∀ (kid : String) (pair : KeyPair L), pairAt dir kid = some (.ok pair) →
    pair.publicKey = L.publicOf pair.privateKey ∧ kid ≠ ""
  legacy : ∀ priv pub k p, dir.get .legacyPrivate = some priv → dir.get .legacyPublic = some pub →
    L.parsePrivate priv = some k → L.parsePublic pub = some p → p = L.publicOf k

/-- The keys of a kid match, its public file carries an issued kid, and a rotation finds none of
its files before it writes them. -/
structure MatchedAt (m : KeyMoment L) (kid : String) : Prop where
  pair : ∀ pair : KeyPair L, pairAt m.world.dir kid = some (.ok pair) →
    pair.publicKey = L.publicOf pair.privateKey ∧ kid ≠ ""
  published : m.world.dir.get (.publicPem kid) ≠ none → kid ∈ m.world.issued
  fresh : ∀ tid key file content, Rotating m tid key → L.kidOf key = kid → PemOf key file content →
    ¬ m.Marked keyMark tid (.wrote file) → m.world.dir.get file = none

/-- The keys of all kids match, and so does the pair of very early runs. -/
structure Matched (m : KeyMoment L) : Prop where
  kids : ∀ kid, MatchedAt m kid
  legacy : ∀ priv pub k p, m.world.dir.get .legacyPrivate = some priv →
    m.world.dir.get .legacyPublic = some pub → L.parsePrivate priv = some k →
    L.parsePublic pub = some p → p = L.publicOf k

theorem Matched.matching (hm : Matched m) : m.world.dir.Matching L :=
  ⟨fun kid => (hm.kids kid).pair, hm.legacy⟩

theorem MatchedAt.untouched {m' : KeyMoment L} (h : MatchedAt m kid) (hu : Untouched m m' kid) :
    MatchedAt m' kid where
  pair pair hpair := h.pair pair (hu.pairAt.symm.trans hpair)
  published hfile := hu.issued (h.published fun hnone => hfile ((hu.files _ (.inr rfl)).trans hnone))
  fresh i key file content hr hkid hpem hno := by
    have hfile := hpem.ofKid hkid
    rw [hu.files file hfile]
    refine h.fresh i key file content (hu.rotating i key hr hkid) hkid hpem fun hmark => hno ?_
    exact (hu.wrote i file hfile).mpr hmark

theorem Directory.Matching.init {dir dir' : Directory} {fresh : L.Private} (hd : dir.Matching L)
    (h : init dir fresh = .ok (store, dir')) : dir'.Matching L := by
  obtain ⟨byKid, -, ⟨-, -, rfl⟩ | ⟨-, base, hstart, -, rfl⟩⟩ := init_cases h
  · exact hd
  · have hbase : base.Matching L := by
      generalize store.byKid = loaded at hstart
      cases hstart with
      | kept => exact hd
      | @added new _ hempty hadds hfrom =>
        constructor
        · intro k pair hpair
          rw [hadds.pairAt] at hpair
          split at hpair
          · next hk =>
            cases Option.some.inj hpair
            refine ⟨?_, fun hnil => L.computeKid_ne _ (hk.symm.trans hnil)⟩
            rcases hfrom with rfl | ⟨priv, pub, hpriv, hpub, hk', hp'⟩
            · rfl
            · exact hd.legacy priv pub _ _ hpriv hpub hk' hp'
          · exact hd.pairs k pair hpair
        · intro priv pub k p hpriv hpub
          rcases hadds.legacyPrivate with hsame | hnone
          · rcases hadds.legacyPublic with hsame' | hnone
            · exact hd.legacy priv pub k p (hsame.symm.trans hpriv) (hsame'.symm.trans hpub)
            · cases hnone.symm.trans hpub
          · cases hnone.symm.trans hpriv
    constructor
    · intro k pair hpair
      rw [pairAt_set_activeKid] at hpair
      exact hbase.pairs k pair hpair
    · intro priv pub k p hpriv hpub
      rw [get_set_activeKid (nofun : KeyFile.legacyPrivate ≠ .activeKid)] at hpriv
      rw [get_set_activeKid (nofun : KeyFile.legacyPublic ≠ .activeKid)] at hpub
      exact hbase.legacy priv pub k p hpriv hpub

/-- The public key files after a start are those from before and those of loaded keys. -/
theorem get_public_init {dir dir' : Directory} {fresh : L.Private}
    (h : init dir fresh = .ok (store, dir')) (hfile : dir'.get (.publicPem kid) ≠ none) :
    dir.get (.publicPem kid) ≠ none ∨ store.byKid.get kid ≠ none := by
  obtain ⟨byKid, -, ⟨-, -, rfl⟩ | ⟨-, base, hstart, -, rfl⟩⟩ := init_cases h
  · exact .inl hfile
  · rw [get_set_activeKid (nofun : KeyFile.publicPem kid ≠ .activeKid)] at hfile
    generalize store.byKid = loaded at hstart ⊢
    cases hstart with
    | kept => exact .inl hfile
    | @added pair _ hempty hadds hfrom =>
      rw [hadds.publicFile] at hfile
      split at hfile
      · next hk => exact .inr (by simp [hk])
      · exact .inl hfile

/-- The files of a rotation, where they are there after a write, are those of its key. -/
theorem MatchedAt.content (hk : KeyInv m) {file f : KeyFile} {content c x : String}
    {key : L.Private} (h : MatchedAt m (L.kidOf key)) (hs : m.world.provider = some store)
    (hrot : Rotating m tid key) (hpem : PemOf key file content) (hf : PemOf key f c)
    (hget : (m.world.dir.set file content).get f = some x) : x = c := by
  rw [Fields.get_set] at hget
  split at hget
  · next heq =>
    subst heq
    rw [← Option.some.inj hget]
    exact hf.unique hpem
  · by_cases hdone : m.Marked keyMark tid (.wrote f)
    · have hold := ((hk.running store hs).kids _).wrote tid key f c hrot rfl hf hdone
      exact Option.some.inj (hget.symm.trans hold)
    · cases hget.symm.trans (h.fresh tid key f c hrot rfl hf hdone)

theorem MatchedAt.touched {r : KeyRes L op} (hk : KeyInv m) (hk' : KeyInv (m.after tid op r w))
    (hm : Matched m) (ht : Touched m tid w kid op r) :
    MatchedAt (m.after tid op r w) kid := by
  have h := hm.kids kid
  cases ht with
  | started hinit =>
    refine ⟨(hm.matching.init hinit).pairs kid, fun hfile => ?_,
      fun i key _ _ hr => (by cases hr.live)⟩
    rcases get_public_init hinit hfile with hold | hloaded
    · exact List.mem_append_right _ (h.published hold)
    · exact List.mem_append_left _ (Fields.get_ne_none.mp hloaded)
  | @generated key _ _ _ hfresh =>
    refine ⟨h.pair, fun _ => List.mem_cons_self, fun i key' file content hr hkid hpem _ => ?_⟩
    by_contra hfile
    rcases hpem.ofKid hkid with rfl | rfl
    · exact hfresh (hk.named _ hfile).1
    · exact hfresh (h.published hfile)
  | @wrote key file content store _ hrot hpem hs =>
    refine ⟨fun pair hpair => ?_, fun _ => hk.draws.issued tid key hrot.generated,
      fun i key' f c hr hkid hf hno => ?_⟩
    · obtain ⟨priv, pub, hpriv, hpub, hk', hp'⟩ := pairAt_eq_ok.mp hpair
      rw [h.content hk hs hrot hpem (.inl ⟨rfl, rfl⟩) hpriv, L.parsePrivate_pem] at hk'
      rw [h.content hk hs hrot hpem (.inr ⟨rfl, rfl⟩) hpub, L.parsePublic_pem] at hp'
      rw [← Option.some.inj hk', ← Option.some.inj hp']
      exact ⟨rfl, L.computeKid_ne _⟩
    · obtain ⟨rfl, rfl⟩ := hk'.draws.once i key' tid key hr.generated hrot.generated.after hkid
      refine (Fields.get_set.trans (if_neg ?_)).trans
        (h.fresh i key' f c hrot rfl hf fun hmark => hno hmark.after)
      rintro rfl
      exact hno (Moment.marked_after.mpr (.inl ⟨rfl, rfl⟩))
  | @installed key store _ hrot =>
    refine ⟨fun pair hpair => h.pair pair ((pairAt_set_activeKid ..).symm.trans hpair),
      fun _ => hk.draws.issued tid key hrot.generated, fun i key' _ _ hr hkid => ?_⟩
    have hnone := ((hk'.running _ rfl).kids _).absent i key' hr hkid
    change (store.byKid.set (L.kidOf key) _).get _ = none at hnone
    simp at hnone
  | retired =>
    have hget : ∀ f, f = .privatePem kid ∨ f = .publicPem kid →
        ((m.world.dir.erase (.privatePem kid)).erase (.publicPem kid)).get f = none := by
      rintro f (rfl | rfl)
      · simp
      · simp
    exact ⟨fun pair hpair => absurd (hget _ (.inl rfl)) (get_of_pairAt hpair),
      fun hfile => absurd (hget _ (.inr rfl)) hfile, fun i key f c _ hkid hf _ => hget f (hf.ofKid hkid)⟩

/-- The pair of very early runs changes at starts only. -/
theorem KeyEffect.legacy {r : KeyRes L op} (h : KeyEffect tid m.world w op r)
    (hready : KeyReady (m.Marked keyMark tid) op) :
    (∃ (fresh : L.Private) (store : KeyStore L), init m.world.dir fresh = .ok (store, w.dir)) ∨
      ∀ f, f = .legacyPrivate ∨ f = .legacyPublic → w.dir.get f = m.world.dir.get f := by
  cases h with
  | started hinit => exact .inl ⟨_, _, hinit⟩
  | quiet | failed | entered | generated => exact .inr fun _ _ => rfl
  | wrote =>
    obtain ⟨key, -, -, ⟨rfl, -⟩ | ⟨rfl, -⟩⟩ := hready
    all_goals
      refine .inr ?_
      rintro f (rfl | rfl) <;> simp
  | installed | retired =>
    refine .inr ?_
    rintro f (rfl | rfl) <;> simp

theorem Matched.exec {r : KeyRes L op} (hk : KeyInv m) (hk' : KeyInv (m.after tid op r w))
    (hm : Matched m) (h : KeyEffect tid m.world w op r)
    (hready : KeyReady (m.Marked keyMark tid) op) : Matched (m.after tid op r w) := by
  refine ⟨fun kid => ?_, fun priv pub k p hpriv hpub => ?_⟩
  · rcases h.touched hready kid with hu | ht
    · exact (hm.kids kid).untouched hu
    · exact .touched hk hk' hm ht
  · rcases h.legacy hready with ⟨fresh, store, hinit⟩ | hsame
    · exact (hm.matching.init hinit).legacy priv pub k p hpriv hpub
    · exact hm.legacy priv pub k p ((hsame _ (.inl rfl)).symm.trans hpriv)
        ((hsame _ (.inr rfl)).symm.trans hpub)

end Steps

/-! ## Along runs -/

section Runs

variable {R : Regime (KeyRes L) (KeyWorld L) (KeyChoice L) (KeyCall L)} {w₀ : KeyWorld L}
variable {c c' : KeyConfig L} {kid : String}

theorem ready_of_run (run : Run (keyServer L env) R (.start w₀) c) {tid : Nat}
    {t : Thread (KeyRes L) (KeyWorld L) (KeyCall.Ret (L := L))} {op : KeyOp L}
    {k : KeyRes L op → Prog (KeyRes L) t.call.Ret} (ht : c.threads[tid]? = some t)
    (hp : t.prog = .call op k) : KeyReady (c.moment.Marked keyMark tid) op := by
  have hlead := (run.replayed (Config.start_replayed w₀)).2 tid t ht
  rw [hp] at hlead
  rw [marked_eq_doneIn]
  exact ready_of_issues ⟨k, hlead⟩

theorem Retired.mono (run : Run (keyServer L env) R c c') (h : Retired c.moment kid) :
    Retired c'.moment kid := by
  obtain ⟨tid, he⟩ := h
  exact ⟨tid, run.trace_suffix.subset he⟩

/-- A key that is held stays until it is retired. -/
theorem holds_of_run (hw : w₀.Initial) (run : Run (keyServer L env) R (.start w₀) c)
    {pair : KeyPair L} (hh : Holds c.moment kid pair) (later : Run (keyServer L env) R c c')
    (hretire : ¬ Retired c'.moment kid) : Holds c'.moment kid pair := by
  have hall := later.invariant
    (J := fun c : KeyConfig L => ¬ Retired c.moment kid → Holds c.moment kid pair)
    (fun _ _ _ _ ih => ih) ?_ fun _ => hh
  · exact hall hretire
  · intro c₁ tid t op k ch r w later₁ ih ht hp ha hexec hno
    have run₁ := run.trans later₁
    have hno₁ : ¬ Retired c₁.moment kid :=
      fun h => hno (h.mono (Run.step (.refl _) ht hp ha hexec))
    exact (ih hno₁).exec (keyInv_of_run hw run₁) (KeyWorld.exec_effect hexec)
      (ready_of_run run₁ ht hp) hno

/-- A retired kid never comes back. -/
theorem gone_of_run (hw : w₀.Initial) (run : Run (keyServer L env) R (.start w₀) c)
    (h : Retired c.moment kid) (later : Run (keyServer L env) R c c') : Gone c'.moment kid := by
  obtain ⟨tid, he⟩ := h
  rcases run.executed he with hnone | ⟨c₁, t, k, ch, w, run₁, ht, hp, ha, hexec, run₂⟩
  · cases hnone
  have hstep := Run.step run₁ ht hp ha hexec
  have hgone := gone_of_retire (keyInv_of_run hw run₁) (keyInv_of_run hw hstep) hexec
  refine (run₂.trans later).invariant (J := fun c : KeyConfig L => Gone c.moment kid)
    (fun _ _ _ _ ih => ih) ?_ hgone
  intro c₂ tid' t' op' k' ch' r' w' later₂ ih ht' hp' ha' hexec'
  have run₃ := hstep.trans later₂
  exact ih.exec (keyInv_of_run hw run₃) (keyInv_of_run hw (Run.step run₃ ht' hp' ha' hexec'))
    (KeyWorld.exec_effect hexec') (ready_of_run run₃ ht' hp')

/-- The pairs of the first directory match, and its public files carry issued kids. -/
theorem matched_of_run (hw : w₀.Initial) (hd : w₀.dir.Matching L)
    (hpub : ∀ kid, w₀.dir.get (.publicPem kid) ≠ none → kid ∈ w₀.issued)
    (run : Run (keyServer L env) R (.start w₀) c) : Matched c.moment := by
  refine run.invariant (J := fun c : KeyConfig L => Matched c.moment) (fun _ _ _ _ ih => ih) ?_ ?_
  · intro c₁ tid t op k ch r w run₁ ih ht hp _ hexec
    have hready := ready_of_run run₁ ht hp
    have hk := keyInv_of_run hw run₁
    have heffect := KeyWorld.exec_effect hexec
    exact ih.exec hk (hk.exec heffect hready) heffect hready
  · have hnone : ∀ i key, ¬ Rotating (⟨w₀, []⟩ : KeyMoment L) i key :=
      fun i key hr => Moment.not_marked_nil hr.generated
    exact ⟨fun kid => ⟨hd.pairs kid, hpub kid, fun i key _ _ hr => absurd hr (hnone i key)⟩, hd.legacy⟩

end Runs

end AuthServer
