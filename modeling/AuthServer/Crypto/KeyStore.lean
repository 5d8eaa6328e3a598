import AuthServer.Concurrent.History
import AuthServer.Crypto.Jwt
import AuthServer.Crypto.KeyFiles

/-!
# The key store over runs and restarts

What is loaded is on disk, and what is on disk is loaded or belongs to a rotation in flight. The
active key is always loaded, so the lookups that expect it never panic, and a start on the
directory of an idle process gives its keys and its active kid again.
-/

namespace AuthServer

open Storage Concurrent RsaKeyProvider

variable {L : RsaLib}

/-- What the commands of a rotation stand for. -/
inductive KeyMark (L : RsaLib) where
  | generated (key : L.Private)
  | wrote (file : KeyFile)
  | installed

def keyMark : Marking (KeyRes L) (KeyMark L)
  | .generateKeypair, key => some (.generated key)
  | .writeFile file _, _ => some (.wrote file)
  | .install _ _, _ => some .installed
  | _, _ => none

/-- Moments of the key server. -/
abbrev KeyMoment (L : RsaLib) := Moment (KeyRes L) (KeyWorld L)

/-- A call of the running process has generated a key and not installed it yet. -/
structure Rotating (m : KeyMoment L) (tid : Nat) (key : L.Private) : Prop where
  live : tid ∈ m.world.live
  generated : m.Marked keyMark tid (.generated key)
  pending : ¬ m.Marked keyMark tid .installed

/-- The files of the pair of a key, with their contents. -/
def PemOf (key : L.Private) (file : KeyFile) (content : String) : Prop :=
  (file = .privatePem (L.kidOf key) ∧ content = L.privatePem key) ∨
    (file = .publicPem (L.kidOf key) ∧ content = L.publicPem (L.publicOf key))

theorem PemOf.unique {key : L.Private} {file : KeyFile} {content content' : String}
    (h : PemOf key file content) (h' : PemOf key file content') : content' = content := by
  rcases h with ⟨rfl, rfl⟩ | ⟨rfl, rfl⟩
  · rcases h' with ⟨-, rfl⟩ | ⟨hf, -⟩
    · rfl
    · cases hf
  · rcases h' with ⟨hf, -⟩ | ⟨-, rfl⟩
    · cases hf
    · rfl

/-- The store of the running process and the directory, at one kid. -/
structure RunningAt (m : KeyMoment L) (store : KeyStore L) (kid : String) : Prop where
  onDisk : ∀ pair, store.byKid.get kid = some pair → pairAt m.world.dir kid = some (.ok pair)
  inMemory : ∀ x, pairAt m.world.dir kid = some x →
    (∃ pair, x = .ok pair ∧ store.byKid.get kid = some pair) ∨
      ∃ tid key, Rotating m tid key ∧ L.kidOf key = kid
  absent : ∀ tid key, Rotating m tid key → L.kidOf key = kid → store.byKid.get kid = none
  wrote : ∀ tid key file content, Rotating m tid key → L.kidOf key = kid → PemOf key file content →
    m.Marked keyMark tid (.wrote file) → m.world.dir.get file = some content

/-- The store of the running process and the directory. -/
structure Running (m : KeyMoment L) (store : KeyStore L) : Prop where
  kids : ∀ kid, RunningAt m store kid
  active : store.byKid.get store.activeKid ≠ none
  marker : (m.world.dir.get .activeKid).map Text.trim = some store.activeKid

/-- Generated keys have kids that were issued, each to one of them. -/
structure Draws (m : KeyMoment L) : Prop where
  issued : ∀ tid key, m.Marked keyMark tid (.generated key) → L.kidOf key ∈ m.world.issued
  once : ∀ tid key tid' key', m.Marked keyMark tid (.generated key) →
    m.Marked keyMark tid' (.generated key') → L.kidOf key = L.kidOf key' → tid = tid' ∧ key = key'

/-- The names of key files are trimmed kids that were issued. -/
def Named (w : KeyWorld L) : Prop :=
  ∀ kid, w.dir.get (.privatePem kid) ≠ none → kid ∈ w.issued ∧ Text.trim kid = kid

/-- The invariant of the key server. -/
structure KeyInv (m : KeyMoment L) : Prop where
  named : Named m.world
  draws : Draws m
  running : ∀ store, m.world.provider = some store → Running m store

/-- What a call has done before it issues a command. -/
def KeyReady (done : KeyMark L → Prop) : KeyOp L → Prop
  | .enter | .generateKeypair => ∀ x, ¬ done x
  | .writeFile file content => ∃ key, done (.generated key) ∧ ¬ done .installed ∧
      ((file = .privatePem (L.kidOf key) ∧ content = L.privatePem key) ∨
        (file = .publicPem (L.kidOf key) ∧ content = L.publicPem (L.publicOf key)))
  | .install kid pair => ∃ key, done (.generated key) ∧
      (∀ key', done (.generated key') → key' = key) ∧ ¬ done .installed ∧
      done (.wrote (.privatePem (L.kidOf key))) ∧ done (.wrote (.publicPem (L.kidOf key))) ∧
      kid = L.kidOf key ∧ pair = ⟨key, L.publicOf key⟩
  | _ => True

variable {tid : Nat}

theorem KeyWorld.inProcess_cases {α : Type} {w : KeyWorld L} {f : KeyStore L → α} {y : α}
    (h : w.inProcess tid f = some y) :
    tid ∈ w.live ∧ ∃ store, w.provider = some store ∧ f store = y := by
  unfold inProcess at h
  split at h
  · next hlive =>
    obtain ⟨store, hs, hy⟩ := Option.map_eq_some_iff.mp h
    exact ⟨by simpa using hlive, store, hs, hy⟩
  · cases h

theorem KeyWorld.retire_cases {w w' : KeyWorld L} {store : KeyStore L} {kid : String}
    {r : Except String Bool} (h : w.retire store kid = (r, w')) :
    (r ≠ .ok true ∧ w' = w) ∨
      (r = .ok true ∧ kid ≠ store.activeKid ∧ store.byKid.get kid ≠ none ∧
        w' = { w with
          provider := some { store with byKid := store.byKid.erase kid }
          dir := (w.dir.erase (.privatePem kid)).erase (.publicPem kid) }) := by
  unfold retire at h
  split at h
  · cases h
    exact .inl ⟨(by rintro ⟨⟩), rfl⟩
  next hne =>
  split at h
  · cases h
    exact .inl ⟨(by rintro ⟨⟩), rfl⟩
  next hsome =>
  cases h
  exact .inr ⟨rfl, hne, by simpa using hsome, rfl⟩

/-- What a command does to the directory, the store, the calls of the process and the issued
kids. -/
inductive KeyEffect (tid : Nat) (w : KeyWorld L) :
    KeyWorld L → (op : KeyOp L) → KeyRes L op → Prop
  | quiet {op : KeyOp L} {r : KeyRes L op} {now : NaiveDateTime} {uuids : List Uuid}
      (hmark : keyMark op r = none) : KeyEffect tid w { w with now, uuids } op r
  | failed {e : String} {now : NaiveDateTime} :
      KeyEffect tid w { w with provider := none, live := [], now } .init
        (.error e : Except String Unit)
  | started {fresh : L.Private} {store : KeyStore L} {dir : Directory} {now : NaiveDateTime}
      (hinit : init w.dir fresh = .ok (store, dir)) :
      KeyEffect tid w
        { w with provider := some store, live := [], dir, now
                 issued := store.byKid.map Prod.fst ++ w.issued }
        .init (.ok () : Except String Unit)
  | entered {now : NaiveDateTime} : KeyEffect tid w { w with live := tid :: w.live, now } .enter ()
  | generated {key : L.Private} {now : NaiveDateTime} (hin : tid ∈ w.live)
      (hfresh : L.kidOf key ∉ w.issued) :
      KeyEffect tid w { w with issued := L.kidOf key :: w.issued, now } .generateKeypair key
  | wrote {file : KeyFile} {content : String} {store : KeyStore L} {now : NaiveDateTime}
      (hin : tid ∈ w.live) (hs : w.provider = some store) :
      KeyEffect tid w { w with dir := w.dir.set file content, now } (.writeFile file content) ()
  | installed {kid : String} {pair : KeyPair L} {store : KeyStore L} {now : NaiveDateTime}
      (hin : tid ∈ w.live) (hs : w.provider = some store) :
      KeyEffect tid w
        { w with provider := some (store.install kid pair), dir := w.dir.set .activeKid kid, now }
        (.install kid pair) ()
  | retired {kid : String} {store : KeyStore L} {now : NaiveDateTime}
      (hs : w.provider = some store) (hne : kid ≠ store.activeKid)
      (hsome : store.byKid.get kid ≠ none) :
      KeyEffect tid w
        { w with provider := some { store with byKid := store.byKid.erase kid }, now
                 dir := (w.dir.erase (.privatePem kid)).erase (.publicPem kid) }
        (.retire kid) (.ok true : Except String Bool)

theorem KeyWorld.exec_effect {w w' : KeyWorld L} {op : KeyOp L} {ch : KeyChoice L} {r : KeyRes L op}
    (h : exec tid op ch w = some (r, w')) : KeyEffect tid w w' op r := by
  cases op with
  | init =>
    simp only [exec] at h
    split at h
    · cases h
    split at h
    · cases h
      exact .failed
    · next hinit =>
      cases h
      exact .started hinit
  | enter =>
    obtain ⟨store, hs, heq⟩ := Option.map_eq_some_iff.mp h
    cases heq
    exact .entered
  | generateKeypair =>
    simp only [exec] at h
    split at h
    · cases h
    next hfresh =>
    obtain ⟨hlive, store, hs, heq⟩ := inProcess_cases h
    cases heq
    exact .generated hlive (by simpa using hfresh)
  | writeFile file content =>
    obtain ⟨hlive, store, hs, heq⟩ := inProcess_cases h
    cases heq
    exact .wrote hlive hs
  | install kid pair =>
    obtain ⟨hlive, store, hs, heq⟩ := inProcess_cases h
    cases heq
    exact .installed hlive hs
  | retire kid =>
    obtain ⟨hlive, store, hs, heq⟩ := inProcess_cases h
    rcases retire_cases heq with ⟨-, rfl⟩ | ⟨rfl, hne, hsome, rfl⟩
    · exact .quiet rfl
    · exact .retired hs hne hsome
  | activeEncodingKey | decodingKeyByKid | allPublicKeys | publicKey | keyId | now =>
    obtain ⟨hlive, store, hs, heq⟩ := inProcess_cases h
    cases heq
    exact .quiet rfl
  | newUuid =>
    simp only [exec] at h
    split at h
    · cases h
    obtain ⟨hlive, store, hs, heq⟩ := inProcess_cases h
    cases heq
    exact .quiet rfl

section Steps

variable {m : KeyMoment L} {tid : Nat} {op : KeyOp L} {r : KeyRes L op} {w : KeyWorld L}
variable {store : KeyStore L} {kid : String}

/-- A loaded key has a kid that was issued. -/
theorem KeyInv.issued_of_loaded (hk : KeyInv m) (hs : m.world.provider = some store)
    (h : store.byKid.get kid ≠ none) : kid ∈ m.world.issued := by
  obtain ⟨pair, hpair⟩ := Option.ne_none_iff_exists'.mp h
  exact (hk.named kid (get_of_pairAt (((hk.running store hs).kids kid).onDisk pair hpair))).1

/-- A command has left a kid alone: its files, its place in the store and its rotations. -/
structure Untouched (m m' : KeyMoment L) (kid : String) : Prop where
  files : ∀ file, file = .privatePem kid ∨ file = .publicPem kid →
    m'.world.dir.get file = m.world.dir.get file
  memory : ∀ store, m'.world.provider = some store →
    (∃ old, m.world.provider = some old ∧ store.byKid.get kid = old.byKid.get kid) ∧
      ∀ i key, Rotating m i key → L.kidOf key = kid → Rotating m' i key
  rotating : ∀ i key, Rotating m' i key → L.kidOf key = kid → Rotating m i key
  wrote : ∀ i file, file = .privatePem kid ∨ file = .publicPem kid →
    (m'.Marked keyMark i (.wrote file) ↔ m.Marked keyMark i (.wrote file))
  issued : m.world.issued ⊆ m'.world.issued

/-- A mark is not about a kid. -/
def KeyMark.Spares (m : KeyMoment L) (tid : Nat) (kid : String) : KeyMark L → Prop
  | .generated key => L.kidOf key ≠ kid
  | .wrote file => ¬ (file = .privatePem kid ∨ file = .publicPem kid)
  | .installed => ∀ key, m.Marked keyMark tid (.generated key) → L.kidOf key ≠ kid

theorem Untouched.of_spares (hmark : ∀ x, keyMark op r = some x → x.Spares m tid kid)
    (hfiles : ∀ file, file = .privatePem kid ∨ file = .publicPem kid →
      w.dir.get file = m.world.dir.get file)
    (hmemory : ∀ store, w.provider = some store →
      ∃ old, m.world.provider = some old ∧ store.byKid.get kid = old.byKid.get kid)
    (hissued : m.world.issued ⊆ w.issued)
    (hback : ∀ i key, m.Marked keyMark i (.generated key) → i ∈ w.live → i ∈ m.world.live)
    (hlive : ∀ store, w.provider = some store → m.world.live ⊆ w.live) :
    Untouched m (m.after tid op r w) kid where
  files := hfiles
  issued := hissued
  memory store hs := by
    refine ⟨hmemory store hs, fun i key hr hkid => ⟨hlive store hs hr.live, hr.generated.after, ?_⟩⟩
    intro hnew
    rcases Moment.marked_after.mp hnew with ⟨rfl, hinst⟩ | hold
    · exact hmark _ hinst key hr.generated hkid
    · exact hr.pending hold
  rotating i key hr hkid := by
    have hold := (Moment.marked_after.mp hr.generated).resolve_left fun hnew => hmark _ hnew.2 hkid
    exact ⟨hback i key hold hr.live, hold, fun hp => hr.pending hp.after⟩
  wrote i file hfile := by
    rw [Moment.marked_after]
    exact or_iff_right fun hnew => hmark _ hnew.2 hfile

/-- What a command does to the kid it is about. -/
inductive Touched (m : KeyMoment L) (tid : Nat) :
    KeyWorld L → String → (op : KeyOp L) → KeyRes L op → Prop
  | started {kid : String} {fresh : L.Private} {store : KeyStore L} {dir : Directory}
      {now : NaiveDateTime} (hinit : init m.world.dir fresh = .ok (store, dir)) :
      Touched m tid
        { m.world with provider := some store, live := [], dir, now
                       issued := store.byKid.map Prod.fst ++ m.world.issued }
        kid .init (.ok () : Except String Unit)
  | generated {key : L.Private} {now : NaiveDateTime} (hready : ∀ x, ¬ m.Marked keyMark tid x)
      (hin : tid ∈ m.world.live) (hfresh : L.kidOf key ∉ m.world.issued) :
      Touched m tid { m.world with issued := L.kidOf key :: m.world.issued, now } (L.kidOf key)
        .generateKeypair key
  | wrote {key : L.Private} {file : KeyFile} {content : String} {store : KeyStore L}
      {now : NaiveDateTime} (hrot : Rotating m tid key) (hpem : PemOf key file content)
      (hs : m.world.provider = some store) :
      Touched m tid { m.world with dir := m.world.dir.set file content, now } (L.kidOf key)
        (.writeFile file content) ()
  | installed {key : L.Private} {store : KeyStore L} {now : NaiveDateTime}
      (hrot : Rotating m tid key)
      (hwrote : ∀ file content, PemOf key file content → m.Marked keyMark tid (.wrote file))
      (hs : m.world.provider = some store) :
      Touched m tid
        { m.world with provider := some (store.install (L.kidOf key) ⟨key, L.publicOf key⟩), now
                       dir := m.world.dir.set .activeKid (L.kidOf key) }
        (L.kidOf key) (.install (L.kidOf key) ⟨key, L.publicOf key⟩) ()
  | retired {kid : String} {store : KeyStore L} {now : NaiveDateTime}
      (hs : m.world.provider = some store) (hsome : store.byKid.get kid ≠ none) :
      Touched m tid
        { m.world with provider := some { store with byKid := store.byKid.erase kid }, now
                       dir := (m.world.dir.erase (.privatePem kid)).erase (.publicPem kid) }
        kid (.retire kid) (.ok true : Except String Bool)

/-- A command that a call is ready for leaves a kid alone or is about it. -/
theorem KeyEffect.touched (h : KeyEffect tid m.world w op r)
    (hready : KeyReady (m.Marked keyMark tid) op) (kid : String) :
    Untouched m (m.after tid op r w) kid ∨ Touched m tid w kid op r := by
  cases h with
  | quiet hmark =>
    exact .inl (.of_spares (fun x hx => nomatch hmark.symm.trans hx) (fun _ _ => rfl)
      (fun store hs => ⟨store, hs, rfl⟩) (fun _ h => h) (fun _ _ _ h => h) fun _ _ _ h => h)
  | failed =>
    exact .inl (.of_spares nofun (fun _ _ => rfl) (fun _ hs => nomatch hs) (fun _ h => h)
      (fun _ _ _ h => nomatch h) fun _ hs => nomatch hs)
  | started hinit => exact .inr (.started hinit)
  | entered =>
    refine .inl (.of_spares nofun (fun _ _ => rfl) (fun store hs => ⟨store, hs, rfl⟩)
      (fun _ h => h) (fun i key hgen hin => ?_) fun _ _ _ => List.mem_cons_of_mem _)
    rcases List.mem_cons.mp hin with rfl | hin
    · exact absurd hgen (hready _)
    · exact hin
  | @generated key _ hin hfresh =>
    by_cases hkid : L.kidOf key = kid
    · subst hkid
      exact .inr (.generated hready hin hfresh)
    · refine .inl (.of_spares (fun x hx => ?_) (fun _ _ => rfl) (fun store hs => ⟨store, hs, rfl⟩)
        (fun _ => List.mem_cons_of_mem _) (fun _ _ _ h => h) fun _ _ _ h => h)
      cases hx
      exact hkid
  | @wrote file content store _ hin hs =>
    obtain ⟨key, hgen, hpending, hfile⟩ := hready
    by_cases hkid : L.kidOf key = kid
    · subst hkid
      exact .inr (.wrote ⟨hin, hgen, hpending⟩ hfile hs)
    · have hne : ¬ (file = .privatePem kid ∨ file = .publicPem kid) := by
        rcases hfile with ⟨rfl, -⟩ | ⟨rfl, -⟩
        · simp [hkid]
        · simp [hkid]
      refine .inl (.of_spares (fun x hx => ?_) (fun f hf => ?_) (fun store hs => ⟨store, hs, rfl⟩)
        (fun _ h => h) (fun _ _ _ h => h) fun _ _ _ h => h)
      · cases hx
        exact hne
      · refine Fields.get_set.trans (if_neg ?_)
        rintro rfl
        exact hne hf
  | @installed kid' pair store _ hin hs =>
    obtain ⟨key, hgen, hsingle, hpending, hpriv, hpub, rfl, rfl⟩ := hready
    by_cases hkid : L.kidOf key = kid
    · subst hkid
      refine .inr (.installed ⟨hin, hgen, hpending⟩ (fun file content hpem => ?_) hs)
      rcases hpem with ⟨rfl, -⟩ | ⟨rfl, -⟩
      · exact hpriv
      · exact hpub
    · refine .inl (.of_spares (fun x hx => ?_) (fun f hf => get_set_activeKid ?_)
        (fun store' hs' => ?_) (fun _ h => h) (fun _ _ _ h => h) fun _ _ _ h => h)
      · cases hx
        intro key' hgen'
        rwa [hsingle key' hgen']
      · rintro rfl
        simp at hf
      · cases hs'
        exact ⟨store, hs, Fields.get_set.trans (if_neg (Ne.symm hkid))⟩
  | @retired kid' store _ hs _ hsome =>
    by_cases hkid : kid' = kid
    · subst hkid
      exact .inr (.retired hs hsome)
    · refine .inl (.of_spares nofun (fun f hf => ?_) (fun store' hs' => ?_) (fun _ h => h)
        (fun _ _ _ h => h) fun _ _ _ h => h)
      · dsimp only
        rw [Fields.get_erase, Fields.get_erase]
        rcases hf with rfl | rfl
        · simp [Ne.symm hkid]
        · simp [Ne.symm hkid]
      · cases hs'
        exact ⟨store, hs, Fields.get_erase.trans (if_neg (Ne.symm hkid))⟩

theorem Untouched.pairAt {m' : KeyMoment L} (h : Untouched m m' kid) :
    pairAt (L := L) m'.world.dir kid = pairAt m.world.dir kid :=
  pairAt_congr (h.files _ (.inl rfl)) (h.files _ (.inr rfl))

theorem PemOf.ofKid {key : L.Private} {file : KeyFile} {content : String}
    (h : PemOf key file content) (hkid : L.kidOf key = kid) :
    file = .privatePem kid ∨ file = .publicPem kid := by
  rcases h with ⟨rfl, -⟩ | ⟨rfl, -⟩
  · exact .inl (congrArg _ hkid)
  · exact .inr (congrArg _ hkid)

theorem RunningAt.untouched {m' : KeyMoment L} {old : KeyStore L} (h : RunningAt m old kid)
    (hu : Untouched m m' kid) (hs : m'.world.provider = some store)
    (hmem : store.byKid.get kid = old.byKid.get kid) : RunningAt m' store kid where
  onDisk pair hpair := hu.pairAt.trans (h.onDisk pair (hmem.symm.trans hpair))
  inMemory x hx := by
    rcases h.inMemory x (hu.pairAt.symm.trans hx) with ⟨pair, rfl, hpair⟩ | ⟨i, key, hr, hkid⟩
    · exact .inl ⟨pair, rfl, hmem.trans hpair⟩
    · exact .inr ⟨i, key, (hu.memory store hs).2 i key hr hkid, hkid⟩
  absent i key hr hkid := hmem.trans (h.absent i key (hu.rotating i key hr hkid) hkid)
  wrote i key file content hr hkid hpem hmark := by
    have hfile := hpem.ofKid hkid
    rw [hu.files file hfile]
    exact h.wrote i key file content (hu.rotating i key hr hkid) hkid hpem ((hu.wrote i file hfile).mp hmark)

/-- The rotation of a kid is that of one key. -/
theorem Draws.rotation (hd : Draws m) {key key' : L.Private} {i : Nat} (hrot : Rotating m tid key)
    (hr : m.Marked keyMark i (.generated key')) (hkid : L.kidOf key' = L.kidOf key) :
    i = tid ∧ key' = key := hd.once i key' tid key hr hrot.generated hkid

theorem Draws.exec (hd : Draws m) (h : KeyEffect tid m.world w op r) : Draws (m.after tid op r w) := by
  have hkeep : (∀ key, keyMark op r ≠ some (.generated key)) → m.world.issued ⊆ w.issued →
      Draws (m.after tid op r w) := by
    intro hgen hsub
    have hold : ∀ i key, (m.after tid op r w).Marked keyMark i (.generated key) →
        m.Marked keyMark i (.generated key) :=
      fun i key h => (h.of_after).resolve_left fun hnew => hgen key hnew.2
    exact ⟨fun i key h => hsub (hd.issued i key (hold i key h)),
      fun i key i' key' h h' => hd.once i key i' key' (hold i key h) (hold i' key' h')⟩
  cases h with
  | quiet hmark => exact hkeep (by simp [hmark]) fun _ h => h
  | started => exact hkeep nofun fun _ => List.mem_append_right _
  | failed | entered | wrote | installed | retired => exact hkeep nofun fun _ h => h
  | @generated key now hin hfresh =>
    generalize hw : ({ m.world with issued := L.kidOf key :: m.world.issued, now } : KeyWorld L) = w
    have hcases : ∀ i key', (m.after tid .generateKeypair key w).Marked keyMark i (.generated key') →
        (i = tid ∧ key' = key) ∨ m.Marked keyMark i (.generated key') := by
      intro i key' h
      refine (h.of_after).imp_left fun hnew => ⟨hnew.1, ?_⟩
      cases hnew.2
      rfl
    -- the kid of the new key is that of no other
    have hnew : ∀ i key', (m.after tid .generateKeypair key w).Marked keyMark i (.generated key') →
        L.kidOf key' = L.kidOf key → i = tid ∧ key' = key := by
      intro i key' h hkid
      refine (hcases i key' h).resolve_right fun hold => hfresh ?_
      rw [← hkid]
      exact hd.issued i key' hold
    refine ⟨fun i key' h => ?_, fun i key' i' key'' h h' hkid => ?_⟩
    · rw [← hw]
      rcases hcases i key' h with ⟨-, rfl⟩ | hold
      · exact List.mem_cons_self
      · exact List.mem_cons_of_mem _ (hd.issued i key' hold)
    · rcases hcases i key' h with ⟨rfl, rfl⟩ | hold
      · obtain ⟨rfl, rfl⟩ := hnew i' key'' h' hkid.symm
        exact ⟨rfl, rfl⟩
      · rcases hcases i' key'' h' with ⟨rfl, rfl⟩ | hold'
        · exact hnew i key' h hkid
        · exact hd.once i key' i' key'' hold hold' hkid

theorem RunningAt.touched (hk : KeyInv m) (hd : Draws (m.after tid op r w))
    (h : Touched m tid w kid op r) (hs : w.provider = some store) :
    RunningAt (m.after tid op r w) store kid := by
  cases h with
  | started hinit =>
    cases hs
    have hagree := agree_of_init (fun kid h => (hk.named kid h).2) hinit
    refine ⟨fun pair => (hagree.pairs kid pair).mp, fun x hx => .inl ?_,
      fun i key hr => (by cases hr.live), fun i key _ _ hr => (by cases hr.live)⟩
    cases x with
    | error e => exact absurd hx (hagree.sound kid e)
    | ok pair => exact ⟨pair, rfl, (hagree.pairs kid pair).mpr hx⟩
  | @generated key _ hready hin hfresh =>
    have hnone : store.byKid.get (L.kidOf key) = none := by
      by_contra hget
      exact hfresh (hk.issued_of_loaded hs hget)
    -- the new rotation has written nothing
    have hold : ∀ w x, (m.after tid .generateKeypair key w).Marked keyMark tid x →
        x = .generated key := by
      intro w x hx
      rcases hx.of_after with ⟨-, hx⟩ | hx
      · cases hx
        rfl
      · exact absurd hx (hready x)
    have hrot : ∀ w : KeyWorld L, tid ∈ w.live →
        Rotating (m.after tid .generateKeypair key w) tid key := fun w hin =>
      ⟨hin, Moment.marked_after.mpr (.inl ⟨rfl, rfl⟩), fun h => by cases hold w _ h⟩
    refine ⟨fun pair hpair => (by cases hnone.symm.trans hpair),
      fun _ _ => .inr ⟨tid, key, hrot _ hin, rfl⟩, fun _ _ _ _ => hnone,
      fun i key' file content hr hkid _ hmark => ?_⟩
    obtain ⟨rfl, rfl⟩ := hd.rotation (hrot _ hin) hr.generated hkid
    cases hold _ _ hmark
  | @wrote key file content _ _ hrot hpem hs' =>
    have hold := (hk.running _ hs).kids (L.kidOf key)
    have hnone := hold.absent tid key hrot rfl
    have hrot' : ∀ w : KeyWorld L, w.live = m.world.live →
        Rotating (m.after tid (.writeFile file content) () w) tid key := by
      refine fun w hlive => ⟨hlive ▸ hrot.live, hrot.generated.after, fun hnew => hrot.pending ?_⟩
      exact (hnew.of_after).resolve_left fun h => by cases h.2
    refine ⟨fun pair hpair => (by cases hnone.symm.trans hpair),
      fun _ _ => .inr ⟨tid, key, hrot' _ rfl, rfl⟩, fun _ _ _ _ => hnone,
      fun i key' f c hr hkid hpem' hmark => ?_⟩
    obtain ⟨rfl, rfl⟩ := hd.rotation (hrot' _ rfl) hr.generated hkid
    change (m.world.dir.set file content).get f = some c
    rw [Fields.get_set]
    split
    · next hf =>
      subst hf
      exact congrArg some (hpem'.unique hpem)
    · next hf =>
      refine hold.wrote i key' f c hrot rfl hpem' ?_
      refine (hmark.of_after).resolve_left fun hnew => hf ?_
      cases hnew.2
      rfl
  | @installed key old _ hrot hwrote hs' =>
    cases hs
    have hold := (hk.running _ hs').kids (L.kidOf key)
    have hfile : ∀ file content, PemOf key file content → m.world.dir.get file = some content :=
      fun file content hpem =>
        hold.wrote tid key file content hrot rfl hpem (hwrote file content hpem)
    have hpair : pairAt (L := L) (m.world.dir.set .activeKid (L.kidOf key)) (L.kidOf key) =
        some (.ok ⟨key, L.publicOf key⟩) := by
      rw [pairAt_set_activeKid]
      exact pairAt_of_pem (hfile _ _ (.inl ⟨rfl, rfl⟩)) (hfile _ _ (.inr ⟨rfl, rfl⟩))
    have hget : (old.install (L.kidOf key) ⟨key, L.publicOf key⟩).byKid.get (L.kidOf key) =
        some ⟨key, L.publicOf key⟩ := Fields.get_set.trans (if_pos rfl)
    refine ⟨fun pair h => ?_, fun x hx => .inl ⟨_, ?_, hget⟩, fun i key' hr hkid => ?_,
      fun i key' _ _ hr hkid => ?_⟩
    · rw [← Option.some.inj (hget.symm.trans h)]
      exact hpair
    · exact (Option.some.inj (hpair.symm.trans hx)).symm
    all_goals
      obtain ⟨rfl, rfl⟩ := hd.once i key' tid key hr.generated hrot.generated.after hkid
      exact absurd (Moment.marked_after.mpr (.inl ⟨rfl, rfl⟩)) hr.pending
  | @retired _ old _ hs' hsome =>
    cases hs
    have hold := (hk.running old hs').kids kid
    have hget : (old.byKid.erase kid).get kid = none := Fields.get_erase.trans (if_pos rfl)
    refine ⟨fun pair hpair => (by cases hget.symm.trans hpair),
      fun x hx => absurd ?_ (get_of_pairAt hx), fun _ _ _ _ => hget,
      fun i key _ _ hr hkid => absurd (hold.absent i key ?_ hkid) hsome⟩
    · change ((m.world.dir.erase _).erase _).get _ = none
      simp
    · refine ⟨hr.live, ?_, fun hp => hr.pending hp.after⟩
      exact (Moment.marked_after.mp hr.generated).resolve_left fun h => by cases h.2

/-- A key file comes from before, from a start or from a rotation. -/
theorem Named.exec (hk : KeyInv m) (h : KeyEffect tid m.world w op r)
    (hready : KeyReady (m.Marked keyMark tid) op) : Named w := by
  intro kid hfile
  rcases h.touched hready kid with hu | ht
  · have hold := hk.named kid fun hnone => hfile ((hu.files _ (.inl rfl)).trans hnone)
    exact ⟨hu.issued hold.1, hold.2⟩
  · cases ht with
    | started hinit =>
      rcases get_init hinit hfile with hold | ⟨pair, hkid, hget⟩
      · exact ⟨List.mem_append_right _ (hk.named kid hold).1, (hk.named kid hold).2⟩
      · refine ⟨List.mem_append_left _ (Fields.get_ne_none.mp (by simp [hget])), ?_⟩
        rw [hkid]
        exact L.trim_computeKid _
    | generated => exact ⟨List.mem_cons_self, L.trim_computeKid _⟩
    | wrote hrot => exact ⟨hk.draws.issued tid _ hrot.generated, L.trim_computeKid _⟩
    | installed hrot => exact ⟨hk.draws.issued tid _ hrot.generated, L.trim_computeKid _⟩
    | retired => simp at hfile

/-- The active kid is loaded, and the marker file names it. -/
theorem KeyInv.active (hk : KeyInv m) (h : KeyEffect tid m.world w op r)
    (hready : KeyReady (m.Marked keyMark tid) op) (hs : w.provider = some store) :
    store.byKid.get store.activeKid ≠ none ∧
      (w.dir.get .activeKid).map Text.trim = some store.activeKid := by
  cases h with
  | quiet | entered | generated => exact ⟨(hk.running store hs).active, (hk.running store hs).marker⟩
  | failed => cases hs
  | started hinit =>
    cases hs
    have hagree := agree_of_init (fun kid h => (hk.named kid h).2) hinit
    exact ⟨hagree.active, hagree.marker⟩
  | wrote =>
    obtain ⟨key, -, -, hfile⟩ := hready
    have hold := hk.running store hs
    dsimp only
    rw [Fields.get_set, if_neg]
    · exact ⟨hold.active, hold.marker⟩
    · rcases hfile with ⟨rfl, -⟩ | ⟨rfl, -⟩
      · nofun
      · nofun
  | @installed _ pair old =>
    obtain ⟨key, -, -, -, -, -, rfl, -⟩ := hready
    cases hs
    refine ⟨?_, ?_⟩
    · change (old.byKid.set (L.kidOf key) pair).get (L.kidOf key) ≠ none
      simp
    · dsimp only
      rw [Fields.get_set, if_pos rfl, Option.map_some]
      exact congrArg some (L.trim_computeKid _)
  | @retired kid old _ hs' hne =>
    cases hs
    have hold := hk.running old hs'
    refine ⟨?_, ?_⟩
    · change (old.byKid.erase kid).get old.activeKid ≠ none
      rw [Fields.get_erase, if_neg (Ne.symm hne)]
      exact hold.active
    · simpa using hold.marker

/-- Every command of a call that is ready for it keeps the invariant. -/
theorem KeyInv.exec (hk : KeyInv m) (h : KeyEffect tid m.world w op r)
    (hready : KeyReady (m.Marked keyMark tid) op) : KeyInv (m.after tid op r w) := by
  have hdraws := hk.draws.exec h
  refine ⟨Named.exec hk h hready, hdraws, fun store hs => ?_⟩
  obtain ⟨hactive, hmarker⟩ := hk.active h hready hs
  refine ⟨fun kid => ?_, hactive, hmarker⟩
  rcases h.touched hready kid with hu | ht
  · obtain ⟨⟨old, hold, hmem⟩, -⟩ := hu.memory store hs
    exact ((hk.running old hold).kids kid).untouched hu hs hmem
  · exact RunningAt.touched hk hdraws ht hs

end Steps

/-! ## The calls are ready for what they issue -/

section Programs

open KeyHandler

variable {α β : Type} {env : Env} {es : List (Reply (KeyRes L))} {op : KeyOp L}

/-- The replies contain one that leaves a mark. -/
def DoneIn (es : List (Reply (KeyRes L))) (x : KeyMark L) : Prop := ∃ e ∈ es, keyMark e.1 e.2 = some x

theorem marked_eq_doneIn (m : KeyMoment L) (tid : Nat) :
    m.Marked keyMark tid = DoneIn (m.own tid) := by
  funext x
  exact propext Moment.marked_iff_own

theorem issues_keyStep {first : KeyOp L} {f : KeyRes L first → KeyHandler L β}
    (h : Issues (perform first >>= f).run es op) :
    (es = [] ∧ op = first) ∨ ∃ r es', es = ⟨first, r⟩ :: es' ∧ Issues (f r).run es' op := by
  obtain ⟨k, h⟩ := h
  cases h with
  | refl => exact .inl ⟨rfl, rfl⟩
  | call tail => exact .inr ⟨_, _, rfl, k, tail⟩

theorem returns_keyStep {first : KeyOp L} {f : KeyRes L first → KeyHandler L β} {b : Except String β}
    (h : Returns (perform first >>= f).run es b) :
    ∃ r es', es = ⟨first, r⟩ :: es' ∧ Returns (f r).run es' b := by
  cases h with
  | call tail => exact ⟨_, _, rfl, tail⟩

/-- The commands outside of rotations. -/
def KeyOp.Plain : KeyOp L → Prop
  | .enter | .generateKeypair | .writeFile _ _ | .install _ _ => False
  | _ => True

theorem KeyOp.Plain.ready {done : KeyMark L → Prop} (h : op.Plain) : KeyReady done op := by
  cases op with
  | enter | generateKeypair | writeFile | install => exact absurd h id
  | _ => trivial

theorem KeyOp.Plain.unmarked {r : KeyRes L op} (h : op.Plain) : keyMark op r = none := by
  cases op with
  | enter | generateKeypair | writeFile | install => exact absurd h id
  | _ => rfl

theorem uses_keyPerform (op : KeyOp L) (h : op.Plain) : (perform op).run.Uses KeyOp.Plain :=
  ⟨h, fun _ => trivial⟩

theorem uses_unwrap {step : KeyHandler L (Except String α)} (h : step.run.Uses KeyOp.Plain) :
    (unwrap step).run.Uses KeyOp.Plain := by
  refine h.bindE fun x => ?_
  cases x with
  | ok a => trivial
  | error e => trivial

theorem uses_baseClaims (subject audience : String) (ttl : Nat) (extra : JsonMap) :
    (SignedJwt.JwtSigner.baseClaims (L := L) env subject audience ttl extra).run.Uses KeyOp.Plain := by
  refine Prog.Uses.bindE (Prog.Uses.bindE (uses_keyPerform _ trivial) fun _ => trivial) fun _ => ?_
  exact Prog.Uses.bindE (uses_keyPerform _ trivial) fun _ => trivial

theorem uses_signedWithType (claims : JsonMap) (typ : Option String) :
    (SignedJwt.JwtSigner.signedWithType (L := L) claims typ).run.Uses KeyOp.Plain :=
  Prog.Uses.bindE (uses_unwrap (uses_keyPerform _ trivial)) fun _ => trivial

theorem uses_validateInternal (token : SignedJwt L) (audience : Option String)
    (allowExpired : Bool) :
    (SignedJwt.JwtValidator.validateInternal env token audience allowExpired).run.Uses
      KeyOp.Plain := by
  unfold SignedJwt.JwtValidator.validateInternal
  split
  · trivial
  · refine Prog.Uses.bindE (uses_unwrap (uses_keyPerform _ trivial)) fun found => ?_
    cases found with
    | none => trivial
    | some key => exact Prog.Uses.bindE (uses_keyPerform _ trivial) fun _ => trivial

theorem uses_jwksEntries (entries : List (String × L.Public)) :
    (SignedJwt.jwksEntries entries).run.Uses KeyOp.Plain := by
  induction entries with
  | nil => trivial
  | cons entry rest ih =>
    refine Prog.Uses.bindE (uses_keyPerform _ trivial) fun found => ?_
    exact Prog.Uses.bindE ih fun _ => trivial

/-- What a call does once it has entered the process. -/
def KeyCall.Enters (env : Env) (call : KeyCall L) : Prop :=
  ∃ body : KeyHandler L call.Answer, call.program env = (perform .enter >>= fun _ => body) ∧
    body.run.Uses KeyOp.Plain

/-- All calls but a restart and a rotation issue plain commands once they have entered. -/
theorem KeyCall.cases (env : Env) (call : KeyCall L) :
    call = .restart ∨ call = .rotate ∨ call.Enters env := by
  cases call with
  | restart => exact .inl rfl
  | rotate => exact .inr (.inl rfl)
  | retire kid =>
    refine .inr (.inr ⟨_, rfl, ?_⟩)
    unfold RsaKeyProvider.retire
    split
    · trivial
    · exact uses_keyPerform (.retire kid) trivial
  | signAccessToken subject audience extra =>
    refine .inr (.inr ⟨_, rfl, ?_⟩)
    exact Prog.Uses.bindE (uses_baseClaims _ _ _ _) fun claims => uses_signedWithType _ _
  | signIdToken subject audience nonce authTime extra =>
    refine .inr (.inr ⟨_, rfl, ?_⟩)
    exact Prog.Uses.bindE (uses_baseClaims _ _ _ _) fun claims => uses_signedWithType _ _
  | validate token => exact .inr (.inr ⟨_, rfl, uses_validateInternal _ _ _⟩)
  | validateAllowExpired token => exact .inr (.inr ⟨_, rfl, uses_validateInternal _ _ _⟩)
  | jwks =>
    refine .inr (.inr ⟨_, rfl, ?_⟩)
    exact Prog.Uses.bindE (uses_keyPerform _ trivial) fun entries => uses_jwksEntries entries

theorem not_doneIn_nil (x : KeyMark L) : ¬ DoneIn [] x := by
  rintro ⟨e, he, -⟩
  cases he

@[simp] theorem doneIn_cons {e : Reply (KeyRes L)} {x : KeyMark L} :
    DoneIn (e :: es) x ↔ keyMark e.1 e.2 = some x ∨ DoneIn es x := by
  simp [DoneIn]

theorem ready_of_rotate (h : Issues (KeyCall.program env (.rotate : KeyCall L)).run es op) :
    KeyReady (DoneIn es) op := by
  rcases issues_keyStep h with ⟨rfl, rfl⟩ | ⟨_, es₁, rfl, h₁⟩
  · exact not_doneIn_nil
  rcases issues_keyStep h₁ with ⟨rfl, rfl⟩ | ⟨key, es₂, rfl, h₂⟩
  · rintro x ⟨e, he, hx⟩
    obtain rfl := List.mem_singleton.mp he
    cases hx
  rcases issues_keyStep h₂ with ⟨rfl, rfl⟩ | ⟨_, es₃, rfl, h₃⟩
  · exact ⟨key, by simp [keyMark], by simp [keyMark, DoneIn], .inl ⟨rfl, rfl⟩⟩
  rcases issues_keyStep h₃ with ⟨rfl, rfl⟩ | ⟨_, es₄, rfl, h₄⟩
  · exact ⟨key, by simp [keyMark], by simp [keyMark, DoneIn], .inr ⟨rfl, rfl⟩⟩
  rcases issues_keyStep h₄ with ⟨rfl, rfl⟩ | ⟨_, es₅, rfl, h₅⟩
  · refine ⟨key, by simp [keyMark], fun key' hkey => ?_, by simp [keyMark, DoneIn],
      by simp [keyMark, RsaLib.kidOf], by simp [keyMark, RsaLib.kidOf], rfl, rfl⟩
    obtain ⟨e, he, hx⟩ := hkey
    simp only [List.mem_cons, List.not_mem_nil, or_false] at he
    rcases he with rfl | rfl | rfl | rfl
    · cases hx
    · cases hx
      rfl
    · cases hx
    · cases hx
  · exact absurd h₅ Issues.not_pure

/-- Every call is ready for each of its commands. -/
theorem ready_of_issues {call : KeyCall L} (h : Issues ((keyServer L env).program call) es op) :
    KeyReady (DoneIn es) op := by
  rcases call.cases env with rfl | rfl | ⟨body, hprog, huses⟩
  · exact (Issues.uses (uses_keyPerform .init trivial) h : op.Plain).ready
  · exact @ready_of_rotate L env es op h
  · change Issues (call.program env).run es op at h
    rw [hprog] at h
    rcases issues_keyStep h with ⟨rfl, rfl⟩ | ⟨_, es₁, rfl, h₁⟩
    · exact not_doneIn_nil
    · exact (Issues.uses huses h₁ : op.Plain).ready

/-- A call that has returned has installed the key it has generated. -/
theorem installed_of_returns {call : KeyCall L} {a : call.Ret} {key : L.Private}
    (h : Returns ((keyServer L env).program call) es a) (hgen : DoneIn es (.generated key)) :
    DoneIn es .installed := by
  rcases call.cases env with rfl | rfl | ⟨body, hprog, huses⟩
  · obtain ⟨e, he, hx⟩ := hgen
    have hplain := (Leads.uses (uses_keyPerform .init trivial) h).1 e he
    rw [hplain.unmarked] at hx
    cases hx
  · obtain ⟨_, es₁, rfl, h₁⟩ := returns_keyStep h
    obtain ⟨_, es₂, rfl, h₂⟩ := returns_keyStep h₁
    obtain ⟨_, es₃, rfl, h₃⟩ := returns_keyStep h₂
    obtain ⟨_, es₄, rfl, h₄⟩ := returns_keyStep h₃
    obtain ⟨_, es₅, rfl, h₅⟩ := returns_keyStep h₄
    simp [keyMark]
  · change Returns (call.program env).run es a at h
    rw [hprog] at h
    obtain ⟨_, es₁, rfl, h₁⟩ := returns_keyStep h
    obtain ⟨e, he, hx⟩ := hgen
    rcases List.mem_cons.mp he with rfl | he
    · cases hx
    · have hplain := (Leads.uses huses h₁).1 e he
      rw [hplain.unmarked] at hx
      cases hx

end Programs

/-! ## Runs -/

variable {env : Env}

/-- A server that has not been started: the key files of its directory carry trimmed names, which
are the kids that were given to keys. -/
structure KeyWorld.Initial (w : KeyWorld L) : Prop where
  provider : w.provider = none
  live : w.live = []
  named : Named w

theorem keyInv_of_run {w₀ : KeyWorld L} (hw : w₀.Initial)
    {R : Regime (KeyRes L) (KeyWorld L) (KeyChoice L) (KeyCall L)} {c : KeyConfig L}
    (run : Run (keyServer L env) R (.start w₀) c) : KeyInv c.moment := by
  refine run.invariant (J := fun c : KeyConfig L => KeyInv c.moment) (fun _ _ _ _ ih => ih) ?_ ?_
  · intro c₁ tid t op k ch r w run₁ ih ht hp _ hexec
    have hlead := (run₁.replayed (Config.start_replayed w₀)).2 tid t ht
    rw [hp] at hlead
    refine ih.exec (KeyWorld.exec_effect hexec) ?_
    rw [marked_eq_doneIn]
    exact ready_of_issues ⟨k, hlead⟩
  · refine ⟨hw.named, ⟨fun i key h => absurd h Moment.not_marked_nil,
      fun i key _ _ h => absurd h Moment.not_marked_nil⟩, fun store hs => ?_⟩
    cases hw.provider.symm.trans hs

/-- No call of the running process is in flight. -/
def KeyIdle (c : KeyConfig L) : Prop :=
  ∀ tid ∈ c.moment.world.live, ∃ call a, c.answered tid call a

theorem agree_of_idle {w₀ : KeyWorld L} (hw : w₀.Initial)
    {R : Regime (KeyRes L) (KeyWorld L) (KeyChoice L) (KeyCall L)} {c : KeyConfig L}
    (run : Run (keyServer L env) R (.start w₀) c) (hidle : KeyIdle c) {store : KeyStore L}
    (hs : c.moment.world.provider = some store) : Agree c.moment.world.dir store := by
  have hrunning := (keyInv_of_run hw run).running store hs
  have hnone : ∀ tid key, ¬ Rotating c.moment tid key := by
    intro tid key hr
    obtain ⟨call, a, hanswer⟩ := hidle tid hr.live
    have hreturns := (run.replayed (Config.start_replayed w₀)).returns hanswer
    refine hr.pending ?_
    rw [marked_eq_doneIn]
    have hgenerated := hr.generated
    rw [marked_eq_doneIn] at hgenerated
    exact installed_of_returns hreturns hgenerated
  have hmemory : ∀ kid x, pairAt c.moment.world.dir kid = some x →
      ∃ pair, x = .ok pair ∧ store.byKid.get kid = some pair := by
    intro kid x hx
    rcases (hrunning.kids kid).inMemory x hx with hmem | ⟨tid, key, hr, -⟩
    · exact hmem
    · exact absurd hr (hnone tid key)
  refine ⟨fun kid pair => ⟨(hrunning.kids kid).onDisk pair, fun hx => ?_⟩, fun kid e hx => ?_,
    hrunning.active, hrunning.marker⟩
  · obtain ⟨pair', heq, hget⟩ := hmemory kid _ hx
    rw [Except.ok.inj heq]
    exact hget
  · obtain ⟨pair, heq, -⟩ := hmemory kid _ hx
    cases heq

/-- A reply that is a panic of a lookup. -/
def KeyOp.Panics : (op : KeyOp L) → KeyRes L op → Prop
  | .activeEncodingKey, .error _ => True
  | .decodingKeyByKid _, .error _ => True
  | _, _ => False

theorem not_panics {m : KeyMoment L} {op : KeyOp L} {ch : KeyChoice L} {r : KeyRes L op}
    {w : KeyWorld L} (hk : KeyInv m) (h : KeyWorld.exec tid op ch m.world = some (r, w))
    : ¬ op.Panics r := by
  have hactive : ∀ store, m.world.provider = some store →
      ∃ pair, store.byKid.get store.activeKid = some pair :=
    fun store hs => Option.ne_none_iff_exists'.mp (hk.running store hs).active
  cases op with
  | activeEncodingKey =>
    obtain ⟨-, store, hs, heq⟩ := KeyWorld.inProcess_cases h
    cases heq
    obtain ⟨pair, hpair⟩ := hactive store hs
    have hok : store.activeEncodingKey = .ok (store.activeKid, pair.privateKey) := by
      unfold KeyStore.activeEncodingKey
      rw [hpair]
    rw [hok]
    exact id
  | decodingKeyByKid kid =>
    obtain ⟨-, store, hs, heq⟩ := KeyWorld.inProcess_cases h
    cases heq
    obtain ⟨pair, hpair⟩ := hactive store hs
    have hok : ∃ found, store.decodingKeyByKid kid = .ok found := by
      unfold KeyStore.decodingKeyByKid
      split
      · exact ⟨_, rfl⟩
      · rw [hpair]
        exact ⟨_, rfl⟩
    obtain ⟨found, hok⟩ := hok
    rw [hok]
    exact id
  | _ => exact id

/-- The key store over every run of starts, rotations, retirements and the calls that use the
keys. -/
structure KeyStoreKept (L : RsaLib) (env : Env) : Prop where
  /-- The active kid is a key of the map. -/
  active : ∀ (w₀ : KeyWorld L) (c : KeyConfig L), w₀.Initial → Run (keyServer L env) {} (.start w₀) c →
    ∀ store, c.moment.world.provider = some store → store.byKid.get store.activeKid ≠ none
  /-- The lookups that expect it have not panicked. -/
  unreachable : ∀ (w₀ : KeyWorld L) (c : KeyConfig L), w₀.Initial →
    Run (keyServer L env) {} (.start w₀) c → ∀ e ∈ c.moment.trace, ¬ e.op.Panics e.res
  /-- A retirement leaves the active kid and its key as they are. -/
  retire : ∀ (w₀ : KeyWorld L) (c : KeyConfig L), w₀.Initial →
    Run (keyServer L env) {} (.start w₀) c → ∀ tid kid ch r w store,
    c.moment.world.provider = some store →
    KeyWorld.exec tid (.retire kid) ch c.moment.world = some (r, w) →
    ∃ store', w.provider = some store' ∧ store'.activeKid = store.activeKid ∧
      store'.byKid.get store.activeKid = store.byKid.get store.activeKid
  /-- A start on the directory of an idle process yields its keys and its active kid. -/
  restart : ∀ (w₀ : KeyWorld L) (c : KeyConfig L), w₀.Initial →
    Run (keyServer L env) {} (.start w₀) c → KeyIdle c → ∀ store fresh,
    c.moment.world.provider = some store →
    ∃ store' dir', RsaKeyProvider.init c.moment.world.dir fresh = .ok (store', dir') ∧
      store'.activeKid = store.activeKid ∧ ∀ kid, store'.byKid.get kid = store.byKid.get kid

theorem key_store_kept (L : RsaLib) (env : Env) : KeyStoreKept L env where
  active _ _ hw run store hs := ((keyInv_of_run hw run).running store hs).active
  unreachable w₀ c hw run e he := by
    rcases run.executed he with hnone | ⟨c₁, t, k, ch, w, run₁, ht, hp, -, hexec, -⟩
    · cases hnone
    · exact not_panics (keyInv_of_run hw run₁) hexec
  retire w₀ c hw run tid kid ch r w store hs hexec := by
    obtain ⟨-, store', hs', heq⟩ := KeyWorld.inProcess_cases hexec
    cases hs.symm.trans hs'
    rcases KeyWorld.retire_cases heq with ⟨-, rfl⟩ | ⟨-, hne, -, rfl⟩
    · exact ⟨store, hs, rfl, rfl⟩
    · refine ⟨_, rfl, rfl, ?_⟩
      rw [Fields.get_erase, if_neg (Ne.symm hne)]
  restart w₀ c hw run hidle store fresh hs := by
    obtain ⟨store', hinit, hrest⟩ := init_of_agree (agree_of_idle hw run hidle hs) fresh
    exact ⟨store', _, hinit, hrest⟩

end AuthServer
