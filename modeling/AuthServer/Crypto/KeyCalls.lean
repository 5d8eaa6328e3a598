import AuthServer.Crypto.KeyFaults

/-!
# What the calls of the key provider do

The effect of each step on the key files, the marker file and the store, whatever fails. Temporary
files are left out of account: nothing reads them. From these effects: a rotation under way has its
files on disk as far as it has come, nobody else has its kid, and the active key is always on disk.
-/

namespace AuthServer

open Storage Fallible RsaKeyProvider

/-- A file that somebody reads. -/
def KeyFile.Read (file : KeyFile) : Prop := ∀ name, file ≠ .other name

namespace Directory

/-- Two directories differ in temporary files only. -/
def Alike (dir dir' : Directory) : Prop := ∀ file, file.Read → dir'.get file = dir.get file

/-- One file has been written. -/
def Writes (file : KeyFile) (content : String) (dir dir' : Directory) : Prop :=
  ∀ f, f.Read → dir'.get f = if f = file then some content else dir.get f

variable {dir dir' : Directory} {file : KeyFile} {content : String}

theorem Alike.refl (dir : Directory) : Alike dir dir := fun _ _ => rfl

theorem Writes.of_ne (h : Writes file content dir dir') {f : KeyFile} (hf : f.Read) (hne : f ≠ file) :
    dir'.get f = dir.get f := (h f hf).trans (if_neg hne)

theorem Writes.self (h : Writes file content dir dir') (hf : file.Read) :
    dir'.get file = some content := (h file hf).trans (if_pos rfl)

theorem alike_leave (f : KeyFault) (name : String) : Alike dir (f.leave dir (.other name)) := by
  intro file hfile
  unfold KeyFault.leave
  split
  · rfl
  · rw [Fields.get_set, if_neg (hfile name)]

theorem mem_kids {kid : String} (h : dir.get (.privatePem kid) ≠ none ∨ dir.get (.publicPem kid) ≠ none) :
    kid ∈ dir.kids := by
  have hentry : ∃ entry ∈ dir, entry.1 = KeyFile.privatePem kid ∨ entry.1 = KeyFile.publicPem kid := by
    rcases h with h | h
    · obtain ⟨entry, hmem, heq⟩ := List.mem_map.mp (Fields.get_ne_none.mp h)
      exact ⟨entry, hmem, .inl heq⟩
    · obtain ⟨entry, hmem, heq⟩ := List.mem_map.mp (Fields.get_ne_none.mp h)
      exact ⟨entry, hmem, .inr heq⟩
  obtain ⟨⟨file, text⟩, hmem, heq⟩ := hentry
  refine List.mem_filterMap.mpr ⟨_, hmem, ?_⟩
  rcases heq with rfl | rfl
  · rfl
  · rfl

end Directory

open Directory

section Files

variable {L : RsaLib} {dir dir' : Directory} {kid : String} {file : KeyFile} {content : String}

theorem read_privatePem (kid : String) : (KeyFile.privatePem kid).Read := fun _ => nofun

theorem read_publicPem (kid : String) : (KeyFile.publicPem kid).Read := fun _ => nofun

theorem read_activeKid : KeyFile.activeKid.Read := fun _ => nofun

theorem pairAt_eq_none : pairAt (L := L) dir kid = none ↔
    dir.get (.privatePem kid) = none ∨ dir.get (.publicPem kid) = none := by
  unfold pairAt
  cases dir.get (.privatePem kid) with
  | none => simp
  | some priv =>
    cases dir.get (.publicPem kid) with
    | none => simp
    | some pub => simp

theorem pairAt_of_alike (h : Alike dir dir') (kid : String) :
    pairAt (L := L) dir' kid = pairAt dir kid :=
  pairAt_congr (h _ (read_privatePem kid)) (h _ (read_publicPem kid))

/-- The marker file is not part of a pair. -/
theorem pairAt_of_files (hfiles : ∀ f, f ≠ .activeKid → dir'.get f = dir.get f) (kid : String) :
    pairAt (L := L) dir' kid = pairAt dir kid :=
  pairAt_congr (hfiles (.privatePem kid) nofun) (hfiles (.publicPem kid) nofun)

/-- A write leaves the pairs of other kids. -/
theorem pairAt_of_writes (h : Writes file content dir dir')
    (hne : KeyFile.privatePem kid ≠ file ∧ KeyFile.publicPem kid ≠ file) :
    pairAt (L := L) dir' kid = pairAt dir kid :=
  pairAt_congr (h.of_ne (read_privatePem kid) hne.1) (h.of_ne (read_publicPem kid) hne.2)

end Files

namespace KeyIo

variable {L : RsaLib} {h h' : KeyHost L} {faults : KeyFaults} {pair : KeyPair L}

variable {fault : Option KeyFault} {r : Except String Unit} {file : KeyFile} {content : String}

/-- A step without an effect on the files goes on or stops. -/
theorem attempt_eq (hr : attempt fault h = (r, h')) :
    h' = h ∧ (r = .ok () ∧ fault = none ∨ ∃ f, fault = some f ∧ r = .error f.text) := by
  cases fault with
  | none =>
    obtain ⟨rfl, rfl⟩ := pure_eq.mp hr
    exact ⟨rfl, .inl ⟨rfl, rfl⟩⟩
  | some f =>
    obtain ⟨rfl, rfl⟩ := stop_eq.mp hr
    exact ⟨rfl, .inr ⟨f, rfl, rfl⟩⟩

theorem after_attempt {α : Type} {f : Unit → KeyIo L α} {a : α}
    (hr : (attempt fault >>= f) h = (.ok a, h')) : f () h = (.ok a, h') := by
  obtain ⟨_, h₁, hattempt, hrest⟩ := bind_ok.mp hr
  obtain ⟨rfl, -⟩ := attempt_eq hattempt
  exact hrest

/-- A write by way of a temporary file happens or does not. -/
theorem writeAtomic_eq (hr : writeAtomic fault file content h = (r, h')) :
    h'.provider = h.provider ∧
      (r = .ok () ∧ Writes file content h.dir h'.dir ∨
        (∃ f, fault = some f ∧ r = .error f.text) ∧ Alike h.dir h'.dir) := by
  have htmp : ∃ name, temporary file = .other name := by
    cases file with
    | privatePem | publicPem | activeKid | legacyPrivate | legacyPublic | other => exact ⟨_, rfl⟩
  obtain ⟨name, htmp⟩ := htmp
  cases fault with
  | none =>
    cases hr
    refine ⟨rfl, .inl ⟨rfl, fun f hf => ?_⟩⟩
    rw [htmp, Fields.get_set, Fields.get_erase, if_neg (hf name)]
  | some f =>
    cases hr
    refine ⟨rfl, .inr ⟨⟨f, rfl, rfl⟩, ?_⟩⟩
    rw [htmp]
    exact alike_leave f name

theorem writes_of_ok (hr : writeAtomic fault file content h = (.ok (), h'))
    : Writes file content h.dir h'.dir := by
  obtain ⟨-, ⟨-, hdir⟩ | ⟨⟨_, -, herr⟩, -⟩⟩ := writeAtomic_eq hr
  · exact hdir
  · cases herr

/-- A plain write happens, or it fails and may leave anything in its file. -/
theorem writeFile_eq (hr : writeFile fault file content h = (r, h')) :
    h'.provider = h.provider ∧
      (r = .ok () ∧ h'.dir = h.dir.set file content ∨
        (∃ f, fault = some f ∧ r = .error f.text) ∧ ∀ f, f ≠ file → h'.dir.get f = h.dir.get f) := by
  cases fault with
  | none =>
    cases hr
    exact ⟨rfl, .inl ⟨rfl, rfl⟩⟩
  | some f =>
    cases hr
    refine ⟨rfl, .inr ⟨⟨f, rfl, rfl⟩, fun g hg => ?_⟩⟩
    change (f.leave h.dir file).get g = h.dir.get g
    unfold KeyFault.leave
    split
    · rfl
    · rw [Fields.get_set, if_neg hg]

/-- Nothing has changed when the key of a rotation is there, and nothing when it is not. -/
theorem draft_eq {key : L.Private} {r : Except String (KeyPair L)}
    (hr : draft faults key h = (r, h')) :
    h' = h ∧ (r = .ok ⟨key, L.publicOf key⟩ ∨ ∃ e, r = .error e) := by
  have hkeeps : Keeps (fun h' => h' = h) (draft faults key) := by
    have hattempt : ∀ fault, Keeps (fun h' : KeyHost L => h' = h) (attempt fault) := by
      rintro fault s rfl
      exact (attempt_eq rfl).1
    exact keeps_bind (hattempt _) fun _ => keeps_bind (hattempt _) fun _ =>
      keeps_bind (hattempt _) fun _ => keeps_bind (hattempt _) fun _ => keeps_pure _
  refine ⟨hkeeps.of_eq rfl hr, ?_⟩
  cases r with
  | error e => exact .inr ⟨e, rfl⟩
  | ok x =>
    have hlast := after_attempt (after_attempt (after_attempt (after_attempt hr)))
    exact .inl (pure_eq.mp hlast).1

/-- An installation stops before it has changed anything, or it changes the memory and then writes
the marker file or fails to. -/
theorem install_eq {r : Except String String} (hr : install faults pair h = (r, h')) :
    (h' = h ∧ ∃ e, r = .error e) ∨
      h'.provider = h.provider.map (fun store => store.install (L.computeKid pair.publicKey) pair) ∧
        (r = .ok (L.computeKid pair.publicKey) ∧
            h'.dir = h.dir.set .activeKid (L.computeKid pair.publicKey) ∨
          faults .marker ≠ none ∧ (∃ e, r = .error e) ∧
            ∀ f, f ≠ .activeKid → h'.dir.get f = h.dir.get f) := by
  cases r with
  | error e =>
    rcases bind_error.mp hr with hbuild | ⟨_, h₁, hbuild, hrest⟩
    · exact .inl ⟨(attempt_eq hbuild).1, e, rfl⟩
    obtain ⟨rfl, -⟩ := attempt_eq hbuild
    rcases bind_error.mp hrest with hmem | ⟨_, h₂, hmem, hwrite⟩
    · cases (Prod.mk.inj hmem).1
    cases hmem
    rcases bind_error.mp hwrite with hwrite | ⟨_, h₃, -, hlast⟩
    · obtain ⟨hprov, ⟨hok, -⟩ | ⟨⟨f, hfault, -⟩, hdir⟩⟩ := writeFile_eq hwrite
      · cases hok
      · exact .inr ⟨hprov, .inr ⟨by simp [hfault], ⟨e, rfl⟩, hdir⟩⟩
    · cases (pure_eq.mp hlast).1
  | ok kid =>
    obtain ⟨_, h₂, hmem, hwrite⟩ := bind_ok.mp (after_attempt hr)
    cases hmem
    obtain ⟨_, h₃, hwrite, hlast⟩ := bind_ok.mp hwrite
    obtain ⟨hkid, rfl⟩ := pure_eq.mp hlast
    obtain ⟨hprov, ⟨-, hdir⟩ | ⟨⟨f, -, herr⟩, -⟩⟩ := writeFile_eq hwrite
    · exact .inr ⟨hprov, .inl ⟨hkid, hdir⟩⟩
    · cases herr

/-- The files of a directory from which one has been removed, if its removal has not failed. -/
def removed (fault : Option KeyFault) (dir : Directory) (file : KeyFile) : Directory :=
  match fault with
  | none => dir.erase file
  | some _ => dir

theorem get_removed {dir : Directory} {file f : KeyFile} :
    (removed fault dir file).get f = if f = file ∧ fault = none then none else dir.get f := by
  cases fault with
  | none => simp [removed]
  | some _ => simp [removed]

theorem get_removed_of_ne {dir : Directory} {file f : KeyFile} (hne : f ≠ file)
    : (removed fault dir file).get f = dir.get f := by
  rw [get_removed, if_neg fun hf => hne hf.1]

/-- The directory after the removals of a retirement. -/
def cleared (faults : KeyFaults) (dir : Directory) (kid : String) : Directory :=
  removed (faults .removePublic) (removed (faults .removePrivate) dir (.privatePem kid))
    (.publicPem kid)

section Cleared

variable {dir : Directory} {kid k : String} {f : KeyFile}

theorem get_cleared_of_ne (hpriv : f ≠ .privatePem kid) (hpub : f ≠ .publicPem kid) :
    (cleared faults dir kid).get f = dir.get f := by
  rw [cleared, get_removed_of_ne hpub, get_removed_of_ne hpriv]

theorem get_cleared (f : KeyFile) :
    (cleared faults dir kid).get f = dir.get f ∨ (cleared faults dir kid).get f = none := by
  rw [cleared, get_removed, get_removed]
  split
  · exact .inr rfl
  split
  · exact .inr rfl
  · exact .inl rfl

theorem get_of_cleared (hf : (cleared faults dir kid).get f ≠ none) : dir.get f ≠ none := by
  rw [← (get_cleared f).resolve_right hf]
  exact hf

/-- The removal of files makes no pair. -/
theorem pairAt_cleared (k : String) :
    pairAt (L := L) (cleared faults dir kid) k = pairAt dir k ∨
      pairAt (L := L) (cleared faults dir kid) k = none := by
  rcases get_cleared (.privatePem k) with hpriv | hpriv
  · rcases get_cleared (.publicPem k) with hpub | hpub
    · exact .inl (pairAt_congr hpriv hpub)
    · exact .inr (pairAt_eq_none.mpr (.inr hpub))
  · exact .inr (pairAt_eq_none.mpr (.inl hpriv))

/-- One removal is enough. -/
theorem pairAt_cleared_self (h : ¬ ((faults .removePrivate).isSome ∧ (faults .removePublic).isSome)) :
    pairAt (L := L) (cleared faults dir kid) kid = none := by
  refine pairAt_eq_none.mpr ?_
  rw [cleared, get_removed, get_removed, get_removed]
  cases hpriv : faults .removePrivate with
  | none => simp
  | some _ =>
    cases hpub : faults .removePublic with
    | none => simp
    | some _ => simp [hpriv, hpub] at h

end Cleared

theorem bind_removeFile {α : Type} {f : Unit → KeyIo L α} :
    (removeFile fault file >>= f) h = f () { h with dir := removed fault h.dir file } := by
  cases fault with
  | none => rfl
  | some _ => rfl

/-- A retirement changes nothing, or it drops a key from the memory and then removes its files as
far as that does not fail. -/
theorem retire_eq {kid : String} {r : Except String Bool} (hr : retire faults kid h = (r, h')) :
    (h' = h ∧ r ≠ .ok true) ∨
      r = .ok true ∧ kid ≠ "" ∧ ∃ store, h.provider = some store ∧ kid ≠ store.activeKid ∧
        store.byKid.get kid ≠ none ∧
        h' = ⟨cleared faults h.dir kid, some { store with byKid := store.byKid.erase kid }⟩ := by
  unfold retire at hr
  split at hr
  · obtain ⟨rfl, rfl⟩ := pure_eq.mp hr
    exact .inl ⟨rfl, (by rintro ⟨⟩)⟩
  next hblank =>
  rw [bind_read] at hr
  cases hstore : h.provider with
  | none =>
    rw [hstore] at hr
    obtain ⟨rfl, rfl⟩ := stop_eq.mp hr
    exact .inl ⟨rfl, (by rintro ⟨⟩)⟩
  | some store =>
  rw [hstore] at hr
  dsimp only at hr
  split at hr
  · obtain ⟨rfl, rfl⟩ := stop_eq.mp hr
    exact .inl ⟨rfl, (by rintro ⟨⟩)⟩
  next hactive =>
  split at hr
  · obtain ⟨rfl, rfl⟩ := pure_eq.mp hr
    exact .inl ⟨rfl, (by rintro ⟨⟩)⟩
  next hloaded =>
  rw [bind_update, bind_removeFile, bind_removeFile] at hr
  obtain ⟨rfl, rfl⟩ := pure_eq.mp hr
  exact .inr ⟨rfl, hblank, store, rfl, hactive, by simpa using hloaded, rfl⟩

/-! ### The start of a process -/

section Keeps

variable {I : KeyHost L → Prop}

theorem keeps_attempt (fault : Option KeyFault) : Keeps I (attempt (L := L) fault) := by
  intro h hI
  rw [(attempt_eq (Prod.eta _).symm).1]
  exact hI

variable {fault : Option KeyFault} {file : KeyFile}

theorem keeps_writeAtomic {content : String}
    (hw : ∀ h dir', I h → Writes file content h.dir dir' → I { h with dir := dir' })
    (ha : ∀ h dir', I h → Alike h.dir dir' → I { h with dir := dir' }) :
    Keeps I (writeAtomic (L := L) fault file content) := by
  intro h hI
  obtain ⟨hprov, ⟨-, hdir⟩ | ⟨-, hdir⟩⟩ := writeAtomic_eq (h := h) (Prod.eta _).symm
  · have hnext := hw h _ hI hdir
    rwa [← hprov] at hnext
  · have hnext := ha h _ hI hdir
    rwa [← hprov] at hnext

theorem keeps_writeFile {content : String}
    (hw : ∀ h dir', I h → (∀ f, f ≠ file → dir'.get f = h.dir.get f) → I { h with dir := dir' }) :
    Keeps I (writeFile (L := L) fault file content) := by
  intro h hI
  obtain ⟨hprov, hdir⟩ := writeFile_eq (h := h) (Prod.eta _).symm
  have hsame : ∀ f, f ≠ file → (writeFile fault file content h).2.dir.get f = h.dir.get f := by
    intro f hf
    rcases hdir with ⟨-, hdir⟩ | ⟨-, hdir⟩
    · rw [hdir, Fields.get_set, if_neg hf]
    · exact hdir f hf
  have hnext := hw h _ hI hsame
  rwa [← hprov] at hnext

theorem keeps_removeFile (hr : ∀ h, I h → I { h with dir := h.dir.erase file }) :
    Keeps I (removeFile (L := L) fault file) := by
  cases fault with
  | none => exact hr
  | some _ => exact keeps_pure _

end Keeps

/-- There is no process yet. Its key files are those from before and ones with trimmed names. -/
def Starting (dir : Directory) (h : KeyHost L) : Prop :=
  h.provider = none ∧ ∀ kid, h.dir.get (.privatePem kid) ≠ none →
    dir.get (.privatePem kid) ≠ none ∨ Text.trim kid = kid

section Starting

variable {dir dir' : Directory} {fresh : L.Private} {byKid : Fields String (KeyPair L)}

theorem Starting.of_dir (hs : Starting dir h) (hdir : ∀ kid, dir'.get (.privatePem kid) ≠ none →
    h.dir.get (.privatePem kid) ≠ none ∨ Text.trim kid = kid) :
    Starting dir { h with dir := dir' } := by
  refine ⟨hs.1, fun kid hkid => ?_⟩
  rcases hdir kid hkid with hold | htrim
  · exact hs.2 kid hold
  · exact .inr htrim

theorem Starting.of_same (hs : Starting dir h)
    (hdir : ∀ kid, dir'.get (.privatePem kid) = h.dir.get (.privatePem kid)) :
    Starting dir { h with dir := dir' } := hs.of_dir fun kid hkid => .inl (hdir kid ▸ hkid)

theorem starting_writeKeyFiles : Keeps (Starting dir) (writeKeyFiles faults pair) := by
  have halike : ∀ (h : KeyHost L) dir', Starting dir h → Alike h.dir dir' →
      Starting dir { h with dir := dir' } :=
    fun _ _ hs hdir => hs.of_same fun kid => hdir _ (read_privatePem kid)
  refine keeps_bind (keeps_attempt _) fun _ => keeps_bind (keeps_attempt _) fun _ =>
    keeps_bind (keeps_writeAtomic (fun h dir' hs hdir => hs.of_dir fun kid hkid => ?_) halike)
      fun _ => keeps_writeAtomic (fun h dir' hs hdir => hs.of_same fun kid => ?_) halike
  · by_cases hk : kid = L.computeKid pair.publicKey
    · exact .inr (hk ▸ L.trim_computeKid _)
    · rw [hdir.of_ne (read_privatePem kid) (by simpa using hk)] at hkid
      exact .inl hkid
  · exact hdir.of_ne (read_privatePem kid) nofun

theorem starting_migrateLegacy : Keeps (Starting dir) (migrateLegacy faults byKid) := by
  refine keeps_bind (keeps_read _) fun _ => ?_
  split
  · refine keeps_bind (keeps_ofExcept _) fun _ => keeps_bind (keeps_attempt _) fun _ =>
      keeps_bind starting_writeKeyFiles fun _ => keeps_bind (keeps_attempt _) fun _ =>
      keeps_bind (keeps_removeFile fun h hs => hs.of_same fun kid => ?_) fun _ =>
      keeps_bind (keeps_removeFile fun h hs => hs.of_same fun kid => ?_) fun _ => keeps_pure _
    · rw [Fields.get_erase, if_neg nofun]
    · rw [Fields.get_erase, if_neg nofun]
  · exact keeps_pure _

theorem starting_generateInitial : Keeps (Starting dir) (generateInitial faults fresh byKid) :=
  keeps_ite (keeps_bind (keeps_attempt _) fun _ => keeps_bind (keeps_attempt _) fun _ =>
    keeps_bind starting_writeKeyFiles fun _ => keeps_bind (keeps_attempt _) fun _ => keeps_pure _)
    (keeps_pure _)

/-- Both files of a pair have been written. -/
theorem adds_of_writeKeyFiles (hr : writeKeyFiles faults pair h = (.ok (), h')) :
    Adds (L.computeKid pair.publicKey) pair h.dir h'.dir := by
  obtain ⟨_, h₁, hpriv, hpub⟩ := bind_ok.mp (after_attempt (after_attempt hr))
  have hfst := writes_of_ok hpriv
  have hsnd := writes_of_ok hpub
  refine ⟨fun k => ?_, fun k => ?_, .inl ?_, .inl ?_⟩
  · rw [hsnd.of_ne (read_privatePem k) (by rintro ⟨⟩), hfst _ (read_privatePem k)]
    simp
  · rw [hsnd _ (read_publicPem k), hfst.of_ne (read_publicPem k) (by rintro ⟨⟩)]
    simp
  · rw [hsnd.of_ne (f := .legacyPrivate) (fun _ => by rintro ⟨⟩) (by rintro ⟨⟩),
      hfst.of_ne (f := .legacyPrivate) (fun _ => by rintro ⟨⟩) (by rintro ⟨⟩)]
  · rw [hsnd.of_ne (f := .legacyPublic) (fun _ => by rintro ⟨⟩) (by rintro ⟨⟩),
      hfst.of_ne (f := .legacyPublic) (fun _ => by rintro ⟨⟩) (by rintro ⟨⟩)]

theorem adds_removed {kid : String} {fault : Option KeyFault} {file : KeyFile}
    (hadds : Adds kid pair dir dir') (hfile : file = .legacyPrivate ∨ file = .legacyPublic) :
    Adds kid pair dir (removed fault dir' file) := by
  have hother : ∀ f, f ≠ .legacyPrivate → f ≠ .legacyPublic →
      (KeyIo.removed fault dir' file).get f = dir'.get f := by
    intro f hpriv hpub
    rcases hfile with rfl | rfl
    · exact get_removed_of_ne hpriv
    · exact get_removed_of_ne hpub
  have hlegacy : ∀ f, (KeyIo.removed fault dir' file).get f = dir'.get f ∨
      (KeyIo.removed fault dir' file).get f = none := by
    intro f
    rw [get_removed]
    split
    · exact .inr rfl
    · exact .inl rfl
  refine ⟨fun k => ?_, fun k => ?_, ?_, ?_⟩
  · exact (hother (.privatePem k) (by rintro ⟨⟩) (by rintro ⟨⟩)).trans (hadds.privateFile k)
  · exact (hother (.publicPem k) (by rintro ⟨⟩) (by rintro ⟨⟩)).trans (hadds.publicFile k)
  · rcases hlegacy .legacyPrivate with h | h
    · exact h ▸ hadds.legacyPrivate
    · exact .inr h
  · rcases hlegacy .legacyPublic with h | h
    · exact h ▸ hadds.legacyPublic
    · exact .inr h

/-- The pair of very early runs has been moved. -/
theorem added_of_migrate {priv pub : String} {h₁ : KeyHost L} {byKid₁ : Fields String (KeyPair L)}
    (hpriv : h.dir.get .legacyPrivate = some priv) (hpub : h.dir.get .legacyPublic = some pub)
    (hm : migrateLegacy faults [] h = (.ok byKid₁, h₁)) :
    ∃ pair, byKid₁ = [(L.computeKid pair.publicKey, pair)] ∧
      Adds (L.computeKid pair.publicKey) pair h.dir h₁.dir ∧
      L.parsePrivate priv = some pair.privateKey ∧ L.parsePublic pub = some pair.publicKey := by
  unfold migrateLegacy at hm
  rw [bind_read, hpriv, hpub] at hm
  obtain ⟨pair, h₂, hparse, hrest⟩ := bind_ok.mp hm
  obtain ⟨hpair, rfl⟩ := ofExcept_ok.mp hparse
  obtain ⟨_, h₃, hwrite, hrest⟩ := bind_ok.mp (after_attempt hrest)
  have hrest := after_attempt hrest
  rw [bind_removeFile, bind_removeFile] at hrest
  obtain ⟨hset, rfl⟩ := pure_eq.mp hrest
  refine ⟨pair, Except.ok.inj hset, ?_, parsePair_eq_ok hpair⟩
  exact adds_removed (adds_removed (adds_of_writeKeyFiles hwrite) (.inl rfl)) (.inr rfl)

theorem migrateLegacy_of_none (hnone : byKid.isEmpty = false ∨ h.dir.get .legacyPrivate = none ∨
    h.dir.get .legacyPublic = none) : migrateLegacy faults byKid h = (.ok byKid, h) := by
  unfold migrateLegacy
  rw [bind_read]
  rcases hnone with hb | hp | hp
  · rw [hb]
    rfl
  · rw [hp]
    cases byKid.isEmpty with
    | false => rfl
    | true => rfl
  · rw [hp]
    cases byKid.isEmpty with
    | false => rfl
    | true =>
      cases h.dir.get .legacyPrivate with
      | none => rfl
      | some _ => rfl

theorem generateInitial_of_cons (hb : byKid.isEmpty = false) :
    generateInitial faults fresh byKid h = (.ok byKid, h) := by
  unfold generateInitial
  rw [hb]
  rfl

/-- The first key has been generated. -/
theorem added_of_generate {h₁ : KeyHost L} {byKid₁ : Fields String (KeyPair L)}
    (hg : generateInitial faults fresh [] h = (.ok byKid₁, h₁)) :
    ∃ pair, pair = ⟨fresh, L.publicOf fresh⟩ ∧ byKid₁ = [(L.computeKid pair.publicKey, pair)] ∧
      Adds (L.computeKid pair.publicKey) pair h.dir h₁.dir := by
  obtain ⟨_, h₂, hwrite, hrest⟩ := bind_ok.mp (after_attempt (after_attempt hg))
  have hlast := after_attempt hrest
  obtain ⟨hset, rfl⟩ := pure_eq.mp hlast
  exact ⟨_, rfl, Except.ok.inj hset, adds_of_writeKeyFiles hwrite⟩

/-- A process that finds no usable marker file adds a pair to none, or leaves the key files. -/
theorem started_of_io {h₁ h₂ : KeyHost L} {byKid₁ byKid₂ : Fields String (KeyPair L)}
    (hm : migrateLegacy faults byKid h = (.ok byKid₁, h₁))
    (hg : generateInitial faults fresh byKid₁ h₁ = (.ok byKid₂, h₂)) :
    Started fresh byKid h.dir byKid₂ h₂.dir := by
  by_cases hnone : byKid.isEmpty = false ∨ h.dir.get .legacyPrivate = none ∨
      h.dir.get .legacyPublic = none
  · rw [migrateLegacy_of_none hnone] at hm
    obtain ⟨heq, rfl⟩ := Prod.mk.inj hm
    cases heq
    cases byKid with
    | nil =>
      obtain ⟨pair, hpair, rfl, hadds⟩ := added_of_generate hg
      exact .added rfl hadds (.inl hpair)
    | cons entry rest =>
      rw [generateInitial_of_cons rfl] at hg
      obtain ⟨heq, rfl⟩ := Prod.mk.inj hg
      cases heq
      exact .kept (List.cons_ne_nil _ _)
  · push Not at hnone
    obtain ⟨hempty, hpriv, hpub⟩ := hnone
    obtain rfl := List.isEmpty_iff.mp (Bool.of_not_eq_false hempty)
    obtain ⟨priv, hpriv⟩ := Option.ne_none_iff_exists'.mp hpriv
    obtain ⟨pub, hpub⟩ := Option.ne_none_iff_exists'.mp hpub
    obtain ⟨pair, rfl, hadds, hparse⟩ := added_of_migrate hpriv hpub hm
    rw [generateInitial_of_cons rfl] at hg
    obtain ⟨heq, rfl⟩ := Prod.mk.inj hg
    cases heq
    exact .added rfl hadds (.inr ⟨priv, pub, hpriv, hpub, hparse⟩)

/-- What a start leaves: the key files from before and ones with trimmed names, and a process only
if it has loaded what is then on disk. -/
structure Began (dir : Directory) (h : KeyHost L) : Prop where
  names : ∀ kid, h.dir.get (.privatePem kid) ≠ none →
    dir.get (.privatePem kid) ≠ none ∨ Text.trim kid = kid
  loaded : ∀ store, h.provider = some store → Loaded h.dir store
  marker : (∀ kid, dir.get (.privatePem kid) ≠ none → Text.trim kid = kid) →
    ∀ store, h.provider = some store → (h.dir.get .activeKid).map Text.trim = some store.activeKid

theorem Starting.began (hs : Starting dir h) : Began dir h := by
  refine ⟨hs.2, fun store hstore => ?_, fun _ store hstore => ?_⟩
  · rw [hs.1] at hstore
    cases hstore
  · rw [hs.1] at hstore
    cases hstore

theorem starting_writeFile {fault : Option KeyFault} {content : String} :
    Keeps (Starting dir) (writeFile (L := L) fault .activeKid content) :=
  keeps_writeFile fun _ _ hs hdir => hs.of_same fun _ => hdir _ nofun

theorem began_of_choose {r : Except String Unit} (hload : loadExistingKeys h.dir = .ok byKid)
    (hs : Starting h.dir h) (hr : choose faults fresh byKid h = (r, h')) : Began h.dir h' := by
  rcases starting_migrateLegacy.bind_cases hs hr with hend | ⟨byKid₁, h₁, hm, hs₁, hr₁⟩
  · exact hend.began
  rcases starting_generateInitial.bind_cases hs₁ hr₁ with hend | ⟨byKid₂, h₂, hg, hs₂, hr₂⟩
  · exact hend.began
  cases hfirst : (sortedKids byKid₂).head? with
  | none =>
    rw [hfirst] at hr₂
    obtain ⟨-, rfl⟩ := stop_eq.mp hr₂
    exact hs₂.began
  | some first =>
    rw [hfirst] at hr₂
    rcases starting_writeFile.bind_cases hs₂ hr₂ with hend | ⟨_, h₃, hwrite, hs₃, hr₃⟩
    · exact hend.began
    obtain ⟨-, ⟨-, hdir⟩ | ⟨⟨_, -, herr⟩, -⟩⟩ := writeFile_eq hwrite
    swap
    · cases herr
    cases hr₃
    have hstart : Started fresh _ _ (⟨byKid₂, first⟩ : KeyStore L).byKid _ := started_of_io hm hg
    obtain ⟨hloaded, htrim⟩ := loaded_of_started hload hstart hfirst
    refine ⟨hs₃.2, ?_, fun hclean => ?_⟩
    · rintro store ⟨⟩
      change Loaded h₃.dir _
      rw [hdir]
      exact hloaded
    · rintro store ⟨⟩
      change (h₃.dir.get .activeKid).map Text.trim = some first
      rw [hdir, Fields.get_set, if_pos rfl]
      exact congrArg some (htrim hclean)

theorem began_of_init {r : Except String Unit} (hr : init faults fresh h = (r, h')) :
    Began h.dir h' := by
  have hs : Starting h.dir (⟨h.dir, none⟩ : KeyHost L) := ⟨rfl, fun kid hkid => .inl hkid⟩
  unfold init at hr
  rw [bind_update] at hr
  rcases (keeps_attempt _).bind_cases hs hr with hend | ⟨_, h₁, hread, hs₁, hr₁⟩
  · exact hend.began
  obtain ⟨rfl, -⟩ := attempt_eq hread
  rw [bind_read] at hr₁
  rcases (keeps_ofExcept _).bind_cases hs₁ hr₁ with hend | ⟨byKid, h₂, hloads, hs₂, hr₂⟩
  · exact hend.began
  obtain ⟨hload, rfl⟩ := ofExcept_ok.mp hloads
  cases hactive : storedActive byKid h.dir with
  | none =>
    rw [hactive] at hr₂
    exact began_of_choose (h := ⟨h.dir, none⟩) hload hs₂ hr₂
  | some active =>
    rw [hactive] at hr₂
    cases hr₂
    refine ⟨hs₂.2, ?_, fun _ => ?_⟩
    · rintro store ⟨⟩
      exact loaded_of_marker hload hactive
    · rintro store ⟨⟩
      exact (storedActive_eq_some.mp hactive).1

section Files

variable {f : KeyFile} {content : Option String}

theorem files_of_choose (hb : byKid.isEmpty = false) (hf : f ≠ .activeKid) :
    Keeps (fun h' => h'.dir.get f = content) (choose faults fresh byKid) := by
  have hm : migrateLegacy faults byKid = pure byKid :=
    funext fun h => migrateLegacy_of_none (h := h) (.inl hb)
  have hg : generateInitial faults fresh byKid = pure byKid :=
    funext fun h => generateInitial_of_cons (h := h) hb
  unfold choose
  rw [hm]
  change Keeps _ (generateInitial faults fresh byKid >>= _)
  rw [hg]
  refine keeps_bind (keeps_pure _) fun byKid => ?_
  cases (sortedKids byKid).head? with
  | none => exact keeps_stop _
  | some first =>
    refine keeps_bind (keeps_writeFile fun h dir' hs hdir => ?_) fun _ => keeps_update fun _ hs => hs
    exact (hdir f hf).trans hs

/-- When some pair is on disk, a start writes no key file. -/
theorem files_of_init {r : Except String Unit} (hr : init faults fresh h = (r, h'))
    {kid : String} (hpair : pairAt h.dir kid = some (.ok pair)) (hf : f ≠ .activeKid) :
    h'.dir.get f = h.dir.get f := by
  have hs : (⟨h.dir, none⟩ : KeyHost L).dir.get f = h.dir.get f := rfl
  unfold init at hr
  rw [bind_update] at hr
  rcases (keeps_attempt (I := fun h' => h'.dir.get f = h.dir.get f) _).bind_cases hs hr with
    hend | ⟨_, h₁, hread, hs₁, hr₁⟩
  · exact hend
  obtain ⟨rfl, -⟩ := attempt_eq hread
  rw [bind_read] at hr₁
  rcases (keeps_ofExcept (I := fun h' => h'.dir.get f = h.dir.get f) _).bind_cases hs₁ hr₁ with
    hend | ⟨byKid, h₂, hloads, hs₂, hr₂⟩
  · exact hend
  obtain ⟨hload, rfl⟩ := ofExcept_ok.mp hloads
  cases hactive : storedActive byKid h.dir with
  | none =>
    rw [hactive] at hr₂
    have hb : byKid.isEmpty = false := by
      have hget := ((get_loadExistingKeys hload).2 kid pair).mpr hpair
      cases byKid with
      | nil => cases hget
      | cons entry rest => rfl
    exact (files_of_choose hb hf).of_eq hs₂ hr₂
  | some active =>
    rw [hactive] at hr₂
    cases hr₂
    rfl

end Files

end Starting

end KeyIo

/-! ## One step -/

namespace KeyCalls

variable {L : RsaLib}

/-- What a step does. -/
inductive Effect (s : KeyCalls L) : KeyEvent L → KeyCalls L → Prop
  | nothing {ev} : Effect s ev s
  | generated {key : L.Private} {faults} (hnew : L.kidOf key ∉ s.issued) :
      Effect s (.generate key faults) { s with
        drafts := s.drafts ++ [⟨⟨key, L.publicOf key⟩, .generated⟩]
        issued := L.kidOf key :: s.issued }
  | dropped {ev i} {dir : Directory} (hdir : Alike s.host.dir dir) :
      Effect s ev { s with host := ⟨dir, s.host.provider⟩, drafts := s.drafts.eraseIdx i }
  | wrotePrivate {i faults pair} {dir : Directory} (hdraft : s.drafts[i]? = some ⟨pair, .generated⟩)
      (hdir : Writes (.privatePem (L.computeKid pair.publicKey)) (L.privatePem pair.privateKey)
        s.host.dir dir) :
      Effect s (.writePrivate i faults) { s with
        host := ⟨dir, s.host.provider⟩, drafts := s.drafts.set i ⟨pair, .privateWritten⟩ }
  | wrotePublic {i faults pair} {dir : Directory}
      (hdraft : s.drafts[i]? = some ⟨pair, .privateWritten⟩)
      (hdir : Writes (.publicPem (L.computeKid pair.publicKey)) (L.publicPem pair.publicKey)
        s.host.dir dir) :
      Effect s (.writePublic i faults) { s with
        host := ⟨dir, s.host.provider⟩, drafts := s.drafts.set i ⟨pair, .publicWritten⟩ }
  | installed {i faults pair} {dir : Directory} (hdraft : s.drafts[i]? = some ⟨pair, .publicWritten⟩)
      (hfiles : ∀ f, f ≠ .activeKid → dir.get f = s.host.dir.get f)
      (hmarker : faults .marker = none → dir.get .activeKid = some (L.computeKid pair.publicKey)) :
      Effect s (.install i faults) { s with
        host := ⟨dir, s.host.provider.map fun store => store.install (L.computeKid pair.publicKey) pair⟩
        drafts := s.drafts.eraseIdx i }
  | retired {kid faults store} (hblank : kid ≠ "") (hstore : s.host.provider = some store)
      (hactive : kid ≠ store.activeKid) (hloaded : store.byKid.get kid ≠ none) :
      Effect s (.retire kid faults) { s with
        host := ⟨KeyIo.cleared faults s.host.dir kid,
          some { store with byKid := store.byKid.erase kid }⟩
        retired := kid :: s.retired }
  | restarted {fresh faults} :
      Effect s (.restart fresh faults) { s with
        host := (KeyIo.init faults fresh s.host).2
        drafts := []
        issued := L.kidOf fresh :: ((KeyIo.init faults fresh s.host).2.dir.kids ++ s.issued) }

variable {s s' : KeyCalls L} {ev : KeyEvent L}

theorem effect_of_write {i : Nat} {r : Except String Unit × KeyHost L}
    {fault : Option KeyFault} {file : KeyFile} {content : String} {d : KeyDraft L}
    (hr : KeyIo.writeAtomic fault file content s.host = r)
    (hok : ∀ dir, Writes file content s.host.dir dir →
      Effect s ev { s with host := ⟨dir, s.host.provider⟩, drafts := s.drafts.set i d }) :
    Effect s ev (s.advance i r (some d)) := by
  obtain ⟨answer, dir, provider⟩ := r
  obtain ⟨hprov, ⟨rfl, hdir⟩ | ⟨⟨f, -, rfl⟩, hdir⟩⟩ := KeyIo.writeAtomic_eq hr
  · obtain rfl : provider = s.host.provider := hprov
    exact hok dir hdir
  · obtain rfl : provider = s.host.provider := hprov
    exact .dropped hdir

theorem effect_of_step (h : s.step ev = some s') : Effect s ev s' := by
  cases ev with
  | generate key faults =>
    unfold step at h
    dsimp only at h
    split at h
    · cases h
    next hguard =>
    have hnew : L.kidOf key ∉ s.issued := by simp_all
    rcases hr : KeyIo.draft faults key s.host with ⟨r, host⟩
    obtain ⟨rfl, rfl | ⟨e, rfl⟩⟩ := KeyIo.draft_eq hr
    · rw [hr] at h
      cases h
      exact .generated hnew
    · rw [hr] at h
      cases h
      exact .nothing
  | writePrivate i faults =>
    unfold step at h
    dsimp only at h
    split at h
    · next pair hdraft =>
      cases h
      exact effect_of_write rfl fun dir hdir => .wrotePrivate hdraft hdir
    · cases h
  | writePublic i faults =>
    unfold step at h
    dsimp only at h
    split at h
    · next pair hdraft =>
      cases h
      exact effect_of_write rfl fun dir hdir => .wrotePublic hdraft hdir
    · cases h
  | install i faults =>
    unfold step at h
    dsimp only at h
    split at h
    · next pair hdraft =>
      cases h
      rcases hr : KeyIo.install faults pair s.host with ⟨r, dir, provider⟩
      rcases KeyIo.install_eq hr with ⟨hsame, e, rfl⟩ | ⟨hprov, hdir⟩
      · rw [hsame]
        exact .dropped (Alike.refl _)
      obtain rfl : provider = _ := hprov
      rcases hdir with ⟨rfl, hdir⟩ | ⟨hfault, ⟨e, rfl⟩, hdir⟩
      · obtain rfl : dir = _ := hdir
        refine .installed hdraft (fun f hf => ?_) fun _ => ?_
        · rw [Fields.get_set, if_neg hf]
        · rw [Fields.get_set, if_pos rfl]
      · exact .installed hdraft hdir fun hnone => absurd hnone hfault
    · cases h
  | retire kid faults =>
    unfold step at h
    dsimp only at h
    split at h
    · cases h
    rcases hr : KeyIo.retire faults kid s.host with ⟨r, host⟩
    rw [hr] at h
    cases h
    rcases KeyIo.retire_eq hr with ⟨rfl, hne⟩ | ⟨rfl, hblank, store, hstore, hactive, hloaded, rfl⟩
    · rcases r with e | _ | _
      · exact .nothing
      · exact .nothing
      · exact absurd rfl hne
    · exact .retired hblank hstore hactive hloaded
  | restart fresh faults =>
    unfold step at h
    dsimp only at h
    split at h
    · cases h
    · cases h
      exact .restarted

end KeyCalls

end AuthServer
