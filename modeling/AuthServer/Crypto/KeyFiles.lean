import AuthServer.Crypto.RsaKeys

/-!
# What the key directory says

Loading reads each kid whose two files are there. After `init` the store and the directory agree,
and on a directory that agrees with a store `init` gives that store again.
-/

namespace AuthServer

open Storage

namespace RsaLib

variable {L : RsaLib}

theorem trim_computeKid (k : L.Public) : Text.trim (L.computeKid k) = L.computeKid k := by
  have hclean : ∀ c ∈ (L.fingerprint k).take 16, Text.isWhitespace c = false :=
    fun c hc => L.fingerprint_blank k c (List.mem_of_mem_take hc)
  have hdrop : ∀ l : List Char, (∀ c ∈ l, Text.isWhitespace c = false) →
      l.dropWhile Text.isWhitespace = l := by
    intro l hl
    cases l with
    | nil => rfl
    | cons c l => rw [List.dropWhile_cons, hl c List.mem_cons_self, if_neg Bool.false_ne_true]
  unfold Text.trim computeKid Text.trimChars
  rw [String.toList_ofList, hdrop _ hclean,
    hdrop _ fun c hc => hclean c (List.mem_reverse.mp hc), List.reverse_reverse]

theorem computeKid_ne (k : L.Public) : L.computeKid k ≠ "" := by
  intro h
  have hlen := congrArg (fun s => s.toList.length) h
  simp [computeKid, L.fingerprint_length] at hlen

end RsaLib

namespace RsaKeyProvider

variable {L : RsaLib} {dir dir' : Directory} {kid kid' : String} {pair : KeyPair L}

theorem pairAt_congr (hpriv : dir'.get (.privatePem kid) = dir.get (.privatePem kid))
    (hpub : dir'.get (.publicPem kid) = dir.get (.publicPem kid)) :
    pairAt (L := L) dir' kid = pairAt dir kid := by
  unfold pairAt
  rw [hpriv, hpub]

theorem get_of_pairAt {x : Except String (KeyPair L)} (h : pairAt dir kid = some x) :
    dir.get (.privatePem kid) ≠ none := by
  unfold pairAt at h
  split at h
  · next hpriv _ =>
    rw [hpriv]
    nofun
  · cases h

theorem parsePair_eq_ok {what whatPublic priv pub : String}
    (h : parsePair what whatPublic priv pub = .ok pair) :
    L.parsePrivate priv = some pair.privateKey ∧ L.parsePublic pub = some pair.publicKey := by
  unfold parsePair at h
  split at h
  · cases h
  · cases h
  · next hpriv hpub =>
    cases h
    exact ⟨hpriv, hpub⟩

theorem pairAt_of_pem (hpriv : dir.get (.privatePem kid) = some (L.privatePem pair.privateKey))
    (hpub : dir.get (.publicPem kid) = some (L.publicPem pair.publicKey)) :
    pairAt dir kid = some (.ok pair) := by
  unfold pairAt parsePair
  rw [hpriv, hpub]
  simp only [L.parsePrivate_pem, L.parsePublic_pem]

/-- A pair is on disk when both of its files are there and parse. -/
theorem pairAt_eq_ok : pairAt dir kid = some (.ok pair) ↔
    ∃ priv pub, dir.get (.privatePem kid) = some priv ∧ dir.get (.publicPem kid) = some pub ∧
      L.parsePrivate priv = some pair.privateKey ∧ L.parsePublic pub = some pair.publicKey := by
  unfold pairAt
  constructor
  · intro h
    split at h
    · next priv pub hpriv hpub =>
      exact ⟨priv, pub, hpriv, hpub, parsePair_eq_ok (Option.some.inj h)⟩
    · cases h
  · rintro ⟨priv, pub, hpriv, hpub, hk, hp⟩
    rw [hpriv, hpub]
    unfold parsePair
    dsimp only
    rw [hk, hp]

theorem get_writeKeyFiles (file : KeyFile) : (writeKeyFiles dir kid pair).get file =
    if file = .publicPem kid then some (L.publicPem pair.publicKey)
    else if file = .privatePem kid then some (L.privatePem pair.privateKey) else dir.get file := by
  unfold writeKeyFiles
  rw [Fields.get_set, Fields.get_set]

/-- The files of one pair are written, and those of very early runs are kept or removed. -/
structure Adds (kid : String) (pair : KeyPair L) (dir dir' : Directory) : Prop where
  privateFile : ∀ k, dir'.get (.privatePem k) =
    if k = kid then some (L.privatePem pair.privateKey) else dir.get (.privatePem k)
  publicFile : ∀ k, dir'.get (.publicPem k) =
    if k = kid then some (L.publicPem pair.publicKey) else dir.get (.publicPem k)
  legacyPrivate : dir'.get .legacyPrivate = dir.get .legacyPrivate ∨ dir'.get .legacyPrivate = none
  legacyPublic : dir'.get .legacyPublic = dir.get .legacyPublic ∨ dir'.get .legacyPublic = none

theorem adds_writeKeyFiles : Adds kid pair dir (writeKeyFiles dir kid pair) := by
  constructor
  · intro k
    rw [get_writeKeyFiles]
    simp
  · intro k
    rw [get_writeKeyFiles]
    simp
  · rw [get_writeKeyFiles]
    simp
  · rw [get_writeKeyFiles]
    simp

theorem Adds.pairAt (h : Adds kid pair dir dir') (k : String) :
    pairAt (L := L) dir' k = if k = kid then some (.ok pair) else pairAt dir k := by
  split
  · next hk =>
    subst hk
    exact pairAt_of_pem ((h.privateFile k).trans (if_pos rfl)) ((h.publicFile k).trans (if_pos rfl))
  · next hk =>
    exact pairAt_congr ((h.privateFile k).trans (if_neg hk)) ((h.publicFile k).trans (if_neg hk))

/-! ## Loading -/

/-- The entries of a list of names have been loaded on top of a map. -/
theorem get_of_foldlM {l : Directory} {into byKid : Fields String (KeyPair L)}
    (h : l.foldlM (fun into entry => loadEntry dir into entry.1) into = .ok byKid) (kid : String) :
    (KeyFile.privatePem kid ∈ l.map Prod.fst → ∀ e, pairAt (L := L) dir kid ≠ some (.error e)) ∧
      byKid.get kid = match pairAt dir kid with
        | some (.ok pair) =>
          if KeyFile.privatePem kid ∈ l.map Prod.fst then some pair else into.get kid
        | _ => into.get kid := by
  induction l generalizing into with
  | nil =>
    cases h
    refine ⟨nofun, ?_⟩
    split
    · exact (if_neg List.not_mem_nil).symm
    · rfl
  | cons entry l ih =>
    obtain ⟨file, text⟩ := entry
    rw [List.foldlM_cons] at h
    cases file with
    | privatePem k =>
      unfold loadEntry at h
      dsimp only at h
      split at h
      · next hnone =>
        obtain ⟨herr, hget⟩ := ih h
        by_cases hk : kid = k
        · subst hk
          rw [hnone] at hget ⊢
          exact ⟨fun _ _ => nofun, hget⟩
        · have hne : KeyFile.privatePem kid ≠ .privatePem k := fun he => hk (by injection he)
          simp only [List.map_cons, List.mem_cons, hne, false_or]
          exact ⟨herr, hget⟩
      · cases h
      · next pair hpair =>
        obtain ⟨herr, hget⟩ := ih h
        by_cases hk : kid = k
        · subst hk
          rw [hpair] at hget ⊢
          refine ⟨fun _ _ => nofun, ?_⟩
          simp only [Fields.get_set, if_pos, ite_self] at hget
          simp [hget]
        · have hne : KeyFile.privatePem kid ≠ .privatePem k := fun he => hk (by injection he)
          rw [Fields.get_set, if_neg hk] at hget
          simp only [List.map_cons, List.mem_cons, hne, false_or]
          exact ⟨herr, hget⟩
    | publicPem k | activeKid | legacyPrivate | legacyPublic | other name =>
      obtain ⟨herr, hget⟩ := ih h
      simp only [List.map_cons, List.mem_cons, reduceCtorEq, false_or]
      exact ⟨herr, hget⟩

variable {byKid : Fields String (KeyPair L)}

theorem get_loadExistingKeys (h : loadExistingKeys dir = .ok byKid) :
    (∀ kid e, pairAt (L := L) dir kid ≠ some (.error e)) ∧
      ∀ kid pair, byKid.get kid = some pair ↔ pairAt dir kid = some (.ok pair) := by
  have hmem : ∀ kid x, pairAt (L := L) dir kid = some x → KeyFile.privatePem kid ∈ dir.map Prod.fst :=
    fun kid x hx => Fields.get_ne_none.mp (get_of_pairAt hx)
  constructor
  · intro kid e he
    exact (get_of_foldlM h kid).1 (hmem kid _ he) e he
  · intro kid pair
    rw [(get_of_foldlM h kid).2]
    cases hpair : pairAt (L := L) dir kid with
    | none => simp
    | some x =>
      cases x with
      | error e => simp
      | ok pair' => simp [hmem kid _ hpair]

/-- A directory whose pairs all parse is loaded. -/
theorem exists_loadExistingKeys (h : ∀ kid e, pairAt (L := L) dir kid ≠ some (.error e)) :
    ∃ byKid : Fields String (KeyPair L), loadExistingKeys dir = .ok byKid := by
  have hfold : ∀ (l : Directory) (into : Fields String (KeyPair L)),
      ∃ byKid, l.foldlM (fun into entry => loadEntry dir into entry.1) into = .ok byKid := by
    intro l
    induction l with
    | nil => exact fun into => ⟨into, rfl⟩
    | cons entry l ih =>
      intro into
      have hentry : ∃ into', loadEntry dir into entry.1 = .ok into' := by
        unfold loadEntry
        split
        · next k _ =>
          split
          · exact ⟨_, rfl⟩
          · next e he => exact absurd he (h k e)
          · exact ⟨_, rfl⟩
        · exact ⟨_, rfl⟩
      obtain ⟨into', hentry⟩ := hentry
      obtain ⟨byKid, hrest⟩ := ih into'
      refine ⟨byKid, ?_⟩
      rw [List.foldlM_cons, hentry]
      exact hrest
  exact hfold dir []

/-! ## `init` -/

/-- The store and the directory agree: every pair on disk is loaded, nothing else is, and the
marker file names the active key. -/
structure Agree (dir : Directory) (store : KeyStore L) : Prop where
  pairs : ∀ kid pair, store.byKid.get kid = some pair ↔ pairAt dir kid = some (.ok pair)
  sound : ∀ kid e, pairAt (L := L) dir kid ≠ some (.error e)
  active : store.byKid.get store.activeKid ≠ none
  marker : (dir.get .activeKid).map Text.trim = some store.activeKid

theorem storedActive_eq_some {active : String} :
    storedActive byKid dir = some active ↔
      (dir.get .activeKid).map Text.trim = some active ∧ byKid.get active ≠ none := by
  unfold storedActive
  cases dir.get .activeKid with
  | none => simp
  | some text =>
    simp only [Option.map_some, Option.some.injEq]
    split
    · next hsome =>
      rw [Option.some.injEq]
      constructor
      · rintro rfl
        exact ⟨rfl, Option.isSome_iff_ne_none.mp hsome⟩
      · exact fun h => h.1
    · next hnone =>
      constructor
      · nofun
      · rintro ⟨rfl, hget⟩
        exact absurd (Option.isSome_iff_ne_none.mpr hget) hnone

/-- `init` yields the same keys and the same active kid again. -/
theorem init_of_agree {store : KeyStore L} (h : Agree dir store) (fresh : L.Private) :
    ∃ store', init dir fresh = .ok (store', dir) ∧ store'.activeKid = store.activeKid ∧
      ∀ kid, store'.byKid.get kid = store.byKid.get kid := by
  obtain ⟨byKid, hload⟩ := exists_loadExistingKeys h.sound
  have hsame : ∀ kid, byKid.get kid = store.byKid.get kid := by
    intro kid
    refine Option.ext fun pair => ?_
    rw [(get_loadExistingKeys hload).2 kid pair, h.pairs kid pair]
  have hactive : storedActive byKid dir = some store.activeKid := by
    refine storedActive_eq_some.mpr ⟨h.marker, ?_⟩
    rw [hsame]
    exact h.active
  refine ⟨⟨byKid, store.activeKid⟩, ?_, rfl, hsame⟩
  unfold init
  rw [hload]
  dsimp only
  rw [hactive]

/-- What `init` does when the marker file names no loaded key: the keys are those on disk, or one
pair is added to none. -/
inductive Started (fresh : L.Private) (byKid : Fields String (KeyPair L)) (dir : Directory) :
    Fields String (KeyPair L) → Directory → Prop
  | kept (h : byKid ≠ []) : Started fresh byKid dir byKid dir
  | added {pair : KeyPair L} {dir' : Directory} (hempty : byKid = [])
      (hadds : Adds (L.computeKid pair.publicKey) pair dir dir')
      (hfrom : pair = ⟨fresh, L.publicOf fresh⟩ ∨ ∃ priv pub, dir.get .legacyPrivate = some priv ∧
        dir.get .legacyPublic = some pub ∧ L.parsePrivate priv = some pair.privateKey ∧
        L.parsePublic pub = some pair.publicKey) :
      Started fresh byKid dir [(L.computeKid pair.publicKey, pair)] dir'

theorem started_of_migrate {fresh : L.Private} {byKid byKid₁ : Fields String (KeyPair L)}
    {dir₁ : Directory} (h : migrateLegacy byKid dir = .ok (byKid₁, dir₁)) :
    Started fresh byKid dir (generateInitial fresh byKid₁ dir₁).1
      (generateInitial fresh byKid₁ dir₁).2 := by
  unfold migrateLegacy at h
  split at h
  · next priv pub hempty hpriv hpub =>
    have hnil : byKid = [] := List.isEmpty_iff.mp hempty
    subst hnil
    split at h
    · cases h
    · next pair hpair =>
      cases h
      refine .added rfl ⟨fun k => ?_, fun k => ?_, .inr ?_, .inr ?_⟩
        (.inr ⟨priv, pub, hpriv, hpub, parsePair_eq_ok hpair⟩)
      · rw [← adds_writeKeyFiles.privateFile]
        simp [generateInitial, Fields.set]
      · rw [← adds_writeKeyFiles.publicFile]
        simp [generateInitial, Fields.set]
      · simp [generateInitial, Fields.set]
      · simp [generateInitial, Fields.set]
  · cases h
    unfold generateInitial
    cases byKid with
    | nil => exact .added rfl adds_writeKeyFiles (.inl rfl)
    | cons entry rest => exact .kept (List.cons_ne_nil _ _)

theorem init_cases {fresh : L.Private} {store : KeyStore L} (h : init dir fresh = .ok (store, dir')) :
    ∃ byKid, loadExistingKeys dir = .ok byKid ∧
      ((storedActive byKid dir = some store.activeKid ∧ store.byKid = byKid ∧ dir' = dir) ∨
        (storedActive byKid dir = none ∧
          ∃ base, Started fresh byKid dir store.byKid base ∧
            (sortedKids store.byKid).head? = some store.activeKid ∧
            dir' = base.set .activeKid store.activeKid)) := by
  unfold init at h
  split at h
  · cases h
  next byKid hload =>
  refine ⟨byKid, hload, ?_⟩
  split at h
  · next active hactive =>
    cases h
    exact .inl ⟨hactive, rfl, rfl⟩
  next hactive =>
  split at h
  · cases h
  next byKid₁ dir₁ hmigrate =>
  dsimp only at h
  split at h
  · cases h
  next first hfirst =>
  cases h
  exact .inr ⟨hactive, _, started_of_migrate hmigrate, hfirst, rfl⟩

theorem get_set_activeKid {text : String} {file : KeyFile} (h : file ≠ .activeKid) :
    (dir.set .activeKid text).get file = dir.get file := by
  rw [Fields.get_set, if_neg h]

theorem pairAt_set_activeKid (text : String) :
    pairAt (L := L) (dir.set .activeKid text) kid = pairAt dir kid :=
  pairAt_congr (get_set_activeKid nofun) (get_set_activeKid nofun)

theorem mem_of_head_sortedKids (h : (sortedKids byKid).head? = some kid)
    : byKid.get kid ≠ none := by
  refine Fields.get_ne_none.mpr ?_
  exact (List.mem_insertionSort _).mp (List.mem_of_mem_head? h)

section Init

variable {fresh : L.Private} {store : KeyStore L}

/-- A pair on disk when the process starts is on disk afterwards. -/
theorem pairAt_init (h : init dir fresh = .ok (store, dir')) (hpair : pairAt dir kid = some (.ok pair)) :
    pairAt dir' kid = some (.ok pair) := by
  obtain ⟨byKid, hload, ⟨-, -, rfl⟩ | ⟨-, base, hstart, -, rfl⟩⟩ := init_cases h
  · exact hpair
  · rw [pairAt_set_activeKid]
    have hget := ((get_loadExistingKeys hload).2 kid pair).mpr hpair
    generalize store.byKid = loaded at hstart
    cases hstart with
    | kept => exact hpair
    | added hempty =>
      subst hempty
      cases hget

/-- A directory whose marker names a pair is left as it is. -/
theorem init_of_marker {active : String} (h : init dir fresh = .ok (store, dir'))
    (hmarker : (dir.get .activeKid).map Text.trim = some active)
    (hpair : pairAt dir active = some (.ok pair)) : dir' = dir := by
  obtain ⟨byKid, hload, ⟨-, -, rfl⟩ | ⟨hnone, -⟩⟩ := init_cases h
  · rfl
  · have hget := ((get_loadExistingKeys hload).2 active pair).mpr hpair
    have hstored : storedActive byKid dir = some active :=
      storedActive_eq_some.mpr ⟨hmarker, by simp [hget]⟩
    rw [hnone] at hstored
    cases hstored

/-- The key files after a start are those from before and those of loaded keys. -/
theorem get_init (h : init dir fresh = .ok (store, dir'))
    (hfile : dir'.get (.privatePem kid) ≠ none) :
    dir.get (.privatePem kid) ≠ none ∨ ∃ pair, kid = L.computeKid pair.publicKey ∧
      store.byKid.get kid = some pair := by
  obtain ⟨byKid, -, ⟨-, -, rfl⟩ | ⟨-, base, hstart, -, rfl⟩⟩ := init_cases h
  · exact .inl hfile
  · rw [get_set_activeKid (nofun : KeyFile.privatePem kid ≠ .activeKid)] at hfile
    generalize store.byKid = loaded at hstart ⊢
    cases hstart with
    | kept => exact .inl hfile
    | @added pair _ hempty hadds hfrom =>
      rw [hadds.privateFile] at hfile
      split at hfile
      · next hk => exact .inr ⟨pair, hk, by simp [hk]⟩
      · exact .inl hfile

/-- Every pair on disk is loaded, nothing else is, and the active key is among them. -/
structure Loaded (dir : Directory) (store : KeyStore L) : Prop where
  pairs : ∀ kid pair, store.byKid.get kid = some pair ↔ pairAt dir kid = some (.ok pair)
  sound : ∀ kid e, pairAt (L := L) dir kid ≠ some (.error e)
  active : store.byKid.get store.activeKid ≠ none

/-- A process that starts without a usable marker file has loaded what is then on disk, and the
marker file names its active key. -/
theorem loaded_of_started {byKid : Fields String (KeyPair L)} {base : Directory}
    (hload : loadExistingKeys dir = .ok byKid) (hstart : Started fresh byKid dir store.byKid base)
    (hfirst : (sortedKids store.byKid).head? = some store.activeKid) :
    Loaded (base.set .activeKid store.activeKid) store ∧
      ((∀ kid, dir.get (.privatePem kid) ≠ none → Text.trim kid = kid) →
        Text.trim store.activeKid = store.activeKid) := by
  obtain ⟨hsound, hpairs⟩ := get_loadExistingKeys hload
  have hhead := mem_of_head_sortedKids hfirst
  generalize hloaded : store.byKid = loaded at hstart hhead
  cases hstart with
  | kept =>
    refine ⟨⟨fun kid pair => ?_, fun kid e => ?_, ?_⟩, fun htrim => ?_⟩
    · rw [pairAt_set_activeKid, hloaded]
      exact hpairs kid pair
    · rw [pairAt_set_activeKid]
      exact hsound kid e
    · rw [hloaded]
      exact hhead
    · obtain ⟨pair, hpair⟩ := Option.ne_none_iff_exists'.mp hhead
      exact htrim _ (get_of_pairAt ((hpairs _ pair).mp hpair))
  | @added new _ hempty hadds hfrom =>
    subst hempty
    have hactive : store.activeKid = L.computeKid new.publicKey := by
      by_contra hne
      exact hhead (by simp [Ne.symm hne])
    have hnone : ∀ kid, pairAt (L := L) dir kid = none := by
      intro kid
      cases hx : pairAt (L := L) dir kid with
      | none => rfl
      | some x =>
        cases x with
        | error e => exact absurd hx (hsound kid e)
        | ok pair => cases (hpairs kid pair).mpr hx
    refine ⟨⟨fun kid pair => ?_, fun kid e => ?_, ?_⟩, fun _ => ?_⟩
    · rw [pairAt_set_activeKid, hadds.pairAt, hnone, hloaded, Fields.get_cons]
      by_cases hk : kid = L.computeKid new.publicKey
      · simp [hk]
      · simp [hk, Ne.symm hk]
    · rw [pairAt_set_activeKid, hadds.pairAt, hnone]
      split
      · nofun
      · nofun
    · rw [hloaded]
      exact hhead
    · rw [hactive]
      exact L.trim_computeKid _

/-- A process that starts with a usable marker file has loaded what is on disk. -/
theorem loaded_of_marker {byKid : Fields String (KeyPair L)} (hload : loadExistingKeys dir = .ok byKid)
    {active : String} (hactive : storedActive byKid dir = some active) :
    Loaded dir ⟨byKid, active⟩ :=
  ⟨(get_loadExistingKeys hload).2, (get_loadExistingKeys hload).1,
    (storedActive_eq_some.mp hactive).2⟩

/-- After a start the store and the directory agree. -/
theorem agree_of_init (htrim : ∀ kid, dir.get (.privatePem kid) ≠ none → Text.trim kid = kid)
    (h : init dir fresh = .ok (store, dir')) : Agree dir' store := by
  obtain ⟨byKid, hload, ⟨hactive, rfl, rfl⟩ | ⟨-, base, hstart, hfirst, rfl⟩⟩ := init_cases h
  · obtain ⟨hpairs, hsound, hget⟩ := loaded_of_marker hload hactive
    exact ⟨hpairs, hsound, hget, (storedActive_eq_some.mp hactive).1⟩
  · obtain ⟨⟨hpairs, hsound, hget⟩, htrimmed⟩ := loaded_of_started hload hstart hfirst
    refine ⟨hpairs, hsound, hget, ?_⟩
    rw [Fields.get_set, if_pos rfl, Option.map_some, htrimmed htrim]

end Init

end RsaKeyProvider

end AuthServer
