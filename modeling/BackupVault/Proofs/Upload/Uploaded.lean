import BackupVault.Proofs.Backup.Restore
import BackupVault.Proofs.Crypto.KeyMaterial
import BackupVault.Proofs.Crypto.SessionKey
import BackupVault.Proofs.Upload.Link
import BackupVault.Proofs.Wire.Name

/-!
# Uploads that come through

The two halves of the upload protocol fit together.  A client and a session are linked; the client
is known to the vault or can be registered, its key pair works, and the file is new and not too
large.  Then, whatever the order of steps and the portions in which bytes are carried, the upload
is verified at the first attempt, the session ends without an error, and the file can be read and
restored.

## Overview

- `Stands.settles_confirmed`, `settles_filed`, `settles_keyed`, `settles_named`: the parts of an
  upload, from the last to the first
- `Vault.Welcomes`: the clients that come through
- `Link.uploads_come_through`: the theorem
-/

set_option autoImplicit false

namespace BackupVault

/-- A key pair that works: its public key is accepted, has room for a session key, and what is
encrypted under it is decrypted. -/
structure KeyPair.Works (keys : KeyPair) : Prop where
  accepted : PublicKey.ofDer keys.publicDer = .ok keys.publicKey
  room : 58 ≤ keys.publicKey.size
  undoes : ∀ message e c, (keys.publicKey.encrypt message e).1 = .ok c →
    keys.decrypt c = .ok message

/-- A pair of sound numbers does. -/
theorem KeyPair.Proper.works {keys : KeyPair} (h : keys.Proper) : keys.Works where
  accepted := PublicKey.ofDer_toDer h.isAcceptable
  room := h.size_ge
  undoes _ _ _ hc := decrypt_encrypt h.isConsistent h.prime_p h.prime_q h.different hc

theorem KeyPair.simple_works : simple.Works := simple_proper.works

theorem not_zero_of_plain {filename : String} (h : isPlainFilename filename = true) :
    Char.ofNat 0 ∉ filename.toList := by
  simp only [isPlainFilename, Bool.and_eq_true, decide_eq_true_eq, List.all_eq_true] at h
  exact fun hmem => (h.2 _ hmem).2 rfl

/-! ## §1 What the session does -/

namespace Session

/-- What was encrypted under the session key is plain again. -/
theorem plainContent_encrypt (key : SessionKey) (content : Bytes) :
    plainContent key (key.encrypt content) = content := by
  rw [plainContent, SessionKey.decrypt_encrypt]

/-- What was encrypted under the session key is acknowledged with its own size and checksum. -/
theorem hear_sealedFile (job : Engine.Job) (version : UInt8) (id : ClientId) (key : SessionKey) :
    hear (.receiving id key) { sender := id, version, body := Engine.sealedFile job key } =
      { phase := .judging id key job.filename job.plain
        reply := some (.uploaded id (UInt32.ofNat job.plain.size) job.filename
          (cksum job.plain)) } := by
  simp only [hear, fromClient, ↓reduceIte, hearUpload, Engine.sealedFile, plainContent_encrypt]

/-- A client that is known under its name, with a key that can be read, is let in. -/
theorem actIdentify_ok {v : Vault} {id : ClientId} {r : ClientRecord} {name : Name} {der : Bytes}
    {publicKey : PublicKey} (hr : v.clients.find? id = some r) (hname : name.toText = .ok r.name)
    (hder : PublicKey.ofDer der = .ok publicKey) :
    actIdentify id name der v = .ok { phase := .issuing id publicKey } v := by
  have hrecord : Vault.record? id v = .ok (some r) v := by
    rw [← hr]
    rfl
  unfold actIdentify
  rw [bind_run_ok hrecord]
  simp only [hname, hder, ne_eq, not_true_eq_false, ↓reduceIte]
  rfl

/-- A client that is known gets a session key, encrypted under its public key. -/
theorem actIssue_ok {R : Location} {v : Vault} (hv : v.Sound R) {id : ClientId} {r : ClientRecord}
    (hr : v.clients.find? id = some r) {publicKey : PublicKey} (hsize : 58 ≤ publicKey.size) :
    ∃ key encrypted v', actIssue id publicKey v =
        .ok { phase := .receiving id key, reply := some (.sessionKey id encrypted) } v' ∧
      (∃ e, (publicKey.encrypt key.bytes e).1 = .ok encrypted) ∧
      encrypted.size = publicKey.size ∧ v'.Sound R ∧ Vault.SameFiles R v.files v'.files := by
  obtain ⟨key, e₁, hkey⟩ : ∃ key e₁, Vault.draw SessionKey.generate v =
      .ok key { v with entropy := e₁ } := ⟨_, _, rfl⟩
  -- A session key with its padding needs 58 bytes.
  have hroom : key.bytes.size + Oaep.overhead ≤ publicKey.size := by
    rw [key.size_eq]
    exact hsize
  obtain ⟨encrypted, hencrypt, hlength⟩ :=
    PublicKey.encryptWith_eq_ok hroom (e₁.draw Sha1.size).1
  have hdraw : Vault.draw (publicKey.encrypt key.bytes) { v with entropy := e₁ } =
      .ok (.ok encrypted) { v with entropy := (e₁.draw Sha1.size).2 } := by
    rw [← hencrypt]
    rfl
  -- Randomness was used twice, and then the keys are remembered.
  have hv₂ : Vault.Sound R { v with entropy := (e₁.draw Sha1.size).2 } := ⟨hv.layout, hv.desk⟩
  obtain ⟨v', hset, hsound, hsame, -⟩ := hv₂.setKeys hr publicKey key
  refine ⟨key, encrypted, v', ?_, ⟨e₁, hencrypt⟩, hlength, hsound, hsame⟩
  unfold actIssue
  rw [bind_run_ok hkey, bind_run_ok hdraw]
  simp only
  rw [bind_run_ok hset]
  rfl

/-- The key that a client gets is the one that was drawn. -/
theorem key_of_issue {id client : ClientId} {publicKey : PublicKey} {v v' : Vault}
    {key : SessionKey} {reply : Option ServerBody}
    (h : actIssue client publicKey v = .ok { phase := .receiving id key, reply } v') :
    key = (SessionKey.generate v.entropy).1 := by
  have hturn : (act (actIssue client publicKey) v).1 = { phase := .receiving id key, reply } := by
    rw [act, h]
  rcases act_issue client publicKey v with ⟨encrypted, e, -, hact⟩ | ⟨e, hact⟩
  · cases hturn.symm.trans hact
    rfl
  · cases hturn.symm.trans hact

theorem actStore_ok {v v' : Vault} {id : ClientId} {filename : String} {content : Bytes}
    {target : Path} (h : Vault.store id filename content v = .ok target v') :
    actStore id filename content v =
      .ok { phase := .ended (.ok ()), reply := some .success } v' := by
  unfold actStore
  rw [bind_run_ok h]
  rfl

theorem actRegister_ok {v v' : Vault} {name : String} {id : ClientId}
    (h : Vault.register name v = .ok (some id) v') :
    actRegister name v = .ok { phase := .registered, reply := some (.registered id) } v' := by
  unfold actRegister
  rw [bind_run_ok h]
  rfl

end Session

/-! ## §2 The parts of an upload -/

namespace Link

open Stands

variable {job : Engine.Job} {version : UInt8} {P : Link → Prop} {s : Link} {id : ClientId}

/-- The stage at which everything is done. -/
def finished (job : Engine.Job) (id : ClientId) (vault : Vault) : Stage where
  id := some id
  wait := .nothing (.ok (.verified 1 (cksum job.plain)))
  phase := .ended (.ok ())
  vault := vault

/-- The file is kept, and the client is to be told. -/
theorem Stands.settles_confirmed {v : Vault} {d : Bytes}
    (h : Stands job version
      { id := some id, wait := .confirmation 1, phase := .ended (.ok ()), vault := v
        downward := d } s)
    (hd : ServerMessage.encode { version, body := .success } = .ok d)
    (hnext : ∀ s, Stands job version (finished job id v) s → P s) : Settles P s := by
  -- The client hears the confirmation, and says nothing more.
  refine h.settles_answered (.inr ⟨_, rfl⟩) rfl (by rintro _ ⟨⟩) hd (speaks_nothing rfl)
    fun s hs => ?_
  exact hs.settles_done rfl rfl rfl rfl (hnext s hs)

/-- The file is on its way, encrypted under the key that the session has issued. -/
theorem Stands.settles_filed {v v' : Vault} {key : SessionKey} {filename : String} {target : Path}
    {b : Bytes}
    (h : Stands job version
      { id := some id, wait := .acknowledgement id (Engine.sealedFile job key) 1
        phase := .receiving id key, vault := v, upward := b } s)
    (hfilename : job.filename.toText = .ok filename)
    (hstore : Vault.store id filename job.plain v = .ok target v')
    (hb : ClientMessage.encode { sender := id, version, body := Engine.sealedFile job key } = .ok b)
    (hnext : ∀ s, Stands job version (finished job id v') s → P s) : Settles P s := by
  have hhear := Session.hear_sealedFile job version id key
  let acknowledged : ServerBody :=
    .uploaded id (UInt32.ofNat job.plain.size) job.filename (cksum job.plain)
  obtain ⟨d, hd⟩ := ServerMessage.encode_eq_ok (m := { version, body := acknowledged })
    (Nat.le_of_ble_eq_true rfl)
  obtain ⟨b', hb'⟩ := ClientMessage.encode_eq_ok
    (m := { sender := id, version, body := .accept job.filename }) (Nat.le_of_ble_eq_true rfl)
  obtain ⟨d', hd'⟩ := ServerMessage.encode_eq_ok (m := { version, body := .success })
    (Nat.zero_le _)
  -- The checksum that comes back is the one of the file.
  have hjudge : Engine.hear job (.acknowledgement id (Engine.sealedFile job key) 1) acknowledged =
      { moves := [.send id (.accept job.filename), .enter .done], wait := .confirmation 1 } :=
    if_pos rfl
  have hreceiving := Conversation.waits_receiving id key
  have hjudging := Conversation.waits_judging id key job.filename job.plain
  -- The session acknowledges the file,
  refine h.settles_heard hreceiving rfl hb rfl (d := d) (by rw [hhear]; exact hd) fun s h => ?_
  rw [hhear] at h
  -- the client accepts the checksum,
  refine h.settles_answered (.inl hjudging) rfl (by rintro _ ⟨⟩) hd
    (speaks_one (by rw [hjudge]; rfl) hb') fun s h => ?_
  rw [hjudge] at h
  -- hears that, and keeps the file.
  have haccept : Session.hear (.judging id key job.filename job.plain)
      { sender := id, version, body := .accept job.filename } =
        { phase := .storing id filename job.plain } := by
    simp only [Session.hear, Session.fromClient, ↓reduceIte, Session.hearVerdict, hfilename]
  refine h.settles_heard hjudging rfl hb' rfl (d := ByteArray.empty) (by rw [haccept]; rfl)
    fun s h => ?_
  rw [haccept] at h
  refine h.settles_acted rfl rfl rfl (Session.actStore_ok hstore) hd' fun s h => ?_
  exact h.settles_confirmed hd' hnext

/-- The client presents its public key; it is known, and the file is new. -/
theorem Stands.settles_keyed {v : Vault} {phase : Session.Phase} {b : Bytes}
    (h : Stands job version
      { id := some id, wait := .sessionKey id, phase, vault := v, upward := b } s)
    (hphase : phase = .greeting ∨ phase = .registered)
    (hb : ClientMessage.encode
      { sender := id, version, body := .publicKey job.name job.keys.publicDer } = .ok b)
    {R : Location} (hv : v.Sound R) {r : ClientRecord} (hr : v.clients.find? id = some r)
    (hname : job.name.toText = .ok r.name)
    (hkeys : job.keys.Works) {filename : String} (hfilename : job.filename.toText = .ok filename)
    (hplain : isPlainFilename filename = true)
    (hlength : (Bytes.ofText filename).size ≤ FileTree.maxSegment)
    (hnew : v.files.lookup (Registry.fileAt R id.storageId (Bytes.ofText filename)) = none)
    (hsize : 16 * (job.plain.size / 16 + 1) + 259 ≤ maxPayload)
    (hnext : ∀ s v', v'.Stored id.storageId filename job.plain →
      Stands job version (finished job id v') s → P s) : Settles P s := by
  have hwaits : Conversation.Waits phase := by
    rcases hphase with rfl | rfl
    · exact Conversation.waits_greeting
    · exact Conversation.waits_registered
  have hpresented : Session.hear phase
      { sender := id, version, body := .publicKey job.name job.keys.publicDer } =
        { phase := .identifying id job.name job.keys.publicDer } := by
    rcases hphase with rfl | rfl <;> rfl
  -- The session hears who the client is and finds that in order,
  refine h.settles_heard hwaits rfl hb rfl (d := ByteArray.empty) (by rw [hpresented]; rfl)
    fun s h => ?_
  rw [hpresented] at h
  refine h.settles_acted rfl rfl rfl (Session.actIdentify_ok hr hname hkeys.accepted)
    (d := ByteArray.empty) rfl fun s h => ?_
  -- it issues a key,
  obtain ⟨key, encrypted, v₁, hissue, ⟨e, hencrypt⟩, hcipher, hv₁, hsame⟩ :=
    Session.actIssue_ok hv hr hkeys.room
  have hbound := PublicKey.size_le (PublicKey.isAcceptable_of_ofDer hkeys.accepted)
  obtain ⟨d, hd⟩ := ServerMessage.encode_eq_ok
    (m := { version, body := .sessionKey id encrypted }) (by
      change 16 + encrypted.size ≤ 67108864
      omega)
  refine h.settles_acted rfl rfl rfl hissue hd fun s h => ?_
  -- which the client decrypts, to send the file.
  have hkey : Engine.hear job (.sessionKey id) (.sessionKey id encrypted) =
      Engine.attempt id (Engine.sealedFile job key) 1 := by
    have hofBytes : SessionKey.ofBytes key.bytes = .ok key := dif_pos key.size_eq
    simp only [Engine.hear, Channel.sessionKeyIn, ne_eq, not_true_eq_false, ↓reduceIte,
      hkeys.undoes _ _ _ hencrypt, hofBytes]
  obtain ⟨b₁, hb₁⟩ := ClientMessage.encode_eq_ok
    (m := { sender := id, version, body := Engine.sealedFile job key }) (by
      change 255 + 4 + (key.encrypt job.plain).size ≤ maxPayload
      rw [SessionKey.size_encrypt]
      omega)
  refine h.settles_answered (.inl (Conversation.waits_receiving id key)) rfl (by rintro _ ⟨⟩) hd
    (speaks_one (by rw [hkey]; rfl) hb₁) fun s h => ?_
  rw [hkey] at h
  -- The place of the file is still empty, since issuing a key leaves all files alone.
  have hnew₁ := (hsame id.storageId (Bytes.ofText filename)).trans hnew
  obtain ⟨target, v₂, hstore, hstored⟩ := hv₁.store hplain hlength hnew₁ job.plain
  exact h.settles_filed hfilename hstore hb₁ fun s hs => hnext s v₂ hstored hs

/-- A client without an identity asks for one, and gets it. -/
theorem Stands.settles_named {v v' : Vault} {b b' : Bytes}
    (h : Stands job version
      { id := none, wait := .identity, phase := .greeting, vault := v, upward := b } s)
    {name : String} (hname : job.name.toText = .ok name)
    (hregister : Vault.register name v = .ok (some id) v') (hb : ClientMessage.encode
      { sender := ClientId.unregistered, version, body := .registration job.name } = .ok b)
    (hb' : ClientMessage.encode
      { sender := id, version, body := .publicKey job.name job.keys.publicDer } = .ok b')
    (hnext : ∀ s, Stands job version
      { id := some id, wait := .sessionKey id, phase := .registered, vault := v'
        upward := b' } s → Settles P s) : Settles P s := by
  have hgreeting := Conversation.waits_greeting
  have hregistered := Conversation.waits_registered
  -- The name is readable, so that the session asks for an identity for it.
  have hasked : Session.hear .greeting
      { sender := ClientId.unregistered, version, body := .registration job.name } =
        { phase := .registering name } := by
    simp only [Session.hear, Session.hearGreeting, hname]
  refine h.settles_heard hgreeting rfl hb rfl (d := ByteArray.empty) (by rw [hasked]; rfl)
    fun s h => ?_
  rw [hasked] at h
  obtain ⟨d, hd⟩ := ServerMessage.encode_eq_ok (m := { version, body := .registered id })
    (Nat.le_of_ble_eq_true rfl)
  refine h.settles_acted rfl rfl rfl (Session.actRegister_ok hregister) hd fun s h => ?_
  exact h.settles_answered (.inl hregistered) rfl (by rintro _ ⟨⟩) hd (speaks_one rfl hb')
    fun s h => hnext s h

end Link

/-! ## §3 Whole uploads -/

/-- The clients that come through: one that is known under its own name, or one whose name is free.
The name fits into a name field, as the names of all clients do that were registered. -/
structure Vault.Welcomes (v : Vault) (identity : Identity) : Prop where
  length : (Bytes.ofText identity.name).size ≤ nameCapacity
  letters : Char.ofNat 0 ∉ identity.name.toList
  known : ∀ id, identity.id = some id →
    ∃ r, v.clients.find? id = some r ∧ r.name = identity.name
  free : identity.id = none →
    identity.name ≠ "" ∧ v.clients.hasName identity.name = false ∧ v.clients.HasRoom

/-- The identity under which a client uploads: the one it has, or the one it is given. -/
def Vault.clientFor (v : Vault) (identity : Identity) : Option ClientId :=
  match identity.id with
  | some id => some id
  | none =>
    match Vault.register identity.name v with
    | .ok id? _ => id?
    | .error _ _ => none

namespace Link

/-- What an upload leads to: it is verified at the first attempt, the session has ended well, and
the file is kept for the client, who can restore it. -/
structure Uploaded (id : ClientId) (filename : String) (plain : Bytes) (s : Link) : Prop where
  outcome : s.run.outcome? = some (.ok (.verified 1 (cksum plain)))
  ended : s.session.outcome? = some (.ok ())
  identity : s.run.id = some id
  stored : s.vault.Stored id.storageId filename plain
  restored : ∀ version label, (Backup.Client.restore { user := id.storageId, version }
    (Backup.serverOf s.vault version label) filename).run = .ok plain

theorem Stands.uploaded {job : Engine.Job} {version : UInt8} {id : ClientId} {v : Vault} {s : Link}
    {filename : String} (h : Stands job version (finished job id v) s)
    (hlength : (Bytes.ofText filename).size ≤ nameCapacity) (hsize : job.plain.size ≤ maxPayload)
    (hstored : v.Stored id.storageId filename job.plain) :
    Uploaded id filename job.plain s where
  outcome := by
    rw [Engine.Run.outcome?, h.wait]
    rfl
  ended := by
    rw [Conversation.outcome?, h.phase]
    rfl
  identity := h.id
  stored := h.vault.symm ▸ hstored
  restored version label := by
    rw [h.vault]
    exact Backup.restore_stored hstored (Nat.le_trans hlength (by decide)) hsize version label

/-- **The two halves fit together**: whatever the order of steps and the portions in which bytes
are carried, the upload of a new file by a client that is known or new comes to an end, and the
file is uploaded. -/
theorem uploads_come_through {v : Vault} (hv : v.Reachable) {identity : Identity}
    (hkeys : identity.keys.Works) (hwho : v.Welcomes identity) {filename : String}
    (hplain : isPlainFilename filename = true)
    (hlength : (Bytes.ofText filename).size ≤ nameCapacity)
    (hnew : ∀ id, v.clientFor identity = some id →
      ∀ content, ¬ v.Stored id.storageId filename content)
    {plain : Bytes} (hsize : 16 * (plain.size / 16 + 1) + 259 ≤ maxPayload) (version : UInt8)
    (maxAttempts : Nat) :
    ∃ job id, Engine.jobFor identity filename plain maxAttempts = .ok job ∧
      v.clientFor identity = some id ∧
      Settles (Uploaded id filename plain) (start job identity.id version v) := by
  obtain ⟨R, hR⟩ := hv.sound
  obtain ⟨name, hofName, hname⟩ := Name.ofText_eq_ok hwho.length hwho.letters
  obtain ⟨file, hofFile, hfile⟩ := Name.ofText_eq_ok hlength (not_zero_of_plain hplain)
  let job : Engine.Job := { name, keys := identity.keys, filename := file, plain, maxAttempts }
  have hjob : Engine.jobFor identity filename plain maxAttempts = .ok job := by
    simp only [Engine.jobFor, hofName, hofFile, job]
  have hend (id : ClientId) (s : Link) (v' : Vault)
      (hstored : v'.Stored id.storageId filename job.plain)
      (hs : Stands job version (finished job id v') s) : Uploaded id filename plain s :=
    hs.uploaded hlength (by change plain.size ≤ maxPayload; omega) hstored
  -- All messages of the client fit into a payload, since an accepted key is not too long.
  have hder := PublicKey.size_toDer_le (PublicKey.isAcceptable_of_ofDer hkeys.accepted)
  have hpresent (id : ClientId) : ∃ b, ClientMessage.encode
      { sender := id, version, body := .publicKey name identity.keys.publicDer } = .ok b := by
    refine ClientMessage.encode_eq_ok ?_
    change 255 + identity.keys.publicKey.toDer.size ≤ 67108864
    omega
  -- A client with an identity begins with its key, one without by asking for an identity.
  cases hid : identity.id with
  | some id =>
    obtain ⟨r, hr, hrname⟩ := hwho.known id hid
    have hclient : v.clientFor identity = some id := by
      rw [Vault.clientFor, hid]
    have hempty := hR.lookup_of_not_stored hplain hlength (hnew id hclient)
    obtain ⟨b, hb⟩ := hpresent id
    have hstart := stands_start job (some id) version v (speaks_one rfl hb)
    exact ⟨job, id, hjob, hclient, hstart.settles_keyed (.inl rfl) hb hR hr (hrname ▸ hname) hkeys
      hfile hplain hlength hempty hsize (hend id)⟩
  | none =>
    obtain ⟨hne, hfree, hroom⟩ := hwho.free hid
    obtain ⟨id?, v', hregister, hR', hsame, -, hfound, hsome⟩ := hR.register identity.name
    obtain ⟨id, rfl⟩ := hsome hne hfree hroom
    obtain ⟨r, hr, hrname⟩ := hfound id rfl
    have hclient : v.clientFor identity = some id := by
      simp only [Vault.clientFor, hid, hregister]
    have hempty := hR.lookup_of_not_stored hplain hlength (hnew id hclient)
    obtain ⟨b, hb⟩ := ClientMessage.encode_eq_ok
      (m := { sender := ClientId.unregistered, version, body := .registration name })
      (Nat.le_of_ble_eq_true rfl)
    obtain ⟨b', hb'⟩ := hpresent id
    have hstart := stands_start job none version v (speaks_one rfl hb)
    refine ⟨job, id, hjob, hclient, hstart.settles_named hname hregister hb hb' fun s hs => ?_⟩
    exact hs.settles_keyed (.inr rfl) hb' hR' hr (hrname ▸ hname) hkeys hfile hplain hlength
      ((hsame _ _).trans hempty) hsize (hend id)

end Link

/-! ### One upload -/

/-- A vault that was just opened on a tree without files. -/
def Vault.blank : Vault where
  registry := { root := Path.ofText "/" }
  clients := { root := some (Path.ofText "/") }
  files := {}
  entropy := { byte := fun i => UInt8.ofNat (i + 1) }
  now := { seconds := 0, nanos := 0 }

theorem Vault.blank_sound : blank.Sound [] where
  layout :=
    { leads := FileTree.leads_top _
      room := by decide
      unlimited := rfl
      users := fun _ _ h => nomatch h
      files := fun _ _ _ h => nomatch h }
  desk root hroot := by
    cases hroot
    refine ⟨[], ⟨FileTree.leads_top _, by decide, rfl, fun _ _ _ h => nomatch h⟩, fun user h => ?_⟩
    exact Registry.userAt_ne_nil [] user h.symm

/-- A client that is not registered yet. -/
def Identity.alice : Identity := { name := "alice", keys := KeyPair.simple }

theorem Vault.blank_welcomes : blank.Welcomes Identity.alice where
  length := by decide
  letters := by decide
  known := nofun
  free _ := ⟨by decide, rfl, 1, by decide, nofun⟩

/-- A new client uploads a note of five bytes. -/
theorem Link.upload_comes_through : ∃ job id,
    Engine.jobFor Identity.alice "notes.txt" (Bytes.ofText "hello") 3 = .ok job ∧
      Vault.blank.clientFor Identity.alice = some id ∧
      Settles (Uploaded id "notes.txt" (Bytes.ofText "hello"))
        (start job none 1 Vault.blank) :=
  uploads_come_through (.opened Vault.blank_sound rfl) KeyPair.simple_works Vault.blank_welcomes
    (by decide) (by decide)
    (fun _ _ _ hstored => nomatch Vault.blank_sound.file_of_stored hstored) (by decide) 1 3

end BackupVault
